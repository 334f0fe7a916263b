/-
  The connection pool (`pool.rs`).

  A connection is a name for a stream, whichever of the two stream types it has. A name
  that a map no longer holds was dropped, which closes the connection. Each call holds the
  lock of one map to its end and reads the clock as it goes (`Readings`).
-/
import N0DnsResolver.Lib.Duration
import N0DnsResolver.Model.Config
import Mathlib.Data.List.Basic
import Mathlib.Logic.Function.Basic

namespace N0DnsResolver

/-! ## Idle connections -/

/-- `IDLE_TIMEOUT`. -/
def idleTimeout : Nat := 10 * 1000000000

/-- `MAX_IDLE_PER_KEY`. -/
def maxIdlePerKey : Nat := 2

/-- `Idle`. -/
structure Idle (C : Type) where
  stream : C
  lastUsed : Instant
  deriving DecidableEq

/-- The clock while a lock is held: what it reads at each connection that is looked at. -/
structure Readings (C : Type) where
  began : Instant
  ended : Instant
  read : Idle C → Instant
  began_le : began ≤ ended
  inOrder : ∀ conn, began ≤ read conn ∧ read conn ≤ ended

/-- A lock held for no time. -/
def Readings.still (C : Type) (now : Instant) : Readings C :=
  ⟨now, now, fun _ => now, Nat.le_refl _, fun _ => ⟨Nat.le_refl _, Nat.le_refl _⟩⟩

section Lists

variable {C : Type}

/-- `Idle::is_stale`. -/
def Idle.isStale (conn : Idle C) (now : Instant) : Bool :=
  decide (idleTimeout ≤ now - conn.lastUsed)

/-- The loop of `take_fresh`, over the connections from the last one back. -/
def popFresh (now : Idle C → Instant) : List (Idle C) → Option C × List (Idle C)
  | [] => (none, [])
  | conn :: rest => if conn.isStale (now conn) then popFresh now rest else (some conn.stream, rest)

/-- `take_fresh`, with the connections it leaves. -/
def takeFresh (now : Idle C → Instant) (idle : List (Idle C)) : Option C × List (Idle C) :=
  ((popFresh now idle.reverse).1, (popFresh now idle.reverse).2.reverse)

/-- `push_capped`. -/
def pushCapped (now : Instant) (idle : List (Idle C)) (stream : C) : List (Idle C) :=
  let idle := idle ++ [Idle.mk stream now]
  if maxIdlePerKey < idle.length then idle.eraseIdx 0 else idle

theorem popFresh_cases (now : Idle C → Instant) (idle : List (Idle C)) :
    popFresh now idle = (none, []) ∨
      ∃ stale conn rest, idle = stale ++ conn :: rest ∧ conn.isStale (now conn) = false ∧
        popFresh now idle = (some conn.stream, rest) := by
  induction idle with
  | nil => exact .inl rfl
  | cons conn rest ih =>
    unfold popFresh
    by_cases hs : conn.isStale (now conn)
    · rw [if_pos hs]
      rcases ih with h | ⟨stale, conn', rest', rfl, hf, h⟩
      · exact .inl h
      · exact .inr ⟨conn :: stale, conn', rest', rfl, hf, h⟩
    · rw [if_neg hs]
      exact .inr ⟨[], conn, rest, rfl, Bool.eq_false_iff.mpr hs, rfl⟩

/-- A checkout leaves nothing behind, or what came before the fresh connection it takes. -/
theorem takeFresh_cases (now : Idle C → Instant) (idle : List (Idle C)) :
    takeFresh now idle = (none, []) ∨
      ∃ kept conn stale, idle = kept ++ conn :: stale ∧ conn.isStale (now conn) = false ∧
        takeFresh now idle = (some conn.stream, kept) := by
  unfold takeFresh
  rcases popFresh_cases now idle.reverse with h | ⟨stale, conn, rest, hidle, hf, h⟩
  · rw [h]
    exact .inl rfl
  · refine .inr ⟨rest.reverse, conn, stale.reverse, ?_, hf, by rw [h]⟩
    rw [← List.reverse_reverse idle, hidle]
    simp

theorem takeFresh_sublist (now : Idle C → Instant) (idle : List (Idle C)) :
    (takeFresh now idle).2.Sublist idle := by
  rcases takeFresh_cases now idle with h | ⟨kept, conn, stale, rfl, -, h⟩
  · rw [h]
    exact List.nil_sublist idle
  · rw [h]
    exact List.sublist_append_left kept (conn :: stale)

theorem pushCapped_sublist (now : Instant) (idle : List (Idle C)) (stream : C) :
    (pushCapped now idle stream).Sublist (idle ++ [⟨stream, now⟩]) := by
  simp only [pushCapped]
  split
  · exact List.eraseIdx_sublist _ 0
  · exact List.Sublist.refl _

theorem length_pushCapped_le (now : Instant) {idle : List (Idle C)} (stream : C)
    (h : idle.length ≤ maxIdlePerKey) : (pushCapped now idle stream).length ≤ maxIdlePerKey := by
  have hlen : (idle ++ [(⟨stream, now⟩ : Idle C)]).length = idle.length + 1 := by simp
  simp only [pushCapped]
  split
  · next hover =>
    rw [List.length_eraseIdx_of_lt (by omega)]
    omega
  · omega

end Lists

/-! ## The pool -/

/-- A map of the pool: the connections idle under each key it has. -/
abbrev IdleMap (K C : Type) : Type := K → Option (List (Idle C))

namespace IdleMap

variable {K C : Type} [DecidableEq K]

/-- The connections idle under a key, and none under a key that is not there. -/
def idle (map : IdleMap K C) (key : K) : List (Idle C) := (map key).getD []

/-- The map with the connections of one key replaced. -/
def put (map : IdleMap K C) (key : K) (conns : List (Idle C)) : IdleMap K C :=
  Function.update map key (some conns)

/-- The body of `checkout_tcp` and `checkout_tls`. -/
def checkout (map : IdleMap K C) (key : K) (now : Idle C → Instant) : Option C × IdleMap K C :=
  match map key with
  | none => (none, map)
  | some conns => ((takeFresh now conns).1, map.put key (takeFresh now conns).2)

/-- The body of `checkin_tcp` and `checkin_tls`. -/
def checkin (map : IdleMap K C) (key : K) (now : Instant) (stream : C) : IdleMap K C :=
  map.put key (pushCapped now (map.idle key) stream)

/-- `prune_map`. -/
def prune (map : IdleMap K C) (now : Idle C → Instant) : IdleMap K C := fun key =>
  (map key).bind fun conns =>
    if (conns.filter fun conn => !conn.isStale (now conn)).isEmpty then none
    else some (conns.filter fun conn => !conn.isStale (now conn))

@[simp] theorem idle_put_self (map : IdleMap K C) (key : K) (conns : List (Idle C)) :
    (map.put key conns).idle key = conns := by
  simp [idle, put]

@[simp] theorem idle_put_of_ne {map : IdleMap K C} {key k : K} {conns : List (Idle C)}
    (h : k ≠ key) : (map.put key conns).idle k = map.idle k := by
  simp [idle, put, h]

theorem checkout_fst (map : IdleMap K C) (key : K) (now : Idle C → Instant) :
    (map.checkout key now).1 = (takeFresh now (map.idle key)).1 := by
  unfold checkout idle
  cases map key <;> rfl

theorem idle_checkout_self (map : IdleMap K C) (key : K) (now : Idle C → Instant) :
    (map.checkout key now).2.idle key = (takeFresh now (map.idle key)).2 := by
  unfold checkout
  cases h : map key with
  | none =>
    have hnil : map.idle key = [] := by simp [idle, h]
    simp only [hnil]
    rfl
  | some conns => simp [idle, h, put]

theorem idle_checkout_of_ne {map : IdleMap K C} {key k : K} {now : Idle C → Instant}
    (h : k ≠ key) : (map.checkout key now).2.idle k = map.idle k := by
  unfold checkout
  cases map key with
  | none => rfl
  | some conns => exact idle_put_of_ne h

omit [DecidableEq K] in
theorem idle_prune_sublist (map : IdleMap K C) (now : Idle C → Instant) (key : K) :
    ((map.prune now).idle key).Sublist (map.idle key) := by
  simp only [prune, idle]
  cases map key with
  | none => exact List.Sublist.refl _
  | some conns =>
    rw [Option.bind_some]
    split
    · exact List.nil_sublist _
    · exact List.filter_sublist

end IdleMap

/-- `TlsKey`. -/
abbrev TlsKey := SocketAddr × Option Str

/-- The maps of the pool, each behind a lock of its own. -/
structure ConnPool (C : Type) where
  tcp : IdleMap SocketAddr C
  tls : IdleMap TlsKey C

/-- The key of a connection: its transport, and what that pools it by. -/
inductive PoolKey where
  | tcp (addr : SocketAddr)
  | tls (key : TlsKey)
  deriving DecidableEq

namespace ConnPool

variable {C : Type}

/-- `ConnPool::new`. -/
def new : ConnPool C := ⟨fun _ => none, fun _ => none⟩

/-- `ConnPool::checkout_tcp`. -/
def checkoutTcp (pool : ConnPool C) (addr : SocketAddr) (now : Idle C → Instant) :
    Option C × ConnPool C :=
  ((pool.tcp.checkout addr now).1, { pool with tcp := (pool.tcp.checkout addr now).2 })

/-- `ConnPool::checkin_tcp`. -/
def checkinTcp (pool : ConnPool C) (addr : SocketAddr) (now : Instant) (stream : C) : ConnPool C :=
  { pool with tcp := pool.tcp.checkin addr now stream }

/-- `ConnPool::checkout_tls`. -/
def checkoutTls (pool : ConnPool C) (key : TlsKey) (now : Idle C → Instant) :
    Option C × ConnPool C :=
  ((pool.tls.checkout key now).1, { pool with tls := (pool.tls.checkout key now).2 })

/-- `ConnPool::checkin_tls`. -/
def checkinTls (pool : ConnPool C) (key : TlsKey) (now : Instant) (stream : C) : ConnPool C :=
  { pool with tls := pool.tls.checkin key now stream }

/-- The first half of `Inner::prune`. -/
def pruneTcp (pool : ConnPool C) (now : Idle C → Instant) : ConnPool C :=
  { pool with tcp := pool.tcp.prune now }

/-- The second half of `Inner::prune`. -/
def pruneTls (pool : ConnPool C) (now : Idle C → Instant) : ConnPool C :=
  { pool with tls := pool.tls.prune now }

/-- The checkout of a transport. -/
def checkout (pool : ConnPool C) (now : Idle C → Instant) : PoolKey → Option C × ConnPool C
  | .tcp addr => pool.checkoutTcp addr now
  | .tls key => pool.checkoutTls key now

/-- The check-in of a transport. -/
def checkin (pool : ConnPool C) (now : Instant) (stream : C) : PoolKey → ConnPool C
  | .tcp addr => pool.checkinTcp addr now stream
  | .tls key => pool.checkinTls key now stream

/-- The connections idle under a key. -/
def idle (pool : ConnPool C) : PoolKey → List (Idle C)
  | .tcp addr => pool.tcp.idle addr
  | .tls key => pool.tls.idle key

@[simp] theorem idle_new (key : PoolKey) : (new : ConnPool C).idle key = [] := by
  cases key <;> rfl

theorem checkout_fst (pool : ConnPool C) (now : Idle C → Instant) (key : PoolKey) :
    (pool.checkout now key).1 = (takeFresh now (pool.idle key)).1 := by
  cases key with
  | tcp addr => exact IdleMap.checkout_fst pool.tcp addr now
  | tls key => exact IdleMap.checkout_fst pool.tls key now

theorem idle_checkout_self (pool : ConnPool C) (now : Idle C → Instant) (key : PoolKey) :
    (pool.checkout now key).2.idle key = (takeFresh now (pool.idle key)).2 := by
  cases key with
  | tcp addr => exact IdleMap.idle_checkout_self pool.tcp addr now
  | tls key => exact IdleMap.idle_checkout_self pool.tls key now

theorem idle_checkout_of_ne {pool : ConnPool C} {now : Idle C → Instant} {key k : PoolKey}
    (h : k ≠ key) : (pool.checkout now key).2.idle k = pool.idle k := by
  cases key with
  | tcp addr =>
    cases k with
    | tcp a => exact IdleMap.idle_checkout_of_ne (fun ha => h (ha ▸ rfl))
    | tls _ => rfl
  | tls key =>
    cases k with
    | tcp _ => rfl
    | tls t => exact IdleMap.idle_checkout_of_ne (fun ht => h (ht ▸ rfl))

theorem idle_checkout_sublist (pool : ConnPool C) (now : Idle C → Instant) (key k : PoolKey) :
    ((pool.checkout now key).2.idle k).Sublist (pool.idle k) := by
  by_cases h : k = key
  · subst h
    rw [idle_checkout_self]
    exact takeFresh_sublist now (pool.idle k)
  · rw [idle_checkout_of_ne h]

theorem idle_checkin_self (pool : ConnPool C) (now : Instant) (stream : C) (key : PoolKey) :
    (pool.checkin now stream key).idle key = pushCapped now (pool.idle key) stream := by
  cases key with
  | tcp addr => exact IdleMap.idle_put_self pool.tcp addr _
  | tls key => exact IdleMap.idle_put_self pool.tls key _

theorem idle_checkin_of_ne {pool : ConnPool C} {now : Instant} {stream : C} {key k : PoolKey}
    (h : k ≠ key) : (pool.checkin now stream key).idle k = pool.idle k := by
  cases key with
  | tcp addr =>
    cases k with
    | tcp a => exact IdleMap.idle_put_of_ne (fun ha => h (ha ▸ rfl))
    | tls _ => rfl
  | tls key =>
    cases k with
    | tcp _ => rfl
    | tls t => exact IdleMap.idle_put_of_ne (fun ht => h (ht ▸ rfl))

/-- What holds of what every key lists, and of what a check-in pushes to, holds after it. -/
theorem forall_idle_checkin {P : List (Idle C) → Prop} {pool : ConnPool C} {now : Instant}
    {stream : C} {key : PoolKey} (h : ∀ k, P (pool.idle k))
    (hpush : P (pushCapped now (pool.idle key) stream)) (k : PoolKey) :
    P ((pool.checkin now stream key).idle k) := by
  by_cases hk : k = key
  · rw [hk, idle_checkin_self]
    exact hpush
  · rw [idle_checkin_of_ne hk]
    exact h k

/-- A check-in adds one connection to one key. -/
theorem mem_idle_checkin {pool : ConnPool C} {now : Instant} {stream : C} {key k : PoolKey}
    {conn : Idle C} (h : conn ∈ (pool.checkin now stream key).idle k) :
    conn ∈ pool.idle k ∨ k = key ∧ conn = ⟨stream, now⟩ := by
  by_cases hk : k = key
  · subst hk
    rw [idle_checkin_self] at h
    rcases List.mem_append.mp ((pushCapped_sublist now (pool.idle k) stream).subset h) with h | h
    · exact .inl h
    · exact .inr ⟨rfl, List.mem_singleton.mp h⟩
  · rw [idle_checkin_of_ne hk] at h
    exact .inl h

theorem idle_pruneTcp_sublist (pool : ConnPool C) (now : Idle C → Instant) (key : PoolKey) :
    ((pool.pruneTcp now).idle key).Sublist (pool.idle key) := by
  cases key with
  | tcp addr => exact IdleMap.idle_prune_sublist pool.tcp now addr
  | tls key => exact List.Sublist.refl _

theorem idle_pruneTls_sublist (pool : ConnPool C) (now : Idle C → Instant) (key : PoolKey) :
    ((pool.pruneTls now).idle key).Sublist (pool.idle key) := by
  cases key with
  | tcp addr => exact List.Sublist.refl _
  | tls key => exact IdleMap.idle_prune_sublist pool.tls now key

end ConnPool

end N0DnsResolver
