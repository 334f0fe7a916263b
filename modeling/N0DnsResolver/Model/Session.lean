/-
  A resolver over a run of calls.

  The settings of its `Builder` stay the same for good. `DnsResolver::reset` keeps
  the cache and reads the configuration anew; what it reads then is an argument of
  the call. A lookup that panics ends the run.
-/
import N0DnsResolver.Lib.Machine
import N0DnsResolver.Model.Lookup

namespace N0DnsResolver

/-- What a program does with a resolver, and the time that passes in between. -/
inductive Call where
  | lookup (name : Str) (kind : RecordKind)
  | reset (config : Config)
  | clearCache
  | wait (nanos : Nat)

/-- A resolver and the world it runs in. -/
structure Session (N L : Type) where
  config : Config
  world : World N L

section Session

variable {N L : Type} [LruMap L UInt64 CacheEntry] (cacheKey : Str → RecordKind → UInt64)
variable (stage : Stage N) (builder : Builder) (S : SimpleDns)

/-- `DnsResolver::lookup_record` on a session. -/
def Session.lookup (s : Session N L) (name : Str) (kind : RecordKind) :
    Checked (Except Error (List Record) × World N L) :=
  lookupRecordImpl cacheKey stage builder S s.config name kind s.world

/-- The session after a call, unless the call panicked. -/
def Session.call (s : Session N L) : Call → Option (Session N L)
  | .lookup name kind =>
    match s.lookup cacheKey stage builder S name kind with
    | .ok (_, world) => some { s with world := world }
    | .error _ => none
  | .reset config => some { s with config := config }
  | .clearCache => some { s with world := { s.world with cache := LruMap.clear s.world.cache } }
  | .wait nanos => some { s with world := { s.world with now := s.world.now + nanos } }

/-- A new resolver: its cache is empty. -/
def Session.start (config : Config) (net : N) : Session N L where
  config := config
  world := ⟨0, net, LruMap.new, []⟩

variable {cacheKey stage builder S}

theorem Session.call_lookup_eq_some {s s' : Session N L} {name : Str} {kind : RecordKind}
    (h : s.call cacheKey stage builder S (.lookup name kind) = some s') :
    ∃ r, s.lookup cacheKey stage builder S name kind = .ok (r, s'.world) ∧
      s'.config = s.config := by
  unfold Session.call at h
  simp only at h
  split at h
  · next r world hr =>
    cases h
    exact ⟨r, hr, rfl⟩
  · simp at h

/-- What every lookup keeps of the entries in the cache, given the state of the stage, holds of them
after every run on a new resolver. -/
theorem Session.run_entries [LawfulLruMap L] {P : N → CacheEntry → Prop}
    (hlookup : ∀ (s : Session N L) name kind r w, s.lookup cacheKey stage builder S name kind =
      .ok (r, w) → (∀ k entry, LruMap.peek s.world.cache k = some entry → P s.world.net entry) →
        ∀ k entry, LruMap.peek w.cache k = some entry → P w.net entry)
    {config : Config} {net : N} {t : Session N L} {calls : List Call}
    (hrun : Machine.run (Session.call cacheKey stage builder S) (Session.start config net) calls =
      some t) :
    ∀ k entry, LruMap.peek t.world.cache k = some entry → P t.world.net entry := by
  refine Machine.run_invariant (P := fun s : Session N L =>
    ∀ k entry, LruMap.peek s.world.cache k = some entry → P s.world.net entry) ?_ ?_ hrun
  · intro s c s' hs hc
    cases c with
    | lookup name kind =>
      obtain ⟨r, hr, -⟩ := Session.call_lookup_eq_some hc
      exact hlookup s name kind r s'.world hr hs
    | reset config =>
      cases hc
      exact hs
    | clearCache =>
      cases hc
      intro k entry hk
      rw [LawfulLruMap.peek_clear] at hk
      simp at hk
    | wait nanos =>
      cases hc
      exact hs
  · intro k entry hk
    rw [show (Session.start config net : Session N L).world.cache = LruMap.new from rfl,
      LawfulLruMap.peek_new] at hk
    simp at hk

end Session

end N0DnsResolver
