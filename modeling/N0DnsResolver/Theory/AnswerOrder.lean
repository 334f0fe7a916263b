/-
  What the order of the answers decides.

  `cname_chain` looks at the first class-IN answer of a name and stops if it is no
  CNAME. So the order of the answers matters at a name that owns a CNAME beside another
  record: with the other record in front the chain ends there. The reading of a reply is
  the same in every order exactly when ending the chain at such a name changes nothing.
-/
import N0DnsResolver.Theory.Chain
import N0DnsResolver.Theory.Extraction
import Mathlib.Data.Multiset.Defs

namespace N0DnsResolver

/-! ## The chain without an order -/

def cnameOf : RData → Option Name
  | .cname target => some target
  | _ => none

/-- A class-IN CNAME. -/
def isAlias (rr : ResourceRecord) : Bool := rr.cls == .IN && (cnameOf rr.rdata).isSome

/-- Each owner has at most one class-IN CNAME. -/
def SingleAliases (packet : Packet) : Prop :=
  ∀ rr ∈ packet.answers, ∀ rr' ∈ packet.answers, isAlias rr = true → isAlias rr' = true →
    namesEqual rr.name rr'.name = true → rr = rr'

instance decidableSingleAliases (packet : Packet) : Decidable (SingleAliases packet) :=
  inferInstanceAs (Decidable (∀ rr ∈ packet.answers, ∀ rr' ∈ packet.answers, isAlias rr = true →
    isAlias rr' = true → namesEqual rr.name rr'.name = true → rr = rr'))

/-- The reply with its answers in another order. -/
def reorder (packet : Packet) (answers : List ResourceRecord) : Packet :=
  { packet with answers := answers }

/-- The target of the CNAME that `current` owns, wherever it stands. -/
def aliasTarget (packet : Packet) (current : Name) : Option Name :=
  (packet.answers.find? (fun rr => isAlias rr && namesEqual rr.name current)).bind
    fun rr => cnameOf rr.rdata

/-- The chain of all CNAMEs. -/
def wholeChain (packet : Packet) (qname : Name) : List Name :=
  chase (aliasTarget packet) maxCnameDepth qname

/-- The chain as far as the first name equal to `name`. -/
def chainUpTo (packet : Packet) (qname name : Name) : List Name :=
  chase (Chase.stopped (fun n => namesEqual n name) (aliasTarget packet)) maxCnameDepth qname

/-- The name owns a class-IN CNAME and another class-IN record. -/
structure Crowded (packet : Packet) (name : Name) : Prop where
  alias_mem : ∃ rr ∈ packet.answers, isAlias rr = true ∧ namesEqual rr.name name = true
  other_mem : ∃ rr ∈ packet.answers, rr.cls = .IN ∧ isAlias rr = false ∧
    namesEqual rr.name name = true

theorem chainUpTo_prefix (packet : Packet) (qname name : Name) :
    chainUpTo packet qname name <+: wholeChain packet qname :=
  Chase.chase_stopped_prefix _ _ _ _

theorem cnameTarget_eq_bind (packet : Packet) (current : Name) :
    cnameTarget packet current =
      (packet.answers.find? (fun rr => rr.cls == .IN && namesEqual rr.name current)).bind
        fun rr => cnameOf rr.rdata := by
  unfold cnameTarget
  cases packet.answers.find? (fun rr => rr.cls == .IN && namesEqual rr.name current) with
  | none => rfl
  | some rr =>
    obtain ⟨owner, cls, ttl, rdata⟩ := rr
    cases rdata <;> rfl

theorem cnameOf_eq_none {rr : ResourceRecord} (hcls : rr.cls = .IN) (h : isAlias rr = false) :
    cnameOf rr.rdata = none := by
  simpa [isAlias, hcls] using h

/-- The first class-IN answer of the name is no CNAME. -/
def blocked (packet : Packet) (current : Name) : Bool :=
  (packet.answers.find? (fun rr => rr.cls == .IN && namesEqual rr.name current)).any
    fun rr => !isAlias rr

theorem find?_eq_some_of_imp {α : Type} {p q : α → Bool} {l : List α} {x : α}
    (hp : l.find? p = some x) (himp : ∀ y, q y = true → p y = true) (hq : q x = true) :
    l.find? q = some x := by
  induction l with
  | nil => simp at hp
  | cons y l ih =>
    rw [List.find?_cons] at hp ⊢
    cases hpy : p y with
    | true =>
      rw [hpy] at hp
      cases hp
      rw [hq]
    | false =>
      rw [hpy] at hp
      have hqy : q y = false := by
        rw [← Bool.not_eq_true]
        exact fun h => by simp [himp y h] at hpy
      rw [hqy]
      exact ih hp

/-- The walk takes the CNAME of a name unless another record of it stands in front. -/
theorem cnameTarget_eq_stopped (packet : Packet) :
    cnameTarget packet = Chase.stopped (blocked packet) (aliasTarget packet) := by
  funext current
  rw [cnameTarget_eq_bind]
  unfold Chase.stopped blocked aliasTarget
  cases hfind : packet.answers.find? (fun rr => rr.cls == .IN && namesEqual rr.name current) with
  | none =>
    have hno : packet.answers.find? (fun rr => isAlias rr && namesEqual rr.name current) = none := by
      rw [List.find?_eq_none] at hfind ⊢
      intro rr hrr halias
      refine hfind rr hrr ?_
      simp only [isAlias, Bool.and_eq_true] at halias ⊢
      exact ⟨halias.1.1, halias.2⟩
    rw [hno]
    rfl
  | some rr =>
    have hprop := List.find?_some hfind
    simp only [Bool.and_eq_true, beq_iff_eq] at hprop
    cases halias : isAlias rr with
    | false => simp [halias, cnameOf_eq_none hprop.1 halias]
    | true =>
      have hsome : packet.answers.find? (fun rr => isAlias rr && namesEqual rr.name current) =
          some rr := by
        refine find?_eq_some_of_imp hfind (fun y hy => ?_) (by simp [halias, hprop.2])
        simp only [isAlias, Bool.and_eq_true] at hy ⊢
        exact ⟨hy.1.1, hy.2⟩
      simp [halias, hsome]

/-- The CNAMEs of a reply are found in any order. -/
theorem aliasTarget_reorder {packet : Packet} (hsingle : SingleAliases packet)
    {answers : List ResourceRecord} (hperm : answers.Perm packet.answers) :
    aliasTarget (reorder packet answers) = aliasTarget packet := by
  funext current
  refine congrArg (fun r => Option.bind r fun rr : ResourceRecord => cnameOf rr.rdata) ?_
  change answers.find? _ = packet.answers.find? _
  cases hfind : answers.find? (fun rr => isAlias rr && namesEqual rr.name current) with
  | none =>
    rw [List.find?_eq_none] at hfind
    exact (List.find?_eq_none.mpr fun rr hrr => hfind rr (hperm.mem_iff.mpr hrr)).symm
  | some rr =>
    have hmem := hperm.mem_iff.mp (List.mem_of_find?_eq_some hfind)
    have hprop := List.find?_some hfind
    have hfound : (packet.answers.find? fun rr => isAlias rr && namesEqual rr.name current).isSome =
        true := List.find?_isSome.mpr ⟨rr, hmem, hprop⟩
    obtain ⟨rr', hrr'⟩ := Option.isSome_iff_exists.mp hfound
    have hprop' := List.find?_some hrr'
    simp only [Bool.and_eq_true] at hprop hprop'
    have hsame : namesEqual rr.name rr'.name = true := by
      rw [namesEqual_congr_left hprop.2, namesEqual_comm]
      exact hprop'.2
    rw [hrr', hsingle rr hmem rr' (List.mem_of_find?_eq_some hrr') hprop.1 hprop'.1 hsame]

/-! ## The chains of all orders -/

theorem blocked_congr (packet : Packet) {a b : Name} (h : namesEqual a b = true) :
    blocked packet a = blocked packet b := by
  unfold blocked
  simp only [namesEqual_congr_right h]

theorem crowded_of_blocked {packet : Packet} {name : Name} (hb : blocked packet name = true)
    (ha : (aliasTarget packet name).isSome = true) : Crowded packet name := by
  refine ⟨?_, ?_⟩
  · unfold aliasTarget at ha
    cases hfind : packet.answers.find? (fun rr => isAlias rr && namesEqual rr.name name) with
    | none => simp [hfind] at ha
    | some rr =>
      have hprop := List.find?_some hfind
      simp only [Bool.and_eq_true] at hprop
      exact ⟨rr, List.mem_of_find?_eq_some hfind, hprop⟩
  · unfold blocked at hb
    cases hfind : packet.answers.find? (fun rr => rr.cls == .IN && namesEqual rr.name name) with
    | none => simp [hfind] at hb
    | some rr =>
      have hprop := List.find?_some hfind
      simp only [Bool.and_eq_true, beq_iff_eq] at hprop
      exact ⟨rr, List.mem_of_find?_eq_some hfind, hprop.1, by simpa [hfind] using hb, hprop.2⟩

/-- In any order the walk takes the whole chain, or stops at a crowded name. -/
theorem cnameChain_cases (packet : Packet) (qname : Name) :
    cnameChain packet qname = wholeChain packet qname ∨
      ∃ name, Crowded packet name ∧ cnameChain packet qname = chainUpTo packet qname name := by
  have hrefl : ∀ n, namesEqual n n = true := fun n => (namesEqual_iff n n).mpr rfl
  have hcases := Chase.chase_stopped_cases (aliasTarget packet) hrefl
    (fun a b => blocked_congr packet (a := a) (b := b)) maxCnameDepth qname
  rw [← cnameTarget_eq_stopped] at hcases
  rcases hcases with hwhole | ⟨name, hb, ha, hcut⟩
  · exact .inl hwhole
  · exact .inr ⟨name, crowded_of_blocked hb ha, hcut⟩

/-- The answers that `p` holds of in front, and the CNAMEs next. -/
def sortedBy (p : ResourceRecord → Bool) (answers : List ResourceRecord) : List ResourceRecord :=
  answers.filter p ++
    ((answers.filter (!p ·)).filter isAlias ++ (answers.filter (!p ·)).filter (!isAlias ·))

theorem sortedBy_perm (p : ResourceRecord → Bool) (answers : List ResourceRecord) :
    (sortedBy p answers).Perm answers :=
  ((List.filter_append_perm isAlias _).append_left _).trans (List.filter_append_perm p answers)

/-- The CNAMEs among the answers not in front are those of the reply. -/
theorem find?_alias_of_rest {p : ResourceRecord → Bool}
    (hp : ∀ rr, p rr = true → rr.cls = .IN ∧ isAlias rr = false) (answers : List ResourceRecord)
    (current : Name) :
    (((answers.filter (!p ·)).filter isAlias).find? fun rr =>
        rr.cls == .IN && namesEqual rr.name current) =
      answers.find? fun rr => isAlias rr && namesEqual rr.name current := by
  rw [List.find?_filter, List.find?_filter]
  refine congrArg (fun q => List.find? q answers) (funext fun rr => ?_)
  cases hcase : isAlias rr with
  | false => simp
  | true =>
    have hnp : p rr = false := by
      rw [← Bool.not_eq_true]
      exact fun h => by simp [(hp rr h).2] at hcase
    simp only [isAlias, Bool.and_eq_true] at hcase
    simp [hnp, hcase.1]

/-- In that order the walk stops at the owners of the answers in front. -/
theorem cnameTarget_sortedBy (packet : Packet) {p : ResourceRecord → Bool}
    (hp : ∀ rr, p rr = true → rr.cls = .IN ∧ isAlias rr = false) :
    cnameTarget (reorder packet (sortedBy p packet.answers)) =
      Chase.stopped (fun n => packet.answers.any fun rr => p rr && namesEqual rr.name n)
        (aliasTarget packet) := by
  funext current
  rw [cnameTarget_eq_bind]
  unfold Chase.stopped
  change ((sortedBy p packet.answers).find? _).bind _ = _
  unfold sortedBy
  rw [List.find?_append, List.find?_append]
  by_cases hfront : (packet.answers.any fun rr => p rr && namesEqual rr.name current) = true
  · rw [if_pos hfront]
    obtain ⟨rr, hmem, hrr⟩ := List.any_eq_true.mp hfront
    simp only [Bool.and_eq_true] at hrr
    have hfound : ((packet.answers.filter p).find? fun rr =>
        rr.cls == .IN && namesEqual rr.name current).isSome = true :=
      List.find?_isSome.mpr ⟨rr, List.mem_filter.mpr ⟨hmem, hrr.1⟩, by
        simp [hrr.2, (hp rr hrr.1).1]⟩
    obtain ⟨first, hfirst⟩ := Option.isSome_iff_exists.mp hfound
    have hfp := hp first (List.mem_filter.mp (List.mem_of_find?_eq_some hfirst)).2
    rw [hfirst]
    exact cnameOf_eq_none hfp.1 hfp.2
  · rw [if_neg hfront]
    have hnone : ((packet.answers.filter p).find? fun rr =>
        rr.cls == .IN && namesEqual rr.name current) = none := by
      rw [List.find?_eq_none]
      intro rr hrr hprop
      obtain ⟨hmem, hprr⟩ := List.mem_filter.mp hrr
      simp only [Bool.and_eq_true] at hprop
      exact hfront (List.any_eq_true.mpr ⟨rr, hmem, by simp [hprr, hprop.2]⟩)
    rw [hnone, find?_alias_of_rest hp, Option.none_or]
    unfold aliasTarget
    cases hrest : packet.answers.find? fun rr => isAlias rr && namesEqual rr.name current with
    | some rr => rfl
    | none =>
      rw [Option.none_or]
      cases hlast : ((packet.answers.filter (!p ·)).filter (!isAlias ·)).find? fun rr =>
          rr.cls == .IN && namesEqual rr.name current with
      | none => rfl
      | some rr =>
        have hprop := List.find?_some hlast
        have hmem := (List.mem_filter.mp (List.mem_of_find?_eq_some hlast)).2
        simp only [Bool.and_eq_true, beq_iff_eq] at hprop
        exact cnameOf_eq_none hprop.1 (by simpa using hmem)

/-- Some order lets the walk take the whole chain. -/
theorem exists_whole (packet : Packet) :
    ∃ answers, answers.Perm packet.answers ∧ ∀ qname,
      cnameChain (reorder packet answers) qname = wholeChain packet qname := by
  refine ⟨_, sortedBy_perm (fun _ => false) packet.answers, fun qname => ?_⟩
  unfold cnameChain wholeChain
  rw [cnameTarget_sortedBy packet (fun rr h => absurd h Bool.false_ne_true)]
  refine congrArg (fun f => chase f maxCnameDepth qname) (funext fun current => ?_)
  simp [Chase.stopped]

/-- A class-IN answer of the name that is no CNAME. -/
def besides (name : Name) (rr : ResourceRecord) : Bool :=
  rr.cls == .IN && namesEqual rr.name name && !isAlias rr

/-- Some order makes it stop at a crowded name, and at no other. -/
theorem exists_upTo {packet : Packet} {name : Name} (h : Crowded packet name) :
    ∃ answers, answers.Perm packet.answers ∧ ∀ qname,
      cnameChain (reorder packet answers) qname = chainUpTo packet qname name := by
  have hfront : ∀ rr, besides name rr = true → rr.cls = .IN ∧ isAlias rr = false := by
    intro rr hrr
    simp only [besides, Bool.and_eq_true, beq_iff_eq, Bool.not_eq_true'] at hrr
    exact ⟨hrr.1.1, hrr.2⟩
  refine ⟨_, sortedBy_perm (besides name) packet.answers, fun qname => ?_⟩
  unfold cnameChain chainUpTo
  rw [cnameTarget_sortedBy packet hfront]
  refine congrArg (fun stop => chase (Chase.stopped stop (aliasTarget packet)) maxCnameDepth qname)
    (funext fun current => ?_)
  rw [Bool.eq_iff_iff, List.any_eq_true]
  constructor
  · rintro ⟨rr, -, hrr⟩
    simp only [besides, Bool.and_eq_true] at hrr
    rw [← namesEqual_congr_left hrr.2]
    exact hrr.1.1.2
  · intro hsame
    obtain ⟨rr, hmem, hcls, halias, hname⟩ := h.other_mem
    refine ⟨rr, hmem, ?_⟩
    rw [namesEqual_congr_right hsame]
    simp [besides, hcls, halias, hname]

theorem reorder_cases {packet : Packet} (hsingle : SingleAliases packet)
    {answers : List ResourceRecord} (hperm : answers.Perm packet.answers) (qname : Name) :
    cnameChain (reorder packet answers) qname = wholeChain packet qname ∨
      ∃ name, Crowded packet name ∧
        cnameChain (reorder packet answers) qname = chainUpTo packet qname name := by
  have htarget := aliasTarget_reorder hsingle hperm
  rcases cnameChain_cases (reorder packet answers) qname with hwhole | ⟨name, hcrowded, hcut⟩
  · refine .inl ?_
    rw [hwhole]
    unfold wholeChain
    rw [htarget]
  · obtain ⟨⟨rr, hmem, hrr⟩, rr', hmem', hrr'⟩ := hcrowded
    refine .inr ⟨name, ⟨⟨rr, hperm.mem_iff.mp hmem, hrr⟩, rr', hperm.mem_iff.mp hmem', hrr'⟩, ?_⟩
    rw [hcut]
    unfold chainUpTo
    rw [htarget]

/-! ## The target along a chain -/

/-- A class-IN answer of the type is on the chain. -/
def answeredAlong (packet : Packet) (chain : List Name) (qtype : TYPE) : Bool :=
  packet.answers.any (fun rr =>
    rr.cls == .IN && rr.rdata.typeCode == qtype && onChain chain rr.name)

/-- `unresolved_cname_target` for a chain. -/
def targetAlong (packet : Packet) (chain : List Name) (qname : Name) (qtype : TYPE) : Option Name :=
  if answeredAlong packet chain qtype then none
  else
    match chain.getLast? with
    | none => none
    | some last => if namesEqual last qname then none else some last

theorem unresolvedTargetName_eq (packet : Packet) (qname : Name) (qtype : TYPE) :
    unresolvedTargetName packet qname qtype =
      targetAlong packet (cnameChain packet qname) qname qtype := rfl

theorem targetAlong_reorder {packet : Packet} {answers : List ResourceRecord}
    (hperm : answers.Perm packet.answers) (chain : List Name) (qname : Name) (qtype : TYPE) :
    targetAlong (reorder packet answers) chain qname qtype =
      targetAlong packet chain qname qtype := by
  have hany : answeredAlong (reorder packet answers) chain qtype =
      answeredAlong packet chain qtype := by
    unfold answeredAlong
    rw [Bool.eq_iff_iff, List.any_eq_true, List.any_eq_true]
    exact ⟨fun ⟨rr, hmem, h⟩ => ⟨rr, hperm.mem_iff.mp hmem, h⟩,
      fun ⟨rr, hmem, h⟩ => ⟨rr, hperm.mem_iff.mpr hmem, h⟩⟩
  unfold targetAlong
  rw [hany]

theorem onChain_mono {chain chain' : List Name} (h : chain <+: chain') {name : Name}
    (hon : onChain chain name = true) : onChain chain' name = true := by
  obtain ⟨n, hn, hname⟩ := List.any_eq_true.mp hon
  exact List.any_eq_true.mpr ⟨n, h.subset hn, hname⟩

theorem answeredAlong_mono {packet : Packet} {chain chain' : List Name} {qtype : TYPE}
    (h : chain <+: chain') (hans : answeredAlong packet chain qtype = true) :
    answeredAlong packet chain' qtype = true := by
  obtain ⟨rr, hmem, hrr⟩ := List.any_eq_true.mp hans
  simp only [Bool.and_eq_true] at hrr
  exact List.any_eq_true.mpr ⟨rr, hmem, by simp [hrr.1.1, hrr.1.2, onChain_mono h hrr.2]⟩

/-- Ending the chain at the name leads to the same target: an answer of the type is on the chain up
to it; or one is further on and the chain goes no further than the queried name; or there is none,
and the chain ends at that name in the end. -/
def TargetKept (packet : Packet) (qname : Name) (qtype : TYPE) (name : Name) : Prop :=
  answeredAlong packet (chainUpTo packet qname name) qtype = true ∨
    ∀ last last', (chainUpTo packet qname name).getLast? = some last →
      (wholeChain packet qname).getLast? = some last' →
        if answeredAlong packet (wholeChain packet qname) qtype then namesEqual last qname = true
        else namesEqual last last' = true

theorem targetKept_iff (packet : Packet) (qname : Name) (qtype : TYPE) (name : Name) :
    TargetKept packet qname qtype name ↔
      (targetAlong packet (chainUpTo packet qname name) qname qtype).map Name.folded =
        (targetAlong packet (wholeChain packet qname) qname qtype).map Name.folded := by
  have hsub := chainUpTo_prefix packet qname name
  obtain ⟨t, ht⟩ := Chase.chase_eq_cons
    (Chase.stopped (fun n => namesEqual n name) (aliasTarget packet)) maxCnameDepth qname
  obtain ⟨t', ht'⟩ := Chase.chase_eq_cons (aliasTarget packet) maxCnameDepth qname
  obtain ⟨last, hlast⟩ : ∃ last, (chainUpTo packet qname name).getLast? = some last :=
    ⟨_, (congrArg List.getLast? ht).trans (List.getLast?_eq_some_getLast (by simp))⟩
  obtain ⟨last', hlast'⟩ : ∃ last, (wholeChain packet qname).getLast? = some last :=
    ⟨_, (congrArg List.getLast? ht').trans (List.getLast?_eq_some_getLast (by simp))⟩
  unfold TargetKept targetAlong
  rw [hlast, hlast']
  cases hcut : answeredAlong packet (chainUpTo packet qname name) qtype with
  | true => simp [answeredAlong_mono hsub hcut]
  | false =>
    cases hwhole : answeredAlong packet (wholeChain packet qname) qtype with
    | true => by_cases h : namesEqual last qname = true <;> simp [h]
    | false =>
      have hfold := namesEqual_iff last last'
      by_cases h : namesEqual last qname = true
      · by_cases h' : namesEqual last' qname = true
        · have hsame : namesEqual last last' = true := by
            rw [namesEqual_congr_left h, namesEqual_comm]
            exact h'
          simp [h, h', hsame]
        · have hdiff : ¬ namesEqual last last' = true := fun hs =>
            h' (by rw [← namesEqual_congr_left hs]; exact h)
          simp [h, h', hdiff]
      · by_cases h' : namesEqual last' qname = true
        · have hdiff : ¬ namesEqual last last' = true := fun hs =>
            h (by rw [namesEqual_congr_left hs]; exact h')
          simp [h, h', hdiff]
        · simp [h, h', hfold]

/-! ## The extraction along a chain -/

theorem foldl_min_le_iff (ttls : List Nat) (a t : Nat) :
    ttls.foldl min a ≤ t ↔ a ≤ t ∨ ∃ x ∈ ttls, x ≤ t := by
  induction ttls generalizing a with
  | nil => simp
  | cons x ttls ih =>
    rw [List.foldl_cons, ih]
    have hmin : min a x ≤ t ↔ a ≤ t ∨ x ≤ t := by omega
    simp only [List.mem_cons, exists_eq_or_imp, hmin, or_assoc]

/-- Leaving some TTLs out keeps the least: none of those left out is below all the others; or the
others are all `u32::MAX`, which reads as 0, and 0 is left out. -/
def LeastKept (few all : List Nat) : Prop :=
  (∀ t ∈ all, t < u32Max → ∃ t' ∈ few, t' ≤ t) ∨ ((∀ t ∈ few, t = u32Max) ∧ 0 ∈ all)

theorem leastKept_iff {few all : List Nat} (hsub : few ⊆ all) (hmax : ∀ t ∈ all, t ≤ u32Max) :
    LeastKept few all ↔ leastTtl few = leastTtl all := by
  have hle : all.foldl min u32Max ≤ few.foldl min u32Max := by
    rw [foldl_min_le_iff]
    rcases (foldl_min_le_iff few u32Max _).mp (Nat.le_refl _) with h | ⟨x, hx, h⟩
    · exact .inl h
    · exact .inr ⟨x, hsub hx, h⟩
  have hfew : few.foldl min u32Max ≤ u32Max := (foldl_min_le_iff _ _ _).mpr (.inl (Nat.le_refl _))
  have hsame : (∀ t ∈ all, t < u32Max → ∃ t' ∈ few, t' ≤ t) ↔
      few.foldl min u32Max ≤ all.foldl min u32Max := by
    constructor
    · intro h
      by_contra hlt
      rw [Nat.not_le] at hlt
      rcases (foldl_min_le_iff all u32Max _).mp (Nat.le_refl _) with h' | ⟨x, hx, h'⟩
      · omega
      · obtain ⟨t', ht', hle'⟩ := h x hx (by omega)
        have hmin : few.foldl min u32Max ≤ x := (foldl_min_le_iff _ _ _).mpr (.inr ⟨t', ht', hle'⟩)
        omega
    · intro h t ht hlt
      have hmin : all.foldl min u32Max ≤ t :=
        (foldl_min_le_iff _ _ _).mpr (.inr ⟨t, ht, Nat.le_refl t⟩)
      rcases (foldl_min_le_iff few u32Max t).mp (Nat.le_trans h hmin) with h' | h'
      · omega
      · exact h'
  have hfewMax : (∀ t ∈ few, t = u32Max) ↔ few.foldl min u32Max = u32Max := by
    constructor
    · intro h
      by_contra hne
      rcases (foldl_min_le_iff few u32Max _).mp (Nat.le_refl _) with h' | ⟨x, hx, h'⟩
      · omega
      · have hx' := h x hx
        omega
    · intro h t ht
      have hmin : few.foldl min u32Max ≤ t :=
        (foldl_min_le_iff _ _ _).mpr (.inr ⟨t, ht, Nat.le_refl t⟩)
      have ht' := hmax t (hsub ht)
      omega
  have hzero : 0 ∈ all ↔ all.foldl min u32Max = 0 := by
    rw [← Nat.le_zero, foldl_min_le_iff]
    constructor
    · exact fun h => .inr ⟨0, h, Nat.le_refl 0⟩
    · rintro (h | ⟨x, hx, h⟩)
      · exact absurd h (by decide)
      · rw [Nat.le_zero.mp h] at hx
        exact hx
  have hpos : 0 < u32Max := by decide
  unfold LeastKept leastTtl
  rw [hsame, hfewMax, hzero]
  split <;> split <;> omega

section Kinds

variable (S : SimpleDns) (packet : Packet) (kind : RecordKind)

/-- The TTLs that bound the one extracted along a chain. -/
def ttlsAlong (chain : List Name) : List Nat :=
  packet.answers.filterMap (bounding chain (extractor S kind))

/-- The records extracted along a chain. -/
def recordsAlong (chain : List Name) : List Record :=
  packet.answers.filterMap (taken chain (extractor S kind))

theorem extractAll_eq_along :
    extractAll (extractor S kind) packet =
      (recordsAlong S packet kind (questionChain packet),
        leastTtl (ttlsAlong S packet kind (questionChain packet))) :=
  extractAll_eq _ _

variable {packet}

theorem recordsAlong_reorder {answers : List ResourceRecord} (hperm : answers.Perm packet.answers)
    (chain : List Name) :
    (recordsAlong S (reorder packet answers) kind chain).Perm (recordsAlong S packet kind chain) :=
  hperm.filterMap _

theorem leastTtl_perm {ttls ttls' : List Nat} (h : ttls.Perm ttls') :
    leastTtl ttls = leastTtl ttls' := by
  have hcomm : ttls.foldl min u32Max = ttls'.foldl min u32Max :=
    h.foldl_eq' (fun x _ y _ z => by omega) u32Max
  unfold leastTtl
  rw [hcomm]

theorem leastTtl_reorder {answers : List ResourceRecord} (hperm : answers.Perm packet.answers)
    (chain : List Name) :
    leastTtl (ttlsAlong S (reorder packet answers) kind chain) =
      leastTtl (ttlsAlong S packet kind chain) :=
  leastTtl_perm (hperm.filterMap _)

variable {S kind} {chain chain' : List Name} (hsub : chain <+: chain')

include hsub

/-- Along a longer chain an answer is read as before, or was passed over before. -/
theorem bounding_mono {rr : ResourceRecord} {t : Nat}
    (h : bounding chain (extractor S kind) rr = some t) :
    bounding chain' (extractor S kind) rr = some t := by
  unfold bounding at h ⊢
  split at h
  · simp at h
  · next hon =>
    rw [not_or, not_not, Bool.not_eq_false] at hon
    rw [if_neg (by simp [hon.1, onChain_mono hsub hon.2])]
    exact h

theorem ttlsAlong_subset : ttlsAlong S packet kind chain ⊆ ttlsAlong S packet kind chain' := by
  intro t ht
  obtain ⟨rr, hmem, h⟩ := List.mem_filterMap.mp ht
  exact List.mem_filterMap.mpr ⟨rr, hmem, bounding_mono hsub h⟩

omit hsub in
theorem ttlsAlong_le : ∀ t ∈ ttlsAlong S packet kind chain, t ≤ u32Max := by
  intro t ht
  obtain ⟨rr, -, h⟩ := List.mem_filterMap.mp ht
  have hle : rr.ttl.toNat ≤ u32Max := Nat.le_pred_of_lt rr.ttl.toNat_lt
  unfold bounding at h
  split at h
  · simp at h
  · split at h
    · cases h
      exact hle
    · obtain ⟨r, -, rfl⟩ := Option.map_eq_some_iff.mp h
      exact hle

/-- Every record of the longer chain comes from an answer on the shorter one. -/
def RecordsKept (packet : Packet) (kind : RecordKind) (chain chain' : List Name) : Prop :=
  ∀ rr ∈ packet.answers, rr.cls = .IN → rr.rdata.typeCode = kind.dnsType →
    rr.rdata ≠ .empty kind.dnsType → onChain chain' rr.name = true → onChain chain rr.name = true

theorem recordsKept_iff :
    RecordsKept packet kind chain chain' ↔
      (recordsAlong S packet kind chain).Perm (recordsAlong S packet kind chain') := by
  have hmono : ∀ rr, (taken chain (extractor S kind) rr).isSome = true →
      (taken chain' (extractor S kind) rr).isSome = true := by
    intro rr h
    rw [taken_isSome_iff] at h ⊢
    exact ⟨h.1, h.2.1, h.2.2.1, onChain_mono hsub h.2.2.2⟩
  constructor
  · intro h
    have hsame : recordsAlong S packet kind chain = recordsAlong S packet kind chain' := by
      refine List.filterMap_congr fun rr hmem => ?_
      cases hs : (taken chain' (extractor S kind) rr).isSome with
      | true =>
        obtain ⟨hcls, htype, hdata, hon⟩ := (taken_isSome_iff S).mp hs
        exact taken_congr (by rw [hon, h rr hmem hcls htype hdata hon]) _
      | false =>
        have hs' : (taken chain (extractor S kind) rr).isSome = false := by
          rw [← Bool.not_eq_true]
          exact fun hc => by simp [hmono rr hc] at hs
        rw [Option.isSome_eq_false_iff, Option.isNone_iff_eq_none] at hs hs'
        rw [hs, hs']
    rw [hsame]
  · intro h rr hmem hcls htype hdata hon
    by_contra hoff
    have hlen := h.length_eq
    unfold recordsAlong at hlen
    rw [List.length_filterMap_eq_countP, List.length_filterMap_eq_countP] at hlen
    obtain ⟨front, back, hsplit⟩ := List.append_of_mem hmem
    have hfront := List.countP_mono_left (l := front) fun rr _ => hmono rr
    have hback := List.countP_mono_left (l := back) fun rr _ => hmono rr
    have hin : (taken chain' (extractor S kind) rr).isSome = true :=
      (taken_isSome_iff S).mpr ⟨hcls, htype, hdata, hon⟩
    have hout : ¬ (taken chain (extractor S kind) rr).isSome = true :=
      fun hc => hoff ((taken_isSome_iff S).mp hc).2.2.2
    rw [hsplit, List.countP_append, List.countP_append, List.countP_cons, List.countP_cons,
      if_pos hin, if_neg hout] at hlen
    omega

end Kinds

/-! ## Readings in any order -/

/-- The whole chain of the reply's own question. -/
def questionWhole (packet : Packet) : List Name :=
  match packet.questions.head? with
  | some question => wholeChain packet question.qname
  | none => []

/-- That chain as far as the name. -/
def questionUpTo (packet : Packet) (name : Name) : List Name :=
  match packet.questions.head? with
  | some question => chainUpTo packet question.qname name
  | none => []

theorem questionUpTo_prefix (packet : Packet) (name : Name) :
    questionUpTo packet name <+: questionWhole packet := by
  unfold questionUpTo questionWhole
  split
  · exact chainUpTo_prefix _ _ _
  · exact List.prefix_refl []

theorem questionChain_cases {packet : Packet} (hsingle : SingleAliases packet)
    {answers : List ResourceRecord} (hperm : answers.Perm packet.answers) :
    questionChain (reorder packet answers) = questionWhole packet ∨
      ∃ name, Crowded packet name ∧
        questionChain (reorder packet answers) = questionUpTo packet name := by
  unfold questionChain questionWhole questionUpTo reorder
  cases packet.questions.head? with
  | none => exact .inl rfl
  | some question => exact reorder_cases hsingle hperm question.qname

/-- Two replies are read alike: the target to follow, up to ASCII case, the records and the TTL. -/
structure SameReading (S : SimpleDns) (packet packet' : Packet) (qname : Name) (qtype : TYPE)
    (kind : RecordKind) : Prop where
  target : (unresolvedTargetName packet qname qtype).map Name.folded =
    (unresolvedTargetName packet' qname qtype).map Name.folded
  records : (extractAll (extractor S kind) packet).1.Perm (extractAll (extractor S kind) packet').1
  ttl : (extractAll (extractor S kind) packet).2 = (extractAll (extractor S kind) packet').2

/-- Ending the chain of the question at the name takes the same records, with the same TTL. -/
structure ExtractionKept (S : SimpleDns) (packet : Packet) (kind : RecordKind) (name : Name) :
    Prop where
  records : RecordsKept packet kind (questionUpTo packet name) (questionWhole packet)
  ttl : LeastKept (ttlsAlong S packet kind (questionUpTo packet name))
    (ttlsAlong S packet kind (questionWhole packet))

section Orders

variable (S : SimpleDns) (packet : Packet) (qname : Name) (qtype : TYPE) (kind : RecordKind)

/-- What is read along a chain for the target and one for the records. -/
def readingAlong (chain qchain : List Name) : Option (List Bytes) × Multiset Record × Nat :=
  ((targetAlong packet chain qname qtype).map Name.folded, ↑(recordsAlong S packet kind qchain),
    leastTtl (ttlsAlong S packet kind qchain))

/-- What is read of a reply. -/
def reading : Option (List Bytes) × Multiset Record × Nat :=
  readingAlong S packet qname qtype kind (cnameChain packet qname) (questionChain packet)

theorem sameReading_iff_reading (packet' : Packet) :
    SameReading S packet packet' qname qtype kind ↔
      reading S packet qname qtype kind = reading S packet' qname qtype kind := by
  have hall := extractAll_eq_along S packet kind
  have hall' := extractAll_eq_along S packet' kind
  unfold reading readingAlong
  rw [Prod.mk.injEq, Prod.mk.injEq, Multiset.coe_eq_coe, ← unresolvedTargetName_eq,
    ← unresolvedTargetName_eq]
  constructor
  · intro h
    have hrecords := h.records
    have httl := h.ttl
    rw [hall, hall'] at hrecords httl
    exact ⟨h.target, hrecords, httl⟩
  · rintro ⟨htarget, hrecords, httl⟩
    exact ⟨htarget, by rw [hall, hall']; exact hrecords, by rw [hall, hall']; exact httl⟩

variable {packet}

theorem reading_reorder {answers : List ResourceRecord} (hperm : answers.Perm packet.answers) :
    reading S (reorder packet answers) qname qtype kind =
      readingAlong S packet qname qtype kind (cnameChain (reorder packet answers) qname)
        (questionChain (reorder packet answers)) := by
  unfold reading readingAlong
  rw [targetAlong_reorder hperm, leastTtl_reorder S kind hperm,
    Multiset.coe_eq_coe.mpr (recordsAlong_reorder S kind hperm _)]

/-- A reply whose owners have at most one CNAME each is read alike in every order exactly when, at
each name that owns a CNAME beside another class-IN record, ending the chain there keeps the
target, the records and the TTL. -/
theorem sameReading_iff (hsingle : SingleAliases packet) :
    (∀ answers, answers.Perm packet.answers →
        SameReading S packet (reorder packet answers) qname qtype kind) ↔
      ∀ name, Crowded packet name →
        TargetKept packet qname qtype name ∧ ExtractionKept S packet kind name := by
  constructor
  · intro h name hcrowded
    obtain ⟨first, hfirst, hwhole⟩ := exists_whole packet
    obtain ⟨second, hsecond, hcut⟩ := exists_upTo hcrowded
    have hqwhole : questionChain (reorder packet first) = questionWhole packet := by
      unfold questionChain questionWhole reorder
      cases packet.questions.head? with
      | none => rfl
      | some question => exact hwhole question.qname
    have hqcut : questionChain (reorder packet second) = questionUpTo packet name := by
      unfold questionChain questionUpTo reorder
      cases packet.questions.head? with
      | none => rfl
      | some question => exact hcut question.qname
    have h1 := (sameReading_iff_reading S packet qname qtype kind _).mp (h first hfirst)
    have h2 := (sameReading_iff_reading S packet qname qtype kind _).mp (h second hsecond)
    rw [reading_reorder S qname qtype kind hfirst, hwhole, hqwhole] at h1
    rw [reading_reorder S qname qtype kind hsecond, hcut, hqcut] at h2
    have hsame := h2.symm.trans h1
    unfold readingAlong at hsame
    rw [Prod.mk.injEq, Prod.mk.injEq, Multiset.coe_eq_coe] at hsame
    obtain ⟨htarget, hrecords, httl⟩ := hsame
    have hsub := questionUpTo_prefix packet name
    exact ⟨(targetKept_iff packet qname qtype name).mpr htarget, (recordsKept_iff hsub).mpr hrecords,
      (leastKept_iff (ttlsAlong_subset hsub) ttlsAlong_le).mpr httl⟩
  · intro h
    have hall : ∀ answers, answers.Perm packet.answers →
        reading S (reorder packet answers) qname qtype kind =
          readingAlong S packet qname qtype kind (wholeChain packet qname) (questionWhole packet) := by
      intro answers hperm
      rw [reading_reorder S qname qtype kind hperm]
      unfold readingAlong
      have htarget : (targetAlong packet (cnameChain (reorder packet answers) qname) qname qtype).map
          Name.folded = (targetAlong packet (wholeChain packet qname) qname qtype).map Name.folded := by
        rcases reorder_cases hsingle hperm qname with hc | ⟨name, hcrowded, hc⟩
        · rw [hc]
        · rw [hc]
          exact (targetKept_iff _ _ _ _).mp (h name hcrowded).1
      rcases questionChain_cases hsingle hperm with hc | ⟨name, hcrowded, hc⟩
      · rw [htarget, hc]
      · have hsub := questionUpTo_prefix packet name
        obtain ⟨hrecords, httl⟩ := (h name hcrowded).2
        rw [htarget, hc, Multiset.coe_eq_coe.mpr ((recordsKept_iff hsub).mp hrecords),
          (leastKept_iff (ttlsAlong_subset hsub) ttlsAlong_le).mp httl]
    intro answers hperm
    rw [sameReading_iff_reading]
    exact (hall packet.answers (List.Perm.refl _)).trans (hall answers hperm).symm

end Orders

/-! ## A signed alias -/

/-- A reply to `alias. A` with its CNAME, the signature of it and the address it leads to. -/
def signedReply (answers : List ResourceRecord) : Packet where
  id := 4660
  flags := [.response, .recursionDesired]
  rcode := .noError
  questions := [⟨aliasName, .TYPE .A, .CLASS .IN⟩]
  answers := answers
  nameServers := []
  opt := none

def aliasRecord : ResourceRecord := ⟨aliasName, .IN, 60, .cname realName⟩

/-- The RRSIG of the CNAME: the type it covers, algorithm, labels, TTL, the ends of its validity, key
tag, the root as signer, and 64 bytes of signature. -/
def signatureRecord : ResourceRecord :=
  ⟨aliasName, .IN, 60, .other 46 ([0, 5] ++ [13, 1] ++ [0, 0, 0, 60] ++ [105, 0, 0, 0] ++
    [104, 0, 0, 0] ++ [48, 57] ++ [0] ++ List.replicate 64 1)⟩

def addressRecord : ResourceRecord := ⟨realName, .IN, 300, .a 7⟩

/-- Without the signature nothing stands beside the CNAME. -/
theorem sameReading_iff_unsigned :
    SameReading aliasDns (signedReply [aliasRecord, addressRecord])
      (reorder (signedReply [aliasRecord, addressRecord]) [addressRecord, aliasRecord])
      aliasName .A .a := by
  refine (sameReading_iff aliasDns aliasName .A .a (by decide)).mpr ?_ _ (List.Perm.swap _ _ _)
  rintro name ⟨⟨rr, hmem, halias, hname⟩, rr', hmem', -, halias', hname'⟩
  have hrr : rr = aliasRecord := by
    have hall : ∀ rr ∈ (signedReply [aliasRecord, addressRecord]).answers, isAlias rr = true →
        rr = aliasRecord := by decide
    exact hall rr hmem halias
  have hrr' : rr' = addressRecord := by
    have hall : ∀ rr ∈ (signedReply [aliasRecord, addressRecord]).answers, isAlias rr = false →
        rr = addressRecord := by decide
    exact hall rr' hmem' halias'
  rw [hrr] at hname
  rw [hrr', ← namesEqual_congr_right hname] at hname'
  exact absurd hname' (by decide)

/-- With the signature in front, the alias is read as NODATA; with the CNAME in front, as the address
it leads to. -/
theorem signature_first_hides_the_address :
    SingleAliases (signedReply [aliasRecord, signatureRecord, addressRecord]) ∧
      [signatureRecord, aliasRecord, addressRecord].Perm
        (signedReply [aliasRecord, signatureRecord, addressRecord]).answers ∧
      (extractAll (extractor aliasDns .a) (signedReply [aliasRecord, signatureRecord,
        addressRecord])).1 = [.a ⟨7⟩] ∧
      (extractAll (extractor aliasDns .a) (reorder (signedReply [aliasRecord, signatureRecord,
        addressRecord]) [signatureRecord, aliasRecord, addressRecord])).1 = [] ∧
      ¬ SameReading aliasDns (signedReply [aliasRecord, signatureRecord, addressRecord])
        (reorder (signedReply [aliasRecord, signatureRecord, addressRecord])
          [signatureRecord, aliasRecord, addressRecord]) aliasName .A .a := by
  refine ⟨by decide, List.Perm.swap _ _ _, by rfl, by rfl, fun h => ?_⟩
  have hlen := h.records.length_eq
  exact absurd hlen (by decide)

end N0DnsResolver
