/-
  Following a CNAME cycle.

  A reply that carries a whole cycle sends the walk round it for `MAX_CNAME_DEPTH` links,
  or fewer where another record stands before a CNAME. If that is a whole number of
  rounds, the walk ends at the name it started at and the reply is returned, as if the
  name had no records. If not, the next name is asked for, and after as many iterations
  the candidate fails.
-/
import N0DnsResolver.Theory.Chain
import N0DnsResolver.Theory.Extraction
import N0DnsResolver.Theory.Targets
import Mathlib.Data.Nat.ModEq

namespace N0DnsResolver

/-- A cycle of CNAMEs: `len` different names, one after the other, round and round. -/
structure CnameCycle where
  len : Nat
  name : Nat → Name
  two_le : 2 ≤ len
  same_iff : ∀ i j, namesEqual (name i) (name j) = true ↔ i % len = j % len
  wire : ∀ i, (name i).Wire

namespace CnameCycle

variable (cycle : CnameCycle)

/-- A name of the cycle, in any letter case. -/
def Holds (name : Name) : Prop := ∃ i, namesEqual name (cycle.name i) = true

/-- The reply carries the whole cycle and no record of the type on it. Records of other types may
stand beside the CNAMEs. -/
structure Carried (packet : Packet) (qtype : TYPE) : Prop where
  carries : ∀ i, ∃ rr ∈ packet.answers, rr.cls = .IN ∧
    namesEqual rr.name (cycle.name i) = true ∧ ∃ target, rr.rdata = .cname target
  keeps : KeepsTo packet cycle.name
  bare : ∀ rr ∈ packet.answers, rr.cls = .IN → cycle.Holds rr.name → rr.rdata.typeCode ≠ qtype

theorem Carried.not_answered {cycle : CnameCycle} {packet : Packet} {qname : Name} {qtype : TYPE}
    (h : cycle.Carried packet qtype) (hq : cycle.Holds qname) :
    answered packet qname qtype = false := by
  rw [← Bool.not_eq_true, answered_iff]
  rintro ⟨rr, hrr⟩
  obtain ⟨i, hi⟩ := hq
  obtain ⟨name, hname, hsame⟩ := List.any_eq_true.mp hrr.on
  obtain ⟨j, -, hj⟩ := mem_cnameChain h.keeps.walksAlong hi hname
  have hholds : cycle.Holds rr.name := by
    refine ⟨i + j, ?_⟩
    rw [← namesEqual_congr_left hsame]
    exact hj
  exact h.bare rr hrr.mem hrr.cls hholds hrr.type

/-- The walk comes back to the name asked for when it goes a whole number of rounds. -/
theorem Carried.unresolved {cycle : CnameCycle} {packet : Packet} {qname : Name} {qtype : TYPE}
    {i : Nat} (h : cycle.Carried packet qtype) (hq : namesEqual qname (cycle.name i) = true) :
    (cycle.len ∣ pathLinks packet cycle.name i ∧ unresolvedTargetName packet qname qtype = none) ∨
      (¬ cycle.len ∣ pathLinks packet cycle.name i ∧
        ∃ target, unresolvedTargetName packet qname qtype = some target ∧ cycle.Holds target) := by
  obtain ⟨last, hlast, hend⟩ := getLast?_cnameChain h.keeps.walksAlong hq
  have hreturns : namesEqual last qname = true ↔ cycle.len ∣ pathLinks packet cycle.name i := by
    rw [namesEqual_congr_left hend, namesEqual_congr_right hq, cycle.same_iff]
    exact Nat.add_modEq_left_iff
  rw [unresolvedTargetName_of_last (h.not_answered ⟨i, hq⟩) hlast]
  by_cases hback : namesEqual last qname = true
  · exact .inl ⟨hreturns.mp hback, if_pos hback⟩
  · exact .inr ⟨fun hd => hback (hreturns.mpr hd), last, if_neg hback, _, hend⟩

section Server

variable (S : SimpleDns) (net : Network) (qtype : TYPE)

/-- The server answers every query for a name of the cycle, with a reply that carries it. -/
def Served : Prop :=
  ∀ host log x, Asked S net qtype host log x → cycle.Holds x.query.name →
    ∃ response packet, x.result = .ok response ∧ parsedPacket S response = .ok packet ∧
      checkResponse packet x.query.id x.query.name qtype = .ok () ∧ cycle.Carried packet qtype

/-- The other server differs in what it says of names off the cycle only. -/
structure SameOnCycle (net' : Network) : Prop where
  randomId : net'.randomId = net.randomId
  sendQuery : ∀ log q, cycle.Holds q.name → net'.sendQuery log q = net.sendQuery log q

/-- Whatever the server says of other names, following ends with `InvalidResponse`. -/
def Fails (fuel : Nat) (host : Str) (log : List Exchange) : Prop :=
  ∀ net', cycle.SameOnCycle net net' →
    (followCnames S net' qtype fuel host log).1 = .error .invalidResponse

/-- No reply that is reached takes the walk a whole number of rounds, and each target with an
iteration left for it reads back as a name of the cycle. -/
def Endless (fuel : Nat) (host : Str) (log : List Exchange) : Prop :=
  ∀ hops x, Trail S net qtype host log hops x → hops.length < fuel → ∀ i response packet,
    namesEqual x.query.name (cycle.name i) = true → x.result = .ok response →
      parsedPacket S response = .ok packet →
        ¬ cycle.len ∣ pathLinks packet cycle.name i ∧
          (hops.length + 1 < fuel → ∀ target,
            unresolvedTargetName packet x.query.name qtype = some target →
              ∃ name, S.nameNew (S.nameToString target) = some name ∧ cycle.Holds name)

variable {cycle S net qtype}

theorem SameOnCycle.asked {net' : Network} (hsame : cycle.SameOnCycle net net') {host : Str}
    {log : List Exchange} {x : Exchange} (h : Asked S net qtype host log x)
    (hon : cycle.Holds x.query.name) : Asked S net' qtype host log x where
  host_eq := h.host_eq
  name_eq := h.name_eq
  qtype_eq := h.qtype_eq
  id_eq := by rw [hsame.randomId, h.id_eq]
  bytes_eq := h.bytes_eq
  result_eq := by rw [hsame.sendQuery log x.query hon, h.result_eq]

/-- An iteration on the cycle ends with the reply, or leads on to a name of the cycle. -/
theorem Served.reading (hserved : cycle.Served S net qtype) {host : Str} {log : List Exchange}
    {x : Exchange} (hx : Asked S net qtype host log x) {i : Nat}
    (hi : namesEqual x.query.name (cycle.name i) = true) :
    ∃ response packet, x.result = .ok response ∧ parsedPacket S response = .ok packet ∧
      ((cycle.len ∣ pathLinks packet cycle.name i ∧ x.reading S qtype = .inl (.ok response)) ∨
        (¬ cycle.len ∣ pathLinks packet cycle.name i ∧ ∃ target,
          checkResponse packet x.query.id x.query.name qtype = .ok () ∧
            unresolvedTargetName packet x.query.name qtype = some target ∧
              x.reading S qtype = .inr (S.nameToString target))) := by
  obtain ⟨response, packet, hresult, hparsed, hchecked, hcarried⟩ := hserved host log x hx ⟨i, hi⟩
  refine ⟨response, packet, hresult, hparsed, ?_⟩
  rw [reading_of_validated S hresult hparsed hchecked]
  rcases hcarried.unresolved hi with ⟨hd, hnone⟩ | ⟨hd, target, hsome, -⟩
  · exact .inl ⟨hd, by rw [hnone]⟩
  · exact .inr ⟨hd, target, hchecked, hsome, by rw [hsome]⟩

/-! ## Endless replies fail -/

theorem Endless.rest {fuel : Nat} {host : Str} {log : List Exchange} {x : Exchange}
    {response : Bytes} {packet : Packet} {target : Name}
    (h : cycle.Endless S net qtype (fuel + 1) host log) (hx : Asked S net qtype host log x)
    (hresult : x.result = .ok response) (hparsed : parsedPacket S response = .ok packet)
    (hchecked : checkResponse packet x.query.id x.query.name qtype = .ok ())
    (htarget : unresolvedTargetName packet x.query.name qtype = some target) :
    cycle.Endless S net qtype fuel (S.nameToString target) (log ++ [x]) := by
  intro hops y htrail hlen i response' packet' hi hresult' hparsed'
  obtain ⟨hd, hback⟩ := h (x :: hops) y (.hop hx hresult hparsed hchecked htarget htrail)
    (Nat.succ_lt_succ hlen) i response' packet' hi hresult' hparsed'
  exact ⟨hd, fun hlen' => hback (Nat.succ_lt_succ hlen')⟩

/-- An endless walk asks for names of the cycle until the iterations run out. -/
theorem Endless.fails (hB : S.BuildsQueries) (hserved : cycle.Served S net qtype) {fuel : Nat}
    {host : Str} {log : List Exchange}
    (hhost : 0 < fuel → ∃ name, S.nameNew host = some name ∧ cycle.Holds name)
    (h : cycle.Endless S net qtype fuel host log) : cycle.Fails S net qtype fuel host log := by
  intro net' hsame
  induction fuel generalizing host log with
  | zero => rfl
  | succ fuel ih =>
    obtain ⟨name, hname, i, hi⟩ := hhost (Nat.succ_pos fuel)
    obtain ⟨x, hx, hxname⟩ := exists_asked S net log hname
      (hB (net.randomId log) name qtype (wire_of_namesEqual hi (cycle.wire i)))
    rw [← hxname] at hi
    obtain ⟨response, packet, hresult, hparsed, hcases⟩ := hserved.reading hx hi
    obtain ⟨hd, hback⟩ := h [] x (.last hx) (Nat.succ_pos fuel) i response packet hi hresult hparsed
    rcases hcases with ⟨hd', -⟩ | ⟨-, target, hchecked, htarget, hreading⟩
    · exact absurd hd' hd
    · rw [(followCnames_of_asked S net' (hsame.asked hx ⟨i, hi⟩) fuel).1, hreading]
      exact ih (fun hpos => hback (Nat.succ_lt_succ hpos) target htarget)
        (h.rest hx hresult hparsed hchecked htarget)

/-! ## Replies that fail are endless -/

open Classical in
/-- The server, silent off the cycle. -/
noncomputable def silenced (cycle : CnameCycle) (net : Network) : Network where
  randomId := net.randomId
  sendQuery log q := if cycle.Holds q.name then net.sendQuery log q else (.error .timeout, 0)

theorem sameOnCycle_silenced : cycle.SameOnCycle net (cycle.silenced net) :=
  ⟨rfl, fun _ _ h => if_pos h⟩

/-- A host that fails alike with a server that is silent off the cycle is on it. -/
theorem Fails.reads_back {fuel : Nat} {host : Str} {log : List Exchange}
    (h : cycle.Fails S net qtype (fuel + 1) host log) :
    ∃ name, S.nameNew host = some name ∧ cycle.Holds name := by
  have hfail := h (cycle.silenced net) sameOnCycle_silenced
  rcases asked_or_invalid S (cycle.silenced net) qtype host log with ⟨x, hx⟩ | hinvalid
  · refine ⟨x.query.name, hx.name_eq, ?_⟩
    by_contra hoff
    have hresult : x.result = .error .timeout := by
      rw [← hx.result_eq]
      exact congrArg Prod.fst (if_neg hoff)
    have hreading : x.reading S qtype = .inl (.error .timeout) := by
      unfold Exchange.reading
      rw [hresult]
    rw [(followCnames_of_asked S _ hx fuel).1, hreading] at hfail
    simp at hfail
  · rw [hinvalid fuel] at hfail
    simp at hfail

theorem Fails.rest {fuel : Nat} {host : Str} {log : List Exchange} {x : Exchange} {target : Str}
    (h : cycle.Fails S net qtype (fuel + 1) host log) (hx : Asked S net qtype host log x)
    (hon : cycle.Holds x.query.name) (hreading : x.reading S qtype = .inr target) :
    cycle.Fails S net qtype fuel target (log ++ [x]) := by
  intro net' hsame
  have hfail := h net' hsame
  rw [(followCnames_of_asked S net' (hsame.asked hx hon) fuel).1, hreading] at hfail
  exact hfail

theorem Fails.endless (hserved : cycle.Served S net qtype) {fuel : Nat} {host : Str}
    {log : List Exchange} (h : cycle.Fails S net qtype fuel host log) :
    cycle.Endless S net qtype fuel host log := by
  induction fuel generalizing host log with
  | zero => exact fun hops x _ hlen => absurd hlen (Nat.not_lt_zero _)
  | succ fuel ih =>
    obtain ⟨name, hname, hon⟩ := h.reads_back
    intro hops y htrail hlen i response packet hi hresult hparsed
    cases htrail with
    | last hy =>
      obtain ⟨response', packet', hresult', hparsed', hcases⟩ := hserved.reading hy hi
      cases hresult.symm.trans hresult'
      cases hparsed.symm.trans hparsed'
      rcases hcases with ⟨-, hreading⟩ | ⟨hd, target, -, htarget, hreading⟩
      · -- The reply would be returned.
        have hfail := h net ⟨rfl, fun _ _ _ => rfl⟩
        rw [(followCnames_of_asked S net hy fuel).1, hreading] at hfail
        simp at hfail
      · refine ⟨hd, fun hpos target' htarget' => ?_⟩
        cases htarget.symm.trans htarget'
        have hrest := h.rest hy ⟨i, hi⟩ hreading
        obtain ⟨fuel, rfl⟩ := Nat.exists_eq_add_one.mpr (Nat.lt_of_succ_lt_succ hpos)
        exact hrest.reads_back
    | @hop _ _ x _ _ target hops _ hx hreply hparsedx hcheckedx htargetx hrest =>
      have hxname : cycle.Holds x.query.name := by
        rw [Option.some.inj (hx.name_eq.symm.trans hname)]
        exact hon
      have hreading : x.reading S qtype = .inr (S.nameToString target) := by
        rw [reading_of_validated S hreply hparsedx hcheckedx, htargetx]
      obtain ⟨hd, hback⟩ := ih (h.rest hx hxname hreading) hops y hrest (Nat.lt_of_succ_lt_succ hlen)
        i response packet hi hresult hparsed
      exact ⟨hd, fun hlen' => hback (Nat.lt_of_succ_lt_succ hlen')⟩

end Server

end CnameCycle

/-- Following a name of a CNAME cycle fails with `InvalidResponse`, whatever the server says of
other names, exactly when no reply reached takes the walk a whole number of rounds and each
target with an iteration left reads back as a name of the cycle. -/
theorem cycle_fails_iff (cycle : CnameCycle) {S : SimpleDns} {net : Network} {qtype : TYPE}
    (hB : S.BuildsQueries) (hserved : cycle.Served S net qtype) {host : Str} {name : Name}
    (hname : S.nameNew host = some name) (hon : cycle.Holds name) (log : List Exchange) :
    (∀ net', cycle.SameOnCycle net net' →
        (sendQueryFollowingCnames S net' host qtype log).1 = .error .invalidResponse) ↔
      cycle.Endless S net qtype maxCnameDepth host log :=
  ⟨fun h => CnameCycle.Fails.endless hserved h,
    fun h => h.fails hB hserved fun _ => ⟨name, hname, hon⟩⟩

/-! ## Rings of one-letter names -/

def ringName (len i : Nat) : Name := ⟨[[UInt8.ofNat (97 + i % len)]]⟩

theorem ringName_mod (len i : Nat) : ringName len (i % len) = ringName len i := by
  unfold ringName
  rw [Nat.mod_mod]

theorem ringName_same {len : Nat} (hpos : 0 < len) (hle : len ≤ 26) (i j : Nat) :
    namesEqual (ringName len i) (ringName len j) = true ↔ i % len = j % len := by
  have hletters : ∀ m < 26, ∀ n < 26, namesEqual ⟨[[UInt8.ofNat (97 + m)]]⟩
      ⟨[[UInt8.ofNat (97 + n)]]⟩ = true ↔ m = n := by decide +kernel
  exact hletters _ (Nat.lt_of_lt_of_le (Nat.mod_lt i hpos) hle) _
    (Nat.lt_of_lt_of_le (Nat.mod_lt j hpos) hle)

def ring (len : Nat) (two_le : 2 ≤ len) (hle : len ≤ 26) : CnameCycle where
  len := len
  name := ringName len
  two_le := two_le
  same_iff := ringName_same (Nat.lt_of_lt_of_le Nat.two_pos two_le) hle
  wire _ := ⟨by simp [ringName], by simp [ringName, wireLen]⟩

/-- A reply to `<letter>. A` that carries the ring. -/
def ringReply (len i : Nat) : Packet where
  id := 4660
  flags := [.response, .recursionDesired]
  rcode := .noError
  questions := [⟨ringName len i, .TYPE .A, .CLASS .IN⟩]
  answers := (List.range len).map fun j => ⟨ringName len j, .IN, 60, .cname (ringName len (j + 1))⟩
  nameServers := []
  opt := none

def ringDns (len : Nat) : SimpleDns :=
  SimpleDns.ofTexts ((List.range len).map fun i => (ringReply len i, (ringReply len i).wire))

def ringNet (len : Nat) : Network where
  randomId _ := 4660
  sendQuery _ q :=
    match (List.range len).find? (fun i => namesEqual q.name (ringName len i)) with
    | some i => (.ok (ringReply len i).wire, 0)
    | none => (.error .timeout, 0)

section Ring

variable {len : Nat} (two_le : 2 ≤ len) (hle : len ≤ 26)

include two_le

theorem mem_ringReply (i j : Nat) :
    ⟨ringName len j, .IN, 60, .cname (ringName len (j + 1))⟩ ∈ (ringReply len i).answers := by
  have hmod : j % len < len := Nat.mod_lt j (Nat.lt_of_lt_of_le Nat.two_pos two_le)
  have hnext : ringName len (j % len + 1) = ringName len (j + 1) := by
    unfold ringName
    rw [Nat.mod_add_mod]
  have hmem := List.mem_map_of_mem (f := fun j =>
    (⟨ringName len j, .IN, 60, .cname (ringName len (j + 1))⟩ : ResourceRecord))
    (List.mem_range.mpr hmod)
  rw [ringName_mod, hnext] at hmem
  exact hmem

omit two_le in
theorem of_mem_ringReply {i : Nat} {rr : ResourceRecord} (h : rr ∈ (ringReply len i).answers) :
    ∃ j, rr = ⟨ringName len j, .IN, 60, .cname (ringName len (j + 1))⟩ := by
  obtain ⟨j, -, rfl⟩ := List.mem_map.mp h
  exact ⟨j, rfl⟩

theorem ringReply_carried (i : Nat) : (ring len two_le hle).Carried (ringReply len i) .A where
  carries j := ⟨_, mem_ringReply two_le i j, rfl, (ringName_same (by omega) hle j j).mpr rfl, _, rfl⟩
  keeps := by
    intro j rr hrr _ howner target htarget
    obtain ⟨k, rfl⟩ := of_mem_ringReply hrr
    have hmod : k % len = j % len := (ringName_same (by omega) hle k j).mp howner
    cases htarget
    refine (ringName_same (by omega) hle (k + 1) (j + 1)).mpr ?_
    rw [Nat.add_mod, hmod, ← Nat.add_mod]
  bare := by
    intro rr hrr _ _ htype
    obtain ⟨k, rfl⟩ := of_mem_ringReply hrr
    simp [RData.typeCode] at htype

/-- The ring's server answers every query for one of its letters, if its replies parse. -/
theorem ring_answers
    (hparsed : ∀ i < len, parsedPacket (ringDns len) (ringReply len i).wire = .ok (ringReply len i))
    {host : Str} {log : List Exchange} {x : Exchange}
    (hx : Asked (ringDns len) (ringNet len) .A host log x)
    (hon : (ring len two_le hle).Holds x.query.name) :
    ∃ j, x.result = .ok (ringReply len j).wire ∧
      parsedPacket (ringDns len) (ringReply len j).wire = .ok (ringReply len j) ∧
      checkResponse (ringReply len j) x.query.id x.query.name .A = .ok () := by
  obtain ⟨i, hi⟩ := hon
  have hfound : ((List.range len).find? (fun i => namesEqual x.query.name (ringName len i))).isSome =
      true := by
    rw [List.find?_isSome]
    refine ⟨i % len, List.mem_range.mpr (Nat.mod_lt i (by omega)), ?_⟩
    rw [ringName_mod]
    exact hi
  obtain ⟨j, hj⟩ := Option.isSome_iff_exists.mp hfound
  have hlt : j < len := List.mem_range.mp (List.mem_of_find?_eq_some hj)
  have hname : namesEqual x.query.name (ringName len j) = true := by simpa using List.find?_some hj
  refine ⟨j, ?_, hparsed j hlt, ?_⟩
  · rw [← hx.result_eq]
    simp only [ringNet, hj]
  · rw [namesEqual_comm] at hname
    rw [hx.id_eq]
    simp [checkResponse, ringReply, ringNet, Packet.hasFlags, hname]

theorem ring_served
    (hparsed : ∀ i < len, parsedPacket (ringDns len) (ringReply len i).wire = .ok (ringReply len i)) :
    (ring len two_le hle).Served (ringDns len) (ringNet len) .A := by
  intro host log x hx hon
  obtain ⟨j, hresult, hpacket, hchecked⟩ := ring_answers two_le hle hparsed hx hon
  exact ⟨_, _, hresult, hpacket, hchecked, ringReply_carried two_le hle j⟩

/-- The ring's replies have nothing but CNAMEs, so the walk takes all its links. -/
theorem pathLinks_ring (i j : Nat) :
    pathLinks (ringReply len j) (ringName len) i = maxCnameDepth := by
  refine Chase.linksAlong_of_linked (fun k => ?_) _ _
  have hself : namesEqual (ringName len k) (ringName len k) = true := by rw [namesEqual_iff]
  unfold cnameTarget
  cases hfind : (ringReply len j).answers.find?
      (fun rr => rr.cls == .IN && namesEqual rr.name (ringName len k)) with
  | none =>
    have hno := List.find?_eq_none.mp hfind _ (mem_ringReply two_le j k)
    simp [hself] at hno
  | some rr =>
    obtain ⟨m, rfl⟩ := of_mem_ringReply (List.mem_of_find?_eq_some hfind)
    rfl

include hle

/-- A name of the ring reads back as itself. -/
theorem ring_reads_back {name : Name} {k : Nat} (h : namesEqual name (ringName len k) = true) :
    (ringDns len).nameNew ((ringDns len).nameToString name) = some name := by
  have hmod : k % len < 26 := Nat.lt_of_lt_of_le (Nat.mod_lt k (by omega)) hle
  have hletters : ∀ m < 26, asciiLower (UInt8.ofNat (97 + m)) = UInt8.ofNat (97 + m) ∧
      UInt8.ofNat (97 + m) < 128 ∧ asciiLower 46 ≠ UInt8.ofNat (97 + m) := by decide
  obtain ⟨hlower, hlow, hdot⟩ := hletters _ hmod
  have hfold : name.labels.map (·.map asciiLower) = [[UInt8.ofNat (97 + k % len)]] := by
    have hname : name.folded = [[asciiLower (UInt8.ofNat (97 + k % len))]] :=
      (namesEqual_iff _ _).mp h
    rw [hlower] at hname
    exact hname
  obtain ⟨label, hlabels, hlabel⟩ := List.map_eq_singleton_iff.mp hfold
  obtain ⟨b, rfl, hb⟩ := List.map_eq_singleton_iff.mp hlabel
  refine nameNew_toString (SimpleDns.ofTexts_namesAsText _)
    (wire_of_namesEqual h ((ring len two_le hle).wire k)) ?_ (by simp [hlabels])
  rw [hlabels]
  intro label hl
  rw [List.mem_singleton.mp hl]
  have hb128 : b < 128 := by
    rw [← asciiLower_lt, hb]
    exact hlow
  refine ⟨[Char.ofNat b.toNat], (encode_of_low hb128).symm, fun hmem => ?_⟩
  have hdotb : Utf8.encode ['.'] = [b] := by
    rw [List.mem_singleton.mp hmem, encode_of_low hb128]
  have h46 : Utf8.encode ['.'] = [46] := by decide
  have hbyte : (46 : UInt8) = b := (List.cons.inj (h46.symm.trans hdotb)).1
  exact hdot (by rw [hbyte, hb])

theorem ring_endless (hnd : ¬ len ∣ maxCnameDepth)
    (hparsed : ∀ i < len, parsedPacket (ringDns len) (ringReply len i).wire = .ok (ringReply len i))
    (fuel : Nat) (host : Str) (log : List Exchange) :
    (ring len two_le hle).Endless (ringDns len) (ringNet len) .A fuel host log := by
  intro hops x htrail _ i response packet hi hresult hpacket
  obtain ⟨host', log', hx⟩ := htrail.asked
  obtain ⟨j, hresult', hpacket', -⟩ := ring_answers two_le hle hparsed hx ⟨i, hi⟩
  cases hresult.symm.trans hresult'
  cases hpacket.symm.trans hpacket'
  refine ⟨?_, fun _ target htarget => ?_⟩
  · rw [show pathLinks (ringReply len j) (ring len two_le hle).name i = maxCnameDepth from
      pathLinks_ring two_le i j]
    exact hnd
  · rcases (ringReply_carried two_le hle j).unresolved hi with ⟨-, hnone⟩ | ⟨-, target', hsome, hon⟩
    · simp [hnone] at htarget
    · cases htarget.symm.trans hsome
      obtain ⟨k, hk⟩ := hon
      exact ⟨target, ring_reads_back two_le hle hk, k, hk⟩

end Ring

/-- On three names the eight links are two rounds and two links. -/
theorem cycle_fails_iff_three :
    (sendQueryFollowingCnames (ringDns 3) (ringNet 3) "a".toList .A []).1 =
      .error .invalidResponse := by
  have hparsed : ∀ i < 3, parsedPacket (ringDns 3) (ringReply 3 i).wire = .ok (ringReply 3 i) := by
    decide +kernel
  have hname : (ringDns 3).nameNew "a".toList = some (ringName 3 0) := by rfl
  exact (cycle_fails_iff (ring 3 (by decide) (by decide)) (fun _ _ _ _ => rfl)
    (ring_served (by decide) (by decide) hparsed) hname ⟨0, by decide⟩ []).mpr
      (ring_endless (by decide) (by decide) (by decide) hparsed _ _ _)
      (ringNet 3) ⟨rfl, fun _ _ _ => rfl⟩

/-- On two names they are four rounds: the first reply is returned, and reads as NODATA. -/
theorem cycle_of_two_is_noData :
    (ring 2 (by decide) (by decide)).Served (ringDns 2) (ringNet 2) .A ∧
      (ringDns 2).nameNew "a".toList = some (ringName 2 0) ∧
      (sendQueryFollowingCnames (ringDns 2) (ringNet 2) "a".toList .A []).1 =
        .ok (ringReply 2 0).wire ∧
      parsedRecords (ringDns 2) (ringReply 2 0).wire .a = .ok ([], 60) := by
  have hparsed : ∀ i < 2, parsedPacket (ringDns 2) (ringReply 2 i).wire = .ok (ringReply 2 i) := by
    decide +kernel
  exact ⟨ring_served (by decide) (by decide) hparsed, by rfl, by rfl, by rfl⟩

end N0DnsResolver
