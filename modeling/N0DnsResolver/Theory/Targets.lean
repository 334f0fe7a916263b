/-
  What is asked for when a CNAME is followed.

  The target of an unresolved chain goes through text: `Name::to_string`, then
  `Name::new` at the head of the next iteration. The trip keeps a wire name exactly when
  every label is UTF-8 without a dot. Any other target is asked for under another name,
  or ends the lookup with `InvalidName`.
-/
import N0DnsResolver.Model.Follow

namespace N0DnsResolver

/-- A label that text can carry: UTF-8 without a dot. -/
def IsText (label : Bytes) : Prop := ∃ s, label = Utf8.encode s ∧ '.' ∉ s

/-! ## Letter case of bytes -/

theorem asciiLower_of_high {b : UInt8} (h : 128 ≤ b) : asciiLower b = b := by
  refine if_neg fun hc => ?_
  have h1 := UInt8.le_iff_toNat_le.mp hc.2
  have h2 := UInt8.le_iff_toNat_le.mp h
  simp at h1 h2
  omega

theorem asciiLower_lt (b : UInt8) : asciiLower b < 128 ↔ b < 128 := by
  unfold asciiLower
  split
  · next h =>
    have h1 := UInt8.le_iff_toNat_le.mp h.1
    have h2 := UInt8.le_iff_toNat_le.mp h.2
    simp only [UInt8.lt_iff_toNat_lt, UInt8.toNat_add]
    simp at h1 h2 ⊢
    omega
  · rfl

/-- A byte that lowers to one from 128 on is that byte. -/
theorem eq_of_asciiLower_high {b c : UInt8} (h : asciiLower b = c) (hc : 128 ≤ c) : b = c := by
  have hb : 128 ≤ b := by
    rw [← UInt8.not_lt, ← asciiLower_lt, h, UInt8.not_lt]
    exact hc
  rw [← h, asciiLower_of_high hb]

/-- A byte below 128 is a character of its own. -/
theorem encode_of_low {b : UInt8} (h : b < 128) : Utf8.encode [Char.ofNat b.toNat] = [b] := by
  have hall : ∀ n < 128, Utf8.encode [Char.ofNat n] = [UInt8.ofNat n] := by decide
  rw [hall b.toNat (UInt8.lt_iff_toNat_lt.mp h), UInt8.ofNat_toNat]

theorem eq_of_map_asciiLower_high {bs cs : Bytes} (h : bs.map asciiLower = cs)
    (hcs : ∀ c ∈ cs, 128 ≤ c) : bs = cs := by
  induction bs generalizing cs with
  | nil => exact h
  | cons b bs ih =>
    cases cs with
    | nil => simp at h
    | cons c cs =>
      simp only [List.map_cons, List.cons.injEq] at h
      rw [eq_of_asciiLower_high h.1 (hcs c List.mem_cons_self),
        ih h.2 fun c' hc' => hcs c' (List.mem_cons_of_mem c hc')]

theorem map_asciiLower_of_high {bs : Bytes} (h : ∀ b ∈ bs, 128 ≤ b) : bs.map asciiLower = bs :=
  (List.map_congr_left fun b hb => asciiLower_of_high (h b hb)).trans (List.map_id bs)

/-- Bytes that are some text's up to ASCII case are a text's. -/
theorem encode_of_fold {label : Bytes} {s : Str}
    (h : label.map asciiLower = (Utf8.encode s).map asciiLower) : ∃ t, label = Utf8.encode t := by
  induction s generalizing label with
  | nil => exact ⟨[], List.map_eq_nil_iff.mp h⟩
  | cons c s ih =>
    rw [Utf8.encode_cons, List.map_append] at h
    obtain ⟨first, rest, rfl, hfirst, hrest⟩ := List.map_eq_append_iff.mp h
    obtain ⟨t, rfl⟩ := ih hrest
    -- A character of one byte differs in case at most, one of several bytes not at all.
    rcases Utf8.encodeChar_cases c with ⟨b, hb, hlow, -⟩ | hhigh
    · rw [hb] at hfirst
      obtain ⟨b', rfl, hb'⟩ := List.map_eq_singleton_iff.mp hfirst
      have hlow' : b' < 128 := by
        rw [← asciiLower_lt, hb', asciiLower_lt]
        exact hlow
      refine ⟨Char.ofNat b'.toNat :: t, ?_⟩
      rw [← encode_of_low hlow', ← Utf8.encode_append]
      rfl
    · rw [map_asciiLower_of_high hhigh] at hfirst
      refine ⟨c :: t, ?_⟩
      rw [eq_of_map_asciiLower_high hfirst hhigh, Utf8.encode_cons]

/-! ## The trip through text -/

section Trip

variable {S : SimpleDns} {render : Bytes → Str}

/-- Labels that are UTF-8 are rendered as the texts they encode. -/
theorem toString_of_encode (hS : S.NamesAsText render) (texts : List Str) :
    S.nameToString ⟨texts.map Utf8.encode⟩ = ['.'].intercalate texts := by
  rw [hS.toString_eq, List.map_map]
  have hid : texts.map (render ∘ Utf8.encode) = texts := by
    calc texts.map (render ∘ Utf8.encode) = texts.map id :=
          List.map_congr_left fun s _ => hS.render_encode s
      _ = texts := List.map_id texts
  rw [hid]

theorem exists_texts {labels : List Bytes} (h : ∀ label ∈ labels, ∃ s, label = Utf8.encode s) :
    ∃ texts : List Str, labels = texts.map Utf8.encode := by
  induction labels with
  | nil => exact ⟨[], rfl⟩
  | cons label labels ih =>
    obtain ⟨s, rfl⟩ := h label List.mem_cons_self
    obtain ⟨texts, rfl⟩ := ih fun l hl => h l (List.mem_cons_of_mem _ hl)
    exact ⟨s :: texts, rfl⟩

/-- A wire name whose labels are texts without dots reads back as itself. -/
theorem nameNew_toString (hS : S.NamesAsText render) {target : Name} (hwire : target.Wire)
    (htext : ∀ label ∈ target.labels, IsText label) (hne : target.labels ≠ []) :
    S.nameNew (S.nameToString target) = some target := by
  obtain ⟨labels⟩ := target
  obtain ⟨texts, rfl⟩ := exists_texts fun label hl => (htext label hl).imp fun s hs => hs.1
  have hdots : ∀ s ∈ texts, '.' ∉ s := by
    intro s hs
    obtain ⟨t, ht, hdot⟩ := htext _ (List.mem_map_of_mem hs)
    rw [Utf8.encode_injective ht]
    exact hdot
  have hsplit : (['.'].intercalate texts).splitOn '.' = texts :=
    List.splitOn_intercalate '.' hdots fun h => hne (by rw [h, List.map_nil])
  have haccept := hS.new_accepts (['.'].intercalate texts)
  rw [hsplit] at haccept
  rw [toString_of_encode hS]
  exact haccept hwire

theorem sum_length_encode (ss : List Str) :
    ((ss.map Utf8.encode).map List.length).sum = (Utf8.encode ss.flatten).length := by
  rw [Utf8.encode_flatten, List.length_flatten]

/-- Leaving characters out leaves bytes out. -/
theorem eq_of_length_encode_filter {s : Str} {p : Char → Bool}
    (h : (Utf8.encode (s.filter p)).length = (Utf8.encode s).length) : s.filter p = s := by
  have hle : ∀ s : Str, (Utf8.encode (s.filter p)).length ≤ (Utf8.encode s).length := by
    intro s
    induction s with
    | nil => exact Nat.le_refl _
    | cons c s ih =>
      rw [List.filter_cons]
      split <;> simp only [Utf8.encode_cons, List.length_append] <;> omega
  induction s with
  | nil => rfl
  | cons c s ih =>
    rw [List.filter_cons] at h ⊢
    have hpos := Utf8.length_encodeChar_pos c
    have hs := hle s
    split at h
    · next hc =>
      rw [if_pos hc]
      simp only [Utf8.encode_cons, List.length_append] at h
      rw [ih (by omega)]
    · simp only [Utf8.encode_cons, List.length_append] at h
      omega

theorem length_folded (name : Name) :
    (name.folded.map List.length).sum = (name.labels.map List.length).sum := by
  unfold Name.folded
  rw [List.map_map]
  exact congrArg List.sum (List.map_congr_left fun label _ => List.length_map asciiLower)

/-- A name that reads back as itself, up to ASCII case, has texts without dots for labels. -/
theorem isText_of_nameNew (hS : S.NamesAsText render) {target name : Name}
    (hname : S.nameNew (S.nameToString target) = some name)
    (hsame : namesEqual name target = true) : ∀ label ∈ target.labels, IsText label := by
  have hlabels := hS.new_labels _ _ hname
  have hfold : name.folded = target.folded := (namesEqual_iff _ _).mp hsame
  -- Every label is UTF-8, since it is a piece of the text up to case.
  have hutf8 : ∀ label ∈ target.labels, ∃ s, label = Utf8.encode s := by
    intro label hl
    have hmem : label.map asciiLower ∈ name.folded := by
      rw [hfold]
      exact List.mem_map_of_mem hl
    obtain ⟨piece, hpiece, heq⟩ := List.mem_map.mp hmem
    rw [hlabels] at hpiece
    obtain ⟨s, -, rfl⟩ := List.mem_map.mp hpiece
    exact encode_of_fold heq.symm
  obtain ⟨labels⟩ := target
  obtain ⟨texts, rfl⟩ := exists_texts hutf8
  rw [toString_of_encode hS] at hlabels
  -- The pieces hold as many bytes as the labels, so no byte of a label was a separator.
  have hcount : (Utf8.encode (texts.flatten.filter (· ≠ '.'))).length =
      (Utf8.encode texts.flatten).length := by
    calc (Utf8.encode (texts.flatten.filter (· ≠ '.'))).length
        = (name.labels.map List.length).sum := by
          rw [hlabels, sum_length_encode, Utf8.flatten_filter_ne_nil, Utf8.flatten_splitOn,
            Utf8.filter_intercalate]
      _ = (name.folded.map List.length).sum := (length_folded name).symm
      _ = ((texts.map Utf8.encode).map List.length).sum := by rw [hfold, length_folded]
      _ = (Utf8.encode texts.flatten).length := sum_length_encode texts
  have hdots := List.filter_eq_self.mp (eq_of_length_encode_filter hcount)
  intro label hl
  obtain ⟨s, hs, rfl⟩ := List.mem_map.mp hl
  exact ⟨s, rfl, fun hdot => by simpa using hdots '.' (List.mem_flatten.mpr ⟨s, hs, hdot⟩)⟩

/-- The text of a wire name reads back as that name exactly when its labels are texts without dots;
the text of the root is empty, and reads back if that is a valid name. -/
theorem reads_back_iff (hS : S.NamesAsText render) {target : Name} (hwire : target.Wire) :
    (∃ name, S.nameNew (S.nameToString target) = some name ∧ namesEqual name target = true) ↔
      (∀ label ∈ target.labels, IsText label) ∧
        (target.labels = [] → (S.nameNew []).isSome = true) := by
  have hroot : target.labels = [] → S.nameToString target = [] := by
    intro h
    rw [hS.toString_eq, h]
    rfl
  constructor
  · rintro ⟨name, hname, hsame⟩
    refine ⟨isText_of_nameNew hS hname hsame, fun h => ?_⟩
    rw [hroot h] at hname
    simp [hname]
  · rintro ⟨htext, hempty⟩
    by_cases h : target.labels = []
    · obtain ⟨name, hname⟩ := Option.isSome_iff_exists.mp (hempty h)
      refine ⟨name, by rw [hroot h]; exact hname, ?_⟩
      have hlabels : name.labels = [] := hS.new_labels [] name hname
      rw [namesEqual_iff]
      simp [Name.folded, h, hlabels]
    · exact ⟨target, nameNew_toString hS hwire htext h, by simp [namesEqual_iff]⟩

end Trip

/-! ## The next query -/

section Next

variable (S : SimpleDns) (net : Network)

/-- What is asked for in the iteration after one that leads to `target`. -/
theorem next_asks {qtype : TYPE} {host target : Str} {log : List Exchange} {x : Exchange}
    (hasked : Asked S net qtype host log x) (hreading : x.reading S qtype = .inr target)
    (fuel : Nat) (P : Exchange → Prop) :
    (∃ y, log ++ [x, y] <+: (followCnames S net qtype (fuel + 2) host log).2.2 ∧ P y) ↔
      ∃ y, Asked S net qtype target (log ++ [x]) y ∧ P y := by
  have hlog : (followCnames S net qtype (fuel + 2) host log).2.2 =
      (followCnames S net qtype (fuel + 1) target (log ++ [x])).2.2 := by
    rw [(followCnames_of_asked S net hasked (fuel + 1)).2, hreading]
  rw [hlog]
  rcases asked_or_invalid S net qtype target (log ++ [x]) with ⟨y, hy⟩ | hinvalid
  · have hsent : log ++ [x, y] <+: (followCnames S net qtype (fuel + 1) target (log ++ [x])).2.2 := by
      rw [(followCnames_of_asked S net hy fuel).2, List.append_cons]
      cases y.reading S qtype with
      | inl r => exact List.prefix_refl _
      | inr next => exact followCnames_log S net qtype fuel next _
    constructor
    · rintro ⟨z, hz, hP⟩
      have heq : log ++ [x, z] = log ++ [x, y] :=
        List.IsPrefix.eq_of_length (List.prefix_of_prefix_length_le hz hsent (by simp)) (by simp)
      have hzy : z = y := by simpa using heq
      exact ⟨y, hy, hzy ▸ hP⟩
    · rintro ⟨z, hz, hP⟩
      rw [hz.unique S net hy] at hP
      exact ⟨y, hsent, hP⟩
  · rw [hinvalid fuel]
    constructor
    · rintro ⟨y, hy, -⟩
      have hlen := hy.length_le
      simp at hlen
    · rintro ⟨y, hy, -⟩
      have hinv := (followCnames_of_asked S net hy 0).2
      rw [hinvalid 0] at hinv
      cases hr : y.reading S qtype <;> simp [hr, followCnames] at hinv

/-- A wire name of another letter case is a wire name. -/
theorem wire_of_namesEqual {name target : Name} (h : namesEqual name target = true)
    (hwire : target.Wire) : name.Wire := by
  have hfold : name.folded = target.folded := (namesEqual_iff _ _).mp h
  have hlens : name.labels.map List.length = target.labels.map List.length := by
    have hlen : ∀ n : Name, n.folded.map List.length = n.labels.map List.length := fun n => by
      simp [Name.folded]
    rw [← hlen, hfold, hlen]
  have hplus : ∀ n : Name, n.labels.map (·.length + 1) = (n.labels.map List.length).map (· + 1) :=
    fun n => by simp
  constructor
  · intro label hl
    have hmem : label.length ∈ target.labels.map List.length :=
      hlens ▸ List.mem_map_of_mem hl
    obtain ⟨label', hl', heq⟩ := List.mem_map.mp hmem
    rw [← heq]
    exact hwire.label label' hl'
  · have htotal := hwire.total
    unfold wireLen at htotal ⊢
    rw [hplus, hlens, ← hplus]
    exact htotal

/-- A followed target is asked for under its own name, up to ASCII case, exactly when its labels are
texts without dots, and for the root when the empty text is a valid name. -/
theorem asks_target_iff {render : Bytes → Str} (hS : S.NamesAsText render) (hB : S.BuildsQueries)
    {qtype : TYPE} {host : Str} {log : List Exchange} {x : Exchange} {response : Bytes}
    {packet : Packet} {target : Name} (hasked : Asked S net qtype host log x)
    (hreply : x.result = .ok response) (hparsed : parsedPacket S response = .ok packet)
    (hchecked : checkResponse packet x.query.id x.query.name qtype = .ok ())
    (htarget : unresolvedTargetName packet x.query.name qtype = some target)
    (hwire : target.Wire) (fuel : Nat) :
    (∃ y, log ++ [x, y] <+: (followCnames S net qtype (fuel + 2) host log).2.2 ∧
        namesEqual y.query.name target = true) ↔
      (∀ label ∈ target.labels, IsText label) ∧
        (target.labels = [] → (S.nameNew []).isSome = true) := by
  have hreading : x.reading S qtype = .inr (S.nameToString target) := by
    rw [reading_of_validated S hreply hparsed hchecked, htarget]
  rw [next_asks S net hasked hreading, ← reads_back_iff hS hwire]
  constructor
  · rintro ⟨y, hy, hsame⟩
    exact ⟨y.query.name, hy.name_eq, hsame⟩
  · rintro ⟨name, hname, hsame⟩
    obtain ⟨y, hy, hyname⟩ := exists_asked S net (log ++ [x]) hname
      (hB _ name qtype (wire_of_namesEqual hsame hwire))
    exact ⟨y, hy, by rw [hyname]; exact hsame⟩

end Next

/-! ## Runs on two targets -/

/-- A reply to `www. A` that leaves its chain at `target`. -/
def targetReply (target : Name) : Packet where
  id := 4660
  flags := [.response, .recursionDesired]
  rcode := .noError
  questions := [⟨⟨[asciiBytes "www"]⟩, .TYPE .A, .CLASS .IN⟩]
  answers := [⟨⟨[asciiBytes "www"]⟩, .IN, 60, .cname target⟩]
  nameServers := []
  opt := none

def targetDns (target : Name) : SimpleDns :=
  SimpleDns.ofTexts [(targetReply target, (targetReply target).wire)]

/-- Answers the first query with the reply, and no other. -/
def targetNet (target : Name) : Network where
  randomId _ := 4660
  sendQuery log _ := (if log = [] then .ok (targetReply target).wire else .error .noResponse, 0)

/-- The exchange that ends with the reply. -/
def targetExchange (target : Name) : Exchange where
  query := ⟨"www".toList, ⟨[asciiBytes "www"]⟩, .A, 4660,
    (queryPacket 4660 ⟨[asciiBytes "www"]⟩ .A).wire⟩
  result := .ok (targetReply target).wire

def cdnName : Name := ⟨[asciiBytes "cdn", asciiBytes "example"]⟩

/-- One label, with a dot in it. -/
def dottedName : Name := ⟨[asciiBytes "a.b"]⟩

theorem cdnName_isText : ∀ label ∈ cdnName.labels, IsText label := by
  intro label hl
  have hlabels : cdnName.labels = [Utf8.encode "cdn".toList, Utf8.encode "example".toList] := by
    decide
  rw [hlabels, List.mem_cons, List.mem_singleton] at hl
  rcases hl with rfl | rfl
  · exact ⟨"cdn".toList, rfl, by decide⟩
  · exact ⟨"example".toList, rfl, by decide⟩

theorem asks_target_iff_cdn :
    ∃ y, [] ++ [targetExchange cdnName, y] <+:
        (followCnames (targetDns cdnName) (targetNet cdnName) .A (0 + 2) "www".toList []).2.2 ∧
      namesEqual y.query.name cdnName = true := by
  have hparsed : parsedPacket (targetDns cdnName) (targetReply cdnName).wire =
      .ok (targetReply cdnName) := by rfl
  exact (asks_target_iff (targetDns cdnName) (targetNet cdnName)
    (SimpleDns.ofTexts_namesAsText _) (fun _ _ _ _ => rfl)
    ⟨by rfl, by rfl, rfl, rfl, by rfl, by rfl⟩ rfl hparsed (by rfl) (by decide)
    ⟨by decide, by decide⟩ 0).mpr ⟨cdnName_isText, fun h => absurd h (by decide)⟩

/-- A target of the one label `a.b` is followed by a query for the two labels `a` and `b`. -/
theorem dotted_target_asks_another :
    Asked (targetDns dottedName) (targetNet dottedName) .A "www".toList []
        (targetExchange dottedName) ∧
      unresolvedTargetName (targetReply dottedName) ⟨[asciiBytes "www"]⟩ .A = some dottedName ∧
      dottedName.Wire ∧
      ((followCnames (targetDns dottedName) (targetNet dottedName) .A 2 "www".toList []).2.2.map
          fun x => x.query.name) =
        [⟨[asciiBytes "www"]⟩, ⟨[asciiBytes "a", asciiBytes "b"]⟩] ∧
      ¬ ∃ y, [] ++ [targetExchange dottedName, y] <+:
          (followCnames (targetDns dottedName) (targetNet dottedName) .A 2 "www".toList []).2.2 ∧
        namesEqual y.query.name dottedName = true := by
  have hnames : ((followCnames (targetDns dottedName) (targetNet dottedName) .A 2
      "www".toList []).2.2.map fun x => x.query.name) =
        [⟨[asciiBytes "www"]⟩, ⟨[asciiBytes "a", asciiBytes "b"]⟩] := by rfl
  refine ⟨⟨by rfl, by rfl, rfl, rfl, by rfl, by rfl⟩, by decide, ⟨by decide, by decide⟩, hnames, ?_⟩
  rintro ⟨y, hy, hsame⟩
  have hsent := hy.map fun x => x.query.name
  rw [hnames] at hsent
  have hname : y.query.name = ⟨[asciiBytes "a", asciiBytes "b"]⟩ := by
    have hboth := List.IsPrefix.eq_of_length hsent rfl
    exact (List.cons.inj (List.cons.inj hboth).2).1
  rw [hname] at hsame
  exact absurd hsame (by decide)

end N0DnsResolver
