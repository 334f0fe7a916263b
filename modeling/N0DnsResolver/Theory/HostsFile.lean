/-
  What the hosts file maps, and what lookups find.

  A line of the file maps its names to its address. A lookup compares the normal form of
  the query with the keys of the file, and the keys are lowercase names: a dot at the end
  of a name stays in its key, where no query for that name looks for it. So lookups find
  what the file maps exactly for the files that write no such dot.
-/
import N0DnsResolver.Model.HostsFile
import Mathlib.Data.List.Induction

namespace N0DnsResolver

/-! ## What a file maps -/

/-- The address a line maps its names to, and the names. -/
def mappedLine (line : Str) : Option (IpAddr × List Str) :=
  match splitAsciiWhitespace (beforeComment line) with
  | [] => none
  | addr :: names => (parseIpAddr addr).map fun addr => (addr, names)

/-- The names of the file, each with the address of its line, in the order of the file. -/
def mappings (content : Str) : List (Str × IpAddr) :=
  ((strLines (stripBom content)).filterMap mappedLine).flatMap fun line =>
    line.2.map fun name => (name, line.1)

/-- The address, if it is an IPv4 address. -/
def IpAddr.ipv4 : IpAddr → Option Ipv4Addr
  | .v4 ip => some ip
  | .v6 _ => none

/-- The address, if it is an IPv6 address. -/
def IpAddr.ipv6 : IpAddr → Option Ipv6Addr
  | .v4 _ => none
  | .v6 ip => some ip

section Family

variable {T : Type}

/-- The mappings to addresses of one family. -/
def ofFamily (family : IpAddr → Option T) (maps : List (Str × IpAddr)) : List (Str × T) :=
  maps.filterMap fun m => (family m.2).map fun ip => (m.1, ip)

/-- The addresses of the names that `p` holds of. -/
def addressesOf (p : Str → Bool) (maps : List (Str × T)) : List T :=
  (maps.filter fun m => p m.1).map Prod.snd

/-- The addresses, if there are any. -/
def someAddresses : List T → Option (List T)
  | [] => none
  | addr :: addrs => some (addr :: addrs)

/-- What a query is to find: the addresses of the names with its normal form. -/
def mappedTo (family : IpAddr → Option T) (content q : Str) : Option (List T) :=
  someAddresses
    (addressesOf (fun name => normalize name = normalize q) (ofFamily family (mappings content)))

/-- The addresses of the names with this key. -/
def addressesUnder (key : Str) (maps : List (Str × T)) : List T :=
  addressesOf (fun name => Hosts.fileKey name = key) maps

/-- The names with normal form `n` are, up to their addresses, the names with key `n`. -/
def KeysAgree (n : Str) (maps : List (Str × T)) : Prop :=
  if n.getLast? = some '.' then addressesUnder n maps = addressesUnder (n ++ ['.']) maps
  else ∀ m ∈ maps, Hosts.fileKey m.1 ≠ n ++ ['.']

theorem someAddresses_inj {l l' : List T} : someAddresses l = someAddresses l' ↔ l = l' := by
  constructor
  · intro h
    cases l <;> cases l'
    · rfl
    · cases h
    · cases h
    · exact Option.some.inj h
  · intro h
    rw [h]

theorem getD_someAddresses (l : List T) : (someAddresses l).getD [] = l := by
  cases l <;> rfl

theorem someAddresses_append (l : List T) (addr : T) :
    someAddresses (l ++ [addr]) = some (l ++ [addr]) := by
  cases l <;> rfl

theorem ofFamily_append (family : IpAddr → Option T) (maps maps' : List (Str × IpAddr)) :
    ofFamily family (maps ++ maps') = ofFamily family maps ++ ofFamily family maps' :=
  List.filterMap_append

theorem addressesOf_append (p : Str → Bool) (maps maps' : List (Str × T)) :
    addressesOf p (maps ++ maps') = addressesOf p maps ++ addressesOf p maps' := by
  unfold addressesOf
  rw [List.filter_append, List.map_append]

theorem addressesOf_eq_nil {p : Str → Bool} {maps : List (Str × T)} :
    addressesOf p maps = [] ↔ ∀ m ∈ maps, p m.1 = false := by
  unfold addressesOf
  rw [List.map_eq_nil_iff, List.filter_eq_nil_iff]
  simp

/-- Of two conditions, one of them stronger, both pick the same addresses exactly when both pick the
same names. -/
theorem addressesOf_eq_iff {p p' : Str → Bool} (himp : ∀ name, p name = true → p' name = true)
    (maps : List (Str × T)) :
    addressesOf p maps = addressesOf p' maps ↔ ∀ m ∈ maps, p' m.1 = true → p m.1 = true := by
  constructor
  · intro h m hm hp'
    have hlength : (maps.filter fun m => p m.1).length = (maps.filter fun m => p' m.1).length := by
      simpa [addressesOf] using congrArg List.length h
    have hsub : (maps.filter fun m => p m.1).Sublist (maps.filter fun m => p' m.1) :=
      List.monotone_filter_right maps fun m => himp m.1
    have hmem : m ∈ maps.filter fun m => p m.1 := by
      rw [hsub.eq_of_length hlength]
      exact List.mem_filter.mpr ⟨hm, hp'⟩
    exact (List.mem_filter.mp hmem).2
  · intro h
    unfold addressesOf
    apply congrArg
    apply List.filter_congr
    intro m hm
    exact Bool.eq_iff_iff.mpr ⟨himp m.1, h m hm⟩

end Family

/-! ## The parser -/

/-- The body of the loop enters what the line maps. -/
theorem parseLine_eq (hosts : Hosts) (line : Str) :
    Hosts.parseLine hosts line = match mappedLine line with
      | none => hosts
      | some (addr, names) => names.foldl (Hosts.enter addr) hosts := by
  have hfields : splitAsciiWhitespace (trimAscii (beforeComment line)) =
      splitAsciiWhitespace (beforeComment line) := Fields.fields_trimEnds _
  unfold Hosts.parseLine mappedLine
  simp only [hfields]
  split
  · next hempty =>
    rw [← hfields, hempty]
    rfl
  · cases splitAsciiWhitespace (beforeComment line) with
    | nil => rfl
    | cons addr names => cases h : parseIpAddr addr <;> simp [h]

/-- The file is parsed into the entry of each of its mappings, in their order. -/
theorem parse_eq (content : Str) :
    Hosts.parse content =
      (mappings content).foldl (fun hosts m => Hosts.enter m.2 hosts m.1) {} := by
  unfold Hosts.parse mappings
  generalize ({} : Hosts) = hosts
  induction strLines (stripBom content) generalizing hosts with
  | nil => rfl
  | cons line lines ih =>
    rw [List.foldl_cons, parseLine_eq, ih]
    cases hline : mappedLine line with
    | none => rw [List.filterMap_cons_none hline]
    | some mapped =>
      rw [List.filterMap_cons_some hline, List.flatMap_cons, List.foldl_append, List.foldl_map]

section Read

variable {T : Type} {family : IpAddr → Option T} {read : Hosts → NameMap T}

/-- `read` is the map of one family: an address of the family is pushed there, and one of the other
leaves it alone. -/
def ReadsFamily (family : IpAddr → Option T) (read : Hosts → NameMap T) : Prop :=
  read {} = [] ∧
    ∀ addr hosts name, read (Hosts.enter addr hosts name) = match family addr with
      | none => read hosts
      | some ip => NameMap.push (read hosts) (Hosts.fileKey name) ip

/-- After any entries, the addresses of a key are those entered under it, in their order. -/
theorem addrs_enter (h : ReadsFamily family read) (maps : List (Str × IpAddr)) (key : Str) :
    NameMap.addrs (read (maps.foldl (fun hosts m => Hosts.enter m.2 hosts m.1) {})) key =
      someAddresses (addressesUnder key (ofFamily family maps)) := by
  induction maps using List.reverseRecOn with
  | nil =>
    rw [List.foldl_nil, h.1]
    rfl
  | append_singleton maps m ih =>
    rw [List.foldl_append, List.foldl_cons, List.foldl_nil, h.2, ofFamily_append]
    unfold addressesUnder at ih ⊢
    rw [addressesOf_append]
    cases hm : family m.2 with
    | none =>
      have hnone : ofFamily family [m] = [] := by simp [ofFamily, hm]
      simp only [hnone]
      rw [ih]
      exact congrArg someAddresses (List.append_nil _).symm
    | some ip =>
      have hsome : ofFamily family [m] = [(m.1, ip)] := by simp [ofFamily, hm]
      simp only [hsome]
      rw [NameMap.addrs_push, ih, getD_someAddresses]
      by_cases hkey : Hosts.fileKey m.1 = key
      · have hone : addressesOf (fun name => Hosts.fileKey name = key) [(m.1, ip)] = [ip] := by
          simp [addressesOf, hkey]
        rw [if_pos hkey, hone, someAddresses_append]
      · have hnone : addressesOf (fun name => Hosts.fileKey name = key) [(m.1, ip)] = [] := by
          simp [addressesOf, hkey]
        rw [if_neg hkey, hnone, List.append_nil]

end Read

theorem readsFamily_ipv4 : ReadsFamily IpAddr.ipv4 Hosts.a := by
  refine ⟨rfl, fun addr hosts name => ?_⟩
  cases addr <;> rfl

theorem readsFamily_ipv6 : ReadsFamily IpAddr.ipv6 Hosts.aaaa := by
  refine ⟨rfl, fun addr hosts name => ?_⟩
  cases addr <;> rfl

/-- A lookup on a parsed file: the addresses of the names whose key is the normal form of the
query. -/
theorem lookupIpv4_parse (content q : Str) :
    (Hosts.parse content).lookupIpv4 q =
      someAddresses (addressesUnder (normalize q) (ofFamily IpAddr.ipv4 (mappings content))) := by
  rw [parse_eq]
  exact addrs_enter readsFamily_ipv4 _ _

theorem lookupIpv6_parse (content q : Str) :
    (Hosts.parse content).lookupIpv6 q =
      someAddresses (addressesUnder (normalize q) (ofFamily IpAddr.ipv6 (mappings content))) := by
  rw [parse_eq]
  exact addrs_enter readsFamily_ipv6 _ _

/-! ## Keys and normal forms -/

theorem toLower_eq_dot {c : Char} : c.toLower = '.' ↔ c = '.' := by
  constructor
  · intro h
    unfold Char.toLower at h
    split at h
    · next hupper =>
      exfalso
      have hval : c.val + ('a'.val - 'A'.val) = '.'.val := congrArg Char.val h
      have hnat := congrArg UInt32.toNat hval
      rw [UInt32.toNat_add] at hnat
      have hlow : 65 ≤ c.val.toNat := hupper.1
      have hhigh : c.val.toNat ≤ 90 := hupper.2
      change (c.val.toNat + 32) % 4294967296 = 46 at hnat
      omega
    · exact h
  · intro h
    rw [h]
    rfl

theorem fileKey_getLast? (name : Str) :
    (Hosts.fileKey name).getLast? = some '.' ↔ name.getLast? = some '.' := by
  unfold Hosts.fileKey
  rw [List.getLast?_map]
  cases name.getLast? with
  | none => simp
  | some c => simp [toLower_eq_dot]

/-- The normal form of a name drops the dot at the end of its key. -/
theorem normalize_eq_iff (name n : Str) :
    normalize name = n ↔
      Hosts.fileKey name = n ++ ['.'] ∨ (Hosts.fileKey name = n ∧ n.getLast? ≠ some '.') := by
  have hlast := fileKey_getLast? name
  rw [normalize_eq]
  unfold stripDot
  by_cases hdot : name.getLast? = some '.'
  · have hkey : Hosts.fileKey name = name.dropLast.map Char.toLower ++ ['.'] := by
      conv_lhs => rw [← List.dropLast_append_getLast? '.' hdot]
      unfold Hosts.fileKey
      rw [List.map_append]
      rfl
    rw [if_pos hdot, hkey, List.append_left_inj]
    constructor
    · exact .inl
    · rintro (h | ⟨h, hn⟩)
      · exact h
      · rw [hkey] at hlast
        rw [← h] at hn
        exact absurd (hlast.mpr hdot) hn
  · rw [if_neg hdot]
    constructor
    · intro h
      exact .inr ⟨h, fun hn => hdot (hlast.mp (by rw [← hn, ← h]; rfl))⟩
    · rintro (h | ⟨h, -⟩)
      · rw [h] at hlast
        exact absurd (hlast.mp (by simp)) hdot
      · exact h

theorem normalize_dot (name : Str) : normalize (name ++ ['.']) = Hosts.fileKey name := by
  rw [normalize_eq]
  unfold stripDot
  rw [if_pos (by simp), List.dropLast_concat]
  rfl

section Agree

variable {T : Type}

/-- The keys give what the normal forms do exactly when they agree. -/
theorem addressesUnder_eq_iff (n : Str) (maps : List (Str × T)) :
    addressesUnder n maps = addressesOf (fun name => normalize name = n) maps ↔
      KeysAgree n maps := by
  unfold KeysAgree
  by_cases hn : n.getLast? = some '.'
  · have hsame : (fun name => decide (normalize name = n)) =
        fun name => decide (Hosts.fileKey name = n ++ ['.']) := by
      funext name
      simp [normalize_eq_iff, hn]
    rw [if_pos hn, hsame]
    rfl
  · have himp : ∀ name, decide (Hosts.fileKey name = n) = true →
        decide (normalize name = n) = true := by
      intro name h
      have hkey := of_decide_eq_true h
      exact decide_eq_true ((normalize_eq_iff name n).mpr (.inr ⟨hkey, hn⟩))
    rw [if_neg hn]
    unfold addressesUnder
    rw [addressesOf_eq_iff himp]
    apply forall₂_congr
    intro m hm
    simp only [decide_eq_true_eq, normalize_eq_iff]
    constructor
    · intro h hkey
      have hkey' := h (.inl hkey)
      have hlength := congrArg List.length (hkey.symm.trans hkey')
      simp at hlength
    · rintro h (hkey | ⟨hkey, -⟩)
      · exact absurd hkey h
      · exact hkey

/-- Where the keys of every query agree, no name has a key that ends with a dot: by induction on the
dots, each such key has the addresses of the one with a dot less. -/
theorem fileKey_ne_of_keysAgree {maps : List (Str × T)}
    (h : ∀ q, KeysAgree (normalize q) maps) (s : Str) (hs : s.getLast? = some '.') :
    ∀ m ∈ maps, Hosts.fileKey m.1 ≠ Hosts.fileKey s := by
  induction s using List.reverseRecOn with
  | nil => cases hs
  | append_singleton s c ih =>
    have hdot : c = '.' := by simpa using hs
    have hkey : Hosts.fileKey (s ++ [c]) = Hosts.fileKey s ++ ['.'] := by
      rw [hdot]
      exact List.map_append
    have hagree := h (s ++ ['.'])
    rw [normalize_dot] at hagree
    unfold KeysAgree at hagree
    rw [hkey]
    by_cases hlast : (Hosts.fileKey s).getLast? = some '.'
    · have hempty : addressesUnder (Hosts.fileKey s) maps = [] :=
        addressesOf_eq_nil.mpr fun m hm =>
          decide_eq_false (ih ((fileKey_getLast? s).mp hlast) m hm)
      rw [if_pos hlast, hempty] at hagree
      intro m hm
      exact of_decide_eq_false (addressesOf_eq_nil.mp hagree.symm m hm)
    · rwa [if_neg hlast] at hagree

/-- The keys of a query agree where no name ends with a dot. -/
theorem keysAgree_of_undotted {maps : List (Str × T)} (h : ∀ m ∈ maps, m.1.getLast? ≠ some '.')
    (n : Str) : KeysAgree n maps := by
  have hkey : ∀ n, ∀ m ∈ maps, Hosts.fileKey m.1 ≠ n ++ ['.'] := by
    intro n m hm heq
    apply h m hm
    rw [← fileKey_getLast?, heq]
    simp
  have hempty : ∀ n, addressesUnder (n ++ ['.']) maps = [] := fun n =>
    addressesOf_eq_nil.mpr fun m hm => decide_eq_false (hkey n m hm)
  unfold KeysAgree
  split
  · next hlast =>
    obtain ⟨base, rfl⟩ : ∃ base, n = base ++ ['.'] :=
      ⟨_, (List.dropLast_append_getLast? '.' hlast).symm⟩
    rw [hempty, hempty]
  · exact hkey n

/-- The keys of every query agree exactly when no name ends with a dot. -/
theorem keysAgree_forall_iff (maps : List (Str × T)) :
    (∀ q, KeysAgree (normalize q) maps) ↔ ∀ m ∈ maps, m.1.getLast? ≠ some '.' := by
  constructor
  · intro h m hm hdot
    exact fileKey_ne_of_keysAgree h m.1 hdot m hm rfl
  · intro h q
    exact keysAgree_of_undotted h (normalize q)

end Agree

/-! ## Lookups -/

/-- Both lookups of a query find what the file maps its name to. -/
def FindsMapped (content q : Str) : Prop :=
  (Hosts.parse content).lookupIpv4 q = mappedTo IpAddr.ipv4 content q ∧
    (Hosts.parse content).lookupIpv6 q = mappedTo IpAddr.ipv6 content q

/-- The names a family maps are names of the file, and each name of the file is of one family. -/
theorem forall_mappings_iff (p : Str → Prop) (maps : List (Str × IpAddr)) :
    (∀ m ∈ maps, p m.1) ↔
      (∀ m ∈ ofFamily IpAddr.ipv4 maps, p m.1) ∧ ∀ m ∈ ofFamily IpAddr.ipv6 maps, p m.1 := by
  constructor
  · intro h
    refine ⟨fun m hm => ?_, fun m hm => ?_⟩
    all_goals
      obtain ⟨m', hm', heq⟩ := List.mem_filterMap.mp hm
      obtain ⟨ip, -, rfl⟩ := Option.map_eq_some_iff.mp heq
      exact h m' hm'
  · rintro ⟨h4, h6⟩ ⟨name, addr⟩ hm
    cases addr with
    | v4 ip => exact h4 (name, ip) (List.mem_filterMap.mpr ⟨_, hm, rfl⟩)
    | v6 ip => exact h6 (name, ip) (List.mem_filterMap.mpr ⟨_, hm, rfl⟩)

theorem findsMapped_iff (content q : Str) :
    FindsMapped content q ↔
      KeysAgree (normalize q) (ofFamily IpAddr.ipv4 (mappings content)) ∧
        KeysAgree (normalize q) (ofFamily IpAddr.ipv6 (mappings content)) := by
  unfold FindsMapped mappedTo
  rw [lookupIpv4_parse, lookupIpv6_parse, someAddresses_inj, someAddresses_inj,
    addressesUnder_eq_iff, addressesUnder_eq_iff]

/-- On a file, every query finds what its name is mapped to exactly when no name on an address line
ends with a dot; a single query does exactly when the keys agree for its normal form. -/
theorem hosts_lookup_iff (content : Str) :
    ((∀ q, FindsMapped content q) ↔ ∀ m ∈ mappings content, m.1.getLast? ≠ some '.') ∧
      ∀ q, FindsMapped content q ↔
        KeysAgree (normalize q) (ofFamily IpAddr.ipv4 (mappings content)) ∧
          KeysAgree (normalize q) (ofFamily IpAddr.ipv6 (mappings content)) := by
  refine ⟨?_, findsMapped_iff content⟩
  rw [forall_mappings_iff (fun name => name.getLast? ≠ some '.'), ← keysAgree_forall_iff,
    ← keysAgree_forall_iff, ← forall_and]
  exact forall_congr' (findsMapped_iff content)

/-- A name the file writes with a dot at its end is not found under itself. -/
theorem dotted_name_not_found :
    (Hosts.parse "10.0.1.10 host.\n".toList).lookupIpv4 "host.".toList = none ∧
      mappedTo IpAddr.ipv4 "10.0.1.10 host.\n".toList "host.".toList = some [⟨0x0a00010a⟩] ∧
      ¬ ∀ content q, FindsMapped content q := by
  have hnone : (Hosts.parse "10.0.1.10 host.\n".toList).lookupIpv4 "host.".toList = none := by
    decide +kernel
  have hsome : mappedTo IpAddr.ipv4 "10.0.1.10 host.\n".toList "host.".toList =
      some [⟨0x0a00010a⟩] := by
    decide +kernel
  refine ⟨hnone, hsome, fun h => ?_⟩
  have hfinds := (h "10.0.1.10 host.\n".toList "host.".toList).1
  rw [hnone, hsome] at hfinds
  cases hfinds

end N0DnsResolver
