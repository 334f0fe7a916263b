/-
  Which address lookups ask a nameserver for a localhost name.

  `is_localhost` is asked once, about the text of the call. The names of the queries come
  from the search list and from CNAME targets (`LeadsToLocalhost`, `TriesLocalhost`), and
  `localhost_shielded_iff` says that nothing else keeps those from being localhost names.
-/
import N0DnsResolver.Lib.Utf8
import N0DnsResolver.Model.Typed
import N0DnsResolver.Theory.Loop
import N0DnsResolver.Theory.Provenance
import N0DnsResolver.Theory.Targets

namespace N0DnsResolver

/-! ## Localhost names -/

/-- The last label is `localhost`, in any case. -/
def Name.isLocalhost (name : Name) : Bool :=
  name.labels.getLast?.any (fun label => eqIgnoreAsciiCase label (asciiBytes "localhost"))

/-- The last of the labels that `Name::new` reads in a text is `localhost`, in any case. -/
def endsInLocalhost (host : Str) : Bool :=
  ((host.splitOn '.').filter (· ≠ [])).getLast?.any
    (fun label => label.map Char.toLower == "localhost".toList)

/-- The text is that of a localhost name. -/
def NamesLocalhost (S : SimpleDns) (host : Str) : Prop :=
  (S.nameNew host).isSome = true ∧ endsInLocalhost host = true

/-- A query is serialized for every name that `Name::new` accepts. -/
def SimpleDns.BuildsAccepted (S : SimpleDns) : Prop :=
  ∀ id host name qtype, S.nameNew host = some name →
    (S.buildBytesVec (queryPacket id name qtype)).isSome = true

/-- The lower case of an ASCII character is that of its byte. -/
theorem encodeChar_toLower_ascii : ∀ n : Fin 128, String.utf8EncodeChar (Char.ofNat n).toLower =
    (String.utf8EncodeChar (Char.ofNat n)).map asciiLower := by
  decide +kernel

theorem toNat_ofNat_ascii : ∀ n : Fin 128, (Char.ofNat n).toNat = n := by decide +kernel

theorem asciiLower_high {b : UInt8} (h : 128 ≤ b) : asciiLower b = b := by
  unfold asciiLower
  refine if_neg fun hc => ?_
  have hle : b.toNat ≤ 90 := UInt8.le_iff_toNat_le.mp hc.2
  have hge : 128 ≤ b.toNat := UInt8.le_iff_toNat_le.mp h
  omega

/-- ASCII case is the same in the bytes of a text. -/
theorem encodeChar_toLower (c : Char) :
    String.utf8EncodeChar c.toLower = (String.utf8EncodeChar c).map asciiLower := by
  by_cases hascii : c.toNat < 128
  · have hlower := encodeChar_toLower_ascii ⟨c.toNat, hascii⟩
    rw [Char.ofNat_toNat] at hlower
    exact hlower
  · have hupper : c.isUpper = false := by
      unfold Char.isUpper
      rw [decide_eq_false_iff_not]
      intro hup
      have hle : c.toNat ≤ 90 := UInt32.le_iff_toNat_le.mp hup.2
      omega
    have hhigh : ∀ b ∈ String.utf8EncodeChar c, asciiLower b = b := by
      intro b hb
      rcases Utf8.encodeChar_cases c with ⟨b', -, hlt, hc⟩ | h
      · have hlt' : b'.toNat < 128 := UInt8.lt_iff_toNat_lt.mp hlt
        have hsame := toNat_ofNat_ascii ⟨b'.toNat, hlt'⟩
        rw [← hc] at hsame
        exact absurd (hsame ▸ hlt') hascii
      · exact asciiLower_high (h b hb)
    rw [toLower_eq_of_not_isUpper hupper, List.map_congr_left hhigh]
    exact (List.map_id _).symm

theorem encode_toLower (s : Str) :
    Utf8.encode (s.map Char.toLower) = (Utf8.encode s).map asciiLower := by
  induction s with
  | nil => rfl
  | cons c s ih =>
    rw [List.map_cons, Utf8.encode_cons, Utf8.encode_cons, List.map_append, ih, encodeChar_toLower]

/-- The name that a text reads as is a localhost name when the text is that of one. -/
theorem isLocalhost_of_nameNew {S : SimpleDns} (hS : S.SplitsAtDots) {host : Str} {name : Name}
    (h : S.nameNew host = some name) :
    name.isLocalhost = endsInLocalhost host := by
  have hlabel : ∀ label : Str, eqIgnoreAsciiCase (Utf8.encode label) (asciiBytes "localhost") =
      (label.map Char.toLower == "localhost".toList) := by
    intro label
    have hlocal : (asciiBytes "localhost").map asciiLower = Utf8.encode "localhost".toList := by decide
    unfold eqIgnoreAsciiCase
    rw [hlocal, ← encode_toLower, Bool.eq_iff_iff, beq_iff_eq, beq_iff_eq]
    exact ⟨fun h => Utf8.encode_injective h, fun h => congrArg Utf8.encode h⟩
  unfold Name.isLocalhost endsInLocalhost
  rw [hS host name h, List.getLast?_map, Option.any_map]
  exact congrArg (Option.any · _) (funext hlabel)

/-! ## What was asked -/

/-- From one log to the other, a query was sent for a localhost name. -/
def AskedLocalhost (log log' : List Exchange) : Prop :=
  ∃ rest, log' = log ++ rest ∧ ∃ x ∈ rest, x.query.name.isLocalhost = true

theorem not_askedLocalhost_self (log : List Exchange) : ¬ AskedLocalhost log log := by
  intro h
  obtain ⟨rest, hrest, x, hx, -⟩ := h
  rw [List.self_eq_append_right.mp hrest] at hx
  cases hx

theorem askedLocalhost_nil {log : List Exchange} :
    AskedLocalhost [] log ↔ log.any (fun x => x.query.name.isLocalhost) = true := by
  rw [List.any_eq_true]
  constructor
  · intro h
    obtain ⟨rest, rfl, hlocal⟩ := h
    exact hlocal
  · intro h
    exact ⟨log, rfl, h⟩

theorem askedLocalhost_concat {log : List Exchange} {x : Exchange} :
    AskedLocalhost log (log ++ [x]) ↔ x.query.name.isLocalhost = true := by
  constructor
  · intro h
    obtain ⟨rest, hrest, y, hy, hlocal⟩ := h
    rw [← List.append_cancel_left hrest, List.mem_singleton] at hy
    rw [← hy]
    exact hlocal
  · intro h
    exact ⟨[x], rfl, x, List.mem_singleton_self x, h⟩

theorem askedLocalhost_trans {log log' log'' : List Exchange} (h : log <+: log')
    (h' : log' <+: log'') :
    AskedLocalhost log log'' ↔ AskedLocalhost log log' ∨ AskedLocalhost log' log'' := by
  obtain ⟨first, rfl⟩ := h
  obtain ⟨second, rfl⟩ := h'
  constructor
  · intro h
    obtain ⟨rest, hrest, x, hx, hlocal⟩ := h
    rw [List.append_assoc] at hrest
    rw [← List.append_cancel_left hrest, List.mem_append] at hx
    rcases hx with hx | hx
    · exact .inl ⟨first, rfl, x, hx, hlocal⟩
    · exact .inr ⟨second, rfl, x, hx, hlocal⟩
  · intro h
    rcases h with ⟨rest, hrest, x, hx, hlocal⟩ | ⟨rest, hrest, x, hx, hlocal⟩
    · rw [← List.append_cancel_left hrest] at hx
      exact ⟨first ++ second, List.append_assoc _ _ _, x, List.mem_append_left _ hx, hlocal⟩
    · rw [← List.append_cancel_left hrest] at hx
      exact ⟨first ++ second, List.append_assoc _ _ _, x, List.mem_append_right _ hx, hlocal⟩

section Follow

variable (S : SimpleDns) (net : Network)

/-- A host is a localhost name, or a reply on its trail leads to one with an iteration left. -/
def LeadsToLocalhost (qtype : TYPE) (fuel : Nat) (host : Str) (log : List Exchange) : Prop :=
  (0 < fuel ∧ NamesLocalhost S host) ∨
    ∃ hops x target, Trail S net qtype host log hops x ∧ hops.length + 1 < fuel ∧
      x.reading S qtype = .inr target ∧ NamesLocalhost S target

variable {S net}

theorem Trail.cons {qtype : TYPE} {host target : Str} {log hops : List Exchange} {x y : Exchange}
    (hasked : Asked S net qtype host log x) (hread : x.reading S qtype = .inr target)
    (hrest : Trail S net qtype target (log ++ [x]) hops y) :
    Trail S net qtype host log (x :: hops) y := by
  unfold Exchange.reading at hread
  split at hread
  · cases hread
  · next response hresult =>
    obtain ⟨packet, name, hparsed, hchecked, htarget, rfl⟩ := readReply_inr S hread
    exact .hop hasked hresult hparsed hchecked htarget hrest

/-- One iteration: the host is a localhost name, or its reply leads on to one. -/
theorem leadsToLocalhost_succ {qtype : TYPE} {fuel : Nat} {host : Str} {log : List Exchange} :
    LeadsToLocalhost S net qtype (fuel + 1) host log ↔
      NamesLocalhost S host ∨
        ∃ x target, Asked S net qtype host log x ∧ x.reading S qtype = .inr target ∧
          LeadsToLocalhost S net qtype fuel target (log ++ [x]) := by
  constructor
  · intro h
    rcases h with ⟨-, hhost⟩ | ⟨hops, x, target, htrail, hlen, hread, htarget⟩
    · exact .inl hhost
    · right
      cases htrail with
      | last hasked =>
        exact ⟨x, target, hasked, hread, .inl ⟨Nat.lt_of_succ_lt_succ hlen, htarget⟩⟩
      | hop hasked hreply hparsed hchecked hunresolved hrest =>
        rename_i y response packet next hops
        refine ⟨y, S.nameToString next, hasked, ?_,
          .inr ⟨hops, x, target, hrest, Nat.lt_of_succ_lt_succ hlen, hread, htarget⟩⟩
        rw [reading_of_validated S hreply hparsed hchecked, hunresolved]
  · intro h
    rcases h with hhost | ⟨x, next, hasked, hread, hnext⟩
    · exact .inl ⟨Nat.succ_pos fuel, hhost⟩
    · right
      rcases hnext with ⟨hfuel, hnames⟩ | ⟨hops, y, target, htrail, hlen, hread', htarget⟩
      · exact ⟨[], x, next, .last hasked, Nat.succ_lt_succ hfuel, hread, hnames⟩
      · exact ⟨x :: hops, y, target, htrail.cons hasked hread, Nat.succ_lt_succ hlen, hread',
          htarget⟩

variable (hS : S.SplitsAtDots) (hB : S.BuildsAccepted)

/-- The query for a host is for a localhost name when its text is that of one. -/
theorem asked_isLocalhost (hS : S.SplitsAtDots) {qtype : TYPE} {host : Str}
    {log : List Exchange} {x : Exchange} (h : Asked S net qtype host log x) :
    x.query.name.isLocalhost = true ↔ NamesLocalhost S host := by
  have hname := h.name_eq
  rw [isLocalhost_of_nameNew hS hname]
  unfold NamesLocalhost
  rw [hname]
  exact ⟨fun hends => ⟨rfl, hends⟩, fun hnames => hnames.2⟩

include hS hB in
/-- Following a host asks for a localhost name exactly when it leads to one. -/
theorem followCnames_asks (qtype : TYPE) (fuel : Nat) (host : Str) (log : List Exchange) :
    AskedLocalhost log (followCnames S net qtype fuel host log).2.2 ↔
      LeadsToLocalhost S net qtype fuel host log := by
  induction fuel generalizing host log with
  | zero =>
    constructor
    · intro h
      exact absurd h (not_askedLocalhost_self log)
    · intro h
      rcases h with ⟨hlt, -⟩ | ⟨_, _, _, -, hlt, -⟩
      · exact absurd hlt (Nat.lt_irrefl 0)
      · exact absurd hlt (Nat.not_lt_zero _)
  | succ fuel ih =>
    rw [leadsToLocalhost_succ]
    by_cases hex : ∃ x, Asked S net qtype host log x
    · obtain ⟨x, hasked⟩ := hex
      rw [(followCnames_of_asked S net hasked fuel).2, ← asked_isLocalhost hS hasked]
      cases hread : x.reading S qtype with
      | inl r =>
        simp only
        rw [askedLocalhost_concat]
        constructor
        · exact .inl
        · intro h
          refine h.resolve_right fun hnext => ?_
          obtain ⟨y, target, hy, hread', -⟩ := hnext
          rw [hasked.unique S net hy] at hread
          exact nomatch hread.symm.trans hread'
      | inr target =>
        simp only
        rw [askedLocalhost_trans (List.prefix_append log [x])
          (followCnames_log S net qtype fuel target (log ++ [x])), askedLocalhost_concat, ih]
        constructor
        · intro h
          exact h.imp_right fun hnext => ⟨x, target, hasked, hread, hnext⟩
        · intro h
          refine h.imp_right fun hnext => ?_
          obtain ⟨y, target', hy, hread', hleads⟩ := hnext
          obtain rfl := hasked.unique S net hy
          cases hread.symm.trans hread'
          exact hleads
    · have hinvalid := (asked_or_invalid S net qtype host log).resolve_left hex
      rw [hinvalid fuel]
      constructor
      · intro h
        exact absurd h (not_askedLocalhost_self log)
      · intro h
        rcases h with ⟨hsome, -⟩ | ⟨x, _, hasked, -⟩
        · obtain ⟨name, hname⟩ := Option.isSome_iff_exists.mp hsome
          obtain ⟨x, hasked, -⟩ := exists_asked S net log hname (hB _ host name qtype hname)
          exact absurd ⟨x, hasked⟩ hex
        · exact absurd ⟨x, hasked⟩ hex

end Follow

/-! ## The walk along the candidates -/

section Walk

variable (S : SimpleDns) (net : Network)

/-- Some candidate leads to a localhost name, and none before it ends the walk. -/
def TriesLocalhost (kind : RecordKind) (names : List Str) (log : List Exchange) : Prop :=
  ∃ before c after, names = before ++ c :: after ∧
    (∀ a ∈ attempts (resolveCandidate S net) kind before log, a.outcome.decisive = false) ∧
    LeadsToLocalhost S net kind.dnsType maxCnameDepth c
      (netAfter (resolveCandidate S net) kind before log)

variable {S net} {kind : RecordKind}

theorem triesLocalhost_cons {c : Str} {names : List Str} {log : List Exchange} :
    TriesLocalhost S net kind (c :: names) log ↔
      LeadsToLocalhost S net kind.dnsType maxCnameDepth c log ∨
        (resolveCandidate S net c kind log).1.outcome.decisive = false ∧
          TriesLocalhost S net kind names (resolveCandidate S net c kind log).2.2 := by
  constructor
  · intro h
    obtain ⟨before, d, after, hnames, hbefore, hleads⟩ := h
    cases before with
    | nil =>
      obtain ⟨rfl, -⟩ := List.cons.inj hnames
      exact .inl hleads
    | cons b before =>
      obtain ⟨rfl, rfl⟩ := List.cons.inj hnames
      exact .inr ⟨hbefore _ List.mem_cons_self, before, d, after, rfl,
        fun a ha => hbefore a (List.mem_cons_of_mem _ ha), hleads⟩
  · intro h
    rcases h with hleads | ⟨hdecisive, before, d, after, rfl, hbefore, hleads⟩
    · exact ⟨[], c, names, rfl, fun _ ha => (nomatch ha), hleads⟩
    · refine ⟨c :: before, d, after, rfl, fun a ha => ?_, hleads⟩
      rcases List.mem_cons.mp ha with rfl | ha
      · exact hdecisive
      · exact hbefore a ha

variable {L : Type} [LruMap L UInt64 CacheEntry] (cacheKey : Str → RecordKind → UInt64)
variable (builder : Builder)

variable (S net kind) in
/-- The walk only adds to the log. -/
theorem candidateLoop_log (names : List Str) (st : LoopState) (w : World (List Exchange) L) :
    w.net <+: (candidateLoop cacheKey (resolveCandidate S net) builder kind names st w).2.net := by
  obtain ⟨tried, -, h⟩ := candidateLoop_net (resolveCandidate S net) kind cacheKey builder names st w
  rw [h]
  exact netAfter_log kind tried w.net

variable (hS : S.SplitsAtDots) (hB : S.BuildsAccepted)

include hS hB in
/-- The walk asks for a localhost name exactly when a candidate it tries leads to one. -/
theorem candidateLoop_asks (names : List Str) (st : LoopState) (w : World (List Exchange) L) :
    AskedLocalhost w.net
        (candidateLoop cacheKey (resolveCandidate S net) builder kind names st w).2.net ↔
      TriesLocalhost S net kind names w.net := by
  induction names generalizing st w with
  | nil =>
    constructor
    · intro h
      exact absurd h (not_askedLocalhost_self w.net)
    · intro h
      obtain ⟨before, c, after, hnames, -⟩ := h
      cases before <;> cases hnames
  | cons c names ih =>
    have hfirst : AskedLocalhost w.net (resolveCandidate S net c kind w.net).2.2 ↔
        LeadsToLocalhost S net kind.dnsType maxCnameDepth c w.net :=
      followCnames_asks hS hB kind.dnsType maxCnameDepth c w.net
    have hlog : w.net <+: (resolveCandidate S net c kind w.net).2.2 :=
      followCnames_log S net kind.dnsType maxCnameDepth c w.net
    rw [triesLocalhost_cons, ← hfirst]
    unfold candidateLoop
    rcases judge_cases builder st (resolveCandidate S net c kind w.net).1 with
      ⟨_, _, -, -, hout, hj⟩ | ⟨_, -, hout, hj⟩ | ⟨hdecisive, hj⟩
    · rw [hj, hout]
      exact ⟨.inl, fun h => h.resolve_right fun hnext => by cases hnext.1⟩
    · rw [hj, hout]
      exact ⟨.inl, fun h => h.resolve_right fun hnext => by cases hnext.1⟩
    · have hrest := candidateLoop_log S net kind cacheKey builder names
        (st.after builder (resolveCandidate S net c kind w.net).1)
        (w.resolve (resolveCandidate S net) c kind)
      rw [hj]
      simp only
      rw [askedLocalhost_trans hlog hrest]
      exact or_congr_right ((ih _ _).trans (and_iff_right hdecisive).symm)

end Walk

/-! ## Address lookups -/

section Address

variable {L : Type} [LruMap L UInt64 CacheEntry] (S : SimpleDns) (net : Network)
variable (cacheKey : Str → RecordKind → UInt64) (builder : Builder) (config : Config)

/-- The exchanges there were when an address lookup ended, returned or not. -/
def addressLog {T : Type} (kind : RecordKind) (mapped : Str → Option (List T)) (name : Str)
    (w : World (List Exchange) L) : List Exchange :=
  if isLocalhost name then w.net
  else if ((searchNames S config name).findSome? mapped).isSome then w.net
  else if (DnsCache.get cacheKey w.cache w.now name kind).1.isSome then w.net
  else
    (candidateLoop cacheKey (resolveCandidate S net) builder kind (searchNames S config name) {}
      { w with cache := (DnsCache.get cacheKey w.cache w.now name kind).2 }).2.net

/-- The text is that of a localhost name for `is_localhost`, the hosts file or the cache answers, or
no candidate that is tried leads to a localhost name. -/
def Shielded {T : Type} (kind : RecordKind) (mapped : Str → Option (List T)) (name : Str)
    (w : World (List Exchange) L) : Prop :=
  isLocalhost name = true ∨ ((searchNames S config name).findSome? mapped).isSome = true ∨
    (DnsCache.get cacheKey w.cache w.now name kind).1.isSome = true ∨
    ¬ TriesLocalhost S net kind (searchNames S config name) w.net

variable {S net cacheKey builder config} {T : Type} {name : Str} {w w' : World (List Exchange) L}

theorem conclude_net {kind : RecordKind} {st : LoopState} {r : Except Error (List Record)}
    (h : conclude cacheKey builder name kind st w = .ok (r, w')) : w'.net = w.net := by
  unfold conclude at h
  split at h
  · cases h
    split <;> rfl
  · cases h
    split <;> rfl
  · simp only at h
    split at h
    · cases h
      rfl
    · next maxAge _ =>
      cases hstale : DnsCache.getStale cacheKey w.cache w.now name kind maxAge with
      | error p =>
        rw [hstale] at h
        cases h
      | ok p =>
        rw [hstale] at h
        simp only [bind, Except.bind] at h
        split at h <;> (cases h; rfl)

/-- A lookup that returns leaves the log of its exchanges. -/
theorem addressLookup_net {variant : Variant T} {loopback : T} {mapped : Str → Option (List T)}
    {r : Except Error (List T)}
    (h : addressLookup S net cacheKey builder config variant loopback mapped name w = .ok (r, w')) :
    w'.net = addressLog S net cacheKey builder config variant.kind mapped name w := by
  unfold addressLookup at h
  unfold addressLog
  by_cases hlocal : isLocalhost name = true
  · rw [if_pos hlocal] at h ⊢
    cases h
    rfl
  rw [if_neg hlocal] at h ⊢
  cases hhosts : (searchNames S config name).findSome? mapped with
  | some addrs =>
    rw [hhosts] at h
    cases h
    rfl
  | none =>
    rw [hhosts] at h
    obtain ⟨⟨r', w₁⟩, hlookup, hp⟩ := Checked.map_eq_ok h
    obtain rfl := (Prod.mk.inj hp).2
    rw [if_neg (by simp)]
    cases hcached : (DnsCache.get cacheKey w.cache w.now name variant.kind).1 with
    | some res =>
      have hhit := lookup_hit (resolveCandidate S net) variant.kind cacheKey builder S config hcached
      cases hhit.symm.trans hlookup
      rfl
    | none =>
      have hmiss := lookup_miss (resolveCandidate S net) variant.kind cacheKey builder S config
        hcached
      have hwalk := hmiss.symm.trans hlookup
      unfold walk at hwalk
      rw [if_neg (by simp)]
      split at hwalk
      · next heq =>
        cases hwalk
        rw [heq]
      · next heq =>
        rw [conclude_net hwalk, heq]

/-- An address lookup asks for no localhost name exactly when it is shielded from that. -/
theorem addressLog_shielded (hS : S.SplitsAtDots) (hB : S.BuildsAccepted) (kind : RecordKind)
    (mapped : Str → Option (List T)) :
    ¬ AskedLocalhost w.net (addressLog S net cacheKey builder config kind mapped name w) ↔
      Shielded S net cacheKey config kind mapped name w := by
  unfold addressLog Shielded
  by_cases hlocal : isLocalhost name = true
  · rw [if_pos hlocal]
    exact ⟨fun _ => .inl hlocal, fun _ => not_askedLocalhost_self w.net⟩
  rw [if_neg hlocal, or_iff_right hlocal]
  by_cases hhosts : ((searchNames S config name).findSome? mapped).isSome = true
  · rw [if_pos hhosts]
    exact ⟨fun _ => .inl hhosts, fun _ => not_askedLocalhost_self w.net⟩
  rw [if_neg hhosts, or_iff_right hhosts]
  by_cases hcached : (DnsCache.get cacheKey w.cache w.now name kind).1.isSome = true
  · rw [if_pos hcached]
    exact ⟨fun _ => .inl hcached, fun _ => not_askedLocalhost_self w.net⟩
  rw [if_neg hcached, or_iff_right hcached]
  exact not_congr (candidateLoop_asks cacheKey builder hS hB (searchNames S config name) {}
    { w with cache := (DnsCache.get cacheKey w.cache w.now name kind).2 })

/-- The address lookups ask nameservers for no localhost name exactly when they are shielded. -/
theorem localhost_shielded_iff (hS : S.SplitsAtDots) (hB : S.BuildsAccepted) (hosts : Hosts) :
    (¬ AskedLocalhost w.net (addressLog S net cacheKey builder config .a hosts.lookupIpv4 name w) ↔
        Shielded S net cacheKey config .a hosts.lookupIpv4 name w) ∧
      (¬ AskedLocalhost w.net
          (addressLog S net cacheKey builder config .aaaa hosts.lookupIpv6 name w) ↔
        Shielded S net cacheKey config .aaaa hosts.lookupIpv6 name w) ∧
      (∀ r w', lookupIpv4 S net cacheKey builder config hosts name w = .ok (r, w') →
        w'.net = addressLog S net cacheKey builder config .a hosts.lookupIpv4 name w) ∧
      ∀ r w', lookupIpv6 S net cacheKey builder config hosts name w = .ok (r, w') →
        w'.net = addressLog S net cacheKey builder config .aaaa hosts.lookupIpv6 name w :=
  ⟨addressLog_shielded hS hB .a _, addressLog_shielded hS hB .aaaa _,
    fun _ _ h => addressLookup_net h, fun _ _ h => addressLookup_net h⟩

end Address

/-! ## An alias of a localhost name, and a search list of one -/

def appName : Name := ⟨[asciiBytes "app", asciiBytes "LocalHost"]⟩

def newWorld : World (List Exchange) Table := ⟨0, [], LruMap.new, []⟩

/-- The exchanges of `lookup_ipv4` for `www`, which is an alias of the target. -/
def aliasLog (target : Name) : List Exchange :=
  addressLog (targetDns target) (targetNet target) sampleKey {} {} .a (Hosts.lookupIpv4 {})
    "www".toList newWorld

/-- The exchanges of `lookup_ipv4` for `www`, with one search domain. -/
def searchLog (domain : Str) : List Exchange :=
  addressLog (targetDns cdnName) (targetNet cdnName) sampleKey {} { searchDomains := [domain] } .a
    (Hosts.lookupIpv4 {}) "www".toList newWorld

/-- An alias of `cdn.example.` is shielded. -/
theorem localhost_shielded_cdn :
    Shielded (targetDns cdnName) (targetNet cdnName) sampleKey {} .a (Hosts.lookupIpv4 {})
      "www".toList newWorld := by
  have hquiet : ¬ AskedLocalhost [] (aliasLog cdnName) := by
    rw [askedLocalhost_nil, Bool.not_eq_true]
    rfl
  have hsplits := (SimpleDns.ofTexts_namesAsText [(targetReply cdnName,
    (targetReply cdnName).wire)]).new_labels
  exact (localhost_shielded_iff hsplits (fun _ _ _ _ _ => rfl) {}).1.mp hquiet

/-- A nameserver is asked for `app.LocalHost.` when `www` is an alias of it, and for
`www.localhost.` when `localhost` is in the search list. -/
theorem localhost_is_asked :
    isLocalhost "www".toList = false ∧ AskedLocalhost [] (aliasLog appName) ∧
      (aliasLog appName).map (fun x => x.query.name) = [⟨[asciiBytes "www"]⟩, appName] ∧
      AskedLocalhost [] (searchLog "localhost".toList) := by
  refine ⟨by decide, ?_, by rfl, ?_⟩
  · rw [askedLocalhost_nil]
    rfl
  · rw [askedLocalhost_nil]
    rfl

end N0DnsResolver
