/-
  What the lines of resolv.conf set.

  Each line adds a nameserver, sets the search list, sets the `ndots` option, or does
  nothing; of the settings the last one holds (`parseResolvConf_eq`). A `search` line always
  sets the list, while a `domain` line with an invalid argument leaves the list before it.
-/
import N0DnsResolver.Lib.Overwrite
import N0DnsResolver.Model.ResolvConf
import Mathlib.Data.List.Induction

namespace N0DnsResolver

/-! ## What a line does -/

/-- The words of a line; a comment has none. -/
def directiveWords (line : Str) : List Str :=
  if (trim line).head? = some '#' ∨ (trim line).head? = some ';' then [] else splitWhitespace line

/-- The nameserver that a line adds. -/
def addsNameserver (line : Str) : Option Nameserver :=
  match directiveWords line with
  | [] => none
  | directive :: parts =>
    if directive = "nameserver".toList then
      (parts.head?.bind nameserverAddr).map (Nameserver.new · .udp)
    else none

/-- The `ndots` option that a line sets. -/
def setsNdots (line : Str) : Option Nat :=
  match directiveWords line with
  | [] => none
  | directive :: parts => if directive = "options".toList then lastWrite ndotsOption parts else none

/-- Of the options of a line, the last `ndots` holds. -/
theorem foldl_ndots (parts : List Str) (ndots : Option Nat) :
    parts.foldl (fun ndots opt => (ndotsOption opt).or ndots) ndots =
      (lastWrite ndotsOption parts).or ndots :=
  Overwrite.foldl_or (fun ndots opt =>
    (rfl : id ((ndotsOption opt).or ndots) = (ndotsOption opt).or (id ndots))) parts ndots

section Parse

variable (S : SimpleDns)

/-- The search list that a line sets. -/
def setsSearch (line : Str) : Option (List Str) :=
  match directiveWords line with
  | [] => none
  | directive :: parts =>
    if directive = "search".toList then some (parts.filter (isValidSearchDomain S))
    else if directive = "domain".toList then
      (parts.head?.filter (isValidSearchDomain S)).map fun domain => [domain]
    else none

/-- The body of the loop does what the line does. -/
theorem parseDirective_eq (config : Config) (line : Str) :
    parseDirective S config line =
      { nameservers := config.nameservers ++ (addsNameserver line).toList
        searchDomains := (setsSearch S line).getD config.searchDomains
        ndots := (setsNdots line).or config.ndots } := by
  have hnone : config =
      { nameservers := config.nameservers ++ []
        searchDomains := config.searchDomains
        ndots := config.ndots } := by
    rw [List.append_nil]
  have hwords : splitWhitespace (trim line) = splitWhitespace line := Fields.fields_trimEnds _
  unfold parseDirective addsNameserver setsSearch setsNdots directiveWords
  simp only [hwords]
  by_cases hcomment : (trim line).head? = some '#' ∨ (trim line).head? = some ';'
  · rw [if_pos hcomment, if_pos hcomment]
    exact hnone
  rw [if_neg hcomment, if_neg hcomment]
  cases splitWhitespace line with
  | nil => exact hnone
  | cons directive parts =>
    simp only
    by_cases hnameserver : directive = "nameserver".toList
    · have hsearch : directive ≠ "search".toList := by rw [hnameserver]; decide
      have hdomain : directive ≠ "domain".toList := by rw [hnameserver]; decide
      have hoptions : directive ≠ "options".toList := by rw [hnameserver]; decide
      simp only [if_pos hnameserver, if_neg hsearch, if_neg hdomain, if_neg hoptions]
      cases parts with
      | nil => exact hnone
      | cons addrStr rest =>
        simp only [List.head?_cons, Option.bind_some]
        cases nameserverAddr addrStr with
        | none => exact hnone
        | some addr => rfl
    by_cases hsearch : directive = "search".toList
    · have hdomain : directive ≠ "domain".toList := by rw [hsearch]; decide
      have hoptions : directive ≠ "options".toList := by rw [hsearch]; decide
      simp only [if_neg hnameserver, if_pos hsearch, if_neg hoptions, Option.toList_none,
        List.append_nil]
      rfl
    by_cases hdomain : directive = "domain".toList
    · have hoptions : directive ≠ "options".toList := by rw [hdomain]; decide
      simp only [if_neg hnameserver, if_neg hsearch, if_pos hdomain, if_neg hoptions]
      cases parts with
      | nil => exact hnone
      | cons domain rest =>
        simp only [List.head?_cons, Option.filter_some]
        by_cases hvalid : isValidSearchDomain S domain = true
        · rw [if_pos hvalid, if_pos hvalid, Option.toList_none, List.append_nil]
          rfl
        · rw [if_neg hvalid, if_neg hvalid]
          exact hnone
    by_cases hoptions : directive = "options".toList
    · simp only [if_neg hnameserver, if_neg hsearch, if_neg hdomain, if_pos hoptions,
        Option.toList_none, List.append_nil, foldl_ndots]
      rfl
    · simp only [if_neg hnameserver, if_neg hsearch, if_neg hdomain, if_neg hoptions]
      exact hnone

/-- The search list that lines leave behind. -/
def searchListOf (lines : List Str) : List Str := (lastWrite (setsSearch S) lines).getD []

theorem searchListOf_concat (lines : List Str) (line : Str) :
    searchListOf S (lines ++ [line]) = (setsSearch S line).getD (searchListOf S lines) := by
  unfold searchListOf
  rw [Overwrite.lastWrite_append, Overwrite.lastWrite_singleton]
  cases setsSearch S line <;> rfl

/-- The file: its nameservers in their order, the last search list and the last `ndots`. -/
theorem parseResolvConf_eq (content : Str) :
    parseResolvConf S content =
      { nameservers := (strLines content).filterMap addsNameserver
        searchDomains := searchListOf S (strLines content)
        ndots := lastWrite setsNdots (strLines content) } := by
  have hstep := parseDirective_eq S
  have hnameservers := Overwrite.foldl_collect
    (fun config line => congrArg Config.nameservers (hstep config line)) (strLines content) {}
  have hsearch := Overwrite.foldl_overwrite
    (fun config line => congrArg Config.searchDomains (hstep config line)) (strLines content) {}
  have hndots := Overwrite.foldl_or
    (fun config line => congrArg Config.ndots (hstep config line)) (strLines content) {}
  unfold parseResolvConf searchListOf
  generalize (strLines content).foldl (parseDirective S) {} = config at *
  cases config
  simp only at hnameservers hsearch hndots
  rw [hnameservers, hsearch, hndots, Option.or_none]
  rfl

example : parseResolvConf (SimpleDns.ofTexts [])
      "\n\nnameserver 127.0.0.53\noptions edns0 ndots:2\nsearch -- lan\n".toList =
    { nameservers := [Nameserver.new ⟨.v4 ⟨0x7f000035⟩, 53⟩ .udp]
      searchDomains := ["lan".toList]
      ndots := some 2 } := by decide +kernel

/-- What a line sets are valid domains. -/
theorem valid_of_setsSearch {line : Str} {domains : List Str}
    (h : setsSearch S line = some domains) : ∀ d ∈ domains, isValidSearchDomain S d = true := by
  unfold setsSearch at h
  split at h
  · cases h
  · split at h
    · cases h
      exact fun d hd => (List.mem_filter.mp hd).2
    · split at h
      · obtain ⟨domain, hdomain, rfl⟩ := Option.map_eq_some_iff.mp h
        intro d hd
        rw [List.mem_singleton.mp hd]
        exact (Option.filter_eq_some_iff.mp hdomain).2
      · cases h

/-- Whatever the file, its search domains are valid and its nameservers are plain DNS servers. -/
theorem parseResolvConf_valid (content : Str) :
    (∀ d ∈ (parseResolvConf S content).searchDomains, isValidSearchDomain S d = true) ∧
      ∀ server ∈ (parseResolvConf S content).nameservers,
        server.protocol = .udp ∧ server.serverName = none := by
  rw [parseResolvConf_eq]
  constructor
  · intro d hd
    cases hlast : lastWrite (setsSearch S) (strLines content) with
    | none =>
      simp only [searchListOf, hlast] at hd
      cases hd
    | some domains =>
      simp only [searchListOf, hlast] at hd
      obtain ⟨line, -, hline⟩ := List.mem_filterMap.mp (List.mem_of_getLast? hlast)
      exact valid_of_setsSearch S hline d hd
  · intro server hserver
    obtain ⟨line, -, hline⟩ := List.mem_filterMap.mp hserver
    unfold addsNameserver at hline
    split at hline
    · cases hline
    · split at hline
      · obtain ⟨addr, -, rfl⟩ := Option.map_eq_some_iff.mp hline
        exact ⟨rfl, rfl⟩
      · cases hline

/-! ## A `domain` line and a `search` line -/

/-- The two lines are `domain d` and `search d`. -/
structure DomainAsSearch (d line line' : Str) : Prop where
  domain : directiveWords line = ["domain".toList, d]
  search : directiveWords line' = ["search".toList, d]

section Lines

variable {S} {d line line' : Str}

theorem setsSearch_domain {parts : List Str}
    (h : directiveWords line = "domain".toList :: d :: parts) :
    setsSearch S line = if isValidSearchDomain S d then some [d] else none := by
  have hne : "domain".toList ≠ "search".toList := by decide
  unfold setsSearch
  rw [h]
  simp only [if_neg hne, if_true, List.head?_cons, Option.filter_some]
  by_cases hvalid : isValidSearchDomain S d = true
  · rw [if_pos hvalid, if_pos hvalid]
    rfl
  · rw [if_neg hvalid, if_neg hvalid]
    rfl

theorem setsSearch_search {parts : List Str}
    (h : directiveWords line = "search".toList :: parts) :
    setsSearch S line = some (parts.filter (isValidSearchDomain S)) := by
  unfold setsSearch
  rw [h]
  exact if_pos rfl

/-- Neither line adds a nameserver or sets an option. -/
theorem DomainAsSearch.other (h : DomainAsSearch d line line') :
    addsNameserver line = none ∧ addsNameserver line' = none ∧
      setsNdots line = none ∧ setsNdots line' = none := by
  unfold addsNameserver setsNdots
  rw [h.domain, h.search]
  refine ⟨if_neg (by decide), if_neg (by decide), if_neg (by decide), if_neg (by decide)⟩

/-- The replaced line keeps the search list exactly when its argument is valid, a later line sets
the list, or the lines before it leave an empty one. -/
theorem searchListOf_replace (h : DomainAsSearch d line line') (pre post : List Str) :
    searchListOf S (pre ++ line' :: post) = searchListOf S (pre ++ line :: post) ↔
      isValidSearchDomain S d = true ∨ (∃ l ∈ post, (setsSearch S l).isSome = true) ∨
        searchListOf S pre = [] := by
  unfold searchListOf
  rw [Overwrite.getD_lastWrite_replace, setsSearch_domain h.domain, setsSearch_search h.search]
  by_cases hvalid : isValidSearchDomain S d = true
  · have hkept : [d].filter (isValidSearchDomain S) = [d] := by
      rw [List.filter_cons_of_pos hvalid, List.filter_nil]
    rw [hkept, if_pos hvalid]
    exact iff_of_true (.inr rfl) (.inl hvalid)
  · have hdropped : [d].filter (isValidSearchDomain S) = [] := by
      rw [List.filter_cons_of_neg hvalid, List.filter_nil]
    rw [hdropped, if_neg hvalid, or_iff_right hvalid]
    exact or_congr_right eq_comm

/-- The whole configuration is kept exactly then. -/
theorem parseResolvConf_replace (h : DomainAsSearch d line line') {content content' : Str}
    {pre post : List Str} (hcontent : strLines content = pre ++ line :: post)
    (hcontent' : strLines content' = pre ++ line' :: post) :
    parseResolvConf S content' = parseResolvConf S content ↔
      isValidSearchDomain S d = true ∨ (∃ l ∈ post, (setsSearch S l).isSome = true) ∨
        searchListOf S pre = [] := by
  obtain ⟨hadds, hadds', hndots, hndots'⟩ := h.other
  have hservers : (pre ++ line' :: post).filterMap addsNameserver =
      (pre ++ line :: post).filterMap addsNameserver := by
    rw [List.filterMap_append, List.filterMap_append, List.filterMap_cons_none hadds,
      List.filterMap_cons_none hadds']
  have hoptions : lastWrite setsNdots (pre ++ line' :: post) =
      lastWrite setsNdots (pre ++ line :: post) := by
    rw [Overwrite.lastWrite_append, Overwrite.lastWrite_append, Overwrite.lastWrite_cons,
      Overwrite.lastWrite_cons, hndots, hndots']
  rw [← searchListOf_replace h, parseResolvConf_eq, parseResolvConf_eq, hcontent, hcontent',
    hservers, hoptions, Config.mk.injEq]
  exact ⟨fun heq => heq.2.1, fun heq => ⟨rfl, heq, rfl⟩⟩

/-- The line `search d`. -/
def searchLine (d : Str) : Str := "search ".toList ++ d

/-- The argument of a `domain` line is not empty, and has no whitespace. -/
theorem word_of_domain (h : directiveWords line = ["domain".toList, d]) :
    d ≠ [] ∧ ∀ c ∈ d, isWhitespace c = false := by
  have hmem : d ∈ directiveWords line := by
    rw [h]
    exact .tail _ (.head _)
  unfold directiveWords at hmem
  split at hmem
  · cases hmem
  · exact Fields.of_mem_fields hmem

/-- So `search d` is read as it is written. -/
theorem domainAsSearch_searchLine (h : directiveWords line = ["domain".toList, d]) :
    DomainAsSearch d line (searchLine d) := by
  refine ⟨h, ?_⟩
  obtain ⟨hne, hword⟩ := word_of_domain h
  have hsplit : searchLine d = "search".toList ++ ' ' :: d := rfl
  have hhead : (trim (searchLine d)).head? = some 's' :=
    Fields.head?_trimEnds (by decide) ("earch ".toList ++ d)
  have hsearch : ∀ c ∈ "search".toList, isWhitespace c = false := by
    have hall : "search".toList.all (fun c => !isWhitespace c) = true := by decide
    intro c hc
    simpa using List.all_eq_true.mp hall c hc
  unfold directiveWords splitWhitespace
  rw [hhead, if_neg (by decide), hsplit, Fields.fields_append_cons (by decide),
    Fields.fields_eq_singleton (by decide) hsearch, Fields.fields_eq_singleton hne hword]
  rfl

end Lines

end Parse

/-! ## Texts of given lines -/

/-- The text of these lines, each ended by a carriage return and a line feed. -/
def unlines (lines : List Str) : Str := lines.flatMap (· ++ ['\r', '\n'])

theorem splitInclusive_append {l : Str} (h : '\n' ∉ l) (rest : Str) :
    splitInclusive (l ++ '\n' :: rest) = (l ++ ['\n']) :: splitInclusive rest := by
  induction l with
  | nil =>
    rw [List.nil_append, splitInclusive, if_pos rfl]
    rfl
  | cons c l ih =>
    have hc : c ≠ '\n' := fun heq => h (heq ▸ .head l)
    rw [List.cons_append, splitInclusive, if_neg hc, ih fun hl => h (.tail c hl)]
    rfl

theorem mem_splitInclusive {s p : Str} (h : p ∈ splitInclusive s) :
    ∃ q, '\n' ∉ q ∧ (p = q ∨ p = q ++ ['\n']) := by
  induction s generalizing p with
  | nil => cases h
  | cons c s ih =>
    rw [splitInclusive] at h
    by_cases hc : c = '\n'
    · rw [if_pos hc] at h
      rcases List.mem_cons.mp h with rfl | h
      · exact ⟨[], List.not_mem_nil, .inr (by rw [hc]; rfl)⟩
      · exact ih h
    · rw [if_neg hc] at h
      have hcons : ∀ q : Str, '\n' ∉ q → '\n' ∉ c :: q := fun q hq =>
        List.not_mem_cons_of_ne_of_not_mem (Ne.symm hc) hq
      cases hs : splitInclusive s with
      | nil =>
        rw [hs] at h
        obtain rfl := List.mem_singleton.mp h
        exact ⟨[c], hcons [] List.not_mem_nil, .inl rfl⟩
      | cons line lines =>
        rw [hs] at h ih
        rcases List.mem_cons.mp h with rfl | h
        · obtain ⟨q, hq, hline⟩ := ih (.head lines)
          refine ⟨c :: q, hcons q hq, ?_⟩
          exact hline.imp (congrArg (List.cons c)) (congrArg (List.cons c))
        · exact ih (.tail line h)

theorem stripSuffix_append (l : Str) (c : Char) : stripSuffix (l ++ [c]) c = some l := by
  unfold stripSuffix
  rw [if_pos List.getLast?_concat, List.dropLast_concat]

theorem stripSuffix_eq_none {l : Str} {c : Char} (h : c ∉ l) : stripSuffix l c = none :=
  if_neg fun hlast => h (List.mem_of_getLast? hlast)

/-- A line has no line feed. -/
theorem newline_notMem_of_mem_strLines {s line : Str} (h : line ∈ strLines s) : '\n' ∉ line := by
  obtain ⟨p, hp, rfl⟩ := List.mem_map.mp h
  obtain ⟨q, hq, rfl | rfl⟩ := mem_splitInclusive hp
  · rw [stripSuffix_eq_none hq]
    exact hq
  · rw [stripSuffix_append]
    cases hr : stripSuffix q '\r' with
    | none => simpa [hr] using hq
    | some line =>
      have hline : line = q.dropLast := by
        unfold stripSuffix at hr
        split at hr
        · exact (Option.some.inj hr).symm
        · cases hr
      simp only [hr, hline]
      exact fun hmem => hq ((List.dropLast_sublist q).subset hmem)

theorem strLines_unlines {lines : List Str} (h : ∀ line ∈ lines, '\n' ∉ line) :
    strLines (unlines lines) = lines := by
  induction lines with
  | nil => rfl
  | cons line lines ih =>
    have hsplit : unlines (line :: lines) = (line ++ ['\r']) ++ '\n' :: unlines lines := by
      unfold unlines
      rw [List.flatMap_cons, List.append_assoc, List.append_assoc]
      rfl
    have hnewline : '\n' ∉ line ++ ['\r'] := by
      have hline := h line (.head lines)
      simp [hline]
    have hrest := ih fun l hl => h l (.tail line hl)
    unfold strLines at hrest ⊢
    rw [hsplit, splitInclusive_append hnewline, List.map_cons, hrest, stripSuffix_append]
    simp only [stripSuffix_append]

/-- In every content, a `domain` line can be replaced by `search d`. -/
theorem exists_replaced {content d line : Str} {pre post : List Str}
    (hcontent : strLines content = pre ++ line :: post)
    (hline : directiveWords line = ["domain".toList, d]) :
    ∃ content', strLines content' = pre ++ searchLine d :: post ∧
      DomainAsSearch d line (searchLine d) := by
  have hword : '\n' ∉ d := by
    intro hnewline
    have hspace := (word_of_domain hline).2 '\n' hnewline
    cases hspace
  have hold : ∀ l ∈ pre ++ line :: post, '\n' ∉ l := fun l hl =>
    newline_notMem_of_mem_strLines (hcontent ▸ hl)
  refine ⟨unlines (pre ++ searchLine d :: post), strLines_unlines fun l hl => ?_,
    domainAsSearch_searchLine hline⟩
  rcases List.mem_append.mp hl with hpre | hpost
  · exact hold l (List.mem_append_left _ hpre)
  rcases List.mem_cons.mp hpost with rfl | hpost
  · unfold searchLine
    rw [List.mem_append, not_or]
    exact ⟨by decide, hword⟩
  · exact hold l (List.mem_append_right _ (.tail line hpost))

/-! ## The last line -/

/-- The line is a `search` line, or a `domain` line with an argument. -/
def decidesSearch (line : Str) : Bool :=
  match directiveWords line with
  | [] => false
  | directive :: parts =>
    directive = "search".toList || (directive = "domain".toList && !parts.isEmpty)

/-- The line is a `search` or `domain` line, with an argument. -/
def namesSearch (line : Str) : Bool :=
  match directiveWords line with
  | [] => false
  | directive :: parts =>
    (directive = "search".toList || directive = "domain".toList) && !parts.isEmpty

/-- The last of the lines that count. -/
def lastLine (counts : Str → Bool) (content : Str) : Option Str :=
  ((strLines content).filter counts).getLast?

section Parse

variable (S : SimpleDns)

/-- Every content with the same last line, of those that count, has the same search list. -/
def DependsOnLast (counts : Str → Bool) (content : Str) : Prop :=
  ∀ content', lastLine counts content' = lastLine counts content →
    (parseResolvConf S content').searchDomains = (parseResolvConf S content).searchDomains

variable {S}

section Cases

variable {line d : Str} {parts : List Str}

theorem decides_of_search (h : directiveWords line = "search".toList :: parts) :
    decidesSearch line = true := by
  unfold decidesSearch
  rw [h]
  rfl

theorem decides_of_domain (h : directiveWords line = "domain".toList :: d :: parts) :
    decidesSearch line = true := by
  unfold decidesSearch
  rw [h]
  rfl

theorem names_of_search (h : directiveWords line = "search".toList :: parts) :
    namesSearch line = !parts.isEmpty := by
  unfold namesSearch
  rw [h]
  rfl

theorem names_of_domain (h : directiveWords line = "domain".toList :: d :: parts) :
    namesSearch line = true := by
  unfold namesSearch
  rw [h]
  rfl

end Cases

/-- A line is a `search` line, a `domain` line with an argument, or has nothing to do with the
search list. -/
theorem search_cases (S : SimpleDns) (line : Str) :
    (∃ parts, directiveWords line = "search".toList :: parts) ∨
      (∃ d parts, directiveWords line = "domain".toList :: d :: parts) ∨
      (decidesSearch line = false ∧ namesSearch line = false ∧ setsSearch S line = none) := by
  cases hwords : directiveWords line with
  | nil =>
    right; right
    unfold decidesSearch namesSearch setsSearch
    rw [hwords]
    exact ⟨rfl, rfl, rfl⟩
  | cons directive parts =>
    by_cases hsearch : directive = "search".toList
    · exact .inl ⟨parts, by rw [hsearch]⟩
    by_cases hdomain : directive = "domain".toList
    · cases parts with
      | nil =>
        right; right
        unfold decidesSearch namesSearch setsSearch
        rw [hwords, hdomain]
        exact ⟨rfl, rfl, rfl⟩
      | cons d parts => exact .inr (.inl ⟨d, parts, by rw [hdomain]⟩)
    · right; right
      unfold decidesSearch namesSearch setsSearch
      rw [hwords]
      simp only [decide_eq_false hsearch, decide_eq_false hdomain]
      exact ⟨rfl, rfl, (if_neg hsearch).trans (if_neg hdomain)⟩

/-- The lines that set the list are lines that decide. -/
theorem setsSearch_of_not_decides {line : Str} (h : decidesSearch line = false) :
    setsSearch S line = none := by
  obtain ⟨parts, hwords⟩ | ⟨d, parts, hwords⟩ | ⟨-, -, hsets⟩ := search_cases S line
  · rw [decides_of_search hwords] at h
    cases h
  · rw [decides_of_domain hwords] at h
    cases h
  · exact hsets

/-- The other lines without an argument set no entries. -/
theorem setsSearch_of_not_names {line : Str} (h : namesSearch line = false) :
    (setsSearch S line).getD [] = [] := by
  obtain ⟨parts, hwords⟩ | ⟨d, parts, hwords⟩ | ⟨-, -, hsets⟩ := search_cases S line
  · have hnil : parts = [] := by simpa [names_of_search hwords] using h
    rw [setsSearch_search hwords, hnil]
    rfl
  · rw [names_of_domain hwords] at h
    cases h
  · rw [hsets]
    rfl

/-- A line that decides sets the list unless it is a `domain` line with an invalid argument. -/
theorem sets_iff_of_decides {line : Str} (h : decidesSearch line = true) :
    (setsSearch S line).isSome = true ↔
      ∀ d parts, directiveWords line = "domain".toList :: d :: parts →
        isValidSearchDomain S d = true := by
  constructor
  · intro hsets d parts hwords
    by_contra hinvalid
    rw [setsSearch_domain hwords, if_neg hinvalid] at hsets
    cases hsets
  · intro hdomain
    obtain ⟨parts, hwords⟩ | ⟨d, parts, hwords⟩ | ⟨hnot, -, -⟩ := search_cases S line
    · rw [setsSearch_search hwords]
      rfl
    · rw [setsSearch_domain hwords, if_pos (hdomain d parts hwords)]
      rfl
    · rw [h] at hnot
      cases hnot

/-- Of the lines that name an entry, the ones that set an empty list are the `search` lines with no
valid one. -/
theorem sets_nil_iff_of_names {line : Str} (h : namesSearch line = true) :
    setsSearch S line = some [] ↔
      ∃ parts, directiveWords line = "search".toList :: parts ∧
        ∀ d ∈ parts, isValidSearchDomain S d = false := by
  constructor
  · intro hsets
    obtain ⟨parts, hwords⟩ | ⟨d, parts, hwords⟩ | ⟨-, hnot, -⟩ := search_cases S line
    · rw [setsSearch_search hwords, Option.some.injEq, List.filter_eq_nil_iff] at hsets
      exact ⟨parts, hwords, fun d hd => by simpa using hsets d hd⟩
    · rw [setsSearch_domain hwords] at hsets
      split at hsets <;> cases hsets
    · rw [h] at hnot
      cases hnot
  · rintro ⟨parts, hwords, hinvalid⟩
    rw [setsSearch_search hwords, List.filter_eq_nil_iff.mpr fun d hd => by simp [hinvalid d hd]]

/-! ### What depends on it -/

/-- Where the last line that decides sets the list, it alone counts. -/
theorem dependsOnLast_of_sets {content : Str}
    (h : ∀ line, lastLine decidesSearch content = some line → (setsSearch S line).isSome = true) :
    DependsOnLast S decidesSearch content := by
  intro content' hsame
  rw [parseResolvConf_eq, parseResolvConf_eq]
  unfold searchListOf
  rw [Overwrite.lastWrite_congr (fun line => setsSearch_of_not_decides) hsame h]

/-- Lines of which the last one with an argument sets an empty list leave an empty list: by
induction from the end, as no line after it sets an entry. -/
theorem searchListOf_eq_nil {lines : List Str}
    (h : ∀ line, (lines.filter namesSearch).getLast? = some line → setsSearch S line = some []) :
    searchListOf S lines = [] := by
  induction lines using List.reverseRecOn with
  | nil => rfl
  | append_singleton lines line ih =>
    rw [List.filter_append] at h
    rw [searchListOf_concat]
    by_cases hnames : namesSearch line = true
    · rw [List.filter_cons_of_pos hnames, List.filter_nil, List.getLast?_concat] at h
      rw [h line rfl]
      rfl
    · rw [List.filter_cons_of_neg hnames, List.filter_nil, List.append_nil] at h
      rw [ih h]
      exact setsSearch_of_not_names (by simpa using hnames)

/-- Where the list depends on the last line that counts, any lines of which it is the last to count
leave the same list. -/
theorem DependsOnLast.searchListOf_eq {counts : Str → Bool} {content line : Str}
    (h : DependsOnLast S counts content) (hline : lastLine counts content = some line)
    {lines : List Str} (hlines : ∀ l ∈ lines, '\n' ∉ l)
    (hlast : (lines.filter counts).getLast? = some line) :
    searchListOf S lines = searchListOf S (strLines content) := by
  have hsame := h (unlines lines)
    (by unfold lastLine at hline ⊢; rw [strLines_unlines hlines, hlast, hline])
  rwa [parseResolvConf_eq, parseResolvConf_eq, strLines_unlines hlines] at hsame

theorem of_lastLine {counts : Str → Bool} {content line : Str}
    (h : lastLine counts content = some line) : counts line = true ∧ '\n' ∉ line := by
  obtain ⟨hmem, hcounts⟩ := List.mem_filter.mp (List.mem_of_getLast? h)
  exact ⟨hcounts, newline_notMem_of_mem_strLines hmem⟩

/-- A line that counts, in last place. -/
theorem getLast?_filter_concat {counts : Str → Bool} {line : Str} (h : counts line = true)
    (lines : List Str) : ((lines ++ [line]).filter counts).getLast? = some line := by
  rw [List.filter_append, List.filter_cons_of_pos h, List.filter_nil, List.getLast?_concat]

/-- The line that a sample search list is set by. -/
def lanLine : Str := "search lan".toList

/-- `lan` is a name. -/
def SimpleDns.AcceptsLan (S : SimpleDns) : Prop := (S.nameNew "lan".toList).isSome = true

theorem isValidSearchDomain_lan (hS : S.AcceptsLan) :
    isValidSearchDomain S "lan".toList = true := by
  have hne : "lan".toList ≠ "--".toList := by decide
  unfold isValidSearchDomain
  rw [hS, decide_eq_true hne]
  rfl

theorem setsSearch_lanLine (hS : S.AcceptsLan) :
    setsSearch S lanLine = some ["lan".toList] := by
  have hwords : directiveWords lanLine = ["search".toList, "lan".toList] := by decide
  rw [setsSearch_search hwords, List.filter_cons_of_pos (isValidSearchDomain_lan hS),
    List.filter_nil]

/-- A last line that sets no list leaves whatever list the lines before it set. -/
theorem DependsOnLast.sets (hS : S.AcceptsLan) {counts : Str → Bool} {content line : Str}
    (h : DependsOnLast S counts content)
    (hline : lastLine counts content = some line) : (setsSearch S line).isSome = true := by
  obtain ⟨hcounts, hnewline⟩ := of_lastLine hline
  have hlan : '\n' ∉ lanLine := by decide
  have hone := h.searchListOf_eq hline (by simpa using hnewline)
    (getLast?_filter_concat hcounts [])
  have htwo := h.searchListOf_eq hline (by simpa using ⟨hlan, hnewline⟩)
    (getLast?_filter_concat hcounts [lanLine])
  have hlanList : searchListOf S [lanLine] = ["lan".toList] := by
    have hconcat := searchListOf_concat S [] lanLine
    rwa [setsSearch_lanLine hS] at hconcat
  rw [← htwo, searchListOf_concat, searchListOf_concat, hlanList] at hone
  cases hsets : setsSearch S line with
  | none =>
    rw [hsets] at hone
    cases hone
  | some domains => rfl

/-- The list depends on the last line that decides exactly when that line sets it. -/
theorem dependsOnLast_decides_iff (hS : S.AcceptsLan) (content : Str) :
    DependsOnLast S decidesSearch content ↔
      ∀ line d parts, lastLine decidesSearch content = some line →
        directiveWords line = "domain".toList :: d :: parts → isValidSearchDomain S d = true := by
  constructor
  · intro h line d parts hline
    exact (sets_iff_of_decides (of_lastLine hline).1).mp (h.sets hS hline) d parts
  · intro h
    apply dependsOnLast_of_sets
    intro line hline
    exact (sets_iff_of_decides (of_lastLine hline).1).mpr fun d parts => h line d parts hline

/-- A `search` line without an argument after it empties the list, so the list depends on the last
line with an argument exactly when that line sets an empty list. -/
theorem dependsOnLast_names_iff (hS : S.AcceptsLan) (content : Str) :
    DependsOnLast S namesSearch content ↔
      ∀ line, lastLine namesSearch content = some line →
        ∃ parts, directiveWords line = "search".toList :: parts ∧
          ∀ d ∈ parts, isValidSearchDomain S d = false := by
  have hbare : directiveWords "search".toList = ["search".toList] := by decide
  have hbareNames : ¬ namesSearch "search".toList = true := by decide
  constructor
  · intro h line hline
    obtain ⟨hnames, hnewline⟩ := of_lastLine hline
    apply (sets_nil_iff_of_names hnames).mp
    have hlast : (([line] ++ ["search".toList]).filter namesSearch).getLast? = some line := by
      rw [List.filter_append, List.filter_cons_of_pos hnames, List.filter_cons_of_neg hbareNames]
      rfl
    have hone := h.searchListOf_eq hline (by simpa using hnewline)
      (getLast?_filter_concat hnames [])
    have htwo := h.searchListOf_eq hline (by simpa using hnewline) hlast
    obtain ⟨domains, hsets⟩ := Option.isSome_iff_exists.mp (h.sets hS hline)
    rw [← htwo, searchListOf_concat, searchListOf_concat, setsSearch_search hbare, hsets] at hone
    rw [hsets]
    exact congrArg some hone
  · intro h content' hsame
    have hnil : ∀ text, lastLine namesSearch text = lastLine namesSearch content →
        searchListOf S (strLines text) = [] := by
      intro text htext
      apply searchListOf_eq_nil
      intro line hline
      have hnames := (of_lastLine hline).1
      exact (sets_nil_iff_of_names hnames).mpr (h line (htext ▸ hline))
    rw [parseResolvConf_eq, parseResolvConf_eq]
    simp only
    rw [hnil content' hsame, hnil content rfl]

/-- When a `domain` line can be replaced by a `search` line, and when the list depends on its last
line alone: with the `search` lines counted that have no argument, and without them. -/
theorem resolvConf_last_iff (hS : S.AcceptsLan) :
    (∀ (content content' : Str) (pre post : List Str) (d line line' : Str),
        DomainAsSearch d line line' → strLines content = pre ++ line :: post →
        strLines content' = pre ++ line' :: post →
        (parseResolvConf S content' = parseResolvConf S content ↔
          isValidSearchDomain S d = true ∨ (∃ l ∈ post, (setsSearch S l).isSome = true) ∨
            searchListOf S pre = [])) ∧
      (∀ content : Str, DependsOnLast S decidesSearch content ↔
        ∀ line d parts, lastLine decidesSearch content = some line →
          directiveWords line = "domain".toList :: d :: parts → isValidSearchDomain S d = true) ∧
      ∀ content : Str, DependsOnLast S namesSearch content ↔
        ∀ line, lastLine namesSearch content = some line →
          ∃ parts, directiveWords line = "search".toList :: parts ∧
            ∀ d ∈ parts, isValidSearchDomain S d = false :=
  ⟨fun _ _ _ _ _ _ _ h hcontent hcontent' => parseResolvConf_replace h hcontent hcontent',
    dependsOnLast_decides_iff hS, dependsOnLast_names_iff hS⟩

end Parse

/-! ## Files with and without a placeholder -/

/-- The two directives agree on a valid entry, a file that ends with one depends on its last line
alone, and so does one whose only list is the placeholder. -/
theorem resolvConf_last_valid :
    parseResolvConf (SimpleDns.ofTexts []) "search new.com\n".toList =
        parseResolvConf (SimpleDns.ofTexts []) "domain new.com\n".toList ∧
      DependsOnLast (SimpleDns.ofTexts []) decidesSearch "domain old.com\nsearch new.com\n".toList ∧
      DependsOnLast (SimpleDns.ofTexts []) namesSearch "search --\n".toList := by
  have hlan : (SimpleDns.ofTexts []).AcceptsLan := by
    unfold SimpleDns.AcceptsLan
    decide +kernel
  obtain ⟨hreplace, hdecides, hnames⟩ := resolvConf_last_iff hlan
  have hlast : lastLine decidesSearch "domain old.com\nsearch new.com\n".toList =
      some "search new.com".toList := by decide +kernel
  have hsearch : directiveWords "search new.com".toList =
      ["search".toList, "new.com".toList] := by decide +kernel
  have hplaceholder : lastLine namesSearch "search --\n".toList = some "search --".toList := by
    decide +kernel
  refine ⟨?_, ?_, ?_⟩
  · exact (hreplace "domain new.com\n".toList "search new.com\n".toList [] [] "new.com".toList
      "domain new.com".toList "search new.com".toList
      ⟨by decide +kernel, by decide +kernel⟩ (by decide +kernel) (by decide +kernel)).mpr
      (.inl (by decide +kernel))
  · refine (hdecides _).mpr fun line d parts hline hdomain => ?_
    rw [hlast] at hline
    cases hline
    rw [hsearch] at hdomain
    exact absurd (List.cons.inj hdomain).1 (by decide)
  · refine (hnames _).mpr fun line hline => ⟨["--".toList], ?_, by decide +kernel⟩
    rw [hplaceholder] at hline
    cases hline
    decide +kernel

/-- The placeholder keeps the list before it under `domain` and empties it under `search`, so the
list does not depend on the last line. -/
theorem resolvConf_placeholder :
    (parseResolvConf (SimpleDns.ofTexts []) "search lan\ndomain --\n".toList).searchDomains =
        ["lan".toList] ∧
      (parseResolvConf (SimpleDns.ofTexts []) "search lan\nsearch --\n".toList).searchDomains = [] ∧
      DomainAsSearch "--".toList "domain --".toList "search --".toList ∧
      ¬ DependsOnLast (SimpleDns.ofTexts []) decidesSearch "search lan\ndomain --\n".toList ∧
      ¬ DependsOnLast (SimpleDns.ofTexts []) namesSearch "search lan\ndomain --\n".toList := by
  have hkept : (parseResolvConf (SimpleDns.ofTexts [])
      "search lan\ndomain --\n".toList).searchDomains = ["lan".toList] := by decide +kernel
  have halone : (parseResolvConf (SimpleDns.ofTexts [])
      "domain --\n".toList).searchDomains = [] := by decide +kernel
  refine ⟨hkept, by decide +kernel, ⟨by decide +kernel, by decide +kernel⟩, ?_, ?_⟩
  · intro h
    have hsame := h "domain --\n".toList (by decide +kernel)
    rw [hkept, halone] at hsame
    cases hsame
  · intro h
    have hsame := h "domain --\n".toList (by decide +kernel)
    rw [hkept, halone] at hsame
    cases hsame

end N0DnsResolver
