/-
  Settings and configuration (`builder.rs`, `config.rs`), the assembly of the
  nameserver tiers (`ResolverState::build`) and the expansion of a name along the
  search list (`DnsResolver::search_names`).

  `read_system` is platform code: what it read is an argument of `build`. The hosts
  file is left out, no function here reads it.
-/
import N0DnsResolver.Lib.Duration
import N0DnsResolver.Model.Cache
import N0DnsResolver.Model.SimpleDns

namespace N0DnsResolver

inductive IpAddr where
  | v4 (address : Ipv4Addr)
  | v6 (address : Ipv6Addr)
  deriving DecidableEq, Repr

structure SocketAddr where
  ip : IpAddr
  port : UInt16
  deriving DecidableEq, Repr

/-- `DnsProtocol`, with every transport compiled in. -/
inductive DnsProtocol where
  | udp | tcp | tls | https
  deriving DecidableEq, Repr

/-- `DnsProtocol::port`. -/
def DnsProtocol.port : DnsProtocol → UInt16
  | .udp | .tcp => 53
  | .tls => 853
  | .https => 443

/-- `Nameserver`. -/
structure Nameserver where
  addr : SocketAddr
  protocol : DnsProtocol
  serverName : Option Str
  deriving DecidableEq, Repr

/-- `Nameserver::new`. -/
def Nameserver.new (addr : SocketAddr) (protocol : DnsProtocol) : Nameserver :=
  { addr, protocol, serverName := none }

/-- `FallbackMode`. -/
inductive FallbackMode where
  | eager | ifSystemEmpty | deferred
  deriving DecidableEq, Repr

/-- `Builder`. -/
structure Builder where
  useSystemConfig : Bool := false
  nameservers : List Nameserver := []
  fallbackNameservers : List Nameserver := []
  fallback : FallbackMode := .deferred
  serveStale : Option Duration := none
  cacheMinTtl : Option Duration := none
  negativeMaxTtl : Option Duration := none
  deriving DecidableEq

/-- `Config`. -/
structure Config where
  nameservers : List Nameserver := []
  searchDomains : List Str := []
  ndots : Option Nat := none
  deriving DecidableEq

/-! ## Tiers -/

/-- `ResolverState`; the RTT map starts at the neutral baseline and lives with the race. -/
structure ResolverState where
  config : Config
  primaryCount : Nat

/-- The fallback servers `ResolverState::build` includes, and whether they defer. -/
def fallbackTier (builder : Builder) (systemHasNameservers : Bool) : List Nameserver × Bool :=
  match builder.fallback with
  | .eager => (builder.fallbackNameservers, false)
  | .deferred => (builder.fallbackNameservers, true)
  | .ifSystemEmpty =>
    if systemHasNameservers then ([], false) else (builder.fallbackNameservers, false)

/-- `ResolverState::build`. -/
def ResolverState.build (builder : Builder) (readSystem : Config) : ResolverState :=
  let config := if builder.useSystemConfig then readSystem else {}
  let systemHasNameservers := !config.nameservers.isEmpty
  let nameservers := config.nameservers ++ builder.nameservers
  let (fallback, defer) := fallbackTier builder systemHasNameservers
  let primaryCount := if defer then nameservers.length else nameservers.length + fallback.length
  { config := { config with nameservers := nameservers ++ fallback }, primaryCount }

/-- The primary tier is a leading part of the list. -/
theorem ResolverState.primaryCount_le (builder : Builder) (readSystem : Config) :
    (build builder readSystem).primaryCount ≤
      (build builder readSystem).config.nameservers.length := by
  have h : ∀ (defer : Bool) (n m : Nat), (if defer then n else n + m) ≤ n + m := by
    intro defer n m
    cases defer <;> simp
  unfold build
  rw [List.length_append]
  exact h _ _ _

/-- Without deferral there is one tier, which is the whole list. -/
theorem ResolverState.primaryCount_eq {builder : Builder} (h : builder.fallback ≠ .deferred)
    (readSystem : Config) :
    (build builder readSystem).primaryCount =
      (build builder readSystem).config.nameservers.length := by
  have hd : ∀ b, (fallbackTier builder b).2 = false := by
    intro b
    unfold fallbackTier
    cases hf : builder.fallback with
    | eager => rfl
    | deferred => exact absurd hf h
    | ifSystemEmpty => cases b <;> rfl
  unfold build
  simp only [hd, List.length_append, Bool.false_eq_true, if_false]

/-! ## TTL settings -/

/-- `u32::try_from(d.as_secs()).unwrap_or(u32::MAX)`. -/
def clampSecs (d : Duration) : Nat := if d.asSecs ≤ 2 ^ 32 - 1 then d.asSecs else 2 ^ 32 - 1

/-- `DnsResolver::cache_min_ttl_secs`. -/
def Builder.cacheMinTtlSecs (builder : Builder) : Nat :=
  match builder.cacheMinTtl with
  | none => 0
  | some d => clampSecs d

/-- `DnsResolver::negative_cache_ttl_secs`. -/
def Builder.negativeCacheTtlSecs (builder : Builder) (soaTtl : Option Nat) : Nat :=
  match builder.negativeMaxTtl with
  | none => 0
  | some max =>
    let maxSecs := min (clampSecs max) negativeTtlMaxSecs
    if maxSecs = 0 then 0 else min (soaTtl.getD negativeTtlSecs) maxSecs

/-! ## The search list -/

/-- `DEFAULT_NDOTS`. -/
def defaultNdots : Nat := 1

/-- The inner `push` of `search_names`. -/
def pushName (names : List Str) (name : Str) : List Str :=
  if names.contains name then names else names ++ [name]

/-- The name and search domain of a candidate, joined. -/
def expand (host domain : Str) : Str := host ++ '.' :: domain

/-- `DnsResolver::search_names`. -/
def searchNames (S : SimpleDns) (config : Config) (host : Str) : List Str :=
  if host.getLast? = some '.' ∨ config.searchDomains = [] then [host]
  else
    let numLabels := host.count '.' + 1
    let bareFirst := config.ndots.getD defaultNdots < numLabels
    let names := if bareFirst then pushName [] host else []
    let names := config.searchDomains.foldl
      (fun names domain =>
        if (S.nameNew (expand host domain)).isSome then pushName names (expand host domain)
        else names)
      names
    if bareFirst then names else pushName names host

theorem mem_pushName {names : List Str} {name x : Str} :
    x ∈ pushName names name ↔ x ∈ names ∨ x = name := by
  unfold pushName
  split
  · next h =>
    rw [List.contains_iff_mem] at h
    constructor
    · exact .inl
    · rintro (h' | rfl)
      · exact h'
      · exact h
  · simp

section Search

variable (S : SimpleDns) (host : Str)

theorem mem_expandAll (domains : List Str) (names : List Str) (x : Str) :
    x ∈ domains.foldl
        (fun names domain =>
          if (S.nameNew (expand host domain)).isSome then pushName names (expand host domain)
          else names) names ↔
      x ∈ names ∨ ∃ d ∈ domains, (S.nameNew (expand host d)).isSome ∧ x = expand host d := by
  induction domains generalizing names with
  | nil => simp
  | cons d domains ih =>
    rw [List.foldl_cons, ih]
    by_cases h : (S.nameNew (expand host d)).isSome = true
    · rw [if_pos h, mem_pushName]
      simp only [List.mem_cons, exists_eq_or_imp, h, true_and]
      tauto
    · rw [if_neg h]
      simp only [List.mem_cons, exists_eq_or_imp, h, false_and, false_or, Bool.false_eq_true]

/-- The name itself is always a candidate. -/
theorem host_mem_searchNames (config : Config) : host ∈ searchNames S config host := by
  unfold searchNames
  split
  · exact List.mem_singleton_self _
  · simp only
    split
    · rw [mem_expandAll, mem_pushName]
      exact .inl (.inr rfl)
    · rw [mem_pushName]
      exact .inr rfl

theorem searchNames_ne_nil (config : Config) : searchNames S config host ≠ [] :=
  List.ne_nil_of_mem (host_mem_searchNames S host config)

/-- An absolute name, or any name without a search list, is its own only candidate. -/
theorem searchNames_eq_singleton {config : Config}
    (h : host.getLast? = some '.' ∨ config.searchDomains = []) :
    searchNames S config host = [host] := if_pos h

end Search

end N0DnsResolver
