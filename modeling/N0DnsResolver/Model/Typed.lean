/-
  The typed lookups (`DnsResolver::lookup_ipv4`, `lookup_txt` and the others).

  Each looks a kind up and keeps the records of its variant. The address lookups first
  answer localhost names and names of the hosts file on their own; the hosts file is
  read with the configuration and is an argument here.
-/
import N0DnsResolver.Model.Follow
import N0DnsResolver.Model.Hosts

namespace N0DnsResolver

/-- A variant of `Record` and the closure by which a typed lookup picks it. -/
structure Variant (T : Type) where
  kind : RecordKind
  wrap : T → Record
  select : Record → Option T
  select_wrap : ∀ v, select (wrap v) = some v
  of_kind : ∀ r : Record, r.kind = kind → ∃ v, r = wrap v

namespace Variant

def a : Variant Ipv4Addr where
  kind := .a
  wrap := .a
  select
    | .a ip => some ip
    | _ => none
  select_wrap _ := rfl
  of_kind r h := by cases r <;> cases h; exact ⟨_, rfl⟩

def aaaa : Variant Ipv6Addr where
  kind := .aaaa
  wrap := .aaaa
  select
    | .aaaa ip => some ip
    | _ => none
  select_wrap _ := rfl
  of_kind r h := by cases r <;> cases h; exact ⟨_, rfl⟩

def txt : Variant (List Bytes) where
  kind := .txt
  wrap := .txt
  select
    | .txt txt => some txt
    | _ => none
  select_wrap _ := rfl
  of_kind r h := by cases r <;> cases h; exact ⟨_, rfl⟩

def mx : Variant MxRecordData where
  kind := .mx
  wrap := .mx
  select
    | .mx data => some data
    | _ => none
  select_wrap _ := rfl
  of_kind r h := by cases r <;> cases h; exact ⟨_, rfl⟩

def svcb : Variant Svcb where
  kind := .svcb
  wrap := .svcb
  select
    | .svcb data => some data
    | _ => none
  select_wrap _ := rfl
  of_kind r h := by cases r <;> cases h; exact ⟨_, rfl⟩

def https : Variant HttpsRecordData where
  kind := .https
  wrap := .https
  select
    | .https data => some data
    | _ => none
  select_wrap _ := rfl
  of_kind r h := by cases r <;> cases h; exact ⟨_, rfl⟩

def ns : Variant Str where
  kind := .ns
  wrap := .ns
  select
    | .ns name => some name
    | _ => none
  select_wrap _ := rfl
  of_kind r h := by cases r <;> cases h; exact ⟨_, rfl⟩

def srv : Variant SrvRecordData where
  kind := .srv
  wrap := .srv
  select
    | .srv data => some data
    | _ => none
  select_wrap _ := rfl
  of_kind r h := by cases r <;> cases h; exact ⟨_, rfl⟩

end Variant

/-- `is_localhost`. -/
def isLocalhost (host : Str) : Bool :=
  ((stripDot host).splitOn '.').getLast?.any
    (fun label => label.map Char.toLower == "localhost".toList)

section Typed

variable {L : Type} [LruMap L UInt64 CacheEntry] (S : SimpleDns) (net : Network)
variable (cacheKey : Str → RecordKind → UInt64) (builder : Builder) (config : Config)

/-- What a typed lookup gives: its values or error, and the world after it. -/
abbrev TypedResult (T L : Type) := Checked (Except Error (List T) × World (List Exchange) L)

/-- `lookup_record`, with the records of a variant kept. -/
def typedLookup {T : Type} (variant : Variant T) (name : Str) (w : World (List Exchange) L) :
    TypedResult T L :=
  (lookupRecord S net cacheKey builder config name variant.kind w).map
    fun p => (p.1.map (List.filterMap variant.select), p.2)

/-- An address lookup: localhost and the hosts file first, then the cache and the nameservers. -/
def addressLookup {T : Type} (variant : Variant T) (loopback : T) (mapped : Str → Option (List T))
    (name : Str) (w : World (List Exchange) L) : TypedResult T L :=
  if isLocalhost name then .ok (.ok [loopback], w)
  else
    match (searchNames S config name).findSome? mapped with
    | some addrs => .ok (.ok addrs, w)
    | none => typedLookup S net cacheKey builder config variant name w

/-- `Ipv4Addr::LOCALHOST`. -/
def ipv4Localhost : Ipv4Addr := ⟨0x7f000001⟩

/-- `Ipv6Addr::LOCALHOST`. -/
def ipv6Localhost : Ipv6Addr := ⟨1⟩

/-- `DnsResolver::lookup_ipv4`. -/
def lookupIpv4 (hosts : Hosts) (name : Str) (w : World (List Exchange) L) :
    TypedResult Ipv4Addr L :=
  addressLookup S net cacheKey builder config .a ipv4Localhost hosts.lookupIpv4 name w

/-- `DnsResolver::lookup_ipv6`. -/
def lookupIpv6 (hosts : Hosts) (name : Str) (w : World (List Exchange) L) :
    TypedResult Ipv6Addr L :=
  addressLookup S net cacheKey builder config .aaaa ipv6Localhost hosts.lookupIpv6 name w

/-- `DnsResolver::lookup_txt`. -/
def lookupTxt (name : Str) (w : World (List Exchange) L) : TypedResult (List Bytes) L :=
  typedLookup S net cacheKey builder config .txt name w

/-- `DnsResolver::lookup_mx`. -/
def lookupMx (name : Str) (w : World (List Exchange) L) : TypedResult MxRecordData L :=
  typedLookup S net cacheKey builder config .mx name w

/-- `DnsResolver::lookup_svcb`. -/
def lookupSvcb (name : Str) (w : World (List Exchange) L) : TypedResult Svcb L :=
  typedLookup S net cacheKey builder config .svcb name w

/-- `DnsResolver::lookup_https`. -/
def lookupHttps (name : Str) (w : World (List Exchange) L) : TypedResult HttpsRecordData L :=
  typedLookup S net cacheKey builder config .https name w

/-- `DnsResolver::lookup_ns`. -/
def lookupNs (name : Str) (w : World (List Exchange) L) : TypedResult Str L :=
  typedLookup S net cacheKey builder config .ns name w

/-- `DnsResolver::lookup_srv`. -/
def lookupSrv (name : Str) (w : World (List Exchange) L) : TypedResult SrvRecordData L :=
  typedLookup S net cacheKey builder config .srv name w

end Typed

end N0DnsResolver
