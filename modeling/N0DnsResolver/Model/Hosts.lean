/-
  The hosts file, as lookups read it (`system_config/hosts.rs`).

  A map from names to addresses is its list of entries, one for each key. The parser
  that fills it is in `HostsFile`.
-/
import N0DnsResolver.Model.Cache

namespace N0DnsResolver

/-- `Addrs`. -/
inductive Addrs (T : Type) where
  | none
  | one (addr : T)
  | many (addrs : List T)
  deriving DecidableEq, Repr

/-- `Addrs::to_vec`. -/
def Addrs.toVec {T : Type} : Addrs T → Option (List T)
  | .none => Option.none
  | .one addr => some [addr]
  | .many addrs => some addrs

/-- `NameMap`. -/
abbrev NameMap (T : Type) := List (Str × Addrs T)

/-- `HashMap::get`. -/
def NameMap.get {T : Type} (map : NameMap T) (key : Str) : Option (Addrs T) :=
  (map.find? (fun entry => entry.1 = key)).map Prod.snd

/-- `Hosts`. -/
structure Hosts where
  a : NameMap Ipv4Addr := []
  aaaa : NameMap Ipv6Addr := []
  deriving DecidableEq, Repr

namespace Hosts

/-- `Hosts::normalize`, which is that of the cache. -/
def normalize (name : Str) : Str := N0DnsResolver.normalize name

/-- `Hosts::lookup_ipv4`. -/
def lookupIpv4 (hosts : Hosts) (name : Str) : Option (List Ipv4Addr) :=
  (NameMap.get hosts.a (normalize name)).bind Addrs.toVec

/-- `Hosts::lookup_ipv6`. -/
def lookupIpv6 (hosts : Hosts) (name : Str) : Option (List Ipv6Addr) :=
  (NameMap.get hosts.aaaa (normalize name)).bind Addrs.toVec

end Hosts

end N0DnsResolver
