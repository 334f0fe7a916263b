/-
  The resolver configuration file, as it is parsed (`parse_resolv_conf`,
  `system_config/unix.rs`).

  What the parser takes from the standard library (whitespace, socket addresses, numbers)
  is here under the library's names. The scope id of an IPv6 socket address is read and
  left out, and the hosts file is parsed elsewhere (`HostsFile`).
-/
import N0DnsResolver.Lib.Fields
import N0DnsResolver.Model.Config
import N0DnsResolver.Model.HostsFile

namespace N0DnsResolver

/-! ## Text -/

/-- `char::is_whitespace`: the code points with the property White_Space. -/
def isWhitespace (c : Char) : Bool :=
  (9 ≤ c.toNat ∧ c.toNat ≤ 13) ∨ (0x2000 ≤ c.toNat ∧ c.toNat ≤ 0x200a) ∨
    c.toNat ∈ [0x20, 0x85, 0xa0, 0x1680, 0x2028, 0x2029, 0x202f, 0x205f, 0x3000]

/-- `str::trim`. -/
def trim (s : Str) : Str := trimEnds isWhitespace s

/-- `str::split_whitespace`. -/
def splitWhitespace (s : Str) : List Str := fields isWhitespace s

/-- `str::strip_prefix`. -/
def stripPrefix (pre s : Str) : Option Str :=
  if pre.isPrefixOf s then some (s.drop pre.length) else none

/-! ## Numbers and socket addresses -/

/-- `str::parse::<usize>`, of 64 bits: a plus sign is allowed, a number that does not fit is an
error. -/
def parseUsize (s : Str) : Option Nat :=
  let digits := match s with
    | '+' :: rest => rest
    | _ => s
  match readNumber 10 digits.length true (2 ^ 64 - 1) digits with
  | some (n, []) => some n
  | _ => none

/-- `Parser::read_port`. -/
def readPort (p : Str) : Option (UInt16 × Str) := do
  let p ← readGivenChar ':' p
  let (port, p) ← readNumber 10 p.length true 65535 p
  some (UInt16.ofNat port, p)

/-- `Parser::read_scope_id`. -/
def readScopeId (p : Str) : Option (Nat × Str) := do
  let p ← readGivenChar '%' p
  readNumber 10 p.length true (2 ^ 32 - 1) p

/-- `Parser::read_socket_addr_v4`. -/
def readSocketAddrV4 (p : Str) : Option (SocketAddr × Str) := do
  let (octets, p) ← readIpv4Addr p
  let (port, p) ← readPort p
  some (⟨.v4 ⟨UInt32.ofNat (ofDigits 256 octets)⟩, port⟩, p)

/-- `Parser::read_socket_addr_v6`. -/
def readSocketAddrV6 (p : Str) : Option (SocketAddr × Str) := do
  let p ← readGivenChar '[' p
  let (groups, p) ← readIpv6Addr p
  -- a scope id that does not parse stays in the text, where the bracket is expected
  let p := ((readScopeId p).map Prod.snd).getD p
  let p ← readGivenChar ']' p
  let (port, p) ← readPort p
  some (⟨.v6 ⟨BitVec.ofNat 128 (ofDigits 65536 groups)⟩, port⟩, p)

/-- `str::parse::<SocketAddr>`: the whole text is one address. -/
def parseSocketAddr (s : Str) : Option SocketAddr :=
  match (readSocketAddrV4 s).or (readSocketAddrV6 s) with
  | some (addr, []) => some addr
  | _ => none

/-! ## The file -/

/-- The address of a `nameserver` directive: a socket address, or else an address without its zone
and with the default port. -/
def nameserverAddr (addrStr : Str) : Option SocketAddr :=
  (parseSocketAddr addrStr).or
    ((parseIpAddr (addrStr.takeWhile (· ≠ '%'))).map fun ip => ⟨ip, DnsProtocol.udp.port⟩)

example : nameserverAddr "fe80::1%eth0".toList =
    some ⟨.v6 ⟨0xfe800000000000000000000000000001⟩, 53⟩ := by decide +kernel
example : nameserverAddr "[::1%2]:5353".toList = some ⟨.v6 ⟨1⟩, 5353⟩ := by decide +kernel

/-- The threshold that an option sets, if it is `ndots`. -/
def ndotsOption (opt : Str) : Option Nat := (stripPrefix "ndots:".toList opt).bind parseUsize

section Parse

variable (S : SimpleDns)

/-- `is_valid_search_domain`. -/
def isValidSearchDomain (domain : Str) : Bool :=
  domain ≠ "--".toList && (S.nameNew domain).isSome

/-- The body of the loop over the lines. -/
def parseDirective (config : Config) (line : Str) : Config :=
  let line := trim line
  if line.head? = some '#' ∨ line.head? = some ';' then config
  else match splitWhitespace line with
    | [] => config
    | directive :: parts =>
      if directive = "nameserver".toList then
        match parts with
        | [] => config
        | addrStr :: _ =>
          match nameserverAddr addrStr with
          | none => config
          | some addr =>
            { config with nameservers := config.nameservers ++ [Nameserver.new addr .udp] }
      else if directive = "search".toList then
        { config with searchDomains := parts.filter (isValidSearchDomain S) }
      else if directive = "domain".toList then
        match parts with
        | [] => config
        | domain :: _ =>
          if isValidSearchDomain S domain then { config with searchDomains := [domain] }
          else config
      else if directive = "options".toList then
        { config with
          ndots := parts.foldl (fun ndots opt => (ndotsOption opt).or ndots) config.ndots }
      else config

/-- `parse_resolv_conf`. -/
def parseResolvConf (content : Str) : Config := (strLines content).foldl (parseDirective S) {}

end Parse

end N0DnsResolver
