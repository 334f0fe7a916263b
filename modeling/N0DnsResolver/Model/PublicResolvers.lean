/-
  The public resolvers, the order they are queried in (`public_resolvers.rs`), and the
  builder calls that make them the fallback tier (`builder.rs`, `system_with_fallback` of
  `resolver.rs`).
-/
import N0DnsResolver.Model.HostsFile
import N0DnsResolver.Model.Upstreams

namespace N0DnsResolver

/-- `Ipv4Addr::new`. -/
def Ipv4Addr.new (a b c d : UInt8) : Ipv4Addr :=
  ⟨UInt32.ofNat (ofDigits 256 ([a, b, c, d].map UInt8.toNat))⟩

/-- `Ipv6Addr::new`. -/
def Ipv6Addr.new (a b c d e f g h : UInt16) : Ipv6Addr :=
  ⟨BitVec.ofNat 128 (ofDigits 65536 ([a, b, c, d, e, f, g, h].map UInt16.toNat))⟩

/-- `Provider`. -/
inductive Provider where
  | cloudflare | google | quad9
  deriving DecidableEq, Repr

namespace Provider

/-- `Provider::ALL`. -/
def all : List Provider := [.cloudflare, .google, .quad9]

/-- `Provider::ipv4_addrs`: the primary and the secondary. -/
def ipv4Addrs : Provider → Ipv4Addr × Ipv4Addr
  | .cloudflare => (.new 1 1 1 1, .new 1 0 0 1)
  | .google => (.new 8 8 8 8, .new 8 8 4 4)
  | .quad9 => (.new 9 9 9 9, .new 149 112 112 112)

/-- `Provider::ipv6_addrs`: the primary and the secondary. -/
def ipv6Addrs : Provider → Ipv6Addr × Ipv6Addr
  | .cloudflare =>
    (.new 0x2606 0x4700 0x4700 0 0 0 0 0x1111, .new 0x2606 0x4700 0x4700 0 0 0 0 0x1001)
  | .google =>
    (.new 0x2001 0x4860 0x4860 0 0 0 0 0x8888, .new 0x2001 0x4860 0x4860 0 0 0 0 0x8844)
  | .quad9 => (.new 0x2620 0x00fe 0 0 0 0 0 0x00fe, .new 0x2620 0x00fe 0 0 0 0 0 0x0009)

/-- `Provider::nameservers`. -/
def nameservers (p : Provider) (protocol : DnsProtocol) : List Nameserver :=
  let (v4Primary, v4Secondary) := p.ipv4Addrs
  let (v6Primary, v6Secondary) := p.ipv6Addrs
  [.v4 v4Primary, .v6 v6Primary, .v4 v4Secondary, .v6 v6Secondary].map fun ip =>
    .new ⟨ip, protocol.port⟩ protocol

end Provider

/-- `default_order`. -/
def defaultOrder (providers : List Provider) : List Nameserver :=
  let servers := interleaveNameservers (providers.map fun p => p.nameservers .udp)
  let doh := providers.filterMap fun p => (p.nameservers .https).head?
  -- `servers.splice(at..at, doh)`
  let place := min servers.length 2
  servers.take place ++ doh ++ servers.drop place

/-! ## The builder -/

namespace Builder

/-- `Builder::use_system_config`. -/
def withSystemConfig (b : Builder) : Builder := { b with useSystemConfig := true }

/-- `Builder::fallback_nameservers`. -/
def withFallbackNameservers (b : Builder) (nameservers : List Nameserver) : Builder :=
  { b with fallbackNameservers := b.fallbackNameservers ++ nameservers }

/-- `Builder::default_fallback_nameservers`. -/
def defaultFallbackNameservers (b : Builder) : Builder :=
  b.withFallbackNameservers (defaultOrder Provider.all)

/-- The builder `DnsResolver::system_with_fallback` builds from. -/
def systemWithFallback : Builder := ({} : Builder).withSystemConfig.defaultFallbackNameservers

end Builder

end N0DnsResolver
