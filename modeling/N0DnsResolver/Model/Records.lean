/-
  The data a lookup is asked for and returns: record kinds, records and errors
  (`records.rs`, `error.rs`, and the error types of `query.rs` and `transport.rs`).

  A `String` is the list of its characters and a byte slice the list of its bytes.
-/
import Mathlib.Data.List.Basic

namespace N0DnsResolver

abbrev Str := List Char

abbrev Bytes := List UInt8

/-- `RecordKind`. -/
inductive RecordKind where
  | a | aaaa | txt | ns | srv | mx | caa | svcb | https
  deriving DecidableEq, Repr

/-- A domain name as `simple_dns::Name` holds it: its labels, as raw bytes. -/
structure Name where
  labels : List Bytes
  deriving DecidableEq, Repr

/-- `simple_dns::rdata::SVCB`: the parameters stay as key and raw value. -/
structure Svcb where
  priority : UInt16
  target : Name
  params : List (UInt16 × Bytes)
  deriving DecidableEq, Repr

structure Ipv4Addr where
  bits : UInt32
  deriving DecidableEq, Repr

structure Ipv6Addr where
  bits : BitVec 128
  deriving DecidableEq, Repr

structure SrvRecordData where
  priority : UInt16
  weight : UInt16
  port : UInt16
  target : Str
  deriving DecidableEq, Repr

structure MxRecordData where
  preference : UInt16
  exchange : Str
  deriving DecidableEq, Repr

structure CaaRecordData where
  flag : UInt8
  tag : Str
  value : Bytes
  deriving DecidableEq, Repr

structure HttpsRecordData where
  owner : Str
  data : Svcb
  deriving DecidableEq, Repr

/-- `Record`. A TXT record is the list of its character-strings. -/
inductive Record where
  | a (address : Ipv4Addr)
  | aaaa (address : Ipv6Addr)
  | txt (strings : List Bytes)
  | ns (name : Str)
  | srv (data : SrvRecordData)
  | mx (data : MxRecordData)
  | caa (data : CaaRecordData)
  | svcb (data : Svcb)
  | https (data : HttpsRecordData)
  deriving DecidableEq, Repr

/-- The kind a record is of. -/
def Record.kind : Record → RecordKind
  | .a _ => .a
  | .aaaa _ => .aaaa
  | .txt _ => .txt
  | .ns _ => .ns
  | .srv _ => .srv
  | .mx _ => .mx
  | .caa _ => .caa
  | .svcb _ => .svcb
  | .https _ => .https

/-! ## Errors -/

/-- `TransportError`; the sources of an I/O or HTTP failure are not told apart. -/
inductive TransportError where
  | io
  | queryTooLarge
  | unexpectedResponse
  | invalidServerName (name : Str)
  | http
  | buildClient
  | responseTooLarge
  deriving DecidableEq, Repr

/-- `ResponseCode`. -/
inductive ResponseCode where
  | serverFailure
  | refused
  | formatError
  | notImplemented
  | other
  deriving DecidableEq, Repr

/-- `Error`. -/
inductive Error where
  | noNameservers
  | timeout
  | noResponse
  | nxDomain
  | serverError (code : ResponseCode)
  | invalidResponse
  | invalidName (name : Str)
  | missingTlsConfig
  | transport (source : TransportError)
  deriving DecidableEq, Repr

end N0DnsResolver
