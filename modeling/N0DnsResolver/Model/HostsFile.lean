/-
  The hosts file, as it is parsed (`Hosts::parse`, `system_config/hosts.rs`).

  What the parser takes from the standard library (lines, fields, addresses) is here under
  the library's names. The estimate of the map's capacity and the warning about a line are
  left out.
-/
import N0DnsResolver.Lib.Fields
import N0DnsResolver.Model.Config
import N0DnsResolver.Model.Hosts

namespace N0DnsResolver

/-! ## Text -/

/-- `char::is_ascii_whitespace`. -/
def isAsciiWhitespace (c : Char) : Bool := [' ', '\t', '\n', '\x0c', '\r'].contains c

/-- `str::trim_ascii`. -/
def trimAscii (s : Str) : Str := trimEnds isAsciiWhitespace s

/-- `str::split_ascii_whitespace`. -/
def splitAsciiWhitespace (s : Str) : List Str := fields isAsciiWhitespace s

/-- `str::split_inclusive('\n')`: each line with the break that ends it. -/
def splitInclusive : Str → List Str
  | [] => []
  | c :: rest =>
    if c = '\n' then [c] :: splitInclusive rest
    else match splitInclusive rest with
      | [] => [[c]]
      | line :: lines => (c :: line) :: lines

/-- `str::strip_suffix` with a character, `unwrap_or` the text itself. -/
def stripSuffix (s : Str) (c : Char) : Option Str :=
  if s.getLast? = some c then some s.dropLast else none

/-- `str::lines`. A carriage return is dropped only together with the line feed after it. -/
def strLines (s : Str) : List Str :=
  (splitInclusive s).map fun line =>
    match stripSuffix line '\n' with
    | none => line
    | some line =>
      match stripSuffix line '\r' with
      | none => line
      | some line => line

/-- `content.strip_prefix('\u{feff}').unwrap_or(content)`. -/
def stripBom : Str → Str
  | [] => []
  | c :: rest => if c = '\ufeff' then rest else c :: rest

/-- The text before the first `#`, or all of it. -/
def beforeComment (line : Str) : Str := line.takeWhile (· ≠ '#')

/-! ## Addresses

The parser of `core::net`. A reader that fails leaves the text as it was, so each is a function
from the text to a value and the rest of the text. -/

/-- `char::to_digit`, for a radix of at most 16. -/
def toDigit (radix : Nat) (c : Char) : Option Nat :=
  let digit :=
    if '0' ≤ c ∧ c ≤ '9' then some (c.toNat - '0'.toNat)
    else if 'a' ≤ c ∧ c ≤ 'f' then some (c.toNat - 'a'.toNat + 10)
    else if 'A' ≤ c ∧ c ≤ 'F' then some (c.toNat - 'A'.toNat + 10)
    else none
  digit.filter (· < radix)

/-- `Parser::read_number`, into an integer type whose values are at most `max`. -/
def readNumber (radix maxDigits : Nat) (allowZeroPrefix : Bool) (max : Nat) (p : Str) :
    Option (Nat × Str) :=
  let digits := p.takeWhile fun c => (toDigit radix c).isSome
  let result := digits.foldl (fun result c => result * radix + (toDigit radix c).getD 0) 0
  if maxDigits < digits.length then none
  else if digits.length = 0 then none
  else if allowZeroPrefix = false ∧ p.head? = some '0' ∧ 1 < digits.length then none
  else if max < result then none
  else some (result, p.drop digits.length)

/-- `Parser::read_given_char`. -/
def readGivenChar (target : Char) : Str → Option Str
  | [] => none
  | c :: rest => if c = target then some rest else none

/-- `Parser::read_separator`: the separator stands before every element but the first. -/
def readSeparator {T : Type} (sep : Char) (index : Nat) (inner : Str → Option (T × Str))
    (p : Str) : Option (T × Str) :=
  if index = 0 then inner p else (readGivenChar sep p).bind inner

/-- `Parser::read_ipv4_addr`, as its four octets. -/
def readIpv4Addr (p : Str) : Option (List Nat × Str) :=
  let slot (i : Nat) (p : Str) := readSeparator '.' i (readNumber 10 3 false 255) p
  do
    let (one, p) ← slot 0 p
    let (two, p) ← slot 1 p
    let (three, p) ← slot 2 p
    let (four, p) ← slot 3 p
    some ([one, two, three, four], p)

/-- `read_groups`: at most `left` further groups from slot `i` on, whether an embedded IPv4 address
ended them, and the rest of the text. -/
def readGroups (p : Str) (i : Nat) : Nat → List Nat × Bool × Str
  | 0 => ([], false, p)
  | left + 1 =>
    -- an IPv4 address takes two groups
    let ipv4 := if 0 < left then readSeparator ':' i readIpv4Addr p else none
    match ipv4 with
    | some ([one, two, three, four], rest) =>
      ([one * 256 + two, three * 256 + four], true, rest)
    | _ =>
      match readSeparator ':' i (readNumber 16 4 true 65535) p with
      | none => ([], false, p)
      | some (group, rest) =>
        let (groups, ipv4, rest) := readGroups rest (i + 1) left
        (group :: groups, ipv4, rest)

/-- `Parser::read_ipv6_addr`, as its eight groups. -/
def readIpv6Addr (p : Str) : Option (List Nat × Str) :=
  let (head, headIpv4, p) := readGroups p 0 8
  if head.length = 8 then some (head, p)
  else if headIpv4 then none
  else do
    let p ← readGivenChar ':' p
    let p ← readGivenChar ':' p
    -- the `::` stands for at least one group
    let (tail, _, p) := readGroups p 0 (8 - (head.length + 1))
    some (head ++ List.replicate (8 - head.length - tail.length) 0 ++ tail, p)

/-- The number with these digits in base `base`. -/
def ofDigits (base : Nat) (digits : List Nat) : Nat :=
  digits.foldl (fun n digit => n * base + digit) 0

/-- `str::parse::<IpAddr>`: the whole text is one address. -/
def parseIpAddr (s : Str) : Option IpAddr :=
  let addr := match readIpv4Addr s with
    | some (octets, rest) => some (IpAddr.v4 ⟨UInt32.ofNat (ofDigits 256 octets)⟩, rest)
    | none => (readIpv6Addr s).map fun (groups, rest) =>
        (IpAddr.v6 ⟨BitVec.ofNat 128 (ofDigits 65536 groups)⟩, rest)
  match addr with
  | some (addr, []) => some addr
  | _ => none

example : parseIpAddr "10.0.01.1".toList = none := by decide +kernel
example : parseIpAddr "::ffff:10.0.1.10".toList = some (.v6 ⟨0xffff0a00010a⟩) := by
  decide +kernel

/-! ## Entries -/

section Entries

variable {T : Type}

/-- `Addrs::push`. -/
def Addrs.push : Addrs T → T → Addrs T
  | .none, addr => .one addr
  | .one first, addr => .many [first, addr]
  | .many addrs, addr => .many (addrs ++ [addr])

theorem Addrs.toVec_push (addrs : Addrs T) (addr : T) :
    (addrs.push addr).toVec = some (addrs.toVec.getD [] ++ [addr]) := by
  cases addrs <;> rfl

/-- `map.entry(key).or_default().push(addr)`. -/
def NameMap.push : NameMap T → Str → T → NameMap T
  | [], key, addr => [(key, Addrs.none.push addr)]
  | entry :: map, key, addr =>
    if entry.1 = key then (entry.1, entry.2.push addr) :: map
    else entry :: NameMap.push map key addr

/-- The addresses of a key, as a lookup returns them. -/
def NameMap.addrs (map : NameMap T) (key : Str) : Option (List T) :=
  (NameMap.get map key).bind Addrs.toVec

theorem NameMap.addrs_cons (entry : Str × Addrs T) (map : NameMap T) (key : Str) :
    NameMap.addrs (entry :: map) key =
      if entry.1 = key then entry.2.toVec else NameMap.addrs map key := by
  unfold NameMap.addrs NameMap.get
  by_cases h : entry.1 = key
  · rw [if_pos h, List.find?_cons_of_pos (by simpa using h)]
    rfl
  · rw [if_neg h, List.find?_cons_of_neg (by simpa using h)]

/-- A push appends to the addresses of its key, and leaves the other keys alone. -/
theorem NameMap.addrs_push (map : NameMap T) (key : Str) (addr : T) (key' : Str) :
    NameMap.addrs (NameMap.push map key addr) key' =
      if key = key' then some ((NameMap.addrs map key').getD [] ++ [addr])
      else NameMap.addrs map key' := by
  induction map with
  | nil =>
    unfold NameMap.push
    rw [NameMap.addrs_cons]
    rfl
  | cons entry map ih =>
    unfold NameMap.push
    by_cases hkey : entry.1 = key
    · rw [if_pos hkey, NameMap.addrs_cons, NameMap.addrs_cons, hkey]
      by_cases h : key = key'
      · rw [if_pos h, if_pos h, if_pos h, Addrs.toVec_push]
      · rw [if_neg h, if_neg h, if_neg h]
    · rw [if_neg hkey, NameMap.addrs_cons, NameMap.addrs_cons, ih]
      by_cases h : entry.1 = key'
      · rw [if_pos h, if_neg (fun hk => hkey (h.trans hk.symm)), if_pos h]
      · rw [if_neg h, if_neg h]

end Entries

/-! ## The file -/

namespace Hosts

/-- `name.to_ascii_lowercase()`, the key a name of the file is entered under. -/
def fileKey (name : Str) : Str := name.map Char.toLower

/-- The body of the loop over the names of a line. -/
def enter (addr : IpAddr) (hosts : Hosts) (name : Str) : Hosts :=
  let key := fileKey name
  match addr with
  | .v4 ip => { hosts with a := NameMap.push hosts.a key ip }
  | .v6 ip => { hosts with aaaa := NameMap.push hosts.aaaa key ip }

/-- The body of the loop over the lines. -/
def parseLine (hosts : Hosts) (line : Str) : Hosts :=
  let line := trimAscii (beforeComment line)
  if line = [] then hosts
  else match splitAsciiWhitespace line with
    | [] => hosts
    | addr :: names =>
      match parseIpAddr addr with
      | none => hosts
      | some addr => names.foldl (enter addr) hosts

/-- `Hosts::parse`. -/
def parse (content : Str) : Hosts := (strLines (stripBom content)).foldl parseLine {}

end Hosts

end N0DnsResolver
