/-
DNS messages and records as hickory hands them to the filter, and the parsers
of Rust's standard library that the filter applies to text.

A name is its list of wire labels.  How hickory prints and parses names is
the structure `Hickory`: the filter decides on those strings, so the library
is a parameter of everything that follows.
-/
import MantisDns.Text

namespace Dns

/-! ### Records -/

/-- `RecordType`, as far as the filter tells types apart. -/
inductive RecordType
  | a
  | ns
  | cname
  | soa
  | ptr
  | mx
  | txt
  | aaaa
  | srv
  | opt
  | tsig
  | ixfr
  | axfr
  | caa
  | other (code : UInt16)
  deriving DecidableEq, Repr

/-- `u16::from(RecordType)`. -/
def RecordType.toU16 : RecordType → UInt16
  | .a => 1
  | .ns => 2
  | .cname => 5
  | .soa => 6
  | .ptr => 12
  | .mx => 15
  | .txt => 16
  | .aaaa => 28
  | .srv => 33
  | .opt => 41
  | .tsig => 250
  | .ixfr => 251
  | .axfr => 252
  | .caa => 257
  | .other code => code

/-- A wire label. -/
abbrev Label := List UInt8

/-- `Name`. -/
structure Name where
  labels : List Label
  isFqdn : Bool
  deriving DecidableEq, Repr

/-- `Name::root()`. -/
def Name.root : Name := ⟨[], true⟩

/-- The two CAA properties the filter builds. -/
inductive CaaTag
  | issue
  | issuewild
  deriving DecidableEq, Repr

/-- `RData`. -/
inductive RData
  | a (ip : UInt32)
  | aaaa (ip : BitVec 128)
  | cname (target : Name)
  | ns (target : Name)
  | ptr (target : Name)
  | mx (preference : UInt16) (exchange : Name)
  | txt (strings : List (List UInt8))
  | srv (priority weight port : UInt16) (target : Name)
  | caa (critical : Bool) (tag : CaaTag) (issuer : Option Name)
  | soa (mname rname : Name) (serial : UInt32) (refresh retry expire : Int32) (minimum : UInt32)
  | other (type : UInt16) (data : List UInt8)
  deriving DecidableEq, Repr

/-- `RData::record_type`. -/
def RData.recordType : RData → RecordType
  | .a _ => .a
  | .aaaa _ => .aaaa
  | .cname _ => .cname
  | .ns _ => .ns
  | .ptr _ => .ptr
  | .mx _ _ => .mx
  | .txt _ => .txt
  | .srv _ _ _ _ => .srv
  | .caa _ _ _ => .caa
  | .soa _ _ _ _ _ _ _ => .soa
  | .other type _ => .other type

/-- `Record`, of class IN. -/
structure Record where
  name : Name
  ttl : UInt32
  data : RData
  deriving DecidableEq, Repr

/-- `record_type`. -/
def Record.recordType (r : Record) : RecordType := r.data.recordType

/-! ### Messages -/

/-- `MessageType`, the QR bit. -/
inductive MessageType
  | query
  | response
  deriving DecidableEq, Repr

/-- `OpCode`. -/
inductive OpCode
  | query
  | other (code : UInt8)
  deriving DecidableEq, Repr

/-- The response codes the filter sets. -/
inductive ResponseCode
  | noError
  | formErr
  | servFail
  | nxDomain
  | notImp
  | refused
  | badVers
  deriving DecidableEq, Repr

/-- `DNSClass`. -/
inductive DnsClass
  | internet
  | chaos
  | other (code : UInt16)
  deriving DecidableEq, Repr

/-- `Query`: an entry of the question section. -/
structure Query where
  name : Name
  queryType : RecordType
  queryClass : DnsClass
  deriving DecidableEq, Repr

/-- `Edns`. -/
structure Edns where
  maxPayload : UInt16
  version : UInt8
  dnssecOk : Bool
  /-- Option code and content. -/
  options : List (UInt16 × List UInt8)
  deriving DecidableEq, Repr

/-- `Edns::new()`. -/
def Edns.new : Edns := ⟨512, 0, false, []⟩

/-- `options_mut().insert(..)`. -/
def Edns.insert (edns : Edns) (code : UInt16) (data : List UInt8) : Edns :=
  { edns with options := edns.options.filter (·.1 ≠ code) ++ [(code, data)] }

/-- `options().get(..)`. -/
def Edns.get (edns : Edns) (code : UInt16) : Option (List UInt8) :=
  (edns.options.find? (·.1 = code)).map Prod.snd

/-- `Message`. -/
structure Message where
  id : UInt16
  messageType : MessageType
  opCode : OpCode
  authoritative : Bool
  truncated : Bool
  recursionDesired : Bool
  recursionAvailable : Bool
  authenticData : Bool
  responseCode : ResponseCode
  queries : List Query
  answers : List Record
  nameServers : List Record
  additionals : List Record
  edns : Option Edns
  deriving DecidableEq, Repr

/-- `Message::new()`. -/
def Message.new : Message :=
  ⟨0, .query, .query, false, false, false, false, false, .noError, [], [], [], [], none⟩

/-- `IpAddr`. -/
inductive IpAddr
  | v4 (ip : UInt32)
  | v6 (ip : BitVec 128)
  deriving DecidableEq, Repr

/-! ### Names as text -/

/-- A label read as ASCII. -/
def labelText (label : Label) : Str := label.map fun b => Char.ofNat b.toNat

/-- How hickory-proto prints and parses names. -/
structure Hickory where
  /-- `Name::to_utf8`. -/
  toUtf8 : Name → Str
  /-- `Name::to_ascii`. -/
  toAscii : Name → Str
  /-- `str::parse::<Name>`. -/
  parseName : Str → Option Name
  /-- `Name::from_utf8`. -/
  fromUtf8 : Str → Option Name

/-! ### The standard library's text parsers -/

/-- `char::is_whitespace`. -/
def isWhitespace (c : Char) : Bool :=
  let n := c.toNat
  (9 ≤ n && n ≤ 13) || n == 32 || n == 0x85 || n == 0xA0 || n == 0x1680 ||
    (0x2000 ≤ n && n ≤ 0x200A) || n == 0x2028 || n == 0x2029 || n == 0x202F || n == 0x205F ||
    n == 0x3000

/-- `str::trim`. -/
def trim (s : Str) : Str := (s.dropWhile isWhitespace).rdropWhile isWhitespace

/-- `str::split_whitespace`. -/
def splitWhitespace (s : Str) : List Str := (s.splitOnP isWhitespace).filter (· ≠ [])

/-- The value of a non-empty run of decimal digits. -/
def digits (s : Str) : Option ℕ :=
  if s ≠ [] ∧ s.all Char.isDigit then
    some (s.foldl (fun n c => 10 * n + (c.toNat - '0'.toNat)) 0)
  else none

/-- `str::parse` for an unsigned integer below `bound`: an optional `+`. -/
def parseUnsigned (bound : ℕ) (s : Str) : Option ℕ :=
  (digits ((Text.stripPrefix "+" s).getD s)).filter (· < bound)

/-- `str::parse::<u16>`. -/
def parseU16 (s : Str) : Option UInt16 := (parseUnsigned (2 ^ 16) s).map UInt16.ofNat

/-- `str::parse::<u32>`. -/
def parseU32 (s : Str) : Option UInt32 := (parseUnsigned (2 ^ 32) s).map UInt32.ofNat

/-- `str::parse::<i32>`. -/
def parseI32 (s : Str) : Option Int32 :=
  match Text.stripPrefix "-" s with
  | some rest => ((digits rest).filter (· ≤ 2 ^ 31)).map fun n => Int32.ofInt (-n)
  | none => (parseUnsigned (2 ^ 31) s).map fun n => Int32.ofInt n

/-- One part of a dotted quad: at most three digits, no leading zero. -/
def parseOctet (s : Str) : Option ℕ :=
  if s.length ≤ 3 ∧ (s.head? ≠ some '0' ∨ s.length = 1) then (digits s).filter (· < 256) else none

/-- `str::parse::<Ipv4Addr>`. -/
def parseIpv4 (s : Str) : Option UInt32 :=
  match (s.splitOn '.').map parseOctet with
  | [some a, some b, some c, some d] =>
    some (UInt32.ofNat (((a * 256 + b) * 256 + c) * 256 + d))
  | _ => none

/-- The value of one hexadecimal digit. -/
def hexDigit (c : Char) : Option ℕ :=
  if c.isDigit then some (c.toNat - '0'.toNat)
  else if 'a' ≤ c ∧ c ≤ 'f' then some (c.toNat - 'a'.toNat + 10)
  else if 'A' ≤ c ∧ c ≤ 'F' then some (c.toNat - 'A'.toNat + 10)
  else none

/-- One group of an IPv6 address: one to four hexadecimal digits. -/
def parseGroup (s : Str) : Option ℕ :=
  if s = [] ∨ 4 < s.length then none
  else s.foldl (fun n c => n.bind fun n => (hexDigit c).map (16 * n + ·)) (some 0)

/-- A run of groups between colons; the last may be a dotted quad, which
stands for two. -/
def parseGroups : List Str → Option (List ℕ)
  | [] => some []
  | [last] =>
    match parseGroup last with
    | some g => some [g]
    | none => (parseIpv4 last).map fun ip => [ip.toNat / 65536, ip.toNat % 65536]
  | part :: rest => (parseGroup part).bind fun g => (parseGroups rest).map (g :: ·)

/-- The groups of a possibly empty run. -/
def parseGroupRun (s : Str) : Option (List ℕ) :=
  if s = [] then some [] else parseGroups (s.splitOn ':')

/-- The two sides of the first `::`. -/
def splitDoubleColon : Str → Option (Str × Str)
  | ':' :: ':' :: rest => some ([], rest)
  | c :: rest => (splitDoubleColon rest).map fun p => (c :: p.1, p.2)
  | [] => none

/-- `str::parse::<Ipv6Addr>`: eight groups, or fewer around one `::`.  A dotted
quad is only accepted as the last two groups. -/
def parseIpv6 (s : Str) : Option (BitVec 128) :=
  let groups : Option (List ℕ) :=
    match splitDoubleColon s with
    | none => (parseGroups (s.splitOn ':')).filter (·.length = 8)
    | some (head, tail) =>
      -- a quad before the `::` is refused, so the head must be plain groups
      if head.contains '.' then none
      else
        (parseGroupRun head).bind fun hs => (parseGroupRun tail).bind fun ts =>
          if hs.length + ts.length < 8 then
            some (hs ++ List.replicate (8 - hs.length - ts.length) 0 ++ ts)
          else none
  groups.map fun gs => BitVec.ofNat 128 (gs.foldl (fun n g => 65536 * n + g) 0)

example : parseIpv6 "fe80::1:192.0.2.1" = some 0xfe800000000000000000_0001_c000_0201 := by
  decide +kernel

end Dns
