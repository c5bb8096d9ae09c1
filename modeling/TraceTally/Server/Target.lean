import TraceTally.Text.Bytes

/-!
# Request targets

A target is a star, a path with an optional query, an authority alone, or a full address of scheme,
authority and path. What is wrong with a text that is none of these is reported by the first rule
it breaks.
-/

namespace TraceTally

inductive TargetError where
  | empty
  | tooLong
  | invalidCharacter
  | invalidAuthority
  | invalidFormat
  | schemeTooLong
  deriving DecidableEq, Repr

def TargetError.message : TargetError → String
  | .empty => "empty string"
  | .tooLong => "uri too long"
  | .invalidCharacter => "invalid uri character"
  | .invalidAuthority => "invalid authority"
  | .invalidFormat => "invalid format"
  | .schemeTooLong => "scheme too long"

structure Target where
  scheme : Option Text.Bytes
  authority : Text.Bytes
  /-- The path with its query. -/
  rest : Text.Bytes
  deriving DecidableEq, Repr

namespace Target

def byte (c : Char) : UInt8 := UInt8.ofNat c.toNat

def isAlphanumeric (b : UInt8) : Bool :=
  (byte '0' ≤ b && b ≤ byte '9') || (byte 'a' ≤ b && b ≤ byte 'z') || (byte 'A' ≤ b && b ≤ byte 'Z')

/-- Reserved and unreserved characters of an address; a percent sign is not among them. -/
def isAddressByte (b : UInt8) : Bool :=
  isAlphanumeric b || ("!#$&'()*+,-./:;=?@[]_~".toList.map byte).contains b

def isSchemeByte (b : UInt8) : Bool := isAlphanumeric b || ("+-.".toList.map byte).contains b

/-- Bytes that may stand in a path unescaped. -/
def isPathByte (b : UInt8) : Bool :=
  b = 0x21 || b = 0x22 || (0x24 ≤ b && b ≤ 0x3B) || b = 0x3D || (0x40 ≤ b && b ≤ 0x5F) ||
    (0x61 ≤ b && b ≤ 0x7E)

def isQueryByte (b : UInt8) : Bool :=
  b = 0x21 || (0x24 ≤ b && b ≤ 0x3B) || b = 0x3D || (0x3F ≤ b && b ≤ 0x7E)

/-- The length of a scheme that is followed by `://`. -/
def schemeLength? (s : Text.Bytes) : Except TargetError (Option Nat) :=
  let name := s.takeWhile isSchemeByte
  if (Text.utf8 "://".toList).isPrefixOf (s.drop name.length) then
    if 64 < name.length then .error .schemeTooLong else .ok (some name.length)
  else .ok none

/-- What has been seen of an authority. -/
structure AuthorityScan where
  colons : Nat := 0
  opened : Bool := false
  closed : Bool := false
  percent : Bool := false
  /-- Whether the byte before was an at sign. -/
  atSign : Bool := false

/-- The length of the authority that the text begins with; it ends before `/`, `?` or `#`. -/
def authorityLength (scan : AuthorityScan) (length : Nat) : Text.Bytes → Except TargetError Nat
  | [] => finish
  | b :: rest =>
    if b = byte '/' || b = byte '?' || b = byte '#' then finish
    else if b = byte ':' then
      if 8 ≤ scan.colons then .error .invalidAuthority
      else authorityLength { scan with colons := scan.colons + 1, atSign := false } (length + 1) rest
    else if b = byte '[' then
      if scan.percent || scan.opened then .error .invalidAuthority
      else authorityLength { scan with opened := true, atSign := false } (length + 1) rest
    else if b = byte ']' then
      if !scan.opened || scan.closed then .error .invalidAuthority
      else authorityLength { scan with closed := true, colons := 0, percent := false, atSign := false }
        (length + 1) rest
    else if b = byte '@' then
      authorityLength { scan with colons := 0, percent := false, atSign := true } (length + 1) rest
    else if b = byte '%' then
      authorityLength { scan with percent := true, atSign := false } (length + 1) rest
    else if isAddressByte b then authorityLength { scan with atSign := false } (length + 1) rest
    else .error .invalidCharacter
where
  finish : Except TargetError Nat :=
    if scan.opened != scan.closed || 1 < scan.colons || scan.atSign || scan.percent then
      .error .invalidAuthority
    else .ok length

/-- A path with its query, up to the fragment. -/
def readPath (s : Text.Bytes) : Except TargetError Text.Bytes :=
  let stops (b : UInt8) : Bool := b = byte '?' || b = byte '#'
  let path := s.takeWhile fun b => !stops b
  let rest := s.dropWhile fun b => !stops b
  if !path.all isPathByte then .error .invalidCharacter
  else match rest with
    | b :: query =>
      if b = byte '#' then .ok path
      else
        let query := query.takeWhile fun b => b ≠ byte '#'
        if query.all isQueryByte then .ok (path ++ b :: query) else .error .invalidCharacter
    | [] => .ok path

def readFull (s : Text.Bytes) : Except TargetError Target := do
  match ← schemeLength? s with
  | none =>
    let n ← authorityLength {} 0 s
    if n = s.length then .ok ⟨none, s, []⟩ else .error .invalidFormat
  | some k =>
    let afterScheme := s.drop (k + 3)
    let n ← authorityLength {} 0 afterScheme
    if n = 0 then .error .invalidFormat
    else
      let rest ← readPath (afterScheme.drop n)
      .ok ⟨some (s.take k), afterScheme.take n, rest⟩

def read (s : Text.Bytes) : Except TargetError Target :=
  if 65534 < s.length then .error .tooLong
  else match s with
    | [] => .error .empty
    | [b] =>
      if b = byte '/' || b = byte '*' then .ok ⟨none, [], [b]⟩
      else (authorityLength {} 0 [b]).bind fun n =>
        if n = 1 then .ok ⟨none, [b], []⟩ else .error .invalidCharacter
    | b :: _ => if b = byte '/' then (readPath s).map fun rest => ⟨none, [], rest⟩ else readFull s

/-- The path without its query; an address that has none means the root. -/
def path (t : Target) : Text.Bytes :=
  if t.rest.isEmpty && t.scheme.isNone then []
  else
    let path := t.rest.takeWhile (· ≠ byte '?')
    if path.isEmpty then [byte '/'] else path

end Target

end TraceTally
