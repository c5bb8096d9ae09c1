import TraceTally.Binary64.Basic
import TraceTally.Store.Basic
import TraceTally.Text.Bytes
import TraceTally.Wire.Varint

/-!
# Rows in binary

The columns of a row follow each other without marks between them: a text is its length and its
bytes, a number eight bytes, the lowest first. Identifiers are written as texts of 32 hexadecimal
digits in five groups.
-/

namespace TraceTally.ClickHouse

open Text (Bytes)

/-- The digits of an identifier, without leading zeros left out. -/
def idDigits (id : RowId) : List Char :=
  (List.range 32).map fun i => Text.hexDigit (id / 16 ^ (31 - i) % 16)

/-- Eight, four, four, four and twelve digits. -/
def writeId (id : RowId) : List Char :=
  let ds := idDigits id
  let group (start length : Nat) : List Char := (ds.drop start).take length
  Text.join ['-'] [group 0 8, group 8 4, group 12 4, group 16 4, group 20 12]

/-- An identifier with or without its dashes. -/
def readId? (cs : List Char) : Option RowId :=
  let ds := cs.filter (· ≠ '-')
  let dashes := (List.range cs.length).filter fun i => cs[i]? = some '-'
  if ds.length ≠ 32 || !(dashes = [] || dashes = [8, 13, 18, 23]) then none
  else ds.foldlM (fun n d => (Text.hexValue? d).map fun v => 16 * n + v) 0

def writeText (s : List Char) : Bytes :=
  let bytes := Text.utf8 s
  Wire.varint bytes.length ++ bytes

/-- A number of 64 bits by its remainder, so that a negative one has its complement. -/
def writeWhole (n : Int) : Bytes := Wire.fixed 8 (n % 2 ^ 64).toNat

def writeRow (r : Record Binary64) : Bytes :=
  writeText (writeId r.id) ++ writeText r.key.traceId.toList ++ writeText r.key.origin.toList ++
    writeText r.key.name.toList ++ Wire.fixed 8 r.value.bits.toNat ++ writeText r.key.unit.toList ++
    writeWhole r.created ++ writeWhole r.expires

/-- Why rows cannot be read. -/
inductive RowError where
  | truncated
  | notText
  | notAnId
  deriving DecidableEq, Repr

def RowError.message : RowError → String
  | .truncated => "not enough data, probably a row type mismatches a database schema"
  | .notText => "string is not valid utf8"
  | .notAnId => "invalid identifier"

abbrev RowReader (α : Type) := Bytes → Except RowError (α × Bytes)

def readText : RowReader (List Char) := fun bytes =>
  match Wire.readVarint? 0 bytes with
  | none => .error .truncated
  | some (length, rest) =>
    if rest.length < length then .error .truncated
    else match Text.ofUtf8? (rest.take length) with
      | some cs => .ok (cs, rest.drop length)
      | none => .error .notText

def readWord : RowReader Nat := fun bytes =>
  match Wire.readFixed? 8 bytes with
  | some found => .ok found
  | none => .error .truncated

/-- One row; its two times are read and passed over. -/
def readRow : RowReader (ScannedRow Binary64) := fun bytes => do
  let (id, bytes) ← readText bytes
  let (traceId, bytes) ← readText bytes
  let (origin, bytes) ← readText bytes
  let (name, bytes) ← readText bytes
  let (value, bytes) ← readWord bytes
  let (unit, bytes) ← readText bytes
  let (_, bytes) ← readWord bytes
  let (_, bytes) ← readWord bytes
  match readId? id with
  | none => .error .notAnId
  | some id =>
    let key : Key := ⟨String.ofList origin, String.ofList traceId, String.ofList name, String.ofList unit⟩
    .ok (⟨id, key, ⟨UInt64.ofNat value⟩⟩, bytes)

/-- Rows up to the end. One step per row, and each takes a byte. -/
def rowSteps : Nat → Bytes → Except RowError (List (ScannedRow Binary64))
  | _, [] => .ok []
  | 0, _ => .error .truncated
  | steps + 1, bytes => do
    let (row, rest) ← readRow bytes
    (rowSteps steps rest).map (row :: ·)

def readRows (bytes : Bytes) : Except RowError (List (ScannedRow Binary64)) :=
  rowSteps bytes.length bytes

end TraceTally.ClickHouse
