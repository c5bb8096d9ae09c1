import TraceTally.Powers

/-!
# UTF-8 and hexadecimal

The bytes of a text, and back. Reading refuses what UTF-8 refuses: stray continuation bytes,
truncated and overlong sequences, surrogates and values past U+10FFFF.
-/

namespace TraceTally.Text

abbrev Bytes := List UInt8

/-- One to four bytes, by the size of the code point. -/
def utf8Char (c : Char) : Bytes :=
  let n := c.toNat
  let continuation (shift : Nat) : UInt8 := UInt8.ofNat (0x80 + (n / 2 ^ shift) % 64)
  if n < 0x80 then [UInt8.ofNat n]
  else if n < 0x800 then [UInt8.ofNat (0xC0 + n / 2 ^ 6), continuation 0]
  else if n < 0x10000 then [UInt8.ofNat (0xE0 + n / 2 ^ 12), continuation 6, continuation 0]
  else [UInt8.ofNat (0xF0 + n / 2 ^ 18), continuation 12, continuation 6, continuation 0]

def utf8 (cs : List Char) : Bytes := cs.flatMap utf8Char

/-- How many bytes the text takes in UTF-8. -/
def byteLength (cs : List Char) : Nat := (utf8 cs).length

/-- The six payload bits of a continuation byte. -/
def continuation? (b : UInt8) : Option Nat :=
  if 0x80 ≤ b.toNat && b.toNat < 0xC0 then some (b.toNat - 0x80) else none

/-- The character of a scalar value that needs at least `least`, the shortest form's bound. -/
def scalar? (least n : Nat) : Option Char :=
  if h : least ≤ n ∧ n.isValidChar then some (Char.ofNatAux n h.2) else none

def ofUtf8? : Bytes → Option (List Char)
  | [] => some []
  | a :: rest =>
    if a.toNat < 0x80 then (ofUtf8? rest).map (Char.ofNat a.toNat :: ·)
    else if a.toNat < 0xC2 then none
    else if a.toNat < 0xE0 then
      match rest with
      | b :: rest => do
        let b ← continuation? b
        let c ← scalar? 0x80 ((a.toNat - 0xC0) * 2 ^ 6 + b)
        (ofUtf8? rest).map (c :: ·)
      | _ => none
    else if a.toNat < 0xF0 then
      match rest with
      | b :: c :: rest => do
        let b ← continuation? b
        let c ← continuation? c
        let c ← scalar? 0x800 ((a.toNat - 0xE0) * 2 ^ 12 + b * 2 ^ 6 + c)
        (ofUtf8? rest).map (c :: ·)
      | _ => none
    else if a.toNat < 0xF5 then
      match rest with
      | b :: c :: d :: rest => do
        let b ← continuation? b
        let c ← continuation? c
        let d ← continuation? d
        let c ← scalar? 0x10000 ((a.toNat - 0xF0) * 2 ^ 18 + b * 2 ^ 12 + c * 2 ^ 6 + d)
        (ofUtf8? rest).map (c :: ·)
      | _ => none
    else none

def hexDigit (n : Nat) : Char := if n < 10 then Char.ofNat (48 + n) else Char.ofNat (87 + n)

def hexValue? (c : Char) : Option Nat :=
  if '0' ≤ c && c ≤ '9' then some (c.toNat - 48)
  else if 'a' ≤ c && c ≤ 'f' then some (c.toNat - 87)
  else if 'A' ≤ c && c ≤ 'F' then some (c.toNat - 55)
  else none

/-- Two lowercase digits per byte. -/
def hex (bytes : Bytes) : List Char :=
  bytes.flatMap fun b => [hexDigit (b.toNat / 16), hexDigit (b.toNat % 16)]

def ofHex? : List Char → Option Bytes
  | [] => some []
  | a :: b :: rest => do
    let a ← hexValue? a
    let b ← hexValue? b
    (ofHex? rest).map (UInt8.ofNat (a * 16 + b) :: ·)
  | [_] => none

/-- The order of two texts by their UTF-8 bytes. -/
def byteCompare : Bytes → Bytes → Ordering
  | [], [] => .eq
  | [], _ :: _ => .lt
  | _ :: _, [] => .gt
  | a :: as, b :: bs => (compare a b).then (byteCompare as bs)

def compareUtf8 (s t : String) : Ordering := byteCompare (utf8 s.toList) (utf8 t.toList)

end TraceTally.Text
