import TraceTally.Wire.Varint

/-!
# Fields of a message

A message is a sequence of numbered fields. A field's key holds its number and the shape of its
value, so a reader can pass over fields that it does not know. A group is a run of fields between two
marks of one number; groups nest, and readers only ever skip them.
-/

namespace TraceTally.Wire

open Text (Bytes)

inductive Payload where
  | varint (n : Nat)
  | fixed64 (n : Nat)
  | bytes (content : Bytes)
  | fixed32 (n : Nat)
  /-- A group; its fields are not kept. -/
  | group
  deriving DecidableEq, Repr

structure Field where
  number : Nat
  payload : Payload
  deriving DecidableEq, Repr

/-- What a key with its value says. -/
inductive Token where
  | field (f : Field)
  | groupStart (number : Nat)
  | groupEnd (number : Nat)
  deriving DecidableEq, Repr

def key (number shape : Nat) : Bytes := varint (8 * number + shape)

/-- A group is written empty. -/
def Field.write (f : Field) : Bytes :=
  match f.payload with
  | .varint n => key f.number 0 ++ varint n
  | .fixed64 n => key f.number 1 ++ fixed 8 n
  | .bytes content => key f.number 2 ++ varint content.length ++ content
  | .fixed32 n => key f.number 5 ++ fixed 4 n
  | .group => key f.number 3 ++ key f.number 4

namespace Token

/-- The value that a key announces. -/
def readValue? (number shape : Nat) (bytes : Bytes) : Option (Token × Bytes) :=
  match shape with
  | 0 => (readVarint? 0 bytes).map fun (n, rest) => (.field ⟨number, .varint n⟩, rest)
  | 1 => (readFixed? 8 bytes).map fun (n, rest) => (.field ⟨number, .fixed64 n⟩, rest)
  | 2 => (readVarint? 0 bytes).bind fun (length, rest) =>
      if length ≤ rest.length then
        some (.field ⟨number, .bytes (rest.take length)⟩, rest.drop length)
      else none
  | 3 => some (.groupStart number, bytes)
  | 4 => some (.groupEnd number, bytes)
  | 5 => (readFixed? 4 bytes).map fun (n, rest) => (.field ⟨number, .fixed32 n⟩, rest)
  | _ => none

/-- Keys take at most 32 bits, and no field has number 0. -/
def read? (bytes : Bytes) : Option (Token × Bytes) :=
  (readVarint? 0 bytes).bind fun (k, rest) =>
    if k < 2 ^ 32 && 8 ≤ k then readValue? (k / 8) (k % 8) rest else none

theorem readValue?_length {number shape : Nat} {bytes rest : Bytes} {t : Token}
    (h : readValue? number shape bytes = some (t, rest)) : rest.length ≤ bytes.length := by
  unfold readValue? at h
  split at h
  · obtain ⟨⟨n, r⟩, hr, he⟩ := Option.map_eq_some_iff.1 h
    cases he
    exact Nat.le_of_lt (readVarint?_length hr)
  · obtain ⟨⟨n, r⟩, hr, he⟩ := Option.map_eq_some_iff.1 h
    cases he
    exact readFixed?_length hr
  · obtain ⟨⟨n, r⟩, hr, he⟩ := Option.bind_eq_some_iff.1 h
    have := readVarint?_length hr
    dsimp only at he
    split at he
    · cases he
      simp only [List.length_drop]
      omega
    · cases he
  · cases h; exact Nat.le_refl _
  · cases h; exact Nat.le_refl _
  · obtain ⟨⟨n, r⟩, hr, he⟩ := Option.map_eq_some_iff.1 h
    cases he
    exact readFixed?_length hr
  · cases h

theorem read?_length {bytes rest : Bytes} {t : Token} (h : read? bytes = some (t, rest)) :
    rest.length < bytes.length := by
  obtain ⟨⟨k, r⟩, hr, he⟩ := Option.bind_eq_some_iff.1 h
  dsimp only at he
  split at he
  · exact Nat.lt_of_le_of_lt (readValue?_length he) (readVarint?_length hr)
  · cases he

def readAll? (bytes : Bytes) : Option (List Token) :=
  match bytes with
  | [] => some []
  | b :: bs =>
    match _h : read? (b :: bs) with
    | none => none
    | some (t, rest) => (readAll? rest).map (t :: ·)
termination_by bytes.length
decreasing_by exact read?_length (by assumption)

/-- The fields outside groups. `opened` holds the numbers of the groups that are open, the innermost
first; there are never more than `limit`, and within that many no further token is read. -/
def topFields? (limit : Nat) : List Nat → List Token → Option (List Field)
  | [], [] => some []
  | _ :: _, [] => none
  | opened, .field f :: rest =>
    if limit ≤ opened.length then none
    else if opened.isEmpty then (topFields? limit opened rest).map (f :: ·)
    else topFields? limit opened rest
  | opened, .groupStart number :: rest =>
    if limit ≤ opened.length then none
    else if opened.isEmpty then
      (topFields? limit [number] rest).map (⟨number, .group⟩ :: ·)
    else topFields? limit (number :: opened) rest
  | [], .groupEnd _ :: _ => none
  | number :: opened, .groupEnd n :: rest =>
    if n = number then topFields? limit opened rest else none

end Token

/-- The fields of a message; `limit` bounds how deep groups nest. -/
def readFields? (limit : Nat) (bytes : Bytes) : Option (List Field) :=
  (Token.readAll? bytes).bind (Token.topFields? limit [])

end TraceTally.Wire
