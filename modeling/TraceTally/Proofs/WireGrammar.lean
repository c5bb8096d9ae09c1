import Mathlib.Data.List.Basic
import TraceTally.Wire.Field

/-!
# The grammar of messages as bytes

A number may be spelled with zeros at its end, a field is its key and its value, and a message is its
fields one behind the other. The grammar is said without reader and writer: what is written is one of
the spellings of a message, and every spelling of a message is read as its fields.
-/

namespace TraceTally.Wire

open Text (Bytes)

/-- Seven bits in each byte, the lowest first; every byte but the last has its top bit set. -/
inductive Sevens : Nat → Bytes → Prop
  | last {b : UInt8} (low : b.toNat < 128) : Sevens b.toNat [b]
  | more {b : UInt8} {n : Nat} {bytes : Bytes} (high : 128 ≤ b.toNat) (rest : Sevens n bytes) :
      Sevens (b.toNat - 128 + 128 * n) (b :: bytes)

/-- A number of 64 bits in at most ten bytes. -/
structure WrittenNumber (n : Nat) (bytes : Bytes) : Prop where
  sevens : Sevens n bytes
  short : bytes.length ≤ 10
  fits : n < 2 ^ 64

def littleEndian : Bytes → Nat
  | [] => 0
  | b :: rest => b.toNat + 256 * littleEndian rest

theorem toNat_ofNat {n : Nat} (h : n < 256) : (UInt8.ofNat n).toNat = n := UInt8.toNat_ofNat_of_lt' h

theorem sevens_varint (n : Nat) : Sevens n (varint n) := by
  induction n using varint.induct with
  | case1 n small =>
    have byte := toNat_ofNat (by omega : n < 256)
    rw [varint, if_pos small]
    have written : Sevens (UInt8.ofNat n).toNat [UInt8.ofNat n] := .last (by omega)
    rwa [byte] at written
  | case2 n large ih =>
    have byte := toNat_ofNat (by omega : 128 + n % 128 < 256)
    rw [varint, if_neg large]
    have written := Sevens.more (b := UInt8.ofNat (128 + n % 128)) (by omega) ih
    rw [byte] at written
    have value : 128 + n % 128 - 128 + 128 * (n / 128) = n := by omega
    rwa [value] at written

theorem length_varint {k : Nat} : ∀ {n : Nat}, n < 128 ^ (k + 1) → (varint n).length ≤ k + 1 := by
  induction k with
  | zero =>
    intro n small
    rw [varint, if_pos (by omega)]
    exact Nat.le_refl _
  | succ k ih =>
    intro n bound
    rw [varint]
    split
    · exact Nat.succ_le_succ (Nat.zero_le _)
    · have smaller : n / 128 < 128 ^ (k + 1) := by
        rw [Nat.div_lt_iff_lt_mul (by decide)]
        rwa [Nat.pow_succ] at bound
      exact Nat.succ_le_succ (ih smaller)

theorem writtenNumber_varint {n : Nat} (fits : n < 2 ^ 64) : WrittenNumber n (varint n) :=
  ⟨sevens_varint n, length_varint (Nat.lt_of_lt_of_le fits (by decide)), fits⟩

/-- The bits that are left bound the number from any position on. -/
theorem readVarint?_of_sevens {n position : Nat} {bytes : Bytes} (sevens : Sevens n bytes)
    (short : position + bytes.length ≤ 10) (fits : n < 2 ^ (64 - 7 * position)) (rest : Bytes) :
    readVarint? position (bytes ++ rest) = some (n, rest) := by
  induction sevens generalizing position with
  | @last b low =>
    rw [List.length_singleton] at short
    have inTime : position ≤ 9 := by omega
    have allowed : (position = 9 && 2 ≤ b.toNat) = false := by
      rw [Bool.and_eq_false_iff, decide_eq_false_iff_not, decide_eq_false_iff_not]
      by_cases ninth : position = 9
      · subst ninth
        exact .inr (Nat.not_le.mpr fits)
      · exact .inl ninth
    rw [List.singleton_append, readVarint?, if_pos low, allowed, if_neg Bool.false_ne_true]
  | @more b n bytes high sevens ih =>
    have some_ : bytes.length ≠ 0 := by cases sevens <;> exact Nat.succ_ne_zero _
    rw [List.length_cons] at short
    have later : n < 2 ^ (64 - 7 * (position + 1)) := by
      have split : 64 - 7 * position = 64 - 7 * (position + 1) + 7 := by omega
      rw [split, Nat.pow_add] at fits
      omega
    rw [List.cons_append, readVarint?, if_neg (by omega), if_neg (by omega),
      ih (by omega) later]
    rfl

theorem readVarint?_of_written {n : Nat} {bytes : Bytes} (written : WrittenNumber n bytes)
    (rest : Bytes) : readVarint? 0 (bytes ++ rest) = some (n, rest) :=
  readVarint?_of_sevens written.sevens (by simpa using written.short) written.fits rest

/-- A number may take more bytes than it needs. -/
example : readVarint? 0 [0x85, 0x80, 0x00, 7] = some (5, [7]) := by decide

theorem readFixed?_append (bytes rest : Bytes) :
    readFixed? bytes.length (bytes ++ rest) = some (littleEndian bytes, rest) := by
  induction bytes with
  | nil => rfl
  | cons b bytes ih =>
    rw [List.length_cons, List.cons_append, readFixed?, ih]
    rfl

theorem length_fixed (width n : Nat) : (fixed width n).length = width := by
  induction width generalizing n with
  | zero => rfl
  | succ width ih => rw [fixed, List.length_cons, ih]

theorem littleEndian_fixed {width n : Nat} (fits : n < 256 ^ width) :
    littleEndian (fixed width n) = n := by
  induction width generalizing n with
  | zero =>
    rw [Nat.pow_zero] at fits
    rw [fixed, littleEndian]
    omega
  | succ width ih =>
    have smaller : n / 256 < 256 ^ width := by
      rw [Nat.div_lt_iff_lt_mul (by decide)]
      rwa [Nat.pow_succ] at fits
    rw [fixed, littleEndian, toNat_ofNat (by omega), ih smaller]
    omega

/-- A field has a number of 29 bits that is not zero. -/
structure WrittenKey (number shape : Nat) (bytes : Bytes) : Prop where
  positive : 0 < number
  bounded : number < 2 ^ 29
  written : WrittenNumber (8 * number + shape) bytes

/-- The spellings of one field. Groups are no fields of a message that is written. -/
inductive WrittenField : Field → Bytes → Prop
  | varint {number n : Nat} {key value : Bytes} (first : WrittenKey number 0 key)
      (written : WrittenNumber n value) : WrittenField ⟨number, .varint n⟩ (key ++ value)
  | fixed64 {number : Nat} {key value : Bytes} (first : WrittenKey number 1 key)
      (width : value.length = 8) : WrittenField ⟨number, .fixed64 (littleEndian value)⟩ (key ++ value)
  | bytes {number : Nat} {key length content : Bytes} (first : WrittenKey number 2 key)
      (written : WrittenNumber content.length length) :
      WrittenField ⟨number, .bytes content⟩ (key ++ (length ++ content))
  | fixed32 {number : Nat} {key value : Bytes} (first : WrittenKey number 5 key)
      (width : value.length = 4) : WrittenField ⟨number, .fixed32 (littleEndian value)⟩ (key ++ value)

inductive WrittenFields : List Field → Bytes → Prop
  | nil : WrittenFields [] []
  | cons {f : Field} {fields : List Field} {bytes rest : Bytes} (first : WrittenField f bytes)
      (others : WrittenFields fields rest) : WrittenFields (f :: fields) (bytes ++ rest)

/-- What the value of a field has room for. -/
def Payload.Fits : Payload → Prop
  | .varint n | .fixed64 n => n < 2 ^ 64
  | .bytes content => content.length < 2 ^ 64
  | .fixed32 n => n < 2 ^ 32
  | .group => False

structure Field.Fits (f : Field) : Prop where
  positive : 0 < f.number
  bounded : f.number < 2 ^ 29
  payload : f.payload.Fits

theorem writtenField_write {f : Field} (fits : f.Fits) : WrittenField f f.write := by
  obtain ⟨number, payload⟩ := f
  obtain ⟨positive, bounded, room⟩ := fits
  dsimp only at positive bounded
  have first : ∀ shape, shape < 8 → WrittenKey number shape (key number shape) := fun shape small =>
    ⟨positive, bounded, writtenNumber_varint (by omega)⟩
  cases payload with
  | varint n => exact .varint (first 0 (by decide)) (writtenNumber_varint room)
  | fixed64 n =>
    have written := WrittenField.fixed64 (first 1 (by decide)) (length_fixed 8 n)
    rwa [littleEndian_fixed (Nat.lt_of_lt_of_le room (by decide))] at written
  | bytes content =>
    have written := WrittenField.bytes (first 2 (by decide)) (writtenNumber_varint room)
    rwa [← List.append_assoc] at written
  | fixed32 n =>
    have written := WrittenField.fixed32 (first 5 (by decide)) (length_fixed 4 n)
    rwa [littleEndian_fixed (Nat.lt_of_lt_of_le room (by decide))] at written
  | group => exact room.elim

theorem littleEndian_lt (bytes : Bytes) : littleEndian bytes < 256 ^ bytes.length := by
  induction bytes with
  | nil => exact Nat.one_pos
  | cons b bytes ih =>
    have byte := b.toNat_lt
    rw [littleEndian, List.length_cons, Nat.pow_succ]
    omega

theorem WrittenField.fits {f : Field} {bytes : Bytes} (written : WrittenField f bytes) : f.Fits := by
  cases written with
  | varint first value => exact ⟨first.positive, first.bounded, value.fits⟩
  | @fixed64 _ _ value first width =>
    have room := littleEndian_lt value
    rw [width] at room
    exact ⟨first.positive, first.bounded, room⟩
  | bytes first value => exact ⟨first.positive, first.bounded, value.fits⟩
  | @fixed32 _ _ value first width =>
    have room := littleEndian_lt value
    rw [width] at room
    exact ⟨first.positive, first.bounded, room⟩

theorem WrittenFields.fits {fields : List Field} {bytes : Bytes}
    (written : WrittenFields fields bytes) : ∀ f ∈ fields, f.Fits := by
  induction written with
  | nil => exact List.forall_mem_nil _
  | cons first _ ih => exact List.forall_mem_cons.mpr ⟨first.fits, ih⟩

theorem writtenFields_write {fields : List Field} (fits : ∀ f ∈ fields, f.Fits) :
    WrittenFields fields (fields.flatMap Field.write) := by
  induction fields with
  | nil => exact .nil
  | cons f fields ih =>
    rw [List.forall_mem_cons] at fits
    exact .cons (writtenField_write fits.1) (ih fits.2)

theorem Token.read?_of_key {number shape : Nat} {key : Bytes} (first : WrittenKey number shape key)
    (known : shape < 8) (rest : Bytes) :
    Token.read? (key ++ rest) = Token.readValue? number shape rest := by
  have bounded := first.bounded
  have positive := first.positive
  have allowed : (8 * number + shape < 2 ^ 32 && 8 ≤ 8 * number + shape) = true := by
    rw [Bool.and_eq_true, decide_eq_true_eq, decide_eq_true_eq]
    omega
  have number_ : (8 * number + shape) / 8 = number := by omega
  have shape_ : (8 * number + shape) % 8 = shape := by omega
  rw [Token.read?, readVarint?_of_written first.written, Option.bind_some]
  dsimp only
  rw [if_pos allowed, number_, shape_]

theorem Token.read?_of_written {f : Field} {bytes : Bytes} (written : WrittenField f bytes)
    (rest : Bytes) : Token.read? (bytes ++ rest) = some (.field f, rest) := by
  cases written with
  | varint first value =>
    rw [List.append_assoc, Token.read?_of_key first (by decide), Token.readValue?,
      readVarint?_of_written value]
    rfl
  | fixed64 first width =>
    rw [List.append_assoc, Token.read?_of_key first (by decide), Token.readValue?, ← width,
      readFixed?_append]
    rfl
  | @bytes number key length content first value =>
    have enough : content.length ≤ (content ++ rest).length := by
      rw [List.length_append]
      exact Nat.le_add_right _ _
    rw [List.append_assoc, List.append_assoc, Token.read?_of_key first (by decide),
      Token.readValue?, readVarint?_of_written value, Option.bind_some]
    dsimp only
    rw [if_pos enough, List.take_left, List.drop_left]
  | fixed32 first width =>
    rw [List.append_assoc, Token.read?_of_key first (by decide), Token.readValue?, ← width,
      readFixed?_append]
    rfl

theorem Token.readAll?_cons {t : Token} {bytes rest : Bytes} (read : Token.read? bytes = some (t, rest)) :
    Token.readAll? bytes = (Token.readAll? rest).map (t :: ·) := by
  rw [Token.readAll?.eq_def]
  split
  · exact absurd read (by simp [Token.read?, readVarint?])
  · split
    · rename_i failed
      rw [read] at failed
      cases failed
    · rename_i found
      rw [read] at found
      cases found
      rfl

/-- Outside groups every token of a message is one of its fields. -/
theorem readFields?_of_written {limit : Nat} (room : 0 < limit) {fields : List Field} {bytes : Bytes}
    (written : WrittenFields fields bytes) : readFields? limit bytes = some fields := by
  unfold readFields?
  induction written with
  | nil => simp [Token.readAll?, Token.topFields?]
  | @cons f fields bytes rest first _ ih =>
    obtain ⟨tokens, read, top⟩ := Option.bind_eq_some_iff.mp ih
    rw [Token.readAll?_cons (Token.read?_of_written first rest), read, Option.map_some,
      Option.bind_some, Token.topFields?, if_neg (by simpa using Nat.ne_of_gt room), top]
    rfl

end TraceTally.Wire
