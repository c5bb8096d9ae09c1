import TraceTally.Text.Bytes

/-!
# Variable-length numbers

A number is written in groups of seven bits, the lowest first; every byte but the last has its top
bit set. Reading takes up to ten bytes and refuses what passes 64 bits; it does not ask for the
shortest form.
-/

namespace TraceTally.Wire

open Text (Bytes)

def varint (n : Nat) : Bytes :=
  if n < 128 then [UInt8.ofNat n] else UInt8.ofNat (128 + n % 128) :: varint (n / 128)

/-- The number whose bytes at `position` and after stand first, and what follows it. -/
def readVarint? (position : Nat) : Bytes → Option (Nat × Bytes)
  | [] => none
  | b :: rest =>
    if b.toNat < 128 then
      if position = 9 && 2 ≤ b.toNat then none else some (b.toNat, rest)
    else if 9 ≤ position then none
    else (readVarint? (position + 1) rest).map fun (n, rest) => (b.toNat - 128 + 128 * n, rest)

theorem readVarint?_length {position n : Nat} {bytes rest : Bytes}
    (h : readVarint? position bytes = some (n, rest)) : rest.length < bytes.length := by
  induction bytes generalizing position n with
  | nil => simp [readVarint?] at h
  | cons b bs ih =>
    rw [readVarint?] at h
    split at h
    · split at h
      · cases h
      · cases h; simp
    · split at h
      · cases h
      · obtain ⟨⟨m, r⟩, hr, he⟩ := Option.map_eq_some_iff.1 h
        cases he
        exact Nat.lt_succ_of_lt (ih hr)

/-- The first `width` bytes as a number, the lowest byte first, and what follows them. -/
def readFixed? : Nat → Bytes → Option (Nat × Bytes)
  | 0, bytes => some (0, bytes)
  | _ + 1, [] => none
  | width + 1, b :: rest => (readFixed? width rest).map fun (n, rest) => (b.toNat + 256 * n, rest)

def fixed : Nat → Nat → Bytes
  | 0, _ => []
  | width + 1, n => UInt8.ofNat (n % 256) :: fixed width (n / 256)

theorem readFixed?_length {width n : Nat} {bytes rest : Bytes}
    (h : readFixed? width bytes = some (n, rest)) : rest.length ≤ bytes.length := by
  induction width generalizing bytes n with
  | zero => cases h; exact Nat.le_refl _
  | succ width ih =>
    cases bytes with
    | nil => cases h
    | cons b bs =>
      obtain ⟨⟨m, r⟩, hr, he⟩ := Option.map_eq_some_iff.1 h
      cases he
      exact Nat.le_succ_of_le (ih hr)

example : varint 300 = [0xAC, 0x02] ∧ readVarint? 0 [0xAC, 0x02, 7] = some (300, [7]) := by
  decide +kernel

end TraceTally.Wire
