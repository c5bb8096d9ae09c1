import Mathlib.Data.List.Induction
import TraceTally.Text.Digits

/-!
# Numerals read back

The digits of a number are read as that number by every reader, up to the largest number that the
reader takes. A numeral of more than one digit does not begin with a zero.
-/

namespace TraceTally.Text

variable {limit n : Nat}

def IsDigit (c : Char) : Prop := (digitValue? c).isSome

theorem digitValue?_digitChar {d : Nat} (h : d < 10) : digitValue? (digitChar d) = some d := by
  have all : ∀ d < 10, digitValue? (digitChar d) = some d := by decide
  exact all d h

theorem digits_of_lt (h : n < 10) : digits n = [digitChar n] := by rw [digits, if_pos h]

theorem digits_of_le (h : 10 ≤ n) : digits n = digits (n / 10) ++ [digitChar (n % 10)] := by
  rw [digits, if_neg (by omega)]

theorem digits_ne_nil (n : Nat) : digits n ≠ [] := by
  rw [digits]
  split <;> simp

theorem isDigit_of_mem_digits (n : Nat) : ∀ c ∈ digits n, IsDigit c := by
  have single {d : Nat} (h : d < 10) : IsDigit (digitChar d) := by
    rw [IsDigit, digitValue?_digitChar h]
    rfl
  induction n using digits.induct with
  | case1 n small =>
    rw [digits_of_lt small]
    simpa using single small
  | case2 n large ih =>
    rw [digits_of_le (by omega), List.forall_mem_append]
    exact ⟨ih, by simpa using single (Nat.mod_lt n (by decide))⟩

theorem IsDigit.ne {c d : Char} (digit : IsDigit c) (other : digitValue? d = none) : c ≠ d := by
  rintro rfl
  simp [IsDigit, other] at digit

theorem IsDigit.range {c : Char} (digit : IsDigit c) : '0' ≤ c ∧ c ≤ '9' := by
  simp only [IsDigit, digitValue?] at digit
  split at digit
  · simp_all
  · cases digit

theorem IsDigit.toLower {c : Char} (digit : IsDigit c) : c.toLower = c := by
  unfold Char.toLower
  split
  · rename_i upper
    exact absurd (UInt32.le_trans upper.1 digit.range.2) (by decide)
  · rfl

theorem digits_head_of_pos (positive : 0 < n) : (digits n).head? ≠ some '0' := by
  induction n using digits.induct with
  | case1 n small =>
    have all : ∀ d < 10, digitChar d = '0' → d = 0 := by decide
    rw [digits_of_lt small]
    intro zero
    exact absurd (all n small (Option.some.inj zero)) (by omega)
  | case2 n large ih =>
    obtain ⟨c, rest, shape⟩ := List.exists_cons_of_ne_nil (digits_ne_nil (n / 10))
    rw [digits_of_le (by omega), shape]
    rw [shape] at ih
    exact ih (by omega)

/-- A number of several digits does not begin with a zero. -/
theorem digits_head (n : Nat) : (digits n).length = 1 ∨ (digits n).head? ≠ some '0' := by
  rcases Nat.eq_zero_or_pos n with rfl | positive
  · exact .inl (by rw [digits_of_lt (by decide)]; rfl)
  · exact .inr (digits_head_of_pos positive)

theorem digitsValue_concat (cs : List Char) (c : Char) :
    digitsValue (cs ++ [c]) = 10 * digitsValue cs + (digitValue? c).getD 0 := List.foldl_append

@[simp] theorem digitsValue_digits (n : Nat) : digitsValue (digits n) = n := by
  induction n using digits.induct with
  | case1 n small =>
    rw [digits_of_lt small]
    simp [digitsValue, digitValue?_digitChar small]
  | case2 n large ih =>
    rw [digits_of_le (by omega), digitsValue_concat, ih,
      digitValue?_digitChar (Nat.mod_lt n (by decide)), Option.getD_some]
    omega

theorem readDigits_append (overflow : NumberError) (n : Nat) (cs ds : List Char) :
    readDigits limit overflow n (cs ++ ds) =
      (readDigits limit overflow n cs).bind fun m => readDigits limit overflow m ds := by
  induction cs generalizing n with
  | nil => rfl
  | cons c cs ih =>
    simp only [List.cons_append, readDigits]
    split
    · rfl
    · split
      · exact ih _
      · rfl

/-- What has been read grows with every digit, so the first number past the limit spoils the rest. -/
theorem readDigits_of_isDigit (overflow : NumberError) {cs : List Char} (all : ∀ c ∈ cs, IsDigit c) :
    readDigits limit overflow 0 cs =
      if digitsValue cs ≤ limit then .ok (digitsValue cs) else .error overflow := by
  induction cs using List.reverseRecOn with
  | nil => exact (if_pos (Nat.zero_le limit)).symm
  | append_singleton cs c ih =>
    obtain ⟨front, last⟩ := List.forall_mem_append.mp all
    obtain ⟨d, value⟩ := Option.isSome_iff_exists.mp (last c List.mem_cons_self)
    rw [readDigits_append, ih front, digitsValue_concat, value, Option.getD_some]
    by_cases fits : digitsValue cs ≤ limit
    · simp only [if_pos fits, Except.bind, readDigits, value]
    · rw [if_neg fits, if_neg (by omega)]
      rfl

theorem isDigit_of_readDigits {overflow : NumberError} {m : Nat} {cs : List Char}
    (read : readDigits limit overflow m cs = .ok n) : ∀ c ∈ cs, IsDigit c := by
  induction cs generalizing m with
  | nil => exact fun _ none => absurd none List.not_mem_nil
  | cons c cs ih =>
    rw [readDigits] at read
    split at read
    · cases read
    · rename_i d value
      split at read
      · refine List.forall_mem_cons.mpr ⟨?_, ih read⟩
        rw [IsDigit, value]
        rfl
      · cases read

theorem readDigits_ok_iff {overflow : NumberError} {cs : List Char} :
    readDigits limit overflow 0 cs = .ok n ↔
      (∀ c ∈ cs, IsDigit c) ∧ digitsValue cs = n ∧ n ≤ limit := by
  constructor
  · intro read
    have all := isDigit_of_readDigits read
    rw [readDigits_of_isDigit overflow all] at read
    split at read
    · cases read
      exact ⟨all, rfl, ‹_›⟩
    · cases read
  · rintro ⟨all, rfl, fits⟩
    rw [readDigits_of_isDigit overflow all, if_pos fits]

/-- A sign is no digit, and digits are read the same behind a plus sign as without one. -/
theorem readNat_signed {sign cs : List Char} (signed : sign = [] ∨ sign = ['+']) (nonempty : cs ≠ [])
    (all : ∀ c ∈ cs, IsDigit c) :
    readNat limit (sign ++ cs) =
      if digitsValue cs ≤ limit then .ok (digitsValue cs) else .error .tooLarge := by
  rw [← readDigits_of_isDigit .tooLarge all]
  obtain ⟨c, rest, rfl⟩ := List.exists_cons_of_ne_nil nonempty
  rcases signed with rfl | rfl
  · have unsigned : c ≠ '+' := (all c List.mem_cons_self).ne (by decide)
    rw [List.nil_append, readNat]
    all_goals simp_all
  · rw [List.singleton_append, readNat]
    exact nofun

theorem readNat_digits (n : Nat) :
    readNat limit (digits n) = if n ≤ limit then .ok n else .error .tooLarge := by
  have read := @readNat_signed limit [] _ (.inl rfl) (digits_ne_nil n) (isDigit_of_mem_digits n)
  rwa [digitsValue_digits] at read

theorem exists_signed_of_readNat {cs : List Char} (read : readNat limit cs = .ok n) :
    ∃ sign ds, cs = sign ++ ds ∧ (sign = [] ∨ sign = ['+']) ∧ ds ≠ [] ∧ (∀ c ∈ ds, IsDigit c) ∧
      digitsValue ds = n ∧ n ≤ limit := by
  unfold readNat at read
  split at read
  · cases read
  · cases read
  · rename_i rest single
    exact ⟨['+'], rest, rfl, .inr rfl, by rintro rfl; exact single rfl, readDigits_ok_iff.mp read⟩
  · rename_i nonempty _ _
    exact ⟨[], cs, rfl, .inl rfl, nonempty, readDigits_ok_iff.mp read⟩

theorem readNat_le {cs : List Char} (read : readNat limit cs = .ok n) : n ≤ limit := by
  obtain ⟨-, -, -, -, -, -, -, fits⟩ := exists_signed_of_readNat read
  exact fits

theorem exists_readNat_of_map {α : Type} {f : Nat → α} {a : α} {cs : List Char}
    (read : (readNat limit cs).map f = .ok a) : ∃ n, readNat limit cs = .ok n ∧ f n = a := by
  cases number : readNat limit cs with
  | error e =>
    rw [number] at read
    cases read
  | ok n =>
    rw [number] at read
    cases read
    exact ⟨n, rfl, rfl⟩

theorem le_of_map_readNat {α : Type} {f : Nat → α} {a : α} {cs : List Char}
    (read : (readNat limit cs).map f = .ok a) : ∃ n ≤ limit, f n = a := by
  obtain ⟨n, number, same⟩ := exists_readNat_of_map read
  exact ⟨n, readNat_le number, same⟩

/-- Decimal digits, perhaps behind a sign, and the number that they write. -/
inductive IsNumeral : List Char → Int → Prop
  | plain {cs : List Char} (nonempty : cs ≠ []) (all : ∀ c ∈ cs, IsDigit c) :
      IsNumeral cs (digitsValue cs)
  | plus {cs : List Char} (nonempty : cs ≠ []) (all : ∀ c ∈ cs, IsDigit c) :
      IsNumeral ('+' :: cs) (digitsValue cs)
  | minus {cs : List Char} (nonempty : cs ≠ []) (all : ∀ c ∈ cs, IsDigit c) :
      IsNumeral ('-' :: cs) (-(digitsValue cs : Int))

theorem isNumeral_intDigits (n : Int) : IsNumeral (intDigits n) n := by
  have all := isDigit_of_mem_digits n.natAbs
  have nonempty := digits_ne_nil n.natAbs
  rw [intDigits]
  split
  · have numeral := IsNumeral.minus nonempty all
    rwa [digitsValue_digits, show -(n.natAbs : Int) = n by omega] at numeral
  · have numeral := IsNumeral.plain nonempty all
    rwa [digitsValue_digits, show (n.natAbs : Int) = n by omega] at numeral

section

variable {cs : List Char} (nonempty : cs ≠ [])

include nonempty

theorem readInt_minus :
    readInt limit ('-' :: cs) =
      (readDigits (limit + 1) .tooSmall 0 cs).map fun n : Nat => -(n : Int) := by
  rw [readInt]
  · cases readDigits (limit + 1) .tooSmall 0 cs <;> rfl
  · simpa using nonempty

theorem readInt_plus :
    readInt limit ('+' :: cs) = (readDigits limit .tooLarge 0 cs).map Int.ofNat := by
  rw [readInt]
  simpa using nonempty

theorem readInt_plain (all : ∀ c ∈ cs, IsDigit c) :
    readInt limit cs = (readDigits limit .tooLarge 0 cs).map Int.ofNat := by
  obtain ⟨c, rest, rfl⟩ := List.exists_cons_of_ne_nil nonempty
  have digit := all c List.mem_cons_self
  have plus : c ≠ '+' := digit.ne (by decide)
  have minus : c ≠ '-' := digit.ne (by decide)
  rw [readInt]
  all_goals simp_all

end

/-- A text is read as a number exactly if it is its numeral and the number is in range. -/
theorem readInt_ok_iff {cs : List Char} {n : Int} :
    readInt limit cs = .ok n ↔ IsNumeral cs n ∧ -(limit + 1 : Int) ≤ n ∧ n ≤ limit := by
  have map_ok {f : Nat → Int} {r : Except NumberError Nat} :
      r.map f = .ok n ↔ ∃ m, r = .ok m ∧ f m = n := by
    cases r <;> simp [Except.map]
  constructor
  · intro read
    have again := read
    unfold readInt at read
    split at read
    · cases read
    · cases read
    · cases read
    · rename_i cs single
      rw [readInt_minus single] at again
      obtain ⟨m, digits, rfl⟩ := map_ok.mp again
      obtain ⟨all, rfl, fits⟩ := readDigits_ok_iff.mp digits
      exact ⟨.minus single all, by omega, by omega⟩
    · rename_i cs single
      obtain ⟨m, digits, rfl⟩ := map_ok.mp read
      obtain ⟨all, rfl, fits⟩ := readDigits_ok_iff.mp digits
      exact ⟨.plus single all, by simp; omega, by simpa using fits⟩
    · obtain ⟨m, digits, rfl⟩ := map_ok.mp read
      obtain ⟨all, rfl, fits⟩ := readDigits_ok_iff.mp digits
      exact ⟨.plain ‹_› all, by simp; omega, by simpa using fits⟩
  · rintro ⟨numeral, least, most⟩
    cases numeral with
    | plain nonempty all =>
      rw [readInt_plain nonempty all, readDigits_of_isDigit .tooLarge all, if_pos (by omega)]
      rfl
    | plus nonempty all =>
      rw [readInt_plus nonempty, readDigits_of_isDigit .tooLarge all, if_pos (by omega)]
      rfl
    | minus nonempty all =>
      rw [readInt_minus nonempty, readDigits_of_isDigit .tooSmall all, if_pos (by omega)]
      rfl

theorem IsNumeral.unique {cs : List Char} {m n : Int} (first : IsNumeral cs m)
    (second : IsNumeral cs n) : m = n := by
  have read (k : Int) (within : k.natAbs ≤ m.natAbs + n.natAbs) (numeral : IsNumeral cs k) :
      readInt (m.natAbs + n.natAbs) cs = .ok k :=
    readInt_ok_iff.mpr ⟨numeral, by omega, by omega⟩
  have same := read m (by omega) first
  rw [read n (by omega) second] at same
  cases same
  rfl

end TraceTally.Text
