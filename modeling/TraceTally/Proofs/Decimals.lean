import TraceTally.Binary64.Reading
import TraceTally.Proofs.Numerals

/-!
# Decimals and their widths

The width of a significand settles overflow and underflow without the power of ten. It is the number
of digits from the first that is not zero, so what it settles is what rounding the exact value gives:
a numeral is rounded once, from just what it writes, with however many zeros in front.
-/

namespace TraceTally

namespace Text

theorem digitValue?_lt {c : Char} {d : Nat} (value : digitValue? c = some d) : d < 10 := by
  have digit : IsDigit c := by simp [IsDigit, value]
  have range : c.toNat ≤ 57 := digit.range.2
  rw [digitValue?, if_pos (by simpa using digit.range)] at value
  have := Option.some.inj value
  omega

theorem digitsValue_lt (cs : List Char) : digitsValue cs < 10 ^ cs.length := by
  induction cs using List.reverseRecOn with
  | nil => decide
  | append_singleton cs c ih =>
    have last : (digitValue? c).getD 0 < 10 := by
      cases value : digitValue? c with
      | none => decide
      | some d => exact digitValue?_lt value
    rw [digitsValue_concat, List.length_append, List.length_singleton, Nat.pow_succ]
    omega

theorem digitValue?_pos {c : Char} (digit : IsDigit c) (nonzero : c ≠ '0') :
    0 < (digitValue? c).getD 0 := by
  have above : 48 ≤ c.toNat := digit.range.1
  have apart : c.toNat ≠ 48 := fun same => nonzero (Char.toNat_inj.mp same)
  rw [digitValue?, if_pos (by simpa using digit.range), Option.getD_some]
  omega

/-- A first digit that is not zero counts for all the places behind it. -/
theorem le_digitsValue {c : Char} (digit : IsDigit c) (nonzero : c ≠ '0') (cs : List Char) :
    10 ^ cs.length ≤ digitsValue (c :: cs) := by
  induction cs using List.reverseRecOn with
  | nil =>
    rw [digitsValue, List.foldl_cons, List.foldl_nil, Nat.mul_zero, Nat.zero_add]
    exact digitValue?_pos digit nonzero
  | append_singleton cs d ih =>
    rw [← List.cons_append, digitsValue_concat, List.length_append, List.length_singleton,
      Nat.pow_succ]
    omega

theorem digitsValue_dropWhile (cs : List Char) :
    digitsValue (cs.dropWhile (· = '0')) = digitsValue cs := by
  induction cs with
  | nil => rfl
  | cons c cs ih =>
    by_cases zero : c = '0'
    · subst zero
      exact ih
    · rw [List.dropWhile_cons_of_neg (by simpa using zero)]

end Text

namespace Binary64

open Text (IsDigit digitsValue digitsValue_lt le_digitsValue digitsValue_dropWhile)

variable {negative : Bool} {num den significand width : Nat} {e : Int}

theorem log2_add_le {k : Nat} (positive : den ≠ 0) (le : den * 2 ^ k ≤ num) :
    den.log2 + k ≤ num.log2 := by
  have shifted : 2 ^ (den.log2 + k) ≤ num := by
    rw [Nat.pow_add]
    exact Nat.le_trans (Nat.mul_le_mul_right _ (Nat.log2_self_le positive)) le
  have nonzero : num ≠ 0 := Nat.ne_of_gt (Nat.lt_of_lt_of_le (Nat.two_pow_pos _) shifted)
  exact (Nat.le_log2 nonzero).mpr shifted

/-- The exponent alone is past the largest finite double, whatever the mantissa is. -/
theorem ofRatio_of_large (positive : den ≠ 0) (large : den * 2 ^ 1100 ≤ num) :
    ofRatio negative num den = infinity negative := by
  have exponents : den.log2 + 1100 ≤ num.log2 := log2_add_le positive large
  have nonzero : num ≠ 0 := by
    rintro rfl
    simp at exponents
  rw [ofRatio, if_neg nonzero]
  refine if_neg ?_
  split <;> omega

theorem scaleDown_neg {k l : Nat} (positive : 0 < k) (below : k < l) (small : num * 2 ^ l < den) :
    ∃ n, scaleDown num den (-(k : Int)) = (n, den) ∧ 2 * n < den := by
  refine ⟨num * 2 ^ k, by rw [scaleDown, if_neg (by omega), Int.neg_neg, Int.toNat_natCast], ?_⟩
  calc 2 * (num * 2 ^ k)
    _ = num * 2 ^ (k + 1) := by rw [Nat.pow_succ, Nat.mul_comm, Nat.mul_assoc]
    _ ≤ num * 2 ^ l := Nat.mul_le_mul_left _ (Nat.pow_le_pow_right (by decide) below)
    _ < den := small

/-- Less than half of the smallest double, so the quotient and its rounding are both zero. -/
theorem ofRatio_of_small (small : num * 2 ^ 1100 < den) :
    ofRatio negative num den = zero negative := by
  by_cases nothing : num = 0
  · rw [ofRatio, if_pos nothing]
  have exponents : num.log2 + 1100 ≤ den.log2 := log2_add_le nothing (Nat.le_of_lt small)
  have least : max ((num.log2 : Int) - den.log2 - 53) (-1074) = -1074 := by omega
  have unchanged : (if 0 < 2 ^ 53 then (-1074 : Int) else -1074 + 1) = -1074 := rfl
  obtain ⟨n, scaled, half⟩ : ∃ n, scaleDown num den (-1074) = (n, den) ∧ 2 * n < den :=
    scaleDown_neg (k := 1074) (by decide) (by decide) small
  have quotient : n / den = 0 := Nat.div_eq_of_lt (by omega)
  have rounded : divNearestEven n den = 0 := by
    have below : compare (2 * (n % den)) den = .lt := by
      rw [Nat.mod_eq_of_lt (by omega)]
      exact Nat.compare_eq_lt.mpr half
    simp only [divNearestEven, below, quotient]
  simp only [ofRatio, if_neg nothing, least, scaled, quotient, unchanged, rounded]
  rfl

theorem two_pow_le : 2 ^ 1100 ≤ 10 ^ 400 := by decide +kernel

theorem le_of_width (full : 10 ^ width ≤ 10 * significand) (large : 400 < e + width) :
    10 ^ (-e).toNat * 2 ^ 1100 ≤ significand * 10 ^ e.toNat := by
  have places : (-e).toNat + 400 + 1 ≤ width + e.toNat := by omega
  have tenfold := calc 10 * (10 ^ (-e).toNat * 2 ^ 1100)
    _ ≤ 10 * (10 ^ (-e).toNat * 10 ^ 400) :=
      Nat.mul_le_mul_left _ (Nat.mul_le_mul_left _ two_pow_le)
    _ = 10 ^ ((-e).toNat + 400 + 1) := by rw [Nat.pow_succ _ (_ + 400), Nat.pow_add, Nat.mul_comm]
    _ ≤ 10 ^ (width + e.toNat) := Nat.pow_le_pow_right (by decide) places
    _ = 10 ^ width * 10 ^ e.toNat := Nat.pow_add ..
    _ ≤ 10 * significand * 10 ^ e.toNat := Nat.mul_le_mul_right _ full
    _ = 10 * (significand * 10 ^ e.toNat) := Nat.mul_assoc ..
  exact Nat.le_of_mul_le_mul_left tenfold (by decide)

theorem lt_of_width (fits : significand < 10 ^ width) (small : e + width < -400) :
    significand * 10 ^ e.toNat * 2 ^ 1100 < 10 ^ (-e).toNat := by
  have places : width + e.toNat + 400 ≤ (-e).toNat := by omega
  calc significand * 10 ^ e.toNat * 2 ^ 1100
    _ < 10 ^ width * 10 ^ e.toNat * 2 ^ 1100 :=
      Nat.mul_lt_mul_of_pos_right
        (Nat.mul_lt_mul_of_pos_right fits (Nat.pow_pos (by decide))) (Nat.two_pow_pos _)
    _ ≤ 10 ^ width * 10 ^ e.toNat * 10 ^ 400 := Nat.mul_le_mul_left _ two_pow_le
    _ = 10 ^ (width + e.toNat + 400) := by rw [Nat.pow_add, Nat.pow_add]
    _ ≤ 10 ^ (-e).toNat := Nat.pow_le_pow_right (by decide) places

/-- With the width of its significand, a decimal is the exact fraction rounded once. -/
theorem ofDecimal_eq (fits : significand < 10 ^ width) (full : 10 ^ width ≤ 10 * significand) :
    ofDecimal negative significand width e =
      ofRatio negative (significand * 10 ^ e.toNat) (10 ^ (-e).toNat) := by
  have powers (n : Nat) : 10 ^ n ≠ 0 := Nat.ne_of_gt (Nat.pow_pos (by decide))
  have nonzero : significand ≠ 0 := by
    rintro rfl
    exact powers width (Nat.le_zero.mp full)
  rw [ofDecimal, if_neg nonzero]
  by_cases large : 400 < e + width
  · rw [if_pos large, ofRatio_of_large (powers _) (le_of_width full large)]
  rw [if_neg large]
  by_cases small : e + width < -400
  · rw [if_pos small, ofRatio_of_small (lt_of_width fits small)]
  rw [if_neg small]
  split
  · rename_i whole
    rw [show (-e).toNat = 0 by omega, Nat.pow_zero]
  · rename_i fractional
    rw [show e.toNat = 0 by omega, Nat.pow_zero, Nat.mul_one]

theorem Numeral.value_eq (n : Numeral) (digits : ∀ c ∈ n.whole ++ n.fraction, IsDigit c) :
    n.value = ofRatio n.negative
      (digitsValue (n.whole ++ n.fraction) * 10 ^ (n.exponent - n.fraction.length).toNat)
      (10 ^ (-(n.exponent - n.fraction.length)).toNat) := by
  rw [← digitsValue_dropWhile (n.whole ++ n.fraction), ← Numeral.significant, Numeral.value]
  have kept : ∀ c ∈ n.significant, IsDigit c :=
    fun c mem => digits c ((List.dropWhile_suffix _).subset mem)
  have fits := digitsValue_lt n.significant
  cases significant : n.significant with
  | nil => simp [digitsValue, ofDecimal, ofRatio]
  | cons c cs =>
    have nonzero : c ≠ '0' := by
      have head := List.head?_dropWhile_not (fun d : Char => decide (d = '0')) (n.whole ++ n.fraction)
      rw [← Numeral.significant, significant] at head
      simpa using head
    rw [significant] at fits
    refine ofDecimal_eq fits ?_
    rw [List.length_cons, Nat.pow_succ, Nat.mul_comm]
    exact Nat.mul_le_mul_left _ (le_digitsValue (kept c (by simp [significant])) nonzero cs)

theorem isDigit_takeWhile (cs : List Char) : ∀ c ∈ cs.takeWhile isDigit, IsDigit c :=
  fun c mem => List.all_eq_true.mp List.all_takeWhile c mem

/-- Whatever stands behind the digits, they are the parts of the numeral. -/
theorem parts_of_ending {whole fraction cs : List Char} {n : Numeral}
    (read : (match cs with
      | [] => some ⟨negative, whole, fraction, 0⟩
      | c :: more =>
        if c = 'e' || c = 'E' then (exponent? more).map fun e => ⟨negative, whole, fraction, e⟩
        else none) = some n) : n.whole = whole ∧ n.fraction = fraction := by
  split at read
  · cases read
    exact ⟨rfl, rfl⟩
  · split at read
    · obtain ⟨e, -, rfl⟩ := Option.map_eq_some_iff.mp read
      exact ⟨rfl, rfl⟩
    · cases read

theorem isDigit_of_numeral? {cs : List Char} {n : Numeral} (read : numeral? negative cs = some n) :
    ∀ c ∈ n.whole ++ n.fraction, IsDigit c := by
  have whole := isDigit_takeWhile cs
  unfold numeral? at read
  generalize cs.takeWhile isDigit = ds at read whole
  dsimp only at read
  split at read
  · rename_i more _
    dsimp only at read
    split at read
    · cases read
    · obtain ⟨left, right⟩ := parts_of_ending read
      rw [left, right, List.forall_mem_append]
      exact ⟨whole, isDigit_takeWhile more⟩
  · dsimp only at read
    split at read
    · cases read
    · obtain ⟨left, right⟩ := parts_of_ending read
      rw [left, right, List.append_nil]
      exact whole

/-- A text in digits is read as the number that it writes, rounded once. -/
theorem value_of_numeral? {cs : List Char} {n : Numeral} (read : numeral? negative cs = some n) :
    n.value = ofRatio n.negative
      (digitsValue (n.whole ++ n.fraction) * 10 ^ (n.exponent - n.fraction.length).toNat)
      (10 ^ (-(n.exponent - n.fraction.length)).toNat) :=
  n.value_eq (isDigit_of_numeral? read)

end Binary64

end TraceTally
