import TraceTally.Proofs.DurationText

/-!
# The grammar of durations

A duration is spelled by a number, perhaps with a plus sign before it and a unit behind it; blanks may
stand before the number, behind it and behind the unit. These texts and no others are read, as long as
the number has 64 bits, and a text is read as so many of its unit. The units overlap, but what stands
before one is a digit or a blank, so that none is taken for another.
-/

namespace TraceTally

namespace Text

def AllBlank (cs : List Char) : Prop := ∀ c ∈ cs, isBlank c = true

instance (cs : List Char) : Decidable (AllBlank cs) := List.decidableBAll _ cs

variable {front core back cs : List Char}

theorem allBlank_nil : AllBlank [] := nofun

theorem trimStart_append (blank : AllBlank front) (cs : List Char) :
    trimStart (front ++ cs) = trimStart cs :=
  List.dropWhile_append_of_pos blank

theorem trimEnd_append (blank : AllBlank back) (cs : List Char) :
    trimEnd (cs ++ back) = trimEnd cs := by
  have blank' : ∀ c ∈ back.reverse, isBlank c = true := fun c hc => blank c (List.mem_reverse.mp hc)
  rw [trimEnd, trimEnd, List.reverse_append, List.dropWhile_append_of_pos blank']

/-- Trimming takes away the blanks around what begins and ends otherwise. -/
theorem trim_surrounded (blank : AllBlank front) (blank' : AllBlank back) {c d : Char}
    {rest init : List Char} (first : core = c :: rest) (last : core = init ++ [d])
    (solid : isBlank c = false) (solid' : isBlank d = false) :
    trim (front ++ core ++ back) = core := by
  have start : trimStart (core ++ back) = core ++ back := by
    rw [first, trimStart, List.cons_append, List.dropWhile_cons_of_neg (by simp [solid])]
  have stop : trimEnd core = core := by
    rw [last, trimEnd, List.reverse_append, List.reverse_singleton, List.singleton_append,
      List.dropWhile_cons_of_neg (by simp [solid']), List.reverse_cons, List.reverse_reverse]
  rw [trim, List.append_assoc, trimStart_append blank, start, trimEnd_append blank', stop]

/-- Only blanks are taken away. -/
theorem exists_blanks_around_trim (cs : List Char) :
    ∃ front back, AllBlank front ∧ AllBlank back ∧ cs = front ++ trim cs ++ back := by
  have taken (ds : List Char) : AllBlank (ds.takeWhile isBlank) := fun c hc =>
    List.all_eq_true.mp List.all_takeWhile c hc
  refine ⟨cs.takeWhile isBlank, ((trimStart cs).reverse.takeWhile isBlank).reverse, taken cs,
    fun c hc => taken _ c (List.mem_reverse.mp hc), ?_⟩
  have ends : trim cs ++ ((trimStart cs).reverse.takeWhile isBlank).reverse = trimStart cs := by
    rw [trim, trimEnd, ← List.reverse_append, List.takeWhile_append_dropWhile, List.reverse_reverse]
  rw [List.append_assoc, ends, trimStart, List.takeWhile_append_dropWhile]

theorem eq_append_of_dropSuffix? {suffix : List Char} (dropped : dropSuffix? suffix cs = some front) :
    cs = front ++ suffix := by
  unfold dropSuffix? at dropped
  split at dropped
  · rename_i ends
    obtain ⟨before, rfl⟩ := List.isSuffixOf_iff_suffix.mp ends
    cases dropped
    rw [List.length_append, Nat.add_sub_cancel, List.take_left]
  · cases dropped

theorem IsDigit.isBlank {c : Char} (digit : IsDigit c) : isBlank c = false :=
  Bool.eq_false_iff.mpr digit.not_blank

end Text

namespace Duration

open Text (AllBlank IsDigit digitsValue maxNat64 readNat)

namespace Scale

/-- The text of a unit that may be left out. -/
def text (unit? : Option Scale) : List Char := unit?.elim [] suffix

/-- One of the unit; a number without a unit is one of seconds. -/
def one : Option Scale → Duration
  | some .millisecond => ofMillis 1
  | some .second | none => ofSeconds 1
  | some .minute => ofSeconds 60
  | some .hour => ofSeconds 3600
  | some .day => ofSeconds 86400

theorem times_eq {unit? : Option Scale} {n : Nat} (fits : n * (one unit?).seconds < 2 ^ 64) :
    (unit?.getD .second).times n = ⟨n * (one unit?).nanos⟩ := by
  have inScope : ∀ k, n * (ofSeconds k).seconds < 2 ^ 64 →
      ofSeconds (n * k % 2 ^ 64) = ⟨n * (ofSeconds k).nanos⟩ := by
    intro k fits
    rw [seconds_ofSeconds] at fits
    rw [Nat.mod_eq_of_lt fits, ofSeconds, ofSeconds, Nat.mul_assoc]
  cases unit? with
  | none => exact congrArg mk (by simp [one, ofSeconds])
  | some u =>
    cases u with
    | millisecond => exact congrArg mk (by simp [one, ofMillis])
    | second => exact congrArg mk (by simp [one, ofSeconds])
    | minute => exact inScope 60 fits
    | hour => exact inScope 3600 fits
    | day => exact inScope 86400 fits

theorem eq_append_of_find? {cs number : List Char} {u : Scale}
    (found : find? cs = some (u, number)) : cs = number ++ u.suffix := by
  obtain ⟨u', -, ends⟩ := List.exists_of_findSome?_eq_some found
  obtain ⟨before, dropped, same⟩ := Option.map_eq_some_iff.mp ends
  cases same
  exact Text.eq_append_of_dropSuffix? dropped

theorem find?_eq_none {front : List Char} {c : Char} (digit : IsDigit c) :
    find? (front ++ [c]) = none := by
  have other (d : Char) (h : Text.digitValue? d = none) : d ≠ c := (digit.ne h).symm
  simp [find?, all, suffix, Text.dropSuffix?, List.isSuffixOf, List.findSome?,
    other 's' (by decide), other 'm' (by decide), other 'h' (by decide), other 'd' (by decide)]

/-- No unit ends in a blank. -/
theorem exists_solid_end (u : Scale) :
    ∃ init c, u.suffix = init ++ [c] ∧ Text.isBlank c = false := by
  cases u with
  | millisecond => exact ⟨['m'], 's', rfl, by decide⟩
  | second => exact ⟨[], 's', rfl, by decide⟩
  | minute => exact ⟨[], 'm', rfl, by decide⟩
  | hour => exact ⟨[], 'h', rfl, by decide⟩
  | day => exact ⟨[], 'd', rfl, by decide⟩

/-- Behind a number and blanks the unit is found: an `m` is neither a digit nor a blank. -/
theorem find?_number (u : Scale) {init between : List Char} {c : Char} (digit : IsDigit c)
    (blank : AllBlank between) :
    find? (init ++ [c] ++ between ++ u.suffix) = some (u, init ++ [c] ++ between) := by
  rcases List.eq_nil_or_concat' between with rfl | ⟨blanks, last, rfl⟩
  · rw [List.append_nil]
    exact u.find?_append (digit.ne (by decide))
  · have other : last ≠ 'm' := by
      rintro rfl
      exact absurd (blank 'm' (by simp)) (by decide)
    rw [← List.append_assoc]
    exact u.find?_append other

end Scale

/-- Blanks, perhaps a plus sign, the digits of a number, blanks, perhaps a unit, and blanks. -/
inductive Spells (unit? : Option Scale) : List Char → Nat → Prop
  | intro {before sign digits between after : List Char} (blankBefore : AllBlank before)
      (signed : sign = [] ∨ sign = ['+']) (nonempty : digits ≠ []) (all : ∀ c ∈ digits, IsDigit c)
      (blankBetween : AllBlank between) (blankAfter : AllBlank after) :
      Spells unit? (before ++ (sign ++ digits ++ between ++ Scale.text unit?) ++ after)
        (digitsValue digits)

/-- A number with or without a sign begins with no blank, and ends in a digit. -/
theorem exists_ends {sign digits : List Char} (signed : sign = [] ∨ sign = ['+'])
    (nonempty : digits ≠ []) (all : ∀ c ∈ digits, IsDigit c) :
    (∃ c rest, sign ++ digits = c :: rest ∧ Text.isBlank c = false) ∧
      ∃ init c, sign ++ digits = init ++ [c] ∧ IsDigit c := by
  obtain ⟨init, last, shape⟩ := (List.eq_nil_or_concat' digits).resolve_left nonempty
  have digit : IsDigit last := all last (by simp [shape])
  refine ⟨?_, sign ++ init, last, by rw [shape, List.append_assoc], digit⟩
  rcases signed with rfl | rfl
  · obtain ⟨c, rest, shape⟩ := List.exists_cons_of_ne_nil nonempty
    exact ⟨c, rest, shape, (all c (by simp [shape])).isBlank⟩
  · exact ⟨'+', digits, rfl, by decide⟩

theorem read_of_spells {unit? : Option Scale} {cs : List Char} {n : Nat}
    (spells : Spells unit? cs n) :
    read cs = if n ≤ maxNat64 then .ok ((unit?.getD .second).times n) else .error .tooLarge := by
  obtain @⟨before, sign, digits, between, after, blankBefore, signed, nonempty, all, blankBetween,
    blankAfter⟩ := spells
  obtain ⟨⟨c, rest, first, solid⟩, init, d, last, digit⟩ := exists_ends signed nonempty all
  have number := @Text.readNat_signed maxNat64 _ _ signed nonempty all
  cases unit? with
  | none =>
    have whole : Text.trim (before ++ (sign ++ digits ++ between ++ Scale.text none) ++ after) =
        sign ++ digits := by
      have blank := List.forall_mem_append.mpr ⟨blankBetween, blankAfter⟩
      simpa [Scale.text] using Text.trim_surrounded blankBefore blank first last solid digit.isBlank
    rw [read, whole, last, Scale.find?_eq_none digit, ← last]
    dsimp only
    rw [number]
    split <;> rfl
  | some u =>
    obtain ⟨unitInit, e, unitLast, unitSolid⟩ := u.exists_solid_end
    have whole : Text.trim (before ++ (sign ++ digits ++ between ++ u.suffix) ++ after) =
        sign ++ digits ++ between ++ u.suffix := by
      have first' : sign ++ digits ++ between ++ u.suffix = c :: (rest ++ between ++ u.suffix) := by
        rw [first, List.cons_append, List.cons_append]
      have last' : sign ++ digits ++ between ++ u.suffix =
          sign ++ digits ++ between ++ unitInit ++ [e] := by
        rw [unitLast, ← List.append_assoc]
      exact Text.trim_surrounded blankBefore blankAfter first' last' solid unitSolid
    have found : Scale.find? (sign ++ digits ++ between ++ u.suffix) =
        some (u, sign ++ digits ++ between) := by
      rw [last]
      exact u.find?_number digit blankBetween
    have inner : Text.trim (sign ++ digits ++ between) = sign ++ digits :=
      Text.trim_surrounded Text.allBlank_nil blankBetween first last solid digit.isBlank
    rw [Scale.text, Option.elim_some, read, whole, found]
    dsimp only
    rw [inner, number]
    split <;> rfl

theorem exists_spells_of_read {cs : List Char} {d : Duration} (accepted : read cs = .ok d) :
    ∃ unit? n, Spells unit? cs n ∧ n ≤ maxNat64 := by
  obtain ⟨before, after, blankBefore, blankAfter, shape⟩ := Text.exists_blanks_around_trim cs
  unfold read at accepted
  dsimp only at accepted
  split at accepted
  · rename_i u body found
    obtain ⟨front, between, blankFront, blankBetween, bodyShape⟩ :=
      Text.exists_blanks_around_trim body
    obtain ⟨n, number, -⟩ := Text.exists_readNat_of_map accepted
    obtain ⟨sign, digits, split, signed, nonempty, all, rfl, fits⟩ :=
      Text.exists_signed_of_readNat number
    have spells : Spells (some u)
        (before ++ front ++ (sign ++ digits ++ between ++ Scale.text (some u)) ++ after)
        (digitsValue digits) :=
      .intro (List.forall_mem_append.mpr ⟨blankBefore, blankFront⟩) signed nonempty all blankBetween
        blankAfter
    refine ⟨some u, _, ?_, fits⟩
    rw [shape, Scale.eq_append_of_find? found, bodyShape, split]
    simpa [Scale.text] using spells
  · obtain ⟨n, number, -⟩ := Text.exists_readNat_of_map accepted
    obtain ⟨sign, digits, split, signed, nonempty, all, rfl, fits⟩ :=
      Text.exists_signed_of_readNat number
    have spells : Spells none (before ++ (sign ++ digits ++ [] ++ Scale.text none) ++ after)
        (digitsValue digits) :=
      .intro blankBefore signed nonempty all Text.allBlank_nil blankAfter
    refine ⟨none, _, ?_, fits⟩
    rw [shape, split]
    simpa [Scale.text] using spells

/-- A text is accepted exactly if it spells a number of 64 bits, and it is read as so many of the
unit that it names, or of seconds, as long as their seconds have 64 bits. -/
theorem accepted_iff_spelled (s : String) :
    (∀ unit? n, Spells unit? s.toList n → n < 2 ^ 64 → n * (Scale.one unit?).seconds < 2 ^ 64 →
      ofString? s = .ok ⟨n * (Scale.one unit?).nanos⟩) ∧
    ((∃ d, ofString? s = .ok d) ↔ ∃ unit? n, Spells unit? s.toList n ∧ n < 2 ^ 64) := by
  have within {n : Nat} : n < 2 ^ 64 ↔ n ≤ maxNat64 := Nat.lt_iff_le_pred (by decide)
  refine ⟨?_, ?_, ?_⟩
  · intro unit? n spells bound fits
    rw [ofString?, read_of_spells spells, if_pos (within.mp bound), Scale.times_eq fits]
  · rintro ⟨d, accepted⟩
    obtain ⟨unit?, n, spells, fits⟩ := exists_spells_of_read accepted
    exact ⟨unit?, n, spells, within.mpr fits⟩
  · rintro ⟨unit?, n, spells, bound⟩
    exact ⟨_, (read_of_spells spells).trans (if_pos (within.mp bound))⟩

/-- A tab, a plus sign, zeros and a wide blank before the unit: seven milliseconds. -/
theorem accepted_iff_spelled_surrounded :
    let s := "\t+007\u2003ms "
    Spells (some .millisecond) s.toList 7 ∧ 7 < 2 ^ 64 ∧
      7 * (Scale.one (some .millisecond)).seconds < 2 ^ 64 ∧ ofString? s = .ok (ofMillis 7) := by
  intro s
  have all : ∀ c ∈ ['0', '0', '7'], IsDigit c := by simp [IsDigit, Text.digitValue?]
  have text : s.toList = ['\t', '+', '0', '0', '7', '\u2003', 'm', 's', ' '] := by decide +kernel
  have spells : Spells (some .millisecond) s.toList 7 := by
    rw [text]
    exact @Spells.intro _ ['\t'] ['+'] ['0', '0', '7'] ['\u2003'] [' '] (by decide) (.inr rfl)
      (by decide) all (by decide) (by decide)
  exact ⟨spells, by decide, by decide,
    (accepted_iff_spelled s).1 (some .millisecond) 7 spells (by decide) (by decide)⟩

end Duration

end TraceTally
