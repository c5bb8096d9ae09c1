import TraceTally.Proofs.JsonReaders

/-!
# Strings and numbers as they are written

What is written for a text is a string in which every character is a unit of its own, and what is
written for a finite double is a number. So both are values for any reader. A text reads back; a double
does where its shortest decimal is read as that double.
-/

namespace TraceTally.Json

open StringUnit (decode)

theorem hexValue?_hexDigit {n : Nat} (small : n < 16) : Text.hexValue? (Text.hexDigit n) = some n := by
  have all : ∀ n < 16, Text.hexValue? (Text.hexDigit n) = some n := by decide
  exact all n small

/-- A character is written as one unit of a string, and that says the character. -/
theorem escapeChar_unit (c : Char) :
    ∃ u : StringUnit, u.Valid ∧ u.text = escapeChar c ∧
      ∀ us, decode (u :: us) = (decode us).map (c :: ·) := by
  have short {letter d : Char} (listed : (letter, d) ∈ StringUnit.shortEscapes) :
      ∃ u : StringUnit, u.Valid ∧ u.text = ['\\', letter] ∧
        ∀ us, decode (u :: us) = (decode us).map (d :: ·) :=
    ⟨.short letter d, listed, rfl, fun us => rfl⟩
  unfold escapeChar
  split
  case h_8 quote backslash _ _ _ _ _ =>
    split
    · rename_i control
      refine ⟨.code _ c.toNat, ?_, rfl, fun us => ?_⟩
      · refine ⟨'0', '0', _, _, 0, 0, c.toNat / 16, c.toNat % 16, rfl, by decide, by decide,
          hexValue?_hexDigit (by omega), hexValue?_hexDigit (by omega), by omega⟩
      · have notTrailing : ¬isTrailing c.toNat = true := by simp [isTrailing]; omega
        have notLeading : ¬isLeading c.toNat = true := by simp [isLeading]; omega
        rw [StringUnit.decode_code _ us notTrailing notLeading, Char.ofNat_toNat]
    · exact ⟨.plain c, ⟨quote, backslash, by omega⟩, rfl, fun us => rfl⟩
  all_goals exact short (by decide)

theorem writeString_quoted (s : String) :
    ∃ units : List StringUnit, (∀ u ∈ units, u.Valid) ∧ decode units = .ok s.toList ∧
      writeString s = quoted units := by
  have units (cs : List Char) : ∃ units : List StringUnit, (∀ u ∈ units, u.Valid) ∧
      decode units = .ok cs ∧ units.flatMap StringUnit.text = cs.flatMap escapeChar := by
    induction cs with
    | nil => exact ⟨[], nofun, rfl, rfl⟩
    | cons c cs ih =>
      obtain ⟨us, valid, meaning, text⟩ := ih
      obtain ⟨u, valid', text', adds⟩ := escapeChar_unit c
      refine ⟨u :: us, List.forall_mem_cons.mpr ⟨valid', valid⟩, ?_, ?_⟩
      · rw [adds, meaning]
        rfl
      · rw [List.flatMap_cons, List.flatMap_cons, text', text]
  obtain ⟨us, valid, meaning, text⟩ := units s.toList
  exact ⟨us, valid, meaning, by rw [writeString, quoted, text]; rfl⟩

theorem readText_written (s : String) : Yields readText (writeString s) (.ok s) := by
  obtain ⟨units, valid, meaning, text⟩ := writeString_quoted s
  have read := readText_string valid
  rwa [meaning, ← text, Except.map, String.ofList_toList] at read

theorem ValueText.written (s : String) : ValueText (writeString s) := by
  obtain ⟨units, valid, -, text⟩ := writeString_quoted s
  exact text ▸ .string valid

theorem digits_text (n : Nat) : Digits (Text.digits n) :=
  ⟨Text.digits_ne_nil n, Text.isDigit_of_mem_digits n⟩

theorem zero_digits : Digits ['0'] := ⟨List.cons_ne_nil _ _, List.forall_mem_singleton.mpr rfl⟩

/-- The point between the digits, with zeros where the number needs them. -/
theorem placePoint_parts {m : Nat} {p : Int} (zero : m = 0 → p = 0) {whole fraction : List Char}
    (placed : Binary64.placePoint p (Text.digits m) = (whole, fraction)) :
    Digits whole ∧ (∀ t, whole = '0' :: t → t = []) ∧ ∀ d ∈ fraction, isDigit d = true := by
  obtain ⟨nonempty, all⟩ := digits_text m
  have zeros (k : Nat) : ∀ d ∈ List.replicate k '0', isDigit d = true := by
    intro d mem
    rw [List.eq_of_mem_replicate mem]
    rfl
  rw [Binary64.placePoint] at placed
  split at placed
  · cases placed
    refine ⟨zero_digits, fun t same => (List.cons.inj same).2.symm, ?_⟩
    exact List.forall_mem_append.mpr ⟨zeros _, all⟩
  · cases placed
    obtain ⟨d, ds, shape⟩ := List.exists_cons_of_ne_nil nonempty
    have digits : ∀ e ∈ d :: ds, isDigit e = true := shape ▸ all
    refine ⟨⟨?_, ?_⟩, ?_, fun e mem => all e (List.mem_of_mem_drop mem)⟩
    · rw [shape]
      exact List.cons_ne_nil _ _
    · exact List.forall_mem_append.mpr ⟨fun e mem => all e (List.mem_of_mem_take mem), zeros _⟩
    · intro t same
      rcases Nat.eq_zero_or_pos m with rfl | positive
      · rw [zero rfl, Text.digits_of_lt (by decide)] at same
        exact (List.cons.inj same).2.symm
      · have head := Text.digits_head_of_pos positive
        rw [shape] at same head
        exact absurd (congrArg some (List.cons.inj same).1) head

/-- What a number of digits and a point is, where a whole number has a zero behind the point. -/
theorem positional_text {whole fraction : List Char} (digits : Digits whole)
    (lead : ∀ t, whole = '0' :: t → t = []) (decimals : ∀ d ∈ fraction, isDigit d = true) :
    ∃ n : NumberText, n.Valid ∧ n.negative = false ∧
      whole ++ (if fraction.isEmpty then ['.', '0'] else '.' :: fraction) = n.text := by
  have some' {ds : List Char} (some' : Digits ds) :
      NumberText.Valid ⟨false, whole, some ds, none⟩ := by
    refine ⟨digits, lead, ?_, nofun⟩
    rintro _ ⟨⟩
    exact some'
  cases fraction with
  | nil =>
    refine ⟨⟨false, whole, some ['0'], none⟩, some' zero_digits, rfl, ?_⟩
    simp [NumberText.text, NumberText.body, NumberText.fractionText, NumberText.exponentText]
  | cons e es =>
    refine ⟨⟨false, whole, some (e :: es), none⟩, some' ⟨List.cons_ne_nil _ _, decimals⟩, rfl, ?_⟩
    simp [NumberText.text, NumberText.body, NumberText.fractionText, NumberText.exponentText]

theorem exponent_text {e : Char} {es : List Char} (digits : ∀ d ∈ e :: es, isDigit d = true) (p : Int) :
    ∃ n : NumberText, n.Valid ∧ n.negative = false ∧
      (if es.isEmpty then [e] else e :: '.' :: es) ++ (if 0 ≤ p then ['e', '+'] else ['e']) ++
        Text.intDigits p = n.text := by
  refine ⟨⟨false, [e], if es.isEmpty then none else some es,
    some ('e', some (if 0 ≤ p then '+' else '-'), Text.digits p.natAbs)⟩, ?_, rfl, ?_⟩
  · obtain ⟨first, others⟩ := List.forall_mem_cons.mp digits
    have whole : Digits [e] := ⟨List.cons_ne_nil _ _, by simpa using first⟩
    refine ⟨whole, fun t same => (List.cons.inj same).2.symm, ?_, ?_⟩
    · cases es with
      | nil => exact nofun
      | cons d ds =>
        rintro _ ⟨⟩
        exact ⟨List.cons_ne_nil _ _, others⟩
    · rintro _ _ _ ⟨⟩
      refine ⟨.inl rfl, ?_, digits_text _⟩
      rintro _ ⟨⟩
      split
      · exact .inl rfl
      · exact .inr rfl
  · rw [Text.intDigits]
    cases es <;> by_cases sign : 0 ≤ p <;>
      simp [NumberText.text, NumberText.body, NumberText.fractionText, NumberText.exponentText, sign,
        Int.not_lt.mpr, Int.not_le.mp]

theorem finite_layout (d : Binary64.Decimal) :
    ∃ n : NumberText, n.Valid ∧ n.negative = false ∧ Binary64.Layout.json.finite d = n.text := by
  obtain ⟨nonempty, all⟩ := digits_text d.significand
  generalize exponent : (if d.significand = 0 then 0
    else d.exponent + (Text.digits d.significand).length - 1 : Int) = p
  rw [Binary64.Layout.finite]
  simp only [exponent]
  split
  · have zero : d.significand = 0 → p = 0 := fun none => by rw [← exponent, if_pos none]
    obtain ⟨digits, lead, decimals⟩ := placePoint_parts zero rfl
    exact positional_text digits lead decimals
  · obtain ⟨e, es, shape⟩ := List.exists_cons_of_ne_nil nonempty
    obtain ⟨n, valid, positive, text⟩ := exponent_text (shape ▸ all) p
    refine ⟨n, valid, positive, text ▸ ?_⟩
    rw [shape]
    cases es <;> rfl

theorem write_numberText {x : Binary64} (finite : x.isFinite = true) :
    ∃ n : NumberText, n.Valid ∧ Binary64.Layout.json.write x = n.text := by
  obtain ⟨n, valid, positive, text⟩ := finite_layout x.shortest
  have below : x.magnitude / 2 ^ 52 < 2047 := of_decide_eq_true finite
  have number : x.isNaN = false := decide_eq_false (by omega)
  have bounded : x.isInfinite = false := decide_eq_false (by omega)
  refine ⟨{ n with negative := x.isNegative }, ?_, ?_⟩
  · exact ⟨valid.whole, valid.noLeadingZero, valid.fraction, valid.exponent⟩
  · rw [Binary64.Layout.write, number, bounded, text]
    simp only [NumberText.text, positive]
    cases x.isNegative <;> rfl

/-- Where the double's shortest text is read as the double. -/
def ReadsBack (x : Binary64) : Prop :=
  readAll readDouble (Binary64.Layout.json.write x) = .ok x

theorem readDouble_written {x : Binary64} (finite : x.isFinite = true) (back : ReadsBack x) :
    Yields readDouble (writeNumber x) (.ok x) := by
  obtain ⟨n, valid, text⟩ := write_numberText finite
  have read := readDouble_number valid
  have answer := readAll_told read .nil .nil
  rw [List.nil_append, List.append_nil, ← text, back] at answer
  rw [writeNumber, if_pos finite, text, show (.ok x : Except Cause Binary64) = _ from answer]
  exact read

/-- In the place of a number that is not finite. -/
theorem readDouble_notFinite {x : Binary64} (notFinite : x.isFinite = false) :
    Yields readDouble (writeNumber x) (.error (.unexpected .null "f64")) := by
  rw [writeNumber, notFinite]
  exact readDouble_null

theorem ValueText.writtenNumber (x : Binary64) : ValueText (writeNumber x) := by
  rw [writeNumber]
  split
  · rename_i finite
    obtain ⟨n, valid, text⟩ := write_numberText finite
    exact text ▸ .number valid
  · exact .null

mutual

/-- What is written for a value is a value. -/
theorem compact_valueText : ∀ j : Json, ValueText j.compact
  | .null => by
    rw [compact]
    exact .null
  | .flag b => by
    rw [compact]
    cases b
    · exact .no
    · exact .yes
  | .number x => by
    rw [compact]
    exact .writtenNumber x
  | .string s => by
    rw [compact]
    exact .written s
  | .list elements => by
    obtain ⟨parts, spaced, values, texts⟩ := compactElements_texts elements
    have list := ValueText.list .nil spaced values
    rwa [listText, texts] at list
  | .object members => by
    obtain ⟨ms, spaced, values, texts⟩ := compactMembers_texts members
    have object := ValueText.object .nil spaced values
    rwa [objectText, texts] at object

theorem compactElements_texts : ∀ elements : List Json, ∃ parts : List Part,
    (∀ p ∈ parts, p.Spaced) ∧ (∀ p ∈ parts, ValueText p.value) ∧
      parts.map Part.text = compactElements elements
  | [] => ⟨[], nofun, nofun, rfl⟩
  | j :: elements => by
    obtain ⟨parts, spaced, values, texts⟩ := compactElements_texts elements
    refine ⟨{ value := j.compact } :: parts, List.forall_mem_cons.mpr ⟨⟨.nil, .nil⟩, spaced⟩,
      List.forall_mem_cons.mpr ⟨compact_valueText j, values⟩, ?_⟩
    rw [List.map_cons, texts, compactElements, Part.text, List.nil_append, List.append_nil]

theorem compactMembers_texts : ∀ members : List (String × Json), ∃ ms : List Member,
    (∀ m ∈ ms, m.Spaced) ∧ (∀ m ∈ ms, ValueText m.part.value) ∧
      ms.map Member.text = compactMembers members
  | [] => ⟨[], nofun, nofun, rfl⟩
  | (name, j) :: members => by
    obtain ⟨units, valid, -, text⟩ := writeString_quoted name
    obtain ⟨ms, spaced, values, texts⟩ := compactMembers_texts members
    refine ⟨{ name := units, part := { value := j.compact } } :: ms,
      List.forall_mem_cons.mpr ⟨⟨.nil, valid, .nil, ⟨.nil, .nil⟩⟩, spaced⟩,
      List.forall_mem_cons.mpr ⟨compact_valueText j, values⟩, ?_⟩
    rw [List.map_cons, texts, compactMembers, text]
    simp [Member.text, Part.text]

end

end TraceTally.Json
