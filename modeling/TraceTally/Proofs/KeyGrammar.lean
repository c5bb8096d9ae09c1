import Mathlib.Logic.ExistsUnique
import TraceTally.Key.Codec

/-!
# The grammar of keys as text

A field is written character by character, a special one behind an escape, and fields, at least one,
have a separator between any two. A text that is not written so has a first bad escape: what stands
before it is written so, and the escape ends the text or stands before an ordinary character. The
grammar is said without reader and writer; reading finds exactly what the grammar says of a text.
-/

namespace TraceTally.Key

inductive WrittenField : List Char → List Char → Prop
  | nil : WrittenField [] []
  | plain {c : Char} {field text : List Char} (ordinary : isSpecial c = false)
      (rest : WrittenField field text) : WrittenField (c :: field) (c :: text)
  | escaped {c : Char} {field text : List Char} (special : isSpecial c = true)
      (rest : WrittenField field text) : WrittenField (c :: field) (escape :: c :: text)

/-- The fields that a text is written of. -/
inductive Written : List (List Char) → List Char → Prop
  | single {field text : List Char} (first : WrittenField field text) : Written [field] text
  | cons {field text rest : List Char} {fields : List (List Char)}
      (first : WrittenField field text) (others : Written fields rest) :
      Written (field :: fields) (text ++ separator :: rest)

/-- The first bad escape of a text. -/
inductive BadEscape : List Char → DecodeError → Prop
  | dangling {fields : List (List Char)} {text : List Char} (before : Written fields text) :
      BadEscape (text ++ [escape]) .danglingEscape
  | unknown {fields : List (List Char)} {text rest : List Char} {c : Char}
      (before : Written fields text) (ordinary : isSpecial c = false) :
      BadEscape (text ++ escape :: c :: rest) (.unknownEscape c)

theorem isSpecial_eq_false_iff {c : Char} : isSpecial c = false ↔ c ≠ separator ∧ c ≠ escape := by
  simp [isSpecial]

theorem writtenField_iff {field text : List Char} :
    WrittenField field text ↔ text = encodeField field := by
  constructor
  · intro written
    induction written with
    | nil => rfl
    | plain ordinary _ ih => simp [encodeField, ordinary, ← ih.symm]
    | escaped special _ ih => simp [encodeField, special, ← ih.symm]
  · rintro rfl
    induction field with
    | nil => exact .nil
    | cons c field ih =>
      cases special : isSpecial c with
      | true => simpa [encodeField, special] using WrittenField.escaped special ih
      | false => simpa [encodeField, special] using WrittenField.plain special ih

theorem written_iff {fields : List (List Char)} {text : List Char} :
    Written fields text ↔ fields ≠ [] ∧ text = encodeFields fields := by
  constructor
  · intro written
    induction written with
    | single first => exact ⟨List.cons_ne_nil _ _, writtenField_iff.mp first⟩
    | @cons field text rest fields first others ih =>
      obtain ⟨some_, rfl⟩ := ih
      obtain ⟨second, fields, rfl⟩ := List.exists_cons_of_ne_nil some_
      refine ⟨List.cons_ne_nil _ _, ?_⟩
      rw [writtenField_iff.mp first]
      simp [encodeFields, Text.join]
  · rintro ⟨some_, rfl⟩
    induction fields with
    | nil => exact absurd rfl some_
    | cons field fields ih =>
      cases fields with
      | nil => exact .single (writtenField_iff.mpr rfl)
      | cons second fields =>
        have others := ih (List.cons_ne_nil _ _)
        simpa [encodeFields, Text.join] using Written.cons (writtenField_iff.mpr rfl) others

theorem Written.plain {fields : List (List Char)} {text : List Char} {c : Char}
    (written : Written fields text) (ordinary : isSpecial c = false) :
    Written (consField c fields) (c :: text) := by
  cases written with
  | single first => exact .single (.plain ordinary first)
  | cons first others => exact .cons (.plain ordinary first) others

theorem Written.escaped {fields : List (List Char)} {text : List Char} {c : Char}
    (written : Written fields text) (special : isSpecial c = true) :
    Written (consField c fields) (escape :: c :: text) := by
  cases written with
  | single first => exact .single (.escaped special first)
  | cons first others => exact .cons (.escaped special first) others

theorem Written.separator {fields : List (List Char)} {text : List Char}
    (written : Written fields text) : Written ([] :: fields) (separator :: text) :=
  .cons .nil written

/-- A bad escape stays the first one if what comes in front leaves text well written. -/
theorem BadEscape.behind {text : List Char} {e : DecodeError} (front : List Char)
    (longer : ∀ fields text, Written fields text → ∃ fields', Written fields' (front ++ text))
    (bad : BadEscape text e) : BadEscape (front ++ text) e := by
  cases bad with
  | dangling before =>
    obtain ⟨_, before⟩ := longer _ _ before
    rw [← List.append_assoc]
    exact .dangling before
  | unknown before ordinary =>
    obtain ⟨_, before⟩ := longer _ _ before
    rw [← List.append_assoc]
    exact .unknown before ordinary

theorem decodeFields_plain {c : Char} (ordinary : isSpecial c = false) (rest : List Char) :
    decodeFields (c :: rest) = (decodeFields rest).map (consField c) := by
  obtain ⟨notSeparator, notEscape⟩ := isSpecial_eq_false_iff.mp ordinary
  rw [decodeFields.eq_def]
  simp only [notSeparator, notEscape, if_false]

theorem decodeFields_escaped {c : Char} (special : isSpecial c = true) (rest : List Char) :
    decodeFields (escape :: c :: rest) = (decodeFields rest).map (consField c) := by
  rw [decodeFields.eq_def]
  simp only [special, if_true]

theorem decodeFields_separator (rest : List Char) :
    decodeFields (separator :: rest) = (decodeFields rest).map ([] :: ·) := by
  have other : separator ≠ escape := by decide
  rw [decodeFields.eq_def]
  simp only [other, if_false, if_true]

theorem decodeFields_dangling : decodeFields [escape] = .error .danglingEscape := rfl

theorem decodeFields_unknown {c : Char} (ordinary : isSpecial c = false) (rest : List Char) :
    decodeFields (escape :: c :: rest) = .error (.unknownEscape c) := by
  rw [decodeFields.eq_def]
  simp only [ordinary, if_true, Bool.false_eq_true, if_false]

/-- A field in front is put before the first field of what follows. -/
theorem decodeFields_append {field text : List Char} (written : WrittenField field text)
    (rest : List Char) :
    decodeFields (text ++ rest) =
      (decodeFields rest).map fun fields => field.foldr consField fields := by
  induction written with
  | nil =>
    rw [List.nil_append]
    cases decodeFields rest <;> rfl
  | plain ordinary _ ih =>
    rw [List.cons_append, decodeFields_plain ordinary, ih]
    cases decodeFields rest <;> rfl
  | escaped special _ ih =>
    rw [List.cons_append, List.cons_append, decodeFields_escaped special, ih]
    cases decodeFields rest <;> rfl

theorem foldr_consField (field first : List Char) (fields : List (List Char)) :
    field.foldr consField (first :: fields) = (field ++ first) :: fields := by
  induction field with
  | nil => rfl
  | cons c field ih => simp [ih, consField]

theorem decodeFields_of_written {fields : List (List Char)} {text : List Char}
    (written : Written fields text) : decodeFields text = .ok fields := by
  induction written with
  | @single field text first =>
    have read := decodeFields_append first []
    rw [List.append_nil] at read
    rw [read]
    simp [decodeFields, Except.map, foldr_consField]
  | cons first _ ih =>
    rw [decodeFields_append first, decodeFields_separator, ih]
    simp [Except.map, foldr_consField]

/-- What goes wrong goes wrong behind fields, too. -/
theorem decodeFields_append_error {fields : List (List Char)} {text rest : List Char}
    {e : DecodeError} (written : Written fields text) (wrong : decodeFields rest = .error e) :
    decodeFields (text ++ rest) = .error e := by
  induction written with
  | single first =>
    rw [decodeFields_append first, wrong]
    rfl
  | cons first _ ih =>
    rw [List.append_assoc, decodeFields_append first, List.cons_append, decodeFields_separator, ih]
    rfl

/-- Every text is written of fields or has a first bad escape, and that is what reading finds. -/
theorem decodeFields_cases (text : List Char) :
    (∃ fields, decodeFields text = .ok fields ∧ Written fields text) ∨
      ∃ e, decodeFields text = .error e ∧ BadEscape text e := by
  -- Each step of the reader takes what the grammar can put in front: a character, an escaped one, or
  -- a separator.
  fun_induction decodeFields text with
  | case1 => exact .inl ⟨_, rfl, .single .nil⟩
  | case2 => exact .inr ⟨_, rfl, .dangling (.single .nil)⟩
  | case3 c rest special ih =>
    rcases ih with ⟨fields, read, written⟩ | ⟨e, read, bad⟩
    · exact .inl ⟨_, by rw [read]; rfl, written.escaped special⟩
    · refine .inr ⟨e, by rw [read]; rfl, ?_⟩
      exact bad.behind [escape, c] fun _ _ written => ⟨_, written.escaped special⟩
  | case4 c rest ordinary =>
    exact .inr ⟨_, rfl, .unknown (.single .nil) (Bool.eq_false_iff.mpr ordinary)⟩
  | case5 rest other ih =>
    rcases ih with ⟨fields, read, written⟩ | ⟨e, read, bad⟩
    · exact .inl ⟨_, by rw [read]; rfl, written.separator⟩
    · refine .inr ⟨e, by rw [read]; rfl, ?_⟩
      exact bad.behind [separator] fun _ _ written => ⟨_, written.separator⟩
  | case6 c rest notEscape notSeparator ih =>
    have ordinary := isSpecial_eq_false_iff.mpr ⟨notSeparator, notEscape⟩
    rcases ih with ⟨fields, read, written⟩ | ⟨e, read, bad⟩
    · exact .inl ⟨_, by rw [read]; rfl, written.plain ordinary⟩
    · refine .inr ⟨e, by rw [read]; rfl, ?_⟩
      exact bad.behind [c] fun _ _ written => ⟨_, written.plain ordinary⟩

theorem decodeFields_eq_ok_iff {text : List Char} {fields : List (List Char)} :
    decodeFields text = .ok fields ↔ Written fields text := by
  refine ⟨fun read => ?_, decodeFields_of_written⟩
  rcases decodeFields_cases text with ⟨fields', read', written⟩ | ⟨e, wrong, -⟩
  · obtain rfl := Except.ok.inj (read.symm.trans read')
    exact written
  · cases read.symm.trans wrong

theorem decodeFields_eq_error_iff {text : List Char} {e : DecodeError} :
    decodeFields text = .error e ↔ BadEscape text e := by
  constructor
  · intro wrong
    rcases decodeFields_cases text with ⟨fields, read, -⟩ | ⟨e', wrong', bad⟩
    · cases wrong.symm.trans read
    · obtain rfl := Except.error.inj (wrong.symm.trans wrong')
      exact bad
  · rintro (⟨before⟩ | ⟨before, ordinary⟩)
    · exact decodeFields_append_error before decodeFields_dangling
    · exact decodeFields_append_error before (decodeFields_unknown ordinary _)

theorem ofFields?_eq_ok_iff {fields : List (List Char)} {k : Key} :
    ofFields? fields = .ok k ↔ fields = k.fields.map String.toList := by
  unfold ofFields?
  split
  · obtain ⟨origin, traceId, name, unit⟩ := k
    have written : ∀ (cs : List Char) (s : String), String.ofList cs = s ↔ cs = s.toList :=
      fun cs s => ⟨by rintro rfl; simp, by rintro rfl; simp⟩
    simp [Key.fields, written]
  · rename_i other
    refine ⟨nofun, fun same => ?_⟩
    exact absurd same (other _ _ _ _)

theorem ofFields?_eq_error_iff {fields : List (List Char)} {e : DecodeError} :
    ofFields? fields = .error e ↔ fields.length ≠ 4 ∧ e = .fieldCount fields.length := by
  unfold ofFields?
  split
  · simp
  · rename_i other
    have count : fields.length ≠ 4 := by
      intro four
      match fields, four with
      | [_, _, _, _], _ => exact other _ _ _ _ rfl
    simp [count, eq_comm]

theorem encode_eq_iff {s : String} {k : Key} :
    s = encode k ↔ Written (k.fields.map String.toList) s.toList := by
  have some_ : k.fields.map String.toList ≠ [] := List.cons_ne_nil _ _
  rw [written_iff, and_iff_right some_, encode]
  constructor
  · rintro rfl
    simp
  · intro same
    rw [← same]
    simp

theorem decode_eq_ok_iff {s : String} {k : Key} : decode s = .ok k ↔ s = encode k := by
  rw [encode_eq_iff, ← decodeFields_eq_ok_iff, decode]
  cases decodeFields s.toList with
  | error e => exact ⟨nofun, nofun⟩
  | ok fields => simp only [Except.bind, ofFields?_eq_ok_iff, Except.ok.injEq]

theorem decode_eq_error_iff {s : String} {e : DecodeError} :
    decode s = .error e ↔ BadEscape s.toList e ∨
      ∃ fields, Written fields s.toList ∧ fields.length ≠ 4 ∧ e = .fieldCount fields.length := by
  simp only [← decodeFields_eq_error_iff, ← decodeFields_eq_ok_iff, decode]
  cases decodeFields s.toList with
  | error e' => simp [Except.bind]
  | ok fields => simp [Except.bind, ofFields?_eq_error_iff]

theorem BadEscape.not_fieldCount {text : List Char} {n : Nat} :
    ¬ BadEscape text (.fieldCount n) := nofun

theorem badEscape_dangling_iff {text : List Char} :
    BadEscape text .danglingEscape ↔
      ∃ fields front, Written fields front ∧ text = front ++ [escape] := by
  constructor
  · rintro ⟨before⟩
    exact ⟨_, _, before, rfl⟩
  · rintro ⟨fields, front, before, rfl⟩
    exact .dangling before

theorem badEscape_unknown_iff {text : List Char} {c : Char} :
    BadEscape text (.unknownEscape c) ↔ isSpecial c = false ∧
      ∃ fields front rest, Written fields front ∧ text = front ++ escape :: c :: rest := by
  constructor
  · rintro (_ | ⟨before, ordinary⟩)
    exact ⟨ordinary, _, _, _, before, rfl⟩
  · rintro ⟨ordinary, fields, front, rest, before, rfl⟩
    exact .unknown before ordinary

/-- Reading and writing keys are inverse to each other, and a text that no key is written as is
refused for the one thing that is wrong with it: its first bad escape or, if it has none, the number
of its fields. -/
theorem decode_agrees_with_grammar :
    (∀ k, Written (k.fields.map String.toList) (encode k).toList ∧ decode (encode k) = .ok k) ∧
    Function.Injective encode ∧
    ∀ s : String,
      (∀ k, decode s = .ok k ↔ s = encode k) ∧
      ((∀ k, s ≠ encode k) → ∃! e, decode s = .error e) ∧
      (∀ n, decode s = .error (.fieldCount n) ↔
        n ≠ 4 ∧ ∃ fields, fields.length = n ∧ Written fields s.toList) ∧
      (decode s = .error .danglingEscape ↔
        ∃ fields text, Written fields text ∧ s.toList = text ++ [escape]) ∧
      ∀ c, decode s = .error (.unknownEscape c) ↔
        c ≠ separator ∧ c ≠ escape ∧
          ∃ fields text rest, Written fields text ∧ s.toList = text ++ escape :: c :: rest := by
  have inverse : ∀ k, decode (encode k) = .ok k := fun k => decode_eq_ok_iff.mpr rfl
  refine ⟨fun k => ⟨encode_eq_iff.mp rfl, inverse k⟩, ?_,
    fun s => ⟨fun k => decode_eq_ok_iff, ?_, ?_, ?_, ?_⟩⟩
  · intro k k' same
    have read := inverse k
    rw [same, inverse k'] at read
    exact (Except.ok.inj read).symm
  · intro notWritten
    cases read : decode s with
    | ok k => exact absurd (decode_eq_ok_iff.mp read) (notWritten k)
    | error e => exact ⟨e, rfl, fun e' same => (Except.error.inj same).symm⟩
  · intro n
    rw [decode_eq_error_iff, or_iff_right BadEscape.not_fieldCount]
    constructor
    · rintro ⟨fields, written, count, same⟩
      obtain rfl := DecodeError.fieldCount.inj same
      exact ⟨count, fields, rfl, written⟩
    · rintro ⟨count, fields, rfl, written⟩
      exact ⟨fields, written, count, rfl⟩
  · rw [decode_eq_error_iff, badEscape_dangling_iff, or_iff_left]
    rintro ⟨_, _, _, same⟩
    cases same
  · intro c
    rw [decode_eq_error_iff, badEscape_unknown_iff, isSpecial_eq_false_iff, and_assoc, or_iff_left]
    rintro ⟨_, _, _, same⟩
    cases same

/-- Two fields are no key. -/
theorem decode_agrees_with_grammar_twoFields :
    (∀ k, "a:b" ≠ encode k) ∧ ∃! e, decode "a:b" = .error e := by
  have written : Written [['a'], ['b']] "a:b".toList :=
    .cons (.plain rfl .nil) (.single (.plain rfl .nil))
  have refused : decode "a:b" = .error (.fieldCount 2) :=
    decode_eq_error_iff.mpr (.inr ⟨_, written, by decide, rfl⟩)
  have notWritten : ∀ k, "a:b" ≠ encode k := by
    intro k same
    rw [← decode_eq_ok_iff, refused] at same
    cases same
  exact ⟨notWritten, (decode_agrees_with_grammar.2.2 "a:b").2.1 notWritten⟩

end TraceTally.Key
