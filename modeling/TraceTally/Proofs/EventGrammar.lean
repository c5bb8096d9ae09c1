import TraceTally.Client.EventArgument
import TraceTally.Proofs.DurationGrammar

/-!
# The grammar of event arguments

The first equals sign of a text ends the name, and the first colon behind it ends the value; a text
without such a colon has an empty unit. So a name may hold colons, and a unit may hold anything. The
text is accepted exactly if there is an equals sign, the name is not empty and the value is a number
but for blanks around it. A number itself has neither blanks nor colons.
-/

namespace TraceTally

namespace Text

variable {c : Char} {cs front back : List Char}

theorem splitAt?_eq_none : splitAt? c cs = none ↔ c ∉ cs := by
  induction cs with
  | nil => simp [splitAt?]
  | cons d cs ih =>
    rw [splitAt?]
    split
    · rename_i same
      simp [same]
    · rename_i other
      simp [ih, Ne.symm other]

/-- A text is divided at the first such character. -/
theorem splitAt?_append (first : c ∉ front) (back : List Char) :
    splitAt? c (front ++ c :: back) = some (front, back) := by
  induction front with
  | nil => simp [splitAt?]
  | cons d front ih =>
    obtain ⟨other, later⟩ := not_or.mp fun mem => first (List.mem_cons.mpr mem)
    rw [List.cons_append, splitAt?, if_neg (Ne.symm other), ih later, Option.map_some]

theorem eq_append_of_splitAt? (found : splitAt? c cs = some (front, back)) :
    cs = front ++ c :: back ∧ c ∉ front := by
  induction cs generalizing front with
  | nil => cases found
  | cons d cs ih =>
    rw [splitAt?] at found
    split at found
    · rename_i same
      cases found
      exact ⟨by rw [same, List.nil_append], List.not_mem_nil⟩
    · rename_i other
      obtain ⟨⟨front, back⟩, later, same⟩ := Option.map_eq_some_iff.mp found
      cases same
      obtain ⟨shape, first⟩ := ih later
      exact ⟨by rw [shape, List.cons_append], by simp [first, Ne.symm other]⟩

end Text

namespace Binary64

open Text (IsDigit isBlank)

/-- Digits, signs, the point, and letters. -/
def IsNumberChar (c : Char) : Prop := IsDigit c ∨ c ∈ ['+', '-', '.'] ∨ c.isAlpha

theorem IsNumberChar.ne_colon {c : Char} (number : IsNumberChar c) : c ≠ ':' := by
  rintro rfl
  revert number
  simp [IsNumberChar, IsDigit, Text.digitValue?]

theorem IsNumberChar.isBlank {c : Char} (number : IsNumberChar c) : isBlank c = false := by
  have apart : ∀ n ∈ Text.whiteSpace, ¬ ((Text.digitValue? (Char.ofNat n)).isSome ∨
      Char.ofNat n ∈ ['+', '-', '.'] ∨ (Char.ofNat n).isAlpha) := by decide
  rw [Bool.eq_false_iff]
  intro blank
  rw [Text.isBlank, List.contains_iff_mem] at blank
  have other := apart _ blank
  rw [Char.ofNat_toNat] at other
  exact other number

theorem isAlpha_of_toLower {c : Char} (letter : c.toLower.isAlpha = true) : c.isAlpha = true := by
  unfold Char.toLower at letter
  split at letter
  · rename_i upper
    have isUpper : c.isUpper = true := decide_eq_true upper
    exact Bool.or_eq_true_iff.mpr (.inl isUpper)
  · exact letter

theorem isNumberChar_of_lower {cs : List Char} {word : String} (same : lower cs = word)
    (letters : word.toList.all Char.isAlpha = true) : ∀ c ∈ cs, IsNumberChar c := by
  intro c hc
  have mem : c.toLower ∈ word.toList := by
    rw [← same, lower, String.toList_ofList]
    exact List.mem_map_of_mem hc
  exact .inr (.inr (isAlpha_of_toLower (List.all_eq_true.mp letters _ mem)))

/-- A sign is all that is taken from the front. -/
theorem forall_of_splitSign {cs : List Char} (body : ∀ c ∈ (splitSign cs).2, IsNumberChar c) :
    ∀ c ∈ cs, IsNumberChar c := by
  unfold splitSign at body
  split at body
  · exact List.forall_mem_cons.mpr ⟨.inr (.inl (by simp)), body⟩
  · exact List.forall_mem_cons.mpr ⟨.inr (.inl (by simp)), body⟩
  · exact body

theorem isNumberChar_takeWhile (cs : List Char) : ∀ c ∈ cs.takeWhile isDigit, IsNumberChar c :=
  fun c hc => .inl (List.all_eq_true.mp List.all_takeWhile c hc)

theorem isNumberChar_of_exponent? {cs : List Char} {e : Int} (read : exponent? cs = some e) :
    ∀ c ∈ cs, IsNumberChar c := by
  unfold exponent? at read
  dsimp only at read
  split at read
  · cases read
  · rename_i fine
    simp only [Bool.or_eq_true, Bool.not_eq_true', not_or, Bool.not_eq_false] at fine
    exact forall_of_splitSign fun c hc => .inl (List.all_eq_true.mp fine.2 c hc)

theorem isNumberChar_of_dropWhile {cs : List Char}
    (rest : ∀ c ∈ cs.dropWhile isDigit, IsNumberChar c) : ∀ c ∈ cs, IsNumberChar c := by
  rw [← List.takeWhile_append_dropWhile (p := isDigit) (l := cs)]
  exact List.forall_mem_append.mpr ⟨isNumberChar_takeWhile cs, rest⟩

/-- Behind its digits a numeral has nothing or an exponent. -/
theorem isNumberChar_ending {cs : List Char} {whole n : Numeral} {scaled : Int → Numeral}
    (read : (match cs with
      | [] => some whole
      | c :: more => if c = 'e' || c = 'E' then (exponent? more).map scaled else none) = some n) :
    ∀ c ∈ cs, IsNumberChar c := by
  split at read
  · exact fun _ none => absurd none List.not_mem_nil
  · rename_i c more
    split at read
    · rename_i mark
      obtain ⟨e, exponent, -⟩ := Option.map_eq_some_iff.mp read
      have letter : IsNumberChar c := by
        rcases (by simpa using mark : c = 'e' ∨ c = 'E') with rfl | rfl <;> exact .inr (.inr rfl)
      exact List.forall_mem_cons.mpr ⟨letter, isNumberChar_of_exponent? exponent⟩
    · cases read

theorem isNumberChar_of_numeral? {negative : Bool} {cs : List Char} {n : Numeral}
    (read : numeral? negative cs = some n) : ∀ c ∈ cs, IsNumberChar c := by
  refine isNumberChar_of_dropWhile ?_
  unfold numeral? at read
  generalize cs.takeWhile isDigit = whole at read
  generalize cs.dropWhile isDigit = rest at read ⊢
  dsimp only at read
  split at read
  · rename_i more
    dsimp only at read
    split at read
    · cases read
    · exact List.forall_mem_cons.mpr ⟨.inr (.inl (by decide)),
        isNumberChar_of_dropWhile (isNumberChar_ending read)⟩
  · dsimp only at read
    split at read
    · cases read
    · exact isNumberChar_ending read

theorem isNumberChar_of_read? {cs : List Char} {x : Binary64} (read : read? cs = some x) :
    ∀ c ∈ cs, IsNumberChar c := by
  refine forall_of_splitSign ?_
  unfold read? at read
  dsimp only at read
  split at read
  · exact isNumberChar_of_lower ‹_› (by decide)
  · exact isNumberChar_of_lower ‹_› (by decide)
  · exact isNumberChar_of_lower ‹_› (by decide)
  · obtain ⟨n, numeral, -⟩ := Option.map_eq_some_iff.mp read
    exact isNumberChar_of_numeral? numeral

/-- A number has no blanks, so that trimming takes away just those around it. -/
theorem trim_read? {front number back : List Char} {x : Binary64} (read : read? number = some x)
    (blankBefore : Text.AllBlank front) (blankBehind : Text.AllBlank back) :
    Text.trim (front ++ number ++ back) = number := by
  have solid (c : Char) (hc : c ∈ number) : isBlank c = false :=
    (isNumberChar_of_read? read c hc).isBlank
  have nonempty : number ≠ [] := by
    rintro rfl
    cases read
  obtain ⟨first, rest, begins⟩ := List.exists_cons_of_ne_nil nonempty
  obtain ⟨init, last, ends⟩ := (List.eq_nil_or_concat' number).resolve_left nonempty
  exact Text.trim_surrounded blankBefore blankBehind begins ends (solid first (by simp [begins]))
    (solid last (by simp [ends]))

end Binary64

namespace EventArgument

open Text (AllBlank)

/-- A text, divided at its first equals sign and at the first colon behind that, if there is one: the
name, the text of the value, and the unit. -/
inductive Divided (name value : List Char) : List Char → List Char → Prop
  | withoutUnit (first : '=' ∉ name) (noColon : ':' ∉ value) :
      Divided name value [] (name ++ '=' :: value)
  | withUnit {unit : List Char} (first : '=' ∉ name) (second : ':' ∉ value) :
      Divided name value unit (name ++ '=' :: (value ++ ':' :: unit))

variable {cs name value unit : List Char}

theorem divided_iff : Divided name value unit cs ↔
    ∃ rest, Text.splitAt? '=' cs = some (name, rest) ∧ splitUnit rest = (value, unit) := by
  constructor
  · intro divided
    cases divided with
    | withoutUnit first noColon =>
      refine ⟨value, Text.splitAt?_append first value, ?_⟩
      rw [splitUnit, Text.splitAt?_eq_none.mpr noColon, Option.getD_none]
    | withUnit first second =>
      refine ⟨_, Text.splitAt?_append first _, ?_⟩
      rw [splitUnit, Text.splitAt?_append second unit, Option.getD_some]
  · rintro ⟨rest, found, parts⟩
    obtain ⟨rfl, first⟩ := Text.eq_append_of_splitAt? found
    unfold splitUnit at parts
    cases colon : Text.splitAt? ':' rest with
    | none =>
      rw [colon] at parts
      cases parts
      exact .withoutUnit first (Text.splitAt?_eq_none.mp colon)
    | some split =>
      rw [colon] at parts
      cases parts
      obtain ⟨rfl, second⟩ := Text.eq_append_of_splitAt? colon
      exact .withUnit first second

theorem exists_divided (sign : '=' ∈ cs) : ∃ name value unit, Divided name value unit cs := by
  cases found : Text.splitAt? '=' cs with
  | none => exact absurd sign (Text.splitAt?_eq_none.mp found)
  | some split => exact ⟨_, _, _, divided_iff.mpr ⟨_, found, rfl⟩⟩

theorem read_of_divided (divided : Divided name value unit cs) :
    read cs =
      if name.isEmpty then .error .emptyName
      else match Binary64.read? (Text.trim value) with
        | some x => .ok ⟨String.ofList name, x, String.ofList unit⟩
        | none => .error (.invalidValue (String.ofList value)) := by
  obtain ⟨rest, found, parts⟩ := divided_iff.mp divided
  rw [read, found]
  cases number : Binary64.read? (Text.trim value) <;> simp only [parts, number]

theorem read_of_not_mem (noSign : '=' ∉ cs) :
    read cs = .error (.noEqualsSign (String.ofList cs)) := by
  rw [read, Text.splitAt?_eq_none.mpr noSign]

theorem read_eq_ok_iff {event : Event Binary64} :
    read cs = .ok event ↔ ∃ name value unit x, Divided name value unit cs ∧ name ≠ [] ∧
      Binary64.read? (Text.trim value) = some x ∧
      event = ⟨String.ofList name, x, String.ofList unit⟩ := by
  constructor
  · intro accepted
    by_cases sign : '=' ∈ cs
    · obtain ⟨name, value, unit, divided⟩ := exists_divided sign
      rw [read_of_divided divided] at accepted
      split at accepted
      · cases accepted
      · rename_i named
        split at accepted
        · rename_i x number
          cases accepted
          exact ⟨name, value, unit, x, divided, by simpa using named, number, rfl⟩
        · cases accepted
    · rw [read_of_not_mem sign] at accepted
      cases accepted
  · rintro ⟨name, value, unit, x, divided, named, number, rfl⟩
    rw [read_of_divided divided, if_neg (by simpa using named), number]

/-- A text is accepted exactly if it has an equals sign with a name before it and a number up to the
colon behind it, and the event is what stands in these places. So a name without equals sign, a number
between blanks and any unit make a text that is read as just these. -/
theorem accepted_iff_divided :
    (∀ (s : String) (event : Event Binary64), read s.toList = .ok event ↔
      ∃ name value unit x, Divided name value unit s.toList ∧ name ≠ [] ∧
        Binary64.read? (Text.trim value) = some x ∧
        event = ⟨String.ofList name, x, String.ofList unit⟩) ∧
    ∀ (name number unit front back : String) (x : Binary64), name ≠ "" → '=' ∉ name.toList →
      Binary64.read? number.toList = some x → AllBlank front.toList → AllBlank back.toList →
      read (name ++ "=" ++ (front ++ number ++ back) ++ ":" ++ unit).toList = .ok ⟨name, x, unit⟩ := by
  refine ⟨fun s event => read_eq_ok_iff, ?_⟩
  intro name number unit front back x named first read blankBefore blankBehind
  have noColon : ':' ∉ (front ++ number ++ back).toList := by
    have noBlank {cs : List Char} (blank : AllBlank cs) : ':' ∉ cs := fun mem =>
      absurd (blank ':' mem) (by decide)
    have noNumber : ':' ∉ number.toList := fun mem =>
      (Binary64.isNumberChar_of_read? read ':' mem).ne_colon rfl
    simp [noBlank blankBefore, noNumber, noBlank blankBehind]
  have divided : Divided name.toList (front ++ number ++ back).toList unit.toList
      (name ++ "=" ++ (front ++ number ++ back) ++ ":" ++ unit).toList := by
    have joined := @Divided.withUnit name.toList _ unit.toList first noColon
    simpa using joined
  refine read_eq_ok_iff.mpr ⟨_, _, _, x, divided, by simpa using named, ?_, by simp⟩
  rw [String.toList_append, String.toList_append, Binary64.trim_read? read blankBefore blankBehind,
    read]

/-- A name with a colon, a number with an exponent between a blank and a tab, and a unit with both
signs. -/
theorem accepted_iff_divided_colonInName :
    let event : Event Binary64 := ⟨"db:latency", ⟨0xC097700000000000⟩, "a=b:c"⟩
    "db:latency" ≠ "" ∧ '=' ∉ "db:latency".toList ∧
      Binary64.read? "-1.5e3".toList = some event.value ∧ AllBlank " ".toList ∧
      AllBlank "\t".toList ∧ read "db:latency= -1.5e3\t:a=b:c".toList = .ok event := by
  intro event
  have first : '=' ∉ "db:latency".toList := by decide +kernel
  have number : Binary64.read? "-1.5e3".toList = some event.value := by decide +kernel
  have before : AllBlank " ".toList := by decide +kernel
  have behind : AllBlank "\t".toList := by decide +kernel
  exact ⟨by decide, first, number, before, behind,
    accepted_iff_divided.2 "db:latency" "-1.5e3" "a=b:c" " " "\t" event.value (by decide) first number
      before behind⟩

end EventArgument

end TraceTally
