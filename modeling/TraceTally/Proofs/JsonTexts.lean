import TraceTally.Json.Basic
import TraceTally.Json.Skip
import TraceTally.Proofs.Numerals

/-!
# The grammar of JSON texts

Which texts are JSON values is said here apart from any reader. Strings are sequences of units, each a
character or an escape; numbers have their parts; lists and objects have parts between commas, and
blanks wherever they may stand. What a reader does is then said by what it leaves of a text: that is
what stands behind the value.
-/

namespace TraceTally.Json

def Blanks (cs : List Char) : Prop := ∀ c ∈ cs, Cursor.isBlank c = true

instance (cs : List Char) : Decidable (Blanks cs) :=
  decidable_of_iff (cs.all Cursor.isBlank = true) List.all_eq_true

/-- What may stand behind a value. -/
def Stops : List Char → Prop
  | [] => True
  | c :: _ => Cursor.isBlank c = true ∨ c = ',' ∨ c = ']' ∨ c = '}'

theorem Blanks.nil : Blanks [] := nofun

theorem Blanks.stops {b rest : List Char} (blank : Blanks b) (stops : Stops rest) : Stops (b ++ rest) := by
  cases b with
  | nil => exact stops
  | cons c b => exact .inl (blank c List.mem_cons_self)

namespace Cursor

variable {c : Cursor} {d : Char} {b rest : List Char}

theorem rest_advance (here : c.rest = d :: rest) : c.advance.rest = rest := by
  rw [advance, here]

theorem rest_skipFrom (blank : Blanks b) (p : Position) :
    ∃ p', (skipFrom p (b ++ rest)) = skipFrom p' rest := by
  induction b generalizing p with
  | nil => exact ⟨p, rfl⟩
  | cons e b ih =>
    have first : isBlank e = true := blank e List.mem_cons_self
    obtain ⟨p', later⟩ := ih (fun c hc => blank c (List.mem_cons_of_mem _ hc)) (p.after e 1)
    refine ⟨p', ?_⟩
    rw [List.cons_append, skipFrom, if_pos first, later]

theorem rest_skipBlanks (blank : Blanks b) (other : isBlank d = false)
    (here : c.rest = b ++ d :: rest) : c.skipBlanks.rest = d :: rest := by
  obtain ⟨p, skipped⟩ := rest_skipFrom blank c.position
  rw [skipBlanks, here, skipped, skipFrom, other]
  rfl

theorem rest_skipBlanks_end (blank : Blanks b) (here : c.rest = b) : c.skipBlanks.rest = [] := by
  obtain ⟨p, skipped⟩ := @rest_skipFrom b [] blank c.position
  rw [skipBlanks, here, ← List.append_nil b, skipped, skipFrom]

end Cursor

/-- A character, or an escape by a letter or by a number. -/
inductive StringUnit where
  | plain (c : Char)
  | short (letter c : Char)
  | code (digits : List Char) (n : Nat)

namespace StringUnit

def shortEscapes : List (Char × Char) :=
  [('"', '"'), ('\\', '\\'), ('/', '/'), ('b', '\x08'), ('f', '\x0c'), ('n', '\n'), ('r', '\r'),
    ('t', '\t')]

/-- Four hexadecimal digits and the number they write. -/
def FourDigits (digits : List Char) (n : Nat) : Prop :=
  ∃ w x y z w' x' y' z', digits = [w, x, y, z] ∧ Text.hexValue? w = some w' ∧
    Text.hexValue? x = some x' ∧ Text.hexValue? y = some y' ∧ Text.hexValue? z = some z' ∧
    n = ((w' * 16 + x') * 16 + y') * 16 + z'

def Valid : StringUnit → Prop
  | plain c => c ≠ '"' ∧ c ≠ '\\' ∧ 0x20 ≤ c.toNat
  | short letter c => (letter, c) ∈ shortEscapes
  | code digits n => FourDigits digits n

/-- Characters that need no escape. -/
def isPlain (c : Char) : Bool := c ≠ '"' && c ≠ '\\' && 0x20 ≤ c.toNat

theorem valid_plain {cs : List Char} (all : cs.all isPlain = true) : ∀ u ∈ cs.map plain, u.Valid := by
  refine List.forall_mem_map.mpr fun c mem => ?_
  have parts : c ≠ '"' ∧ c ≠ '\\' ∧ 0x20 ≤ c.toNat := by
    simpa [isPlain, and_assoc] using List.all_eq_true.mp all c mem
  exact parts

def text : StringUnit → List Char
  | plain c => [c]
  | short letter _ => ['\\', letter]
  | code digits _ => '\\' :: 'u' :: digits

/-- What a string says. A surrogate must be part of a pair, the leading one first. -/
def decode : List StringUnit → Except Cause (List Char)
  | [] => .ok []
  | plain c :: us => (decode us).map (c :: ·)
  | short _ c :: us => (decode us).map (c :: ·)
  | code _ n :: us =>
    if isTrailing n then .error .loneSurrogate
    else if isLeading n then
      match us with
      | code _ m :: us =>
        if isTrailing m then
          (decode us).map (Char.ofNat (0x10000 + (n - 0xD800) * 0x400 + (m - 0xDC00)) :: ·)
        else .error .loneSurrogate
      | _ => .error .unfinishedPair
    else (decode us).map (Char.ofNat n :: ·)

end StringUnit

/-- A string with its quotes. -/
def quoted (units : List StringUnit) : List Char :=
  '"' :: (units.flatMap StringUnit.text ++ ['"'])

theorem quoted_append (units : List StringUnit) (rest : List Char) :
    quoted units ++ rest = '"' :: (units.flatMap StringUnit.text ++ '"' :: rest) := by
  simp [quoted]

/-- The parts of a number as they are written. -/
structure NumberText where
  negative : Bool
  whole : List Char
  fraction : Option (List Char)
  /-- The mark, the sign if there is one, and the digits. -/
  exponent : Option (Char × Option Char × List Char)

def Digits (ds : List Char) : Prop := ds ≠ [] ∧ ∀ d ∈ ds, isDigit d = true

namespace NumberText

structure Valid (n : NumberText) : Prop where
  whole : Digits n.whole
  noLeadingZero : ∀ ds, n.whole = '0' :: ds → ds = []
  fraction : ∀ ds ∈ n.fraction, Digits ds
  exponent : ∀ mark sign ds, n.exponent = some (mark, sign, ds) →
    (mark = 'e' ∨ mark = 'E') ∧ (∀ s ∈ sign, s = '+' ∨ s = '-') ∧ Digits ds

def fractionText (n : NumberText) : List Char := n.fraction.elim [] ('.' :: ·)

def exponentText (n : NumberText) : List Char :=
  n.exponent.elim [] fun (mark, sign, ds) => mark :: (sign.toList ++ ds)

/-- The number without its sign. -/
def body (n : NumberText) : List Char := n.whole ++ (n.fractionText ++ n.exponentText)

def text (n : NumberText) : List Char := if n.negative then '-' :: n.body else n.body

end NumberText

/-- A value with the blanks around it. -/
structure Part where
  before : List Char := []
  value : List Char
  after : List Char := []

namespace Part

/-- The same blanks around another value. -/
def withValue (p : Part) (v : List Char) : Part := { p with value := v }

def text (p : Part) : List Char := p.before ++ (p.value ++ p.after)

theorem text_append (p : Part) (rest : List Char) :
    p.text ++ rest = p.before ++ (p.value ++ (p.after ++ rest)) := by
  simp [text]

structure Spaced (p : Part) : Prop where
  before : Blanks p.before
  after : Blanks p.after

theorem Spaced.withValue {p : Part} (spaced : p.Spaced) (v : List Char) : (p.withValue v).Spaced :=
  ⟨spaced.before, spaced.after⟩

end Part

/-- A member of an object, with the blanks around its name and its value. -/
structure Member where
  before : List Char := []
  name : List StringUnit
  between : List Char := []
  part : Part

namespace Member

def withValue (m : Member) (v : List Char) : Member := { m with part := m.part.withValue v }

def text (m : Member) : List Char := m.before ++ (quoted m.name ++ (m.between ++ ':' :: m.part.text))

theorem text_append (m : Member) (rest : List Char) :
    m.text ++ rest = m.before ++ (quoted m.name ++ (m.between ++ ':' :: (m.part.before ++
      (m.part.value ++ (m.part.after ++ rest))))) := by
  simp [text, Part.text]

structure Spaced (m : Member) : Prop where
  before : Blanks m.before
  name : ∀ u ∈ m.name, u.Valid
  between : Blanks m.between
  part : m.part.Spaced

theorem Spaced.withValue {m : Member} (spaced : m.Spaced) (v : List Char) : (m.withValue v).Spaced :=
  ⟨spaced.before, spaced.name, spaced.between, spaced.part.withValue v⟩

end Member

/-- Texts between brackets, with commas between them. Blanks stand there even if no text does. -/
def enclosed (left right : Char) (blanks : List Char) (texts : List (List Char)) : List Char :=
  left :: (blanks ++ (Text.join [','] texts ++ [right]))

def listText (blanks : List Char) (parts : List Part) : List Char :=
  enclosed '[' ']' blanks (parts.map Part.text)

def objectText (blanks : List Char) (members : List Member) : List Char :=
  enclosed '{' '}' blanks (members.map Member.text)

inductive ValueText : List Char → Prop where
  | null : ValueText "null".toList
  | yes : ValueText "true".toList
  | no : ValueText "false".toList
  | number {n : NumberText} (valid : n.Valid) : ValueText n.text
  | string {units : List StringUnit} (valid : ∀ u ∈ units, u.Valid) : ValueText (quoted units)
  | list {blanks : List Char} {parts : List Part} (blank : Blanks blanks)
      (spaced : ∀ p ∈ parts, p.Spaced) (values : ∀ p ∈ parts, ValueText p.value) :
      ValueText (listText blanks parts)
  | object {blanks : List Char} {members : List Member} (blank : Blanks blanks)
      (spaced : ∀ m ∈ members, m.Spaced) (values : ∀ m ∈ members, ValueText m.part.value) :
      ValueText (objectText blanks members)

/-- How a value may begin: not with a blank, and not with what separates or closes. -/
structure Begins (d : Char) : Prop where
  notBlank : Cursor.isBlank d = false
  notComma : d ≠ ','
  notBracket : d ≠ ']'
  notBrace : d ≠ '}'

instance (d : Char) : Decidable (Begins d) :=
  decidable_of_iff (Cursor.isBlank d = false ∧ d ≠ ',' ∧ d ≠ ']' ∧ d ≠ '}')
    ⟨fun ⟨b, c, l, o⟩ => ⟨b, c, l, o⟩, fun h => ⟨h.1, h.2, h.3, h.4⟩⟩

/-- A number begins with its sign or else with a digit. -/
theorem NumberText.text_start {n : NumberText} (valid : n.Valid) (rest : List Char) :
    (n.negative = true ∧ n.text ++ rest = '-' :: (n.body ++ rest)) ∨
      (n.negative = false ∧ n.text ++ rest = n.body ++ rest ∧
        ∃ d t, isDigit d = true ∧ n.text ++ rest = d :: t) := by
  rw [NumberText.text]
  cases n.negative with
  | true => exact .inl ⟨rfl, rfl⟩
  | false =>
    obtain ⟨d, ds, whole⟩ := List.exists_cons_of_ne_nil valid.whole.1
    have digit : isDigit d = true := valid.whole.2 d (by rw [whole]; exact List.mem_cons_self)
    refine .inr ⟨rfl, rfl, d, ds ++ (n.fractionText ++ n.exponentText) ++ rest, digit, ?_⟩
    simp [NumberText.body, whole]

theorem NumberText.text_head {n : NumberText} (valid : n.Valid) :
    ∃ d t, n.text = d :: t ∧ (d = '-' ∨ isDigit d = true) := by
  have start := text_start valid []
  rw [List.append_nil] at start
  rcases start with ⟨-, minus⟩ | ⟨-, -, d, t, digit, first⟩
  · exact ⟨'-', _, minus, .inl rfl⟩
  · exact ⟨d, t, first, .inr digit⟩

theorem Begins.number {d : Char} (head : d = '-' ∨ isDigit d = true) : Begins d := by
  rcases head with rfl | digit
  · decide
  · have digit : Text.IsDigit d := digit
    have space : d ≠ ' ' := digit.ne (by decide)
    have feed : d ≠ '\n' := digit.ne (by decide)
    have tab : d ≠ '\t' := digit.ne (by decide)
    have back : d ≠ '\r' := digit.ne (by decide)
    exact ⟨by simp [Cursor.isBlank, space, feed, tab, back], digit.ne (by decide),
      digit.ne (by decide), digit.ne (by decide)⟩

namespace ValueText

variable {d : Char} {t v : List Char}

theorem begins (value : ValueText v) : ∃ d t, v = d :: t ∧ Begins d := by
  cases value with
  | null => exact ⟨'n', _, rfl, by decide⟩
  | yes => exact ⟨'t', _, rfl, by decide⟩
  | no => exact ⟨'f', _, rfl, by decide⟩
  | number valid =>
    obtain ⟨d, t, first, head⟩ := NumberText.text_head valid
    exact ⟨d, t, first, .number head⟩
  | string valid => exact ⟨'"', _, rfl, by decide⟩
  | list => exact ⟨'[', _, rfl, by decide⟩
  | object => exact ⟨'{', _, rfl, by decide⟩

theorem head_of_number {n : NumberText} (valid : n.Valid) (same : d :: t = n.text) :
    d = '-' ∨ isDigit d = true := by
  obtain ⟨e, u, first, head⟩ := NumberText.text_head valid
  cases same.trans first
  exact head

/-! So the first character tells which kind of value it is. -/

theorem null_of_head (value : ValueText ('n' :: t)) : 'n' :: t = "null".toList := by
  generalize same : 'n' :: t = v at value
  cases value with
  | null => rfl
  | number valid => exact absurd (head_of_number valid same) (by decide)
  | _ => cases same

theorem string_of_head (value : ValueText ('"' :: t)) :
    ∃ units, (∀ u ∈ units, u.Valid) ∧ '"' :: t = quoted units := by
  generalize same : '"' :: t = v at value
  cases value with
  | string valid => exact ⟨_, valid, rfl⟩
  | number valid => exact absurd (head_of_number valid same) (by decide)
  | _ => cases same

theorem number_of_head (value : ValueText (d :: t)) (head : d = '-' ∨ isDigit d = true) :
    ∃ n : NumberText, n.Valid ∧ d :: t = n.text := by
  generalize same : d :: t = v at value
  cases value with
  | number valid => exact ⟨_, valid, rfl⟩
  | _ =>
    cases same
    exact absurd head (by decide)

theorem list_of_head (value : ValueText ('[' :: t)) :
    ∃ blanks parts, Blanks blanks ∧ (∀ p ∈ parts, p.Spaced) ∧ (∀ p ∈ parts, ValueText p.value) ∧
      '[' :: t = listText blanks parts := by
  generalize same : '[' :: t = v at value
  cases value with
  | list blank spaced values => exact ⟨_, _, blank, spaced, values, rfl⟩
  | number valid => exact absurd (head_of_number valid same) (by decide)
  | _ => cases same

theorem object_of_head (value : ValueText ('{' :: t)) :
    ∃ blanks members, Blanks blanks ∧ (∀ m ∈ members, m.Spaced) ∧
      (∀ m ∈ members, ValueText m.part.value) ∧ '{' :: t = objectText blanks members := by
  generalize same : '{' :: t = v at value
  cases value with
  | object blank spaced values => exact ⟨_, _, blank, spaced, values, rfl⟩
  | number valid => exact absurd (head_of_number valid same) (by decide)
  | _ => cases same

end ValueText

/-- What stands behind a text of a list, up to the end of the list. -/
def behind (right : Char) : List (List Char) → List Char
  | [] => [right]
  | text :: texts => ',' :: (text ++ behind right texts)

theorem join_cons (right : Char) (text : List Char) (texts : List (List Char)) :
    Text.join [','] (text :: texts) ++ [right] = text ++ behind right texts := by
  induction texts generalizing text with
  | nil => rfl
  | cons next texts ih =>
    rw [Text.join, List.append_assoc, ih]
    · simp [behind]
    · exact List.cons_ne_nil _ _

theorem enclosed_nil (left right : Char) (blanks rest : List Char) :
    enclosed left right blanks [] ++ rest = left :: (blanks ++ right :: rest) := by
  simp [enclosed, Text.join]

theorem enclosed_cons (left right : Char) (blanks text : List Char) (texts : List (List Char))
    (rest : List Char) :
    enclosed left right blanks (text :: texts) ++ rest =
      left :: (blanks ++ (text ++ (behind right texts ++ rest))) := by
  rw [enclosed, join_cons]
  simp

theorem stops_behind {right : Char} (close : right = ']' ∨ right = '}') (texts : List (List Char))
    (rest : List Char) : Stops (behind right texts ++ rest) := by
  cases texts with
  | nil => exact .inr (.inr close)
  | cons text texts => exact .inr (.inl rfl)

end TraceTally.Json
