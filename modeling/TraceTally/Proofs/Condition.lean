import Mathlib.Data.List.Basic
import TraceTally.Store.ClickHouse.Rows
import TraceTally.Store.ClickHouse.Statement

/-!
# What the condition of a scan says

The text of a scan is read back: into words, these into comparisons of a column with a mark, which
have to hold together. On a row the comparisons are evaluated with the marks bound from left to
right; there is no result if a column is not there, if two things of different kinds are compared,
or if there are more marks than values or fewer. Nothing here looks at how the text was made.
-/

namespace TraceTally.ClickHouse

variable {V : Type}

inductive Word where
  | name (s : String)
  | mark
  | fields
  deriving DecidableEq, Repr

/-- The parts of a text between blanks are names. -/
def Part.words : Part → List Word
  | .text cs => ((Text.splitOn ' ' cs).filter (· ≠ [])).map fun w => .name (String.ofList w)
  | .mark => [.mark]
  | .fields => [.fields]

def words (template : List Char) : List Word := (Template.parse template).flatMap Part.words

inductive Relation where
  | equals
  | exceeds
  deriving DecidableEq, Repr

def Relation.ofName? : String → Option Relation
  | "=" => some .equals
  | ">" => some .exceeds
  | _ => none

/-- A comparison of a column with a mark. -/
structure Comparison where
  column : String
  relation : Relation
  deriving DecidableEq, Repr

def conjunction? : List Word → Option (List Comparison)
  | [.name column, .name relation, .mark] =>
    (Relation.ofName? relation).map fun r => [⟨column, r⟩]
  | .name column :: .name relation :: .mark :: .name "AND" :: rest =>
    (Relation.ofName? relation).bind fun r => (conjunction? rest).map (⟨column, r⟩ :: ·)
  | _ => none

/-- What stands after `WHERE` in a statement that selects rows of the table. -/
def condition? (template : String) : Option (List Comparison) :=
  match words template.toList with
  | .name "SELECT" :: .fields :: .name "FROM" :: .name source :: .name "FINAL" ::
      .name "WHERE" :: rest => if source = table then conjunction? rest else none
  | _ => none

/-- The columns of a row that hold texts or whole numbers. -/
def column? (r : Record V) : String → Option Literal
  | "id" => some (.text (String.ofList (writeId r.id)))
  | "trace_id" => some (.text r.key.traceId)
  | "origin" => some (.text r.key.origin)
  | "event" => some (.text r.key.name)
  | "unit" => some (.text r.key.unit)
  | "created_at_ms" => some (.whole r.created)
  | "expires_at_ms" => some (.whole r.expires)
  | _ => none

def Relation.holds? : Relation → Literal → Literal → Option Bool
  | .equals, .text s, .text t => some (s == t)
  | .equals, .whole m, .whole n => some (m == n)
  | .exceeds, .whole m, .whole n => some (n < m)
  | _, _, _ => none

/-- Whether all comparisons hold of a row, the values being those of the marks, in order. -/
def holdsOf? (r : Record V) : List Comparison → List Literal → Option Bool
  | [], [] => some true
  | c :: others, value :: values => do
    let held ← column? r c.column
    let here ← c.relation.holds? held value
    let rest ← holdsOf? r others values
    return here && rest
  | _, _ => none

def Word.text : Word → List Char
  | .name s => s.toList
  | .mark => ['?']
  | .fields => ['?', 'f', 'i', 'e', 'l', 'd', 's']

/-- A name has no blanks and no marks in it. -/
def Word.isPlain : Word → Bool
  | .name s => s ≠ "" && s.toList.all fun c => c ≠ ' ' && c ≠ '?'
  | .mark | .fields => true

def sentence (ws : List Word) : List Char := [' '].intercalate (ws.map Word.text)

theorem Word.plain_name {s : String} (plain : (Word.name s).isPlain = true) :
    s.toList ≠ [] ∧ (∀ c ∈ s.toList, c ≠ ' ') ∧ ∀ c ∈ s.toList, c ≠ '?' := by
  simp only [isPlain, Bool.and_eq_true, decide_eq_true_eq, List.all_eq_true] at plain
  refine ⟨?_, fun c hc => (plain.2 c hc).1, fun c hc => (plain.2 c hc).2⟩
  simpa using plain.1

theorem parse_plain_append {cs : List Char} (plain : ∀ c ∈ cs, c ≠ '?') (rest : List Char) :
    Template.parse (cs ++ rest) = cs.foldr Template.push (Template.parse rest) := by
  induction cs with
  | nil => rfl
  | cons c cs ih =>
    have ordinary := plain c List.mem_cons_self
    have others := ih fun d hd => plain d (List.mem_cons_of_mem _ hd)
    rw [List.cons_append, List.foldr_cons, ← others]
    -- Only a mark is read in another way than by its own character.
    rw [Template.parse] <;> simp_all

theorem parse_blank (rest : List Char) :
    Template.parse (' ' :: rest) = Template.push ' ' (Template.parse rest) :=
  @parse_plain_append [' '] (by simp) rest

theorem foldr_push_text (cs ds : List Char) (parts : List Part) :
    cs.foldr Template.push (.text ds :: parts) = .text (cs ++ ds) :: parts := by
  induction cs with
  | nil => rfl
  | cons c cs ih => rw [List.foldr_cons, ih]; rfl

theorem foldr_push_nil {cs : List Char} (nonempty : cs ≠ []) :
    cs.foldr Template.push [] = [.text cs] := by
  obtain ⟨front, c, rfl⟩ := (List.eq_nil_or_concat' cs).resolve_left nonempty
  rw [List.foldr_append]
  exact foldr_push_text front [c] []

theorem words_push_blank (parts : List Part) :
    (Template.push ' ' parts).flatMap Part.words = parts.flatMap Part.words := by
  rcases parts with _ | ⟨⟨cs⟩ | _ | _, parts⟩ <;>
    simp [Template.push, Part.words, Text.splitOn]

theorem words_name {cs : List Char} (nonempty : cs ≠ []) (plain : ∀ c ∈ cs, c ≠ ' ')
    (parts : List Part) :
    (cs.foldr Template.push (Template.push ' ' parts)).flatMap Part.words =
      .name (String.ofList cs) :: parts.flatMap Part.words := by
  -- The blank goes to the text that follows, or makes one, and the name is put before it.
  obtain ⟨ds, others, pushed⟩ :
      ∃ ds others, Template.push ' ' parts = .text (' ' :: ds) :: others := by
    rcases parts with _ | ⟨⟨ds⟩ | _ | _, parts⟩ <;> exact ⟨_, _, rfl⟩
  rw [← words_push_blank parts, pushed, foldr_push_text]
  simp [Part.words, Text.splitOn_append plain, Text.splitOn, nonempty]

theorem words_append {w : Word} (plain : w.isPlain = true) (rest : List Char) :
    words (w.text ++ ' ' :: rest) = w :: words rest := by
  cases w with
  | name s =>
    obtain ⟨nonempty, noBlanks, noMarks⟩ := Word.plain_name plain
    rw [words, Word.text, parse_plain_append noMarks, parse_blank, words_name nonempty noBlanks,
      String.ofList_toList]
    rfl
  | mark =>
    have parsed : Template.parse ('?' :: ' ' :: rest) = .mark :: Template.parse (' ' :: rest) := by
      simp [Template.parse]
    rw [words, Word.text, List.singleton_append, parsed, parse_blank, List.flatMap_cons,
      words_push_blank]
    rfl
  | fields =>
    have parsed : Template.parse (Word.fields.text ++ ' ' :: rest) =
        .fields :: Template.parse (' ' :: rest) := by
      simp [Template.parse, Word.text]
    rw [words, parsed, parse_blank, List.flatMap_cons, words_push_blank]
    rfl

theorem words_single {w : Word} (plain : w.isPlain = true) : words w.text = [w] := by
  cases w with
  | name s =>
    obtain ⟨nonempty, noBlanks, noMarks⟩ := Word.plain_name plain
    have pushed := parse_plain_append noMarks []
    rw [List.append_nil, Template.parse, foldr_push_nil nonempty] at pushed
    rw [words, Word.text, pushed]
    simp [Part.words, Text.splitOn_plain noBlanks, nonempty]
  | mark => rfl
  | fields => rfl

theorem sentence_cons (w : Word) {ws : List Word} (nonempty : ws ≠ []) :
    sentence (w :: ws) = w.text ++ ' ' :: sentence ws := by
  obtain ⟨w', ws, rfl⟩ := List.exists_cons_of_ne_nil nonempty
  simp [sentence, List.intercalate_cons_cons]

theorem sentence_append (ws : List Word) {ws' : List Word} (nonempty : ws' ≠ []) :
    sentence (ws ++ ws') = (ws.flatMap fun w => w.text ++ [' ']) ++ sentence ws' := by
  induction ws with
  | nil => rfl
  | cons w ws ih =>
    rw [List.cons_append, sentence_cons w (List.append_ne_nil_of_right_ne_nil _ nonempty), ih]
    simp

theorem words_sentence {ws : List Word} (plain : ws.all Word.isPlain = true) :
    words (sentence ws) = ws := by
  induction ws with
  | nil => rfl
  | cons w ws ih =>
    rw [List.all_cons, Bool.and_eq_true] at plain
    cases ws with
    | nil => simpa [sentence] using words_single plain.1
    | cons w' ws =>
      rw [sentence_cons w (List.cons_ne_nil _ _), words_append plain.1, ih plain.2]

def clauseWords (c : Column) : List Word := [.name c.name, .name "=", .mark, .name "AND"]

def liveWords : List Word := [.name "expires_at_ms", .name ">", .mark]

/-- The words of a scan; they tell the columns of the predicate and nothing of its values. -/
def scanWords (columns : List Column) : List Word :=
  [.name "SELECT", .fields, .name "FROM", .name table, .name "FINAL", .name "WHERE"] ++
    (columns.flatMap clauseWords ++ liveWords)

theorem clauses_append_ne_nil (columns : List Column) :
    columns.flatMap clauseWords ++ liveWords ≠ [] := by
  simp [liveWords]

theorem isPlain_scanWords (columns : List Column) :
    (scanWords columns).all Word.isPlain = true := by
  have clauses : (columns.flatMap clauseWords).all Word.isPlain = true := by
    rw [List.all_flatMap, List.all_eq_true]
    rintro (_ | _ | _) - <;> rfl
  rw [scanWords, List.all_append, List.all_append, clauses]
  rfl

theorem intercalate_append (separator : List Char) (part : List Char) (parts : List (List Char)) :
    separator.intercalate (part :: parts) ++ separator =
      (part :: parts).flatMap (· ++ separator) := by
  induction parts generalizing part with
  | nil => simp
  | cons next parts ih =>
    rw [List.intercalate_cons_cons, List.append_assoc, ih]
    simp

/-- A column's clause and what joins it to the next one. -/
def clauseText (c : Column) : List Char := c.name.toList ++ " = ? AND ".toList

/-- Each clause is followed by `AND`, since the last comparison is the one with the expiry. -/
theorem toList_liveCondition (p : Predicate) :
    (liveCondition p).toList = "WHERE ".toList ++
      ((p.clauses.map Prod.fst).flatMap clauseText ++ "expires_at_ms > ?".toList) := by
  obtain ⟨clauses⟩ := p
  cases clauses with
  | nil => rfl
  | cons clause clauses =>
    have last : " AND expires_at_ms > ?".toList =
        " AND ".toList ++ "expires_at_ms > ?".toList := rfl
    simp only [liveCondition, Predicate.isEmpty, Predicate.condition, List.isEmpty_cons,
      Bool.false_eq_true, if_false, String.toList_append, String.toList_intercalate, List.map_map,
      List.map_cons, last]
    rw [List.append_assoc, ← List.append_assoc _ " AND ".toList, intercalate_append]
    simp [List.flatMap_cons, List.flatMap_map, clauseText]

theorem sentence_clauses (columns : List Column) :
    sentence (columns.flatMap clauseWords ++ liveWords) =
      columns.flatMap clauseText ++ "expires_at_ms > ?".toList := by
  induction columns with
  | nil => rfl
  | cons c columns ih =>
    rw [List.flatMap_cons, List.flatMap_cons, List.append_assoc, List.append_assoc,
      sentence_append _ (clauses_append_ne_nil _), ih]
    simp [clauseWords, clauseText, Word.text]

theorem toList_scanRows (p : Predicate) :
    (scanRows p).toList = sentence (scanWords (p.clauses.map Prod.fst)) := by
  have selection : ("SELECT ?fields FROM " ++ table ++ " FINAL ").toList ++ "WHERE ".toList =
      [.name "SELECT", .fields, .name "FROM", .name table, .name "FINAL", .name "WHERE"].flatMap
        fun w => Word.text w ++ [' '] := by
    decide
  rw [scanWords, sentence_append _ (clauses_append_ne_nil _), sentence_clauses, ← selection,
    List.append_assoc, ← toList_liveCondition, ← String.toList_append]
  rfl

theorem words_scanRows (p : Predicate) :
    words (scanRows p).toList = scanWords (p.clauses.map Prod.fst) := by
  rw [toList_scanRows, words_sentence (isPlain_scanWords _)]

/-- How many values a statement takes. -/
def marks (template : String) : Nat := (Template.parse template.toList).count .mark

theorem count_mark_words (template : List Char) :
    (words template).count .mark = (Template.parse template).count .mark := by
  have each : ∀ part : Part, part.words.count .mark = if part = .mark then 1 else 0 := by
    intro part
    cases part with
    | text cs =>
      rw [if_neg nofun, List.count_eq_zero]
      simp [Part.words]
    | mark => rfl
    | fields => rfl
  rw [words]
  induction Template.parse template with
  | nil => rfl
  | cons part parts ih =>
    rw [List.flatMap_cons, List.count_append, ih, each, List.count_cons, Nat.add_comm]
    simp

theorem marks_scanRows (now : Int) (p : Predicate) :
    marks (scanRows p) = (scanValues now p).length := by
  have clauses : ∀ columns : List Column,
      (columns.flatMap clauseWords).count .mark = columns.length := by
    intro columns
    induction columns with
    | nil => rfl
    | cons c columns ih =>
      rw [List.flatMap_cons, List.count_append, ih, List.length_cons, Nat.add_comm]
      rfl
  have selection : [.name "SELECT", .fields, .name "FROM", .name table, .name "FINAL",
      Word.name "WHERE"].count .mark = 0 := by decide
  have live : liveWords.count .mark = 1 := by decide
  rw [marks, ← count_mark_words, words_scanRows, scanWords, List.count_append, List.count_append,
    clauses, selection, live]
  simp [scanValues, Predicate.binds]

def Comparison.ofColumn (c : Column) : Comparison := ⟨c.name, .equals⟩

def Comparison.unexpired : Comparison := ⟨"expires_at_ms", .exceeds⟩

/-- The condition of a scan whose predicate has clauses for these columns. -/
def scanCondition (columns : List Column) : List Comparison :=
  columns.map .ofColumn ++ [.unexpired]

theorem conjunction?_clauses (columns : List Column) :
    conjunction? (columns.flatMap clauseWords ++ liveWords) = some (scanCondition columns) := by
  induction columns with
  | nil => rfl
  | cons c columns ih =>
    have first : conjunction? (clauseWords c ++ (columns.flatMap clauseWords ++ liveWords)) =
        (conjunction? (columns.flatMap clauseWords ++ liveWords)).map (.ofColumn c :: ·) := rfl
    rw [List.flatMap_cons, List.append_assoc, first, ih]
    rfl

theorem condition?_scanRows (p : Predicate) :
    condition? (scanRows p) = some (scanCondition (p.clauses.map Prod.fst)) := by
  have selection : ∀ rest, scanWords (p.clauses.map Prod.fst) = .name "SELECT" :: .fields ::
      .name "FROM" :: .name table :: .name "FINAL" :: .name "WHERE" :: rest →
      condition? (scanRows p) = conjunction? rest := by
    intro rest read
    rw [condition?, words_scanRows, read]
    simp
  rw [selection _ rfl]
  exact conjunction?_clauses _

theorem holdsOf?_ofColumn (r : Record V) (c : Column) (value : String) (others : List Comparison)
    (values : List Literal) :
    holdsOf? r (.ofColumn c :: others) (.text value :: values) =
      (holdsOf? r others values).map fun rest => r.row.get c == value && rest := by
  have held : column? r c.name = some (.text (r.row.get c)) := by cases c <;> rfl
  simp only [holdsOf?, Comparison.ofColumn, held, Relation.holds?]
  cases holdsOf? r others values <;> rfl

/-- The server selects by the condition what the predicate and the expiry select. -/
theorem holdsOf?_scanCondition (now : Int) (p : Predicate) (r : Record V) :
    holdsOf? r (scanCondition (p.clauses.map Prod.fst)) (scanValues now p) =
      some (p.holds r.row && r.isLive now) := by
  obtain ⟨clauses⟩ := p
  induction clauses with
  | nil =>
    simp [scanCondition, scanValues, Predicate.binds, Predicate.holds, holdsOf?,
      Comparison.unexpired, column?, Relation.holds?, Record.isLive]
  | cons clause clauses ih =>
    obtain ⟨c, value⟩ := clause
    have first := holdsOf?_ofColumn r c value (scanCondition (clauses.map Prod.fst))
      (scanValues now ⟨clauses⟩)
    rw [ih, Option.map_some, ← Bool.and_assoc] at first
    exact first

end TraceTally.ClickHouse
