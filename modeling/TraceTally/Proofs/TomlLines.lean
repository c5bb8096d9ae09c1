import TraceTally.Proofs.Numerals
import TraceTally.Proofs.TomlStrings
import TraceTally.Toml.Statement
import TraceTally.Toml.Write

/-!
# The lines of a written document

The document that a layout gives is read as statements: an assignment for each entry, and a header for
each section.
-/

namespace TraceTally.Toml

open Text (digits maxInt64)

variable {rest : List Char}

theorem isWordChar_digit {c : Char} (digit : Text.IsDigit c) : isWordChar c = true := by
  have ascii : c.isDigit = true := by
    simp only [Char.isDigit, Bool.and_eq_true, decide_eq_true_eq]
    exact digit.range
  simp [isWordChar, Char.isAlphanum, ascii]

theorem ungroup?_digits (n : Nat) : ungroup? isDigit (digits n) = some (digits n) := by
  have plain : ∀ c ∈ digits n, c ≠ '_' := fun c hc =>
    (Text.isDigit_of_mem_digits n c hc).ne (by decide)
  have all : (digits n).all isDigit = true := List.all_eq_true.mpr (Text.isDigit_of_mem_digits n)
  simp [ungroup?, Text.splitOn_plain plain, all, Text.digits_ne_nil]

theorem whole?_digits (n : Nat) : whole? (digits n) = some (digits n) := by
  rw [whole?, ungroup?_digits, Option.filter_some, if_pos]
  simpa using Text.digits_head n

theorem number?_digits {n : Nat} (fits : n ≤ maxInt64) : number? (digits n) = some (.whole n) := by
  obtain ⟨c, cs, shape⟩ := List.exists_cons_of_ne_nil (Text.digits_ne_nil n)
  have digit : ∀ d ∈ c :: cs, Text.IsDigit d := shape ▸ Text.isDigit_of_mem_digits n
  have minus : c ≠ '-' := (digit c List.mem_cons_self).ne (by decide)
  have plus : c ≠ '+' := (digit c List.mem_cons_self).ne (by decide)
  have unsigned : Binary64.splitSign (digits n) = (false, digits n) := by
    rw [shape, Binary64.splitSign] <;> simp_all
  have base (d : Char) (other : Text.digitValue? d = none) (more : List Char) :
      digits n ≠ '0' :: d :: more := by
    intro eq
    exact (Text.isDigit_of_mem_digits n d (by simp [eq])).ne other rfl
  rw [number?]
  · rw [unsigned]
    simp [whole?_digits, signed, fits]
  · exact base 'x' (by decide)
  · exact base 'o' (by decide)
  · exact base 'b' (by decide)

theorem ofWord?_digits {n : Nat} (fits : n ≤ maxInt64) : ofWord? (digits n) = some (.whole n) := by
  have letters (c : Char) (other : Text.digitValue? c = none) (word : String)
      (mem : c ∈ word.toList) : String.ofList (digits n) ≠ word := by
    rintro rfl
    rw [String.toList_ofList] at mem
    exact (Text.isDigit_of_mem_digits n c mem).ne other rfl
  rw [ofWord?]
  split
  · exact absurd ‹_› (letters 'e' (by decide) "true" (by decide))
  · exact absurd ‹_› (letters 'e' (by decide) "false" (by decide))
  · rw [number?_digits fits]
    rfl

/-- At the end of a line nothing can be part of a number or of a date. -/
theorem scalar?_digits {n : Nat} (fits : n ≤ maxInt64) :
    scalar? (digits n ++ '\n' :: rest) = some (.whole n, '\n' :: rest) := by
  have first : (digits n ++ '\n' :: rest).takeWhile isWordChar = digits n := by
    rw [List.takeWhile_append_of_pos fun c hc => isWordChar_digit (Text.isDigit_of_mem_digits n c hc),
      List.takeWhile_cons_of_neg (by decide), List.append_nil]
  have parts : word (digits n ++ '\n' :: rest) = (digits n, '\n' :: rest) := by
    rw [word, first, List.drop_left]
    split
    · simp_all
    · rfl
  rw [scalar?, parts]
  simp [ofWord?_digits fits]

def Leaf.value : Leaf → Value
  | .text s => .text s
  | .count n => .whole n

theorem exists_quote_writeText (s : String) :
    ∃ q cs, writeText s = q :: cs ∧ (q = '"' ∨ q = '\'') := by
  rw [writeText]
  split
  · exact ⟨_, _, rfl, .inl rfl⟩
  · exact ⟨_, _, rfl, .inr rfl⟩
  · exact ⟨_, _, rfl, .inl rfl⟩
  · exact ⟨_, _, rfl, .inr rfl⟩

theorem value?_leaf {build : Builder} {leaf : Leaf} {cs : List Char}
    (written : leaf.write? = some cs) :
    value? build (cs ++ '\n' :: rest) = some (leaf.value, '\n' :: rest) := by
  rw [value?]
  cases leaf with
  | text s =>
    cases written
    have read := @text?_writeText s ('\n' :: rest) (by simp) (by simp)
    obtain ⟨q, cs, shape, rfl | rfl⟩ := exists_quote_writeText s
    all_goals
      rw [shape, List.cons_append] at read ⊢
      rw [valueSteps, read]
      rfl
  | count n =>
    rw [Leaf.write?] at written
    split at written
    · rename_i fits
      cases written
      obtain ⟨c, cs, shape⟩ := List.exists_cons_of_ne_nil (Text.digits_ne_nil n)
      have digit : Text.IsDigit c := Text.isDigit_of_mem_digits n c (by simp [shape])
      have read := @scalar?_digits rest n fits
      rw [shape, List.cons_append] at read ⊢
      rw [valueSteps, read]
      · rfl
      · exact fun _ eq => digit.ne (by decide) (List.cons.inj eq).1
      · exact fun _ eq => digit.ne (by decide) (List.cons.inj eq).1
      · exact fun _ eq => digit.ne (by decide) (List.cons.inj eq).1
      · exact fun _ eq => digit.ne (by decide) (List.cons.inj eq).1
    · cases written

theorem skipBlanks_leaf {leaf : Leaf} {cs : List Char} (written : leaf.write? = some cs)
    (rest : List Char) : skipBlanks (cs ++ rest) = cs ++ rest := by
  have solid {c : Char} {tail : List Char} (shape : cs = c :: tail) (blank : isBlank c = false) :
      skipBlanks (cs ++ rest) = cs ++ rest := by
    rw [shape, List.cons_append, skipBlanks, List.dropWhile_cons_of_neg (by simp [blank])]
  cases leaf with
  | text s =>
    cases written
    obtain ⟨q, tail, shape, rfl | rfl⟩ := exists_quote_writeText s
    · exact solid shape rfl
    · exact solid shape rfl
  | count n =>
    rw [Leaf.write?] at written
    split at written
    · cases written
      obtain ⟨c, tail, shape⟩ := List.exists_cons_of_ne_nil (Text.digits_ne_nil n)
      have digit : Text.IsDigit c := Text.isDigit_of_mem_digits n c (by simp [shape])
      refine solid shape ?_
      simp [isBlank, digit.ne (d := ' ') (by decide), digit.ne (d := '\t') (by decide)]
    · cases written

/-- A name that needs no quotes. -/
structure IsBare (name : String) : Prop where
  nonempty : name.toList ≠ []
  bare : ∀ c ∈ name.toList, isBareChar c = true

theorem bare_ne {c d : Char} (bare : isBareChar c = true) (other : isBareChar d = false) :
    c ≠ d := by
  rintro rfl
  rw [bare] at other
  cases other

theorem solid_bare {c : Char} (bare : isBareChar c = true) : isBlank c = false := by
  simp [isBlank, bare_ne (d := ' ') bare rfl, bare_ne (d := '\t') bare rfl]

section

variable {name : String} (plain : IsBare name)

include plain

theorem IsBare.exists_cons : ∃ c cs, name.toList = c :: cs ∧ isBareChar c = true := by
  obtain ⟨c, cs, shape⟩ := List.exists_cons_of_ne_nil plain.nonempty
  exact ⟨c, cs, shape, plain.bare c (by simp [shape])⟩

theorem skipBlanks_bare (rest : List Char) :
    skipBlanks (name.toList ++ rest) = name.toList ++ rest := by
  obtain ⟨c, cs, shape, bare⟩ := plain.exists_cons
  rw [shape, List.cons_append, skipBlanks, List.dropWhile_cons_of_neg (by simp [solid_bare bare])]

theorem key?_bare {next : Char} (other : isBareChar next = false) :
    key? (name.toList ++ next :: rest) = some (name, next :: rest) := by
  obtain ⟨c, cs, shape, bare⟩ := plain.exists_cons
  have unquoted : line? (name.toList ++ next :: rest) = none := by
    rw [shape, List.cons_append, line?]
    · exact fun _ eq => bare_ne bare rfl (List.cons.inj eq).1
    · exact fun _ eq => bare_ne bare rfl (List.cons.inj eq).1
  have span : (name.toList ++ next :: rest).takeWhile isBareChar = name.toList := by
    rw [List.takeWhile_append_of_pos plain.bare, List.takeWhile_cons_of_neg (by simp [other]),
      List.append_nil]
  simp [key?, unquoted, span, plain.nonempty]

/-- A single key, up to what follows blanks. -/
theorem path?_bare {next : Char} (other : isBareChar next = false)
    (single : (skipBlanks (next :: rest)).head? ≠ some '.') :
    path? (name.toList ++ next :: rest) = some ([name], skipBlanks (next :: rest)) := by
  rw [path?, pathSteps, skipBlanks_bare plain, key?_bare plain other]
  simp only [Option.bind_eq_bind, Option.bind_some]
  split
  · simp_all
  · rfl

end

theorem skipSpace_solid {c : Char} {cs : List Char} (blank : isBlank c = false) (feed : c ≠ '\n')
    (comment : c ≠ '#') : skipSpace (c :: cs) = some (c :: cs) := by
  have start : skipBlanks (c :: cs) = c :: cs := List.dropWhile_cons_of_neg (by simp [blank])
  have text : skipComment (c :: cs) = some (c :: cs) := by
    rw [skipComment]
    simpa using comment
  rw [skipSpace, skipLines, start, text]
  simp only [Option.bind_eq_bind, Option.bind_some]
  split
  · simp_all
  · rfl

theorem skipSpace_feed (cs : List Char) : skipSpace ('\n' :: cs) = skipSpace cs := by
  rw [skipSpace, skipLines]
  rfl

theorem mapM_cons_eq_some {α β : Type} {f : α → Option β} {a : α} {as : List α} {bs : List β} :
    (a :: as).mapM f = some bs ↔ ∃ b others, f a = some b ∧ as.mapM f = some others ∧
      b :: others = bs := by
  simp only [List.mapM_cons, Option.bind_eq_bind, Option.bind_eq_some_iff, Option.pure_def,
    Option.some.injEq]
  constructor
  · rintro ⟨b, first, others, later, same⟩
    exact ⟨b, others, first, later, same⟩
  · rintro ⟨b, others, first, later, same⟩
    exact ⟨b, first, others, later, same⟩

theorem exists_of_mem_mapM {α β : Type} {f : α → Option β} {as : List α} {bs : List β}
    (made : as.mapM f = some bs) {b : β} (mem : b ∈ bs) : ∃ a ∈ as, f a = some b := by
  induction as generalizing bs with
  | nil =>
    cases made
    cases mem
  | cons a as ih =>
    obtain ⟨b', others, first, later, rfl⟩ := mapM_cons_eq_some.mp made
    rcases List.mem_cons.mp mem with rfl | mem
    · exact ⟨a, List.mem_cons_self, first⟩
    · obtain ⟨a', mem, made⟩ := ih later mem
      exact ⟨a', List.mem_cons_of_mem a mem, made⟩

/-- The text is read as these statements, as soon as there is a step for each and one for the end. -/
structure Lines (build : Builder) (text : List Char) (ss : List Statement) : Prop where
  short : ss.length ≤ text.length
  read (steps : Nat) (enough : ss.length < steps) : statementSteps build steps text = some ss

namespace Lines

variable {build : Builder} {text : List Char} {ss : List Statement}

theorem nil : Lines build [] [] where
  short := Nat.le_refl 0
  read steps enough := by
    obtain ⟨steps, rfl⟩ := Nat.exists_eq_succ_of_ne_zero (Nat.ne_of_gt enough)
    rfl

/-- One more line: a statement up to its end, perhaps with blank lines before it. -/
theorem cons (lines : Lines build text ss) {whole line : List Char} {s : Statement}
    (start : skipSpace whole = some (line ++ '\n' :: text)) (nonempty : line ≠ [])
    (one : statement? build (line ++ '\n' :: text) = some (s, '\n' :: text))
    (longer : text.length < whole.length) : Lines build whole (s :: ss) where
  short := Nat.lt_of_le_of_lt lines.short longer
  read steps enough := by
    obtain ⟨steps, rfl⟩ := Nat.exists_eq_succ_of_ne_zero (Nat.ne_of_gt (Nat.zero_lt_of_lt enough))
    have later := lines.read steps (Nat.lt_of_succ_lt_succ enough)
    have finish : endLine? ('\n' :: text) = some text := rfl
    obtain ⟨c, cs, shape⟩ := List.exists_cons_of_ne_nil nonempty
    rw [statementSteps, start]
    rw [shape, List.cons_append] at one ⊢
    simp [one, finish, later]

end Lines

/-- The assignment that an entry is. -/
def assignment : String × Leaf → Statement
  | (name, leaf) => .assign [name] leaf.value

theorem statement?_assign {build : Builder} {name : String} (plain : IsBare name) {leaf : Leaf}
    {cs : List Char} (written : leaf.write? = some cs) (text : List Char) :
    statement? build (name.toList ++ ' ' :: '=' :: ' ' :: (cs ++ '\n' :: text)) =
      some (.assign [name] leaf.value, '\n' :: text) := by
  obtain ⟨c, tail, shape, bare⟩ := plain.exists_cons
  have path := @path?_bare ('=' :: ' ' :: (cs ++ '\n' :: text)) name plain ' ' rfl (by
    simp [skipBlanks, isBlank])
  have equals : skipBlanks (' ' :: '=' :: ' ' :: (cs ++ '\n' :: text)) =
      '=' :: ' ' :: (cs ++ '\n' :: text) := rfl
  have value : skipBlanks (' ' :: (cs ++ '\n' :: text)) = cs ++ '\n' :: text :=
    skipBlanks_leaf written _
  have noHeader : statement? build (name.toList ++ ' ' :: '=' :: ' ' :: (cs ++ '\n' :: text)) =
      assign? build (name.toList ++ ' ' :: '=' :: ' ' :: (cs ++ '\n' :: text)) := by
    rw [shape, List.cons_append, statement?]
    · exact fun _ eq => bare_ne bare rfl (List.cons.inj eq).1
    · exact fun _ eq => bare_ne bare rfl (List.cons.inj eq).1
  rw [noHeader, assign?, path, equals]
  simp [value, value?_leaf written]

theorem statement?_header {build : Builder} {name : String} (plain : IsBare name)
    (text : List Char) :
    statement? build ('[' :: (name.toList ++ ']' :: '\n' :: text)) =
      some (.header [name], '\n' :: text) := by
  obtain ⟨c, tail, shape, bare⟩ := plain.exists_cons
  have path := @path?_bare ('\n' :: text) name plain ']' rfl (by simp [skipBlanks, isBlank])
  have bracket : skipBlanks (']' :: '\n' :: text) = ']' :: '\n' :: text := rfl
  rw [statement?, path, bracket]
  · rfl
  · rw [shape, List.cons_append]
    exact fun _ eq => bare_ne bare rfl (List.cons.inj eq).1

namespace Lines

variable {build : Builder} {text : List Char} {ss : List Statement}

theorem entry (lines : Lines build text ss) {e : String × Leaf} {line : List Char}
    (plain : IsBare e.1) (written : writeEntry? e = some line) :
    Lines build (line ++ text) (assignment e :: ss) := by
  obtain ⟨name, leaf⟩ := e
  rw [ writeEntry?, Option.map_eq_some_iff] at written
  obtain ⟨cs, value, rfl⟩ := written
  obtain ⟨c, tail, shape, bare⟩ := plain.exists_cons
  have whole : name.toList ++ " = ".toList ++ cs ++ ['\n'] ++ text =
      name.toList ++ ' ' :: '=' :: ' ' :: cs ++ '\n' :: text := by simp
  have start : skipSpace (name.toList ++ " = ".toList ++ cs ++ ['\n'] ++ text) =
      some (name.toList ++ ' ' :: '=' :: ' ' :: cs ++ '\n' :: text) := by
    rw [whole, shape]
    exact skipSpace_solid (solid_bare bare) (bare_ne bare rfl) (bare_ne bare rfl)
  refine lines.cons start (by simp) ?_ ?_
  · rw [List.append_assoc]
    exact statement?_assign plain value text
  · simp only [List.length_append, List.length_singleton]
    omega

theorem header (lines : Lines build text ss) {name : String} (plain : IsBare name) :
    Lines build ('\n' :: '[' :: name.toList ++ [']', '\n'] ++ text) (.header [name] :: ss) := by
  have whole : '\n' :: '[' :: name.toList ++ [']', '\n'] ++ text =
      '\n' :: '[' :: (name.toList ++ [']']) ++ '\n' :: text := by simp
  have start : skipSpace ('\n' :: '[' :: name.toList ++ [']', '\n'] ++ text) =
      some ('[' :: (name.toList ++ [']']) ++ '\n' :: text) := by
    rw [whole, List.cons_append, skipSpace_feed]
    exact skipSpace_solid rfl (by decide) (by decide)
  refine lines.cons start (by simp) ?_ ?_
  · rw [List.cons_append, List.append_assoc]
    exact statement?_header plain text
  · simp only [List.length_append, List.length_cons]
    omega

/-- Pieces one behind the other, if each puts its statements before those that follow. -/
theorem flatten {α : Type} {write? : α → Option (List Char)} {statements : α → List Statement}
    {as : List α} {pieces : List (List Char)} (written : as.mapM write? = some pieces)
    (each : ∀ a ∈ as, ∀ {piece text ss}, write? a = some piece → Lines build text ss →
      Lines build (piece ++ text) (statements a ++ ss))
    (lines : Lines build text ss) :
    Lines build (pieces.flatten ++ text) (as.flatMap statements ++ ss) := by
  induction as generalizing pieces with
  | nil =>
    cases written
    exact lines
  | cons a as ih =>
    obtain ⟨piece, others, first, later, rfl⟩ := mapM_cons_eq_some.mp written
    rw [List.flatten_cons, List.flatMap_cons, List.append_assoc, List.append_assoc]
    exact each a List.mem_cons_self first
      (ih later fun b hb => each b (List.mem_cons_of_mem a hb))

theorem entries (lines : Lines build text ss) {es : List (String × Leaf)} {body : List Char}
    (plain : ∀ e ∈ es, IsBare e.1) (written : writeEntries? es = some body) :
    Lines build (body ++ text) (es.map assignment ++ ss) := by
  rw [writeEntries?, Option.map_eq_some_iff] at written
  obtain ⟨pieces, written, rfl⟩ := written
  rw [List.map_eq_flatMap]
  exact flatten written (fun e he _ _ _ first later => later.entry (plain e he) first) lines

end Lines

/-- The header of a section and the assignments below it. -/
def sectionStatements : String × List (String × Leaf) → List Statement
  | (name, es) => .header [name] :: es.map assignment

namespace Layout

def statements (l : Layout) : List Statement :=
  l.top.map assignment ++ l.sections.flatMap sectionStatements

/-- Names that need no quotes. -/
structure IsBare (l : Layout) : Prop where
  top : ∀ e ∈ l.top, Toml.IsBare e.1
  sections : ∀ e ∈ l.sections, Toml.IsBare e.1 ∧ ∀ entry ∈ e.2, Toml.IsBare entry.1

/-- The text of a layout: its entries and then its sections. -/
theorem write?_eq_some {l : Layout} {cs : List Char} :
    l.write? = some cs ↔ ∃ top pieces, writeEntries? l.top = some top ∧
      l.sections.mapM writeSection? = some pieces ∧ top ++ pieces.flatten = cs := by
  simp only [Layout.write?, Option.bind_eq_bind, Option.bind_eq_some_iff, Option.some.injEq]
  constructor
  · rintro ⟨top, first, pieces, later, same⟩
    exact ⟨top, pieces, first, later, same⟩
  · rintro ⟨top, pieces, first, later, same⟩
    exact ⟨top, first, pieces, later, same⟩

theorem IsBare.lines {l : Layout} (plain : l.IsBare) (build : Builder) {cs : List Char}
    (written : l.write? = some cs) : Lines build cs l.statements := by
  obtain ⟨top, pieces, first, later, rfl⟩ := write?_eq_some.mp written
  refine Lines.entries ?_ plain.top first
  have each (e : String × List (String × Leaf)) (he : e ∈ l.sections) {piece text : List Char}
      {ss : List Statement} (written : writeSection? e = some piece)
      (lines : Lines build text ss) : Lines build (piece ++ text) (sectionStatements e ++ ss) := by
    obtain ⟨name, es⟩ := e
    obtain ⟨bare, bares⟩ := plain.sections _ he
    rw [writeSection?, Option.map_eq_some_iff] at written
    obtain ⟨body, written, rfl⟩ := written
    rw [List.append_assoc]
    exact (lines.entries bares written).header bare
  have whole := Lines.flatten later each .nil
  rwa [List.append_nil, List.append_nil] at whole

end Layout

/-- A text that is read as it stands, without a mark at its start or a carriage return. -/
structure Clean (cs : List Char) : Prop where
  printed : Printed cs
  unmarked : cs.head? ≠ some '\uFEFF'

namespace Clean

variable {cs ds : List Char}

theorem append (front : Clean cs) (back : Clean ds) : Clean (cs ++ ds) where
  printed := front.printed.append back.printed
  unmarked := by
    cases cs with
    | nil => exact back.unmarked
    | cons c cs => exact front.unmarked

theorem flatten {pieces : List (List Char)} (each : ∀ piece ∈ pieces, Clean piece) :
    Clean pieces.flatten := by
  induction pieces with
  | nil => exact ⟨fun _ mem => absurd mem List.not_mem_nil, by simp⟩
  | cons piece pieces ih =>
    exact (each piece List.mem_cons_self).append
      (ih fun other mem => each other (List.mem_cons_of_mem piece mem))

theorem feed : Clean ['\n'] := ⟨by decide, by decide⟩

theorem foldBreaks (clean : Clean cs) : foldBreaks (dropMark cs) = cs := by
  have noMark : dropMark cs = cs := by
    have unmarked := clean.unmarked
    rw [dropMark.eq_def]
    split <;> simp_all
  have plain (cs : List Char) (printed : Printed cs) : Toml.foldBreaks cs = cs := by
    induction cs with
    | nil => rfl
    | cons c cs ih =>
      have solid : c ≠ '\r' := by
        rintro rfl
        exact absurd (printed '\r' List.mem_cons_self) (by decide)
      have rest := ih fun d hd => printed d (List.mem_cons_of_mem c hd)
      rw [Toml.foldBreaks, rest]
      exact fun _ same => absurd same solid
  rw [noMark, plain cs clean.printed]

end Clean

theorem plain_word {c : Char} (word : isWordChar c = true) : isPlain c = true := by
  have apart : ∀ n < 256, isPlain (Char.ofNat n) = false → isWordChar (Char.ofNat n) = false := by
    decide +kernel
  by_contra special
  have none := apart c.toNat (lt_of_not_plain special) (by simpa using special)
  rw [Char.ofNat_toNat, word] at none
  cases none

theorem clean_word {cs : List Char} (word : ∀ c ∈ cs, isWordChar c = true) : Clean cs where
  printed c hc := .inl (plain_word (word c hc))
  unmarked := by
    cases cs with
    | nil => simp
    | cons c cs =>
      intro mark
      have first := word c List.mem_cons_self
      rw [Option.some.inj mark] at first
      cases first

theorem clean_bare {name : String} (plain : IsBare name) : Clean name.toList := by
  refine clean_word fun c hc => ?_
  have bare := plain.bare c hc
  simp only [isBareChar, Bool.or_eq_true, decide_eq_true_eq] at bare
  rcases bare with (alphanumeric | line) | dash
  · simp [isWordChar, alphanumeric]
  · simp [isWordChar, line]
  · simp [isWordChar, dash]

theorem clean_leaf {leaf : Leaf} {cs : List Char} (written : leaf.write? = some cs) : Clean cs := by
  cases leaf with
  | text s =>
    cases written
    refine ⟨printed_writeText s, ?_⟩
    obtain ⟨q, cs, shape, rfl | rfl⟩ := exists_quote_writeText s <;> simp [shape]
  | count n =>
    rw [Leaf.write?] at written
    split at written
    · cases written
      exact clean_word fun c hc => isWordChar_digit (Text.isDigit_of_mem_digits n c hc)
    · cases written

theorem clean_entry {e : String × Leaf} (plain : IsBare e.1) {line : List Char}
    (written : writeEntry? e = some line) : Clean line := by
  obtain ⟨name, leaf⟩ := e
  rw [ writeEntry?, Option.map_eq_some_iff] at written
  obtain ⟨cs, value, rfl⟩ := written
  have equals : Clean " = ".toList := ⟨by decide, by decide⟩
  exact (((clean_bare plain).append equals).append (clean_leaf value)).append .feed

theorem clean_entries {es : List (String × Leaf)} (plain : ∀ e ∈ es, IsBare e.1)
    {body : List Char} (written : writeEntries? es = some body) : Clean body := by
  rw [writeEntries?, Option.map_eq_some_iff] at written
  obtain ⟨pieces, written, rfl⟩ := written
  refine Clean.flatten fun piece mem => ?_
  obtain ⟨e, he, first⟩ := exists_of_mem_mapM written mem
  exact clean_entry (plain e he) first

theorem clean_section {e : String × List (String × Leaf)} (plain : IsBare e.1)
    (plains : ∀ entry ∈ e.2, IsBare entry.1) {piece : List Char}
    (written : writeSection? e = some piece) : Clean piece := by
  obtain ⟨name, es⟩ := e
  rw [writeSection?, Option.map_eq_some_iff] at written
  obtain ⟨body, written, rfl⟩ := written
  have front : Clean ['\n', '['] := ⟨by decide, by decide⟩
  have back : Clean [']', '\n'] := ⟨by decide, by decide⟩
  exact ((front.append (clean_bare plain)).append back).append (clean_entries plains written)

theorem Layout.IsBare.statements?_eq {l : Layout} (plain : l.IsBare) (build : Builder)
    {cs : List Char} (written : l.write? = some cs) :
    statements? build cs = some l.statements := by
  have clean : Clean cs := by
    obtain ⟨top, pieces, first, later, rfl⟩ := Layout.write?_eq_some.mp written
    refine (clean_entries plain.top first).append (Clean.flatten fun piece mem => ?_)
    obtain ⟨e, he, one⟩ := exists_of_mem_mapM later mem
    exact clean_section (plain.sections e he).1 (plain.sections e he).2 one
  have lines := plain.lines build written
  rw [statements?, clean.foldBreaks]
  exact lines.read _ (Nat.lt_succ_of_le lines.short)

end TraceTally.Toml
