import TraceTally.Proofs.JsonSkipping

/-!
# What readers make of values

A reader meets a value anywhere in a text, behind blanks. What it makes of the value is settled by the
value alone: the same result or the same cause of an error, wherever the value stands. For every value
and every reader of a single value, of a list and of an optional value there is such an outcome.
-/

namespace TraceTally.Json

variable {α β : Type} {c : Cursor} {b v rest : List Char} {r : Reader α} {o : Except Cause α}

/-- Wherever the value stands, the reader makes `o` of it and leaves what stands behind. -/
def Yields (r : Reader α) (v : List Char) (o : Except Cause α) : Prop :=
  ∀ (c : Cursor) (b rest : List Char), Blanks b → Stops rest → c.rest = b ++ (v ++ rest) →
    Ends rest o (r c)

/-- An answer without its places. -/
def told (answer : Except Error (α × Cursor)) : Except Cause α :=
  (answer.map Prod.fst).mapError Error.cause

/-- What the reader makes of a text that stands alone. -/
def outcome (r : Reader α) (v : List Char) : Except Cause α := told (r ⟨v, {}⟩)

theorem Ends.told_eq {answer : Except Error (α × Cursor)} (ends : Ends rest o answer) :
    told answer = o := by
  cases ends <;> rfl

theorem Ends.of_told {answer : Except Error (α × Cursor)} {cause : Cause}
    (failed : told answer = .error cause) : Ends rest (.error cause : Except Cause α) answer := by
  cases answer with
  | ok x => cases failed
  | error e =>
    cases failed
    exact .error

theorem Yields.outcome_eq (yields : Yields r v o) : outcome r v = o :=
  (yields ⟨v, {}⟩ [] [] .nil trivial (List.append_nil v).symm).told_eq

/-- The reader does with the value everywhere what it does with it alone. -/
def Settles (r : Reader α) (v : List Char) : Prop := Yields r v (outcome r v)

theorem Yields.settles (yields : Yields r v o) : Settles r v := by
  rw [Settles, yields.outcome_eq]
  exact yields

theorem readAll_told {a : List Char} (yields : Yields r v o) (before : Blanks b) (after : Blanks a) :
    (readAll r (b ++ (v ++ a))).mapError Error.cause = o := by
  have stops : Stops a := by
    have ended : Stops (a ++ []) := after.stops trivial
    rwa [List.append_nil] at ended
  have ends := yields ⟨b ++ (v ++ a), {}⟩ b a before stops rfl
  cases o with
  | error cause =>
    obtain ⟨p, failed⟩ := ends.exists_error
    rw [readAll, failed]
    rfl
  | ok x =>
    obtain ⟨c, left, read⟩ := ends.exists_ok
    have done : c.skipBlanks.rest = [] := Cursor.rest_skipBlanks_end after left
    rw [readAll, read]
    simp only [bind, Except.bind, done]
    rfl

theorem readAll_ok_iff {a : List Char} {x : α} (settles : Settles r v) (before : Blanks b)
    (after : Blanks a) : readAll r (b ++ (v ++ a)) = .ok x ↔ outcome r v = .ok x := by
  rw [← readAll_told settles before after]
  cases readAll r (b ++ (v ++ a)) with
  | error e => exact ⟨nofun, nofun⟩
  | ok y => exact ⟨congrArg (Except.mapError Error.cause), fun same => by cases same; rfl⟩

theorem readAll_error {a : List Char} {cause : Cause} (yields : Yields r v (.error cause))
    (before : Blanks b) (after : Blanks a) :
    ∃ e, readAll r (b ++ (v ++ a)) = .error e ∧ e.cause = cause := by
  have answer := readAll_told yields before after
  cases read : readAll r (b ++ (v ++ a)) with
  | error e =>
    rw [read] at answer
    exact ⟨e, rfl, Except.error.inj answer⟩
  | ok y =>
    rw [read] at answer
    cases answer

theorem found_digit {d : Char} (digit : isDigit d = true) (start : c.rest = d :: rest) :
    found c = (readNumber false c).map fun (n, c) => (n.found, c) := by
  unfold found
  rw [start]
  split
  case h_9 same =>
    cases same
    rw [if_pos digit]
  all_goals
    rename_i same
    cases same
  all_goals cases digit

/-- What is found at the value, wherever it stands. -/
def Finds (v : List Char) (o : Except Cause Found) : Prop :=
  ∀ c rest, Stops rest → c.rest = v ++ rest → told (found c) = o

theorem finds_word (d : Char) (w : String) (f : Found)
    (finds : ∀ c t, c.rest = d :: t → found c = word w c f) : Finds (d :: w.toList) (.ok f) := by
  intro c rest _ here
  obtain ⟨c', left, read⟩ := ident_of (Cursor.rest_advance here)
  rw [finds c _ here, word, read]
  rfl

theorem finds_null : Finds "null".toList (.ok .null) :=
  finds_word 'n' "ull" .null fun c t here => by rw [found, here]; rfl

theorem finds_number {n : NumberText} (valid : n.Valid) : Finds n.text (n.value.map Number.found) := by
  intro c rest stops here
  rcases NumberText.text_start valid rest with ⟨negative, minus⟩ | ⟨positive, body, d, t, digit, first⟩
  · have start := here.trans minus
    have ends := NumberText.readNumber_ends valid stops (Cursor.rest_advance start)
    rw [negative] at ends
    rw [found, start]
    exact (ends.map Number.found).told_eq
  · have ends := NumberText.readNumber_ends valid stops (here.trans body)
    rw [positive] at ends
    rw [found_digit digit (here.trans first)]
    exact (ends.map Number.found).told_eq

theorem exists_finds (value : ValueText v) : ∃ o, Finds v o := by
  cases value with
  | null => exact ⟨_, finds_null⟩
  | yes => exact ⟨_, finds_word 't' "rue" (.flag true) fun c t here => by rw [found, here]; rfl⟩
  | no => exact ⟨_, finds_word 'f' "alse" (.flag false) fun c t here => by rw [found, here]; rfl⟩
  | number valid => exact ⟨_, finds_number valid⟩
  | @string units valid =>
    refine ⟨(StringUnit.decode units).map fun s => .text (String.ofList s), fun c rest stops here => ?_⟩
    have ends := StringUnit.keep_quoted valid here
    rw [found, here, quoted_append]
    exact (ends.map fun s => Found.text (String.ofList s)).told_eq
  | list => exact ⟨.ok .list, fun c rest stops here => by rw [found, here]; rfl⟩
  | object => exact ⟨.ok .object, fun c rest stops here => by rw [found, here]; rfl⟩

theorem told_unexpected (expected : String) (c : Cursor) :
    told (unexpected expected c : Except Error (α × Cursor)) =
      told (found c) >>= fun f => .error (.unexpected f expected) := by
  rw [unexpected]
  cases found c <;> rfl

/-- The reader has no use for a value that begins otherwise than `accepts` says. -/
def RefusesUnless (accepts : Char → Prop) (expected : String) (r : Reader α) : Prop :=
  ∀ c d t, c.skipBlanks.rest = d :: t → ¬accepts d → r c = unexpected expected c.skipBlanks

namespace RefusesUnless

variable {accepts : Char → Prop} {expected : String} (refuses : RefusesUnless accepts expected r)

include refuses

theorem yields {d : Char} {t : List Char} {f : Except Cause Found} (value : ValueText (d :: t))
    (other : ¬accepts d) (finds : Finds (d :: t) f) :
    Yields r (d :: t) (f >>= fun f => .error (.unexpected f expected)) := by
  intro c b rest blank stops here
  have start := value.skipBlanks blank here
  have answer := told_unexpected (α := α) expected c.skipBlanks
  rw [finds _ rest stops start] at answer
  rw [refuses c d _ start other]
  cases f with
  | error cause => exact .of_told answer
  | ok f => exact .of_told answer

theorem settles (value : ValueText v)
    (accepted : ∀ d t, accepts d → ValueText (d :: t) → Settles r (d :: t)) : Settles r v := by
  obtain ⟨d, t, rfl, -⟩ := value.begins
  by_cases own : accepts d
  · exact accepted d t own value
  · obtain ⟨f, finds⟩ := exists_finds value
    exact (refuses.yields value own finds).settles

end RefusesUnless

theorem readText_string {units : List StringUnit} (valid : ∀ u ∈ units, u.Valid) :
    Yields readText (quoted units) ((StringUnit.decode units).map String.ofList) := by
  intro c b rest blank stops here
  have start := (ValueText.string valid).skipBlanks blank here
  have ends := StringUnit.keep_quoted valid start
  rw [quoted_append] at start
  simp only [readText, start]
  exact ends.map String.ofList

theorem readText_refuses : RefusesUnless (· = '"') "a string" readText := by
  intro c d t start other
  simp only [readText]
  split
  · rename_i none
    cases start.symm.trans none
  · rename_i same
    cases start.symm.trans same
    exact absurd rfl other
  · rfl

theorem readText_settles (value : ValueText v) : Settles readText v := by
  refine readText_refuses.settles value ?_
  rintro _ t rfl value
  obtain ⟨units, valid, text⟩ := value.string_of_head
  exact text ▸ (readText_string valid).settles

theorem readDouble_number {n : NumberText} (valid : n.Valid) :
    Yields readDouble n.text (n.value.map Number.toBinary64) := by
  intro c b rest blank stops here
  have start := (ValueText.number valid).skipBlanks blank here
  rcases NumberText.text_start valid rest with ⟨negative, minus⟩ | ⟨positive, body, d, t, digit, first⟩
  · rw [minus] at start
    have ends := NumberText.readNumber_ends valid stops (Cursor.rest_advance start)
    rw [negative] at ends
    simp only [readDouble, start]
    exact ends.map Number.toBinary64
  · have ends := NumberText.readNumber_ends valid stops (start.trans body)
    rw [positive] at ends
    have apart : Text.IsDigit d := digit
    have unsigned : d ≠ '-' := apart.ne (by decide)
    have start := start.trans first
    simp only [readDouble]
    split
    · rename_i none
      cases start.symm.trans none
    · rename_i same
      exact absurd (List.cons.inj (start.symm.trans same)).1 unsigned
    · rename_i same
      rw [← (List.cons.inj (start.symm.trans same)).1, if_pos digit]
      exact ends.map Number.toBinary64

theorem readDouble_refuses :
    RefusesUnless (fun d => d = '-' ∨ isDigit d = true) "f64" readDouble := by
  intro c d t start other
  simp only [readDouble]
  split
  · rename_i none
    cases start.symm.trans none
  · rename_i same
    cases start.symm.trans same
    exact absurd (.inl rfl) other
  · rename_i same
    cases start.symm.trans same
    exact if_neg fun digit => other (.inr digit)

theorem readDouble_null : Yields readDouble "null".toList (.error (.unexpected .null "f64")) :=
  readDouble_refuses.yields .null (by decide) finds_null

theorem readDouble_settles (value : ValueText v) : Settles readDouble v := by
  refine readDouble_refuses.settles value fun d t head value => ?_
  obtain ⟨n, valid, text⟩ := value.number_of_head head
  exact text ▸ (readDouble_number valid).settles

theorem readOptional_null (r : Reader α) : Yields (readOptional r) "null".toList (.ok none) := by
  intro c b rest blank stops here
  have start : c.skipBlanks.rest = 'n' :: ("ull".toList ++ rest) := ValueText.null.skipBlanks blank here
  obtain ⟨c', left, read⟩ := ident_of (Cursor.rest_advance start)
  simp only [readOptional, start, read]
  exact .ok left

theorem readOptional_some {d : Char} {t : List Char} (value : ValueText (d :: t)) (other : d ≠ 'n')
    (yields : Yields r (d :: t) o) : Yields (readOptional r) (d :: t) (o.map some) := by
  intro c b rest blank stops here
  have start : c.skipBlanks.rest = d :: (t ++ rest) := value.skipBlanks blank here
  have ends := yields c.skipBlanks [] rest .nil stops start
  simp only [readOptional]
  split
  · rename_i same
    exact absurd (List.cons.inj (start.symm.trans same)).1 other
  · exact ends.map some

theorem readOptional_settles (settles : Settles r v) (value : ValueText v) :
    Settles (readOptional r) v := by
  obtain ⟨d, t, rfl, -⟩ := value.begins
  by_cases null : d = 'n'
  · subst null
    exact value.null_of_head ▸ (readOptional_null r).settles
  · exact (readOptional_some value null settles).settles

end TraceTally.Json
