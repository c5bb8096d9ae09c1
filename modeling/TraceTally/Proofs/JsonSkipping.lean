import TraceTally.Proofs.JsonAtoms

/-!
# Values passed over

Whatever value stands at the cursor, at any depth, passing over it succeeds and leaves what stands
behind it. The steps that a text gets are enough: a list or an object takes two per part, and each part
has a character of its own and a separator behind it.
-/

namespace TraceTally.Json

variable {c : Cursor} {b v rest : List Char}

theorem ValueText.skipBlanks (value : ValueText v) (blank : Blanks b) (here : c.rest = b ++ (v ++ rest)) :
    c.skipBlanks.rest = v ++ rest := by
  obtain ⟨d, t, rfl, begins⟩ := value.begins
  exact Cursor.rest_skipBlanks blank begins.notBlank here

theorem ValueText.length_pos (value : ValueText v) : 0 < v.length := by
  obtain ⟨d, t, rfl, -⟩ := value.begins
  exact Nat.succ_pos _

/-- From a value on, `skip` goes behind it. -/
def Passes (skip : Cursor → Except Error Cursor) (v : List Char) : Prop :=
  ∀ (c : Cursor) (b rest : List Char), Blanks b → Stops rest → c.rest = b ++ (v ++ rest) →
    ∃ c', c'.rest = rest ∧ skip c = .ok c'

theorem skipAtom_digit {d : Char} (digit : isDigit d = true) : skipAtom d c = skipNumber c := by
  unfold skipAtom
  split
  case h_6 => rw [if_pos digit]
  all_goals cases digit

theorem skipSteps_atom {d : Char} (steps : Nat) (noList : d ≠ '[') (noObject : d ≠ '{')
    (start : c.skipBlanks.rest = d :: rest) : skipSteps (steps + 1) c = skipAtom d c.skipBlanks := by
  simp only [skipSteps]
  split
  · rename_i here
    rw [start] at here
    cases here
  · rename_i here
    exact absurd (List.cons.inj (start.symm.trans here)).1 noList
  · rename_i here
    exact absurd (List.cons.inj (start.symm.trans here)).1 noObject
  · rename_i here
    rw [(List.cons.inj (start.symm.trans here)).1]

theorem skipSteps_number {n : NumberText} (valid : n.Valid) (steps : Nat) :
    Passes (skipSteps (steps + 1)) n.text := by
  intro c b rest blank stops here
  have start := (ValueText.number valid).skipBlanks blank here
  rcases NumberText.text_start valid rest with ⟨-, minus⟩ | ⟨-, body, d, t, digit, first⟩
  · rw [minus] at start
    rw [skipSteps_atom steps (by decide) (by decide) start]
    exact NumberText.skipNumber_of valid stops (Cursor.rest_advance start)
  · have apart : Text.IsDigit d := digit
    rw [skipSteps_atom steps (apart.ne (by decide)) (apart.ne (by decide)) (start.trans first),
      skipAtom_digit digit]
    exact NumberText.skipNumber_of valid stops (start.trans body)

theorem skipSteps_string {units : List StringUnit} (valid : ∀ u ∈ units, u.Valid) (steps : Nat) :
    Passes (skipSteps (steps + 1)) (quoted units) := by
  intro c b rest blank stops here
  have start := (ValueText.string valid).skipBlanks blank here
  obtain ⟨s, c', left, read⟩ := StringUnit.skip_quoted valid start
  rw [skipSteps_atom steps (by decide) (by decide) start]
  refine ⟨c', left, ?_⟩
  simp only [skipAtom, read]
  rfl

theorem skipName_of {units : List StringUnit} {between : List Char} (blank : Blanks b)
    (valid : ∀ u ∈ units, u.Valid) (gap : Blanks between)
    (here : c.rest = b ++ (quoted units ++ (between ++ ':' :: rest))) :
    ∃ c', c'.rest = rest ∧ skipName c = .ok c' := by
  have start := (ValueText.string valid).skipBlanks blank here
  obtain ⟨s, c', left, read⟩ := StringUnit.skip_quoted valid start
  have colon : c'.skipBlanks.rest = ':' :: rest := Cursor.rest_skipBlanks gap (by decide) left
  refine ⟨c'.skipBlanks.advance, Cursor.rest_advance colon, ?_⟩
  rw [quoted_append] at start
  simp only [skipName, start, read, bind, Except.bind, colon]

/-- The first element is behind its blanks, the others follow with their separators. -/
theorem skipElements_of {p : Part} {ps : List Part} (spaced : ∀ q ∈ p :: ps, q.Spaced)
    (pass : ∀ q ∈ p :: ps, ∀ steps, 2 * q.value.length ≤ steps → Passes (skipSteps steps) q.value)
    (steps : Nat) (enough : 2 * (p.value.length + (behind ']' (ps.map Part.text)).length) ≤ steps)
    (blank : Blanks b)
    (here : c.rest = b ++ (p.value ++ (p.after ++ (behind ']' (ps.map Part.text) ++ rest)))) :
    ∃ c', c'.rest = rest ∧ skipElements steps c = .ok c' := by
  induction ps generalizing p steps b c with
  | nil =>
    have one : (behind ']' []).length = 1 := rfl
    obtain ⟨more, rfl⟩ : ∃ more, steps = more + 1 := ⟨steps - 1, by grind⟩
    have after := (spaced p List.mem_cons_self).after
    obtain ⟨c₁, left, passed⟩ := pass p List.mem_cons_self more (by grind) c b _ blank
      (after.stops (stops_behind (.inl rfl) _ rest)) here
    have close : c₁.skipBlanks.rest = ']' :: rest := Cursor.rest_skipBlanks after (by decide) left
    refine ⟨c₁.skipBlanks.advance, Cursor.rest_advance close, ?_⟩
    simp only [skipElements, passed, bind, Except.bind, close]
  | cons q ps ih =>
    have longer : (behind ']' ((q :: ps).map Part.text)).length =
        1 + (q.text.length + (behind ']' (ps.map Part.text)).length) := by
      simp [behind, Nat.add_comm]
    have within : q.value.length ≤ q.text.length := by
      simp [Part.text]
      omega
    obtain ⟨more, rfl⟩ : ∃ more, steps = more + 1 := ⟨steps - 1, by omega⟩
    have after := (spaced p List.mem_cons_self).after
    obtain ⟨c₁, left, passed⟩ := pass p List.mem_cons_self more (by omega) c b _ blank
      (after.stops (stops_behind (.inl rfl) _ rest)) here
    have comma : c₁.skipBlanks.rest = ',' :: (q.text ++ (behind ']' (ps.map Part.text) ++ rest)) := by
      rw [List.map_cons, behind, List.cons_append, List.append_assoc] at left
      exact Cursor.rest_skipBlanks after (by decide) left
    have next := Cursor.rest_advance comma
    rw [Part.text, List.append_assoc, List.append_assoc] at next
    obtain ⟨c', left', read⟩ := ih (fun r mem => spaced r (List.mem_cons_of_mem _ mem))
      (fun r mem => pass r (List.mem_cons_of_mem _ mem)) more (by omega)
      (spaced q (List.mem_cons_of_mem _ List.mem_cons_self)).before next
    refine ⟨c', left', ?_⟩
    simp only [skipElements, passed, bind, Except.bind, comma, read]

theorem skipMembers_of {m : Member} {ms : List Member} (spaced : ∀ n ∈ m :: ms, n.Spaced)
    (pass : ∀ n ∈ m :: ms, ∀ steps, 2 * n.part.value.length ≤ steps →
      Passes (skipSteps steps) n.part.value)
    (steps : Nat)
    (enough : 2 * (m.part.value.length + (behind '}' (ms.map Member.text)).length) ≤ steps)
    (blank : Blanks b)
    (here : c.rest = b ++ (quoted m.name ++ (m.between ++ ':' :: (m.part.before ++ (m.part.value ++
      (m.part.after ++ (behind '}' (ms.map Member.text) ++ rest))))))) :
    ∃ c', c'.rest = rest ∧ skipMembers steps c = .ok c' := by
  induction ms generalizing m steps b c with
  | nil =>
    have one : (behind '}' []).length = 1 := rfl
    obtain ⟨more, rfl⟩ : ∃ more, steps = more + 1 := ⟨steps - 1, by grind⟩
    have here' := spaced m List.mem_cons_self
    obtain ⟨c₀, left₀, named⟩ := skipName_of blank here'.name here'.between here
    obtain ⟨c₁, left, passed⟩ := pass m List.mem_cons_self more (by grind) c₀ _ _ here'.part.before
      (here'.part.after.stops (stops_behind (.inr rfl) _ rest)) left₀
    have close : c₁.skipBlanks.rest = '}' :: rest :=
      Cursor.rest_skipBlanks here'.part.after (by decide) left
    refine ⟨c₁.skipBlanks.advance, Cursor.rest_advance close, ?_⟩
    simp only [skipMembers, named, passed, bind, Except.bind, close]
  | cons n ms ih =>
    have longer : (behind '}' ((n :: ms).map Member.text)).length =
        1 + (n.text.length + (behind '}' (ms.map Member.text)).length) := by
      simp [behind, Nat.add_comm]
    have within : n.part.value.length ≤ n.text.length := by
      simp [Member.text, Part.text]
      omega
    obtain ⟨more, rfl⟩ : ∃ more, steps = more + 1 := ⟨steps - 1, by omega⟩
    have here' := spaced m List.mem_cons_self
    obtain ⟨c₀, left₀, named⟩ := skipName_of blank here'.name here'.between here
    obtain ⟨c₁, left, passed⟩ := pass m List.mem_cons_self more (by omega) c₀ _ _ here'.part.before
      (here'.part.after.stops (stops_behind (.inr rfl) _ rest)) left₀
    have comma : c₁.skipBlanks.rest = ',' :: (n.text ++ (behind '}' (ms.map Member.text) ++ rest)) := by
      rw [List.map_cons, behind, List.cons_append, List.append_assoc] at left
      exact Cursor.rest_skipBlanks here'.part.after (by decide) left
    have next := Cursor.rest_advance comma
    rw [Member.text_append] at next
    obtain ⟨c', left', read⟩ := ih (fun r mem => spaced r (List.mem_cons_of_mem _ mem))
      (fun r mem => pass r (List.mem_cons_of_mem _ mem)) more (by omega)
      (spaced n (List.mem_cons_of_mem _ List.mem_cons_self)).before next
    refine ⟨c', left', ?_⟩
    simp only [skipMembers, named, passed, bind, Except.bind, comma, read]

theorem Blanks.append {b' : List Char} (first : Blanks b) (second : Blanks b') : Blanks (b ++ b') :=
  List.forall_mem_append.mpr ⟨first, second⟩

theorem skipSteps_list {blanks : List Char} {parts : List Part} (blank : Blanks blanks)
    (spaced : ∀ p ∈ parts, p.Spaced) (values : ∀ p ∈ parts, ValueText p.value)
    (pass : ∀ p ∈ parts, ∀ steps, 2 * p.value.length ≤ steps → Passes (skipSteps steps) p.value)
    (steps : Nat) (enough : 2 * (listText blanks parts).length ≤ steps + 1) :
    Passes (skipSteps (steps + 1)) (listText blanks parts) := by
  intro c b rest before stops here
  cases parts with
  | nil =>
    rw [listText, List.map_nil, enclosed_nil] at here
    have start := Cursor.rest_skipBlanks before (by decide) here
    have close := Cursor.rest_skipBlanks blank (by decide) (Cursor.rest_advance start)
    refine ⟨c.skipBlanks.advance.skipBlanks.advance, Cursor.rest_advance close, ?_⟩
    simp only [skipSteps, start, close]
  | cons p ps =>
    have size := congrArg List.length (enclosed_cons '[' ']' blanks p.text (ps.map Part.text) [])
    rw [listText, List.map_cons] at enough here
    rw [enclosed_cons, Part.text_append] at here
    have start := Cursor.rest_skipBlanks before (by decide) here
    have inside := Cursor.rest_advance start
    rw [← List.append_assoc] at inside
    have first := (values p List.mem_cons_self).skipBlanks
      (blank.append (spaced p List.mem_cons_self).before) inside
    obtain ⟨c', left, read⟩ := skipElements_of spaced pass steps (by
      simp [Part.text] at size enough
      omega) Blanks.nil first
    obtain ⟨d, t, value, begins⟩ := (values p List.mem_cons_self).begins
    refine ⟨c', left, ?_⟩
    rw [value] at first
    simp only [skipSteps, start]
    split
    · rename_i none
      cases first.symm.trans none
    · rename_i close
      exact absurd (List.cons.inj (first.symm.trans close)).1 begins.notBracket
    · exact read

theorem skipSteps_object {blanks : List Char} {members : List Member} (blank : Blanks blanks)
    (spaced : ∀ m ∈ members, m.Spaced)
    (pass : ∀ m ∈ members, ∀ steps, 2 * m.part.value.length ≤ steps →
      Passes (skipSteps steps) m.part.value)
    (steps : Nat) (enough : 2 * (objectText blanks members).length ≤ steps + 1) :
    Passes (skipSteps (steps + 1)) (objectText blanks members) := by
  intro c b rest before stops here
  cases members with
  | nil =>
    rw [objectText, List.map_nil, enclosed_nil] at here
    have start := Cursor.rest_skipBlanks before (by decide) here
    have close := Cursor.rest_skipBlanks blank (by decide) (Cursor.rest_advance start)
    refine ⟨c.skipBlanks.advance.skipBlanks.advance, Cursor.rest_advance close, ?_⟩
    simp only [skipSteps, start, close]
  | cons m ms =>
    have size := congrArg List.length (enclosed_cons '{' '}' blanks m.text (ms.map Member.text) [])
    rw [objectText, List.map_cons] at enough here
    rw [enclosed_cons, Member.text_append] at here
    have start := Cursor.rest_skipBlanks before (by decide) here
    have inside := Cursor.rest_advance start
    rw [← List.append_assoc] at inside
    have here' := spaced m List.mem_cons_self
    have first := (ValueText.string here'.name).skipBlanks (blank.append here'.before) inside
    obtain ⟨c', left, read⟩ := skipMembers_of spaced pass steps (by
      simp [Member.text, Part.text] at size enough
      omega) Blanks.nil first
    refine ⟨c', left, ?_⟩
    rw [quoted_append] at first
    simp only [skipSteps, start, first, read]
    rfl

theorem skipSteps_value (value : ValueText v) :
    ∀ steps, 2 * v.length ≤ steps → Passes (skipSteps steps) v := by
  have word {d : Char} {w : List Char} (noList : d ≠ '[') (noObject : d ≠ '{')
      (blank : Cursor.isBlank d = false)
      (atom : ∀ c, skipAtom d c = ident w c.advance) (steps : Nat) :
      Passes (skipSteps (steps + 1)) (d :: w) := by
    intro c b rest before stops here
    have start : c.skipBlanks.rest = d :: (w ++ rest) := Cursor.rest_skipBlanks before blank here
    rw [skipSteps_atom steps noList noObject start, atom]
    exact ident_of (Cursor.rest_advance start)
  have positive {v : List Char} {steps : Nat} (value : ValueText v) (enough : 2 * v.length ≤ steps) :
      ∃ more, steps = more + 1 := ⟨steps - 1, by have := value.length_pos; omega⟩
  intro steps enough
  obtain ⟨more, rfl⟩ := positive value enough
  induction value generalizing more with
  | null => exact word (by decide) (by decide) (by decide) (fun c => rfl) more
  | yes => exact word (by decide) (by decide) (by decide) (fun c => rfl) more
  | no => exact word (by decide) (by decide) (by decide) (fun c => rfl) more
  | number valid => exact skipSteps_number valid more
  | string valid => exact skipSteps_string valid more
  | list blank spaced values ih =>
    refine skipSteps_list blank spaced values (fun p mem steps within => ?_) more enough
    obtain ⟨fewer, rfl⟩ := positive (values p mem) within
    exact ih p mem fewer within
  | object blank spaced values ih =>
    refine skipSteps_object blank spaced (fun m mem steps within => ?_) more enough
    obtain ⟨fewer, rfl⟩ := positive (values m mem) within
    exact ih m mem fewer within

theorem skipValue_of (value : ValueText v) (blank : Blanks b) (stops : Stops rest)
    (here : c.rest = b ++ (v ++ rest)) : ∃ c', c'.rest = rest ∧ skipValue c = .ok c' := by
  refine skipSteps_value value _ ?_ c b rest blank stops here
  rw [here]
  simp
  omega

end TraceTally.Json
