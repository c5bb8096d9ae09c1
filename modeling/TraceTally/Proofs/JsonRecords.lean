import TraceTally.Proofs.JsonReaders

/-!
# Lists and records read from their texts

A list is read element by element and a record member by member, so what becomes of them is put
together from what becomes of their parts. A record can also stand as a list of its fields. So every
value has an outcome for every reader of a list or a record.
-/

namespace TraceTally.Json

variable {α : Type} {c : Cursor} {b v rest : List Char} {first : Bool} {texts : List (List Char)}

/-- What stands before a reader inside of brackets, where no text or at least one has been read. -/
def ahead (right : Char) (first : Bool) (texts : List (List Char)) : List Char :=
  if first then Text.join [','] texts ++ [right] else behind right texts

theorem ahead_nil (right : Char) (first : Bool) : ahead right first [] = [right] := by
  cases first <;> rfl

/-- Every text has a separator or an end behind it. -/
theorem length_lt_behind (right : Char) (texts : List (List Char)) :
    texts.length < (behind right texts).length := by
  induction texts with
  | nil => exact Nat.one_pos
  | cons text texts ih =>
    simp only [behind, List.length_cons, List.length_append]
    omega

theorem length_le_ahead (right : Char) (first : Bool) (texts : List (List Char)) :
    texts.length ≤ (ahead right first texts).length := by
  cases first with
  | false => exact Nat.le_of_lt (length_lt_behind right texts)
  | true =>
    cases texts with
    | nil => exact Nat.zero_le _
    | cons text texts =>
      have behind := length_lt_behind right texts
      rw [ahead, if_pos rfl, join_cons, List.length_append, List.length_cons]
      omega

theorem enclosed_append (left right : Char) (blanks : List Char) (texts : List (List Char))
    (rest : List Char) :
    enclosed left right blanks texts ++ rest = left :: (blanks ++ (ahead right true texts ++ rest)) := by
  simp [enclosed, ahead]

theorem ahead_first (right : Char) (text : List Char) (texts : List (List Char)) (rest : List Char) :
    ahead right true (text :: texts) ++ rest = text ++ (behind right texts ++ rest) := by
  rw [ahead, if_pos rfl, join_cons, List.append_assoc]

theorem ahead_later (right : Char) (text : List Char) (texts : List (List Char)) (rest : List Char) :
    ahead right false (text :: texts) ++ rest = ',' :: (text ++ (behind right texts ++ rest)) := by
  simp [ahead, behind]

theorem element?_nil (blank : Blanks b) (here : c.rest = b ++ (ahead ']' first [] ++ rest)) :
    ∃ c', c'.rest = ']' :: rest ∧ element? first c = .ok (none, c') := by
  rw [ahead_nil] at here
  have close : c.skipBlanks.rest = ']' :: rest := Cursor.rest_skipBlanks blank (by decide) here
  exact ⟨c.skipBlanks, close, by simp only [element?, close]⟩

theorem element?_cons {p : Part} (spaced : p.Spaced) (value : ValueText p.value) (blank : Blanks b)
    (here : c.rest = b ++ (ahead ']' first (p.text :: texts) ++ rest)) :
    ∃ c' c'', c'.rest = p.value ++ (p.after ++ (behind ']' texts ++ rest)) ∧
      element? first c = .ok (some c', c'') := by
  obtain ⟨d, t, begin', begins⟩ := value.begins
  cases first with
  | true =>
    rw [ahead_first, Part.text_append, ← List.append_assoc] at here
    have start := value.skipBlanks (blank.append spaced.before) here
    refine ⟨c.skipBlanks, c.skipBlanks, start, ?_⟩
    rw [begin'] at start
    simp only [element?]
    split
    · rename_i none
      cases start.symm.trans none
    · rename_i close
      exact absurd (List.cons.inj (start.symm.trans close)).1 begins.notBracket
    · rfl
  | false =>
    rw [ahead_later] at here
    have comma := Cursor.rest_skipBlanks blank (by decide) here
    have next := Cursor.rest_advance comma
    rw [Part.text_append] at next
    have start := value.skipBlanks spaced.before next
    refine ⟨c.skipBlanks.advance.skipBlanks, c.skipBlanks.advance.skipBlanks, start, ?_⟩
    rw [begin'] at start
    rw [element?]
    dsimp only
    split
    · rename_i none
      cases comma.symm.trans none
    · rename_i close
      cases comma.symm.trans close
    · rename_i same
      cases comma.symm.trans same
      rw [if_neg Bool.false_ne_true, if_pos rfl]
      split
      · rename_i none
        cases start.symm.trans none
      · rename_i close
        exact absurd (List.cons.inj (start.symm.trans close)).1 begins.notBracket
      · rfl

theorem closeList_end (blank : Blanks b) (here : c.rest = b ++ (']' :: rest)) :
    ∃ c', c'.rest = rest ∧ closeList c = .ok c' := by
  have close : c.skipBlanks.rest = ']' :: rest := Cursor.rest_skipBlanks blank (by decide) here
  exact ⟨c.skipBlanks.advance, Cursor.rest_advance close, by simp only [closeList, close]⟩

section

variable {item : Reader α} {parts : List Part} (spaced : ∀ p ∈ parts, p.Spaced)
  (values : ∀ p ∈ parts, ValueText p.value) (settles : ∀ p ∈ parts, Settles item p.value)

include spaced values settles

theorem elements_ends (steps : Nat) (enough : parts.length < steps) (first : Bool) (blank : Blanks b)
    (here : c.rest = b ++ (ahead ']' first (parts.map Part.text) ++ rest)) :
    Ends (']' :: rest) (parts.mapM fun p => outcome item p.value) (elements item steps first c) := by
  induction parts generalizing c b steps first with
  | nil =>
    obtain ⟨more, rfl⟩ : ∃ more, steps = more + 1 := ⟨steps - 1, by grind⟩
    obtain ⟨c', close, none⟩ := element?_nil blank here
    rw [elements, none]
    exact .ok close
  | cons p parts ih =>
    obtain ⟨more, rfl⟩ : ∃ more, steps = more + 1 := ⟨steps - 1, by grind⟩
    obtain ⟨front, others⟩ := List.forall_mem_cons.mp spaced
    obtain ⟨c₁, c₂, start, next⟩ :=
      element?_cons front (values p List.mem_cons_self) blank here
    have read := settles p List.mem_cons_self c₁ [] _ .nil
      (front.after.stops (stops_behind (.inl rfl) _ rest)) start
    rw [elements, next, List.mapM_cons]
    refine read.bind fun a c' _ left => ?_
    have later := ih others (fun q mem => values q (List.mem_cons_of_mem _ mem))
      (fun q mem => settles q (List.mem_cons_of_mem _ mem)) more (Nat.lt_of_succ_lt_succ enough) false
      front.after left
    exact later.bind fun as c'' _ left => .ok left

theorem readList_list {blanks : List Char} (blank : Blanks blanks) :
    Yields (readList item) (listText blanks parts) (parts.mapM fun p => outcome item p.value) := by
  intro c b rest before stops here
  have start := (ValueText.list blank spaced values).skipBlanks before here
  rw [listText, enclosed_append] at start
  have inside := Cursor.rest_advance start
  have enough : parts.length < c.skipBlanks.advance.rest.length + 1 := by
    have least := length_le_ahead ']' true (parts.map Part.text)
    rw [inside]
    simp only [List.length_map, List.length_append] at least ⊢
    omega
  have ends := elements_ends spaced values settles _ enough true blank inside
  simp only [readList, start]
  refine ends.passing fun as c' left => ?_
  obtain ⟨c'', behind, closed⟩ := closeList_end .nil left
  rw [closed]
  exact .ok behind

end

theorem readList_refuses {item : Reader α} :
    RefusesUnless (· = '[') "a sequence" (readList item) := by
  intro c d t start other
  simp only [readList]
  split
  · rename_i none
    cases start.symm.trans none
  · rename_i same
    cases start.symm.trans same
    exact absurd rfl other
  · rfl

theorem readList_settles {item : Reader α} (settles : ∀ w, ValueText w → Settles item w)
    (value : ValueText v) : Settles (readList item) v := by
  refine readList_refuses.settles value ?_
  rintro _ t rfl value
  obtain ⟨blanks, parts, blank, spaced, values, text⟩ := value.list_of_head
  exact text ▸ (readList_list spaced values (fun p mem => settles _ (values p mem)) blank).settles

namespace Schema

variable {s : Schema α}

/-- An element where the list should end. -/
theorem closeList_more {p : Part} (spaced : p.Spaced) (value : ValueText p.value) (blank : Blanks b)
    (here : c.rest = b ++ (ahead ']' first (p.text :: texts) ++ rest)) :
    ∃ place, closeList c = .error ⟨.trailingCharacters, place⟩ := by
  obtain ⟨d, t, begin', begins⟩ := value.begins
  cases first with
  | true =>
    rw [ahead_first, Part.text_append, ← List.append_assoc] at here
    have start := value.skipBlanks (blank.append spaced.before) here
    rw [begin'] at start
    unfold closeList
    dsimp only
    split
    · rename_i none
      cases start.symm.trans none
    · rename_i close
      exact absurd (List.cons.inj (start.symm.trans close)).1 begins.notBracket
    · rename_i comma
      exact absurd (List.cons.inj (start.symm.trans comma)).1 begins.notComma
    · exact ⟨_, rfl⟩
  | false =>
    rw [ahead_later] at here
    have comma := Cursor.rest_skipBlanks blank (by decide) here
    have next := Cursor.rest_advance comma
    rw [Part.text_append] at next
    have start := value.skipBlanks spaced.before next
    rw [begin'] at start
    simp only [closeList, comma]
    split
    · rename_i close
      exact absurd (List.cons.inj (start.symm.trans close)).1 begins.notBracket
    · exact ⟨_, rfl⟩

/-- Behind the last field the list must end. -/
theorem closeList_settles {parts : List Part} (spaced : ∀ p ∈ parts, p.Spaced)
    (values : ∀ p ∈ parts, ValueText p.value) (first : Bool) (a : α) :
    ∃ o, ∀ c b rest, Blanks b → c.rest = b ++ (ahead ']' first (parts.map Part.text) ++ rest) →
      Ends rest o ((closeList c).map fun c => (a, c)) := by
  cases parts with
  | nil =>
    refine ⟨.ok a, fun c b rest blank here => ?_⟩
    rw [List.map_nil, ahead_nil] at here
    obtain ⟨c', left, closed⟩ := closeList_end blank here
    rw [closed]
    exact .ok left
  | cons p parts =>
    refine ⟨.error .trailingCharacters, fun c b rest blank here => ?_⟩
    obtain ⟨place, failed⟩ :=
      closeList_more (spaced p List.mem_cons_self) (values p List.mem_cons_self) blank here
    rw [failed]
    exact .error

/-- The record is made of the list's elements in their order, or one of them is refused. -/
theorem positional_settles {parts : List Part} (spaced : ∀ p ∈ parts, p.Spaced)
    (values : ∀ p ∈ parts, ValueText p.value) {slots : List (Slot α)}
    (settles : ∀ t ∈ slots, ∀ a w, ValueText w → Settles (t.read a) w) (done : Nat) (first : Bool)
    (a : α) :
    ∃ o, ∀ c b rest, Blanks b → c.rest = b ++ (ahead ']' first (parts.map Part.text) ++ rest) →
      Ends rest o (s.positional done first slots a c) := by
  induction slots generalizing parts done first a with
  | nil => exact closeList_settles spaced values first a
  | cons t slots ih =>
    obtain ⟨own, others⟩ := List.forall_mem_cons.mp settles
    cases parts with
    | nil =>
      by_cases optional : t.optional = true
      · obtain ⟨o, later⟩ := ih spaced values others (done + 1) false a
        refine ⟨o, fun c b rest blank here => ?_⟩
        obtain ⟨c', close, none⟩ := element?_nil blank here
        rw [positional, none]
        simp only [bind, Except.bind, optional, if_true]
        exact later c' [] rest .nil close
      · refine ⟨.error (.wrongLength done s.sizeText), fun c b rest blank here => ?_⟩
        obtain ⟨c', close, none⟩ := element?_nil blank here
        rw [positional, none]
        simp only [bind, Except.bind, optional]
        exact .error
    | cons p parts =>
      obtain ⟨front, spaced⟩ := List.forall_mem_cons.mp spaced
      obtain ⟨value, values⟩ := List.forall_mem_cons.mp values
      have read := own a p.value value
      cases result : outcome (t.read a) p.value with
      | error cause =>
        refine ⟨.error cause, fun c b rest blank here => ?_⟩
        obtain ⟨c₁, c₂, start, next⟩ := element?_cons front value blank here
        have ends := read c₁ [] _ .nil (front.after.stops (stops_behind (.inl rfl) _ rest)) start
        rw [result] at ends
        obtain ⟨place, failed⟩ := ends.exists_error
        rw [positional, next]
        simp only [bind, Except.bind, failed]
        exact .error
      | ok x =>
        obtain ⟨o, later⟩ := ih spaced values others (done + 1) false x
        refine ⟨o, fun c b rest blank here => ?_⟩
        obtain ⟨c₁, c₂, start, next⟩ := element?_cons front value blank here
        have ends := read c₁ [] _ .nil (front.after.stops (stops_behind (.inl rfl) _ rest)) start
        rw [result] at ends
        obtain ⟨c', left, took⟩ := ends.exists_ok
        rw [positional, next]
        simp only [bind, Except.bind, took]
        exact later c' _ rest front.after left

theorem read_list {blanks : List Char} {parts : List Part} (blank : Blanks blanks)
    (spaced : ∀ p ∈ parts, p.Spaced) (values : ∀ p ∈ parts, ValueText p.value)
    (settles : ∀ t ∈ s.slots, ∀ a w, ValueText w → Settles (t.read a) w) :
    Settles s.read (listText blanks parts) := by
  obtain ⟨o, ends⟩ := s.positional_settles spaced values settles 0 true s.blank
  refine Yields.settles (o := o) fun c b rest before stops here => ?_
  have start := (ValueText.list blank spaced values).skipBlanks before here
  rw [listText, enclosed_append] at start
  simp only [read, start]
  exact ends _ blanks rest blank (Cursor.rest_advance start)

/-- The members after those `seen`, by what each of them says. -/
def assemble (s : Schema α) (seen : List String) (a : α) : List Member → Except Cause α
  | [] =>
    match s.missing? seen with
    | some name => .error (.missingField name)
    | none => .ok a
  | m :: ms => do
    let name := String.ofList (← StringUnit.decode m.name)
    match s.slot? name with
    | none => assemble s seen a ms
    | some t =>
      if seen.contains name then .error (.duplicateField name)
      else assemble s (name :: seen) (← outcome (t.read a) m.part.value) ms

theorem name?_nil (blank : Blanks b) (here : c.rest = b ++ (ahead '}' first [] ++ rest)) :
    ∃ c', c'.rest = '}' :: rest ∧ name? first c = .ok (none, c') := by
  rw [ahead_nil] at here
  have close : c.skipBlanks.rest = '}' :: rest := Cursor.rest_skipBlanks blank (by decide) here
  exact ⟨c.skipBlanks, close, by simp only [name?, close]⟩

/-- What stands behind a member's name. -/
theorem name?_cons {m : Member} (spaced : m.Spaced) (blank : Blanks b)
    (here : c.rest = b ++ (ahead '}' first (m.text :: texts) ++ rest)) :
    Ends (m.between ++
        ':' :: (m.part.before ++ (m.part.value ++ (m.part.after ++ (behind '}' texts ++ rest)))))
      ((StringUnit.decode m.name).map fun name => some (String.ofList name)) (name? first c) := by
  have value := ValueText.string spaced.name
  cases first with
  | true =>
    rw [ahead_first, Member.text_append, ← List.append_assoc] at here
    have start := value.skipBlanks (blank.append spaced.before) here
    have ends := StringUnit.keep_quoted spaced.name start
    rw [quoted_append] at start
    simp only [name?, start, if_true, pure, Except.pure, bind, Except.bind]
    exact ends.map fun name => some (String.ofList name)
  | false =>
    rw [ahead_later] at here
    have comma := Cursor.rest_skipBlanks blank (by decide) here
    have next := Cursor.rest_advance comma
    rw [Member.text_append] at next
    have start := value.skipBlanks spaced.before next
    have ends := StringUnit.keep_quoted spaced.name start
    rw [quoted_append] at start
    simp only [name?, comma, Bool.false_eq_true, if_false, start, pure, Except.pure, bind, Except.bind]
    exact ends.map fun name => some (String.ofList name)

theorem colon_of {between : List Char} (blank : Blanks between) (here : c.rest = between ++ ':' :: rest) :
    ∃ c', c'.rest = rest ∧ colon c = .ok c' := by
  have mark : c.skipBlanks.rest = ':' :: rest := Cursor.rest_skipBlanks blank (by decide) here
  exact ⟨c.skipBlanks.advance, Cursor.rest_advance mark, by simp only [colon, mark]⟩

theorem mem_of_slot? {name : String} {t : Slot α} (known : s.slot? name = some t) : t ∈ s.slots :=
  List.mem_of_find?_eq_some known

section

variable {ms : List Member} (spaced : ∀ m ∈ ms, m.Spaced) (values : ∀ m ∈ ms, ValueText m.part.value)
  (settles : ∀ t ∈ s.slots, ∀ a w, ValueText w → Settles (t.read a) w)

include spaced values settles

theorem members_ends (steps : Nat) (enough : ms.length < steps) (first : Bool) (seen : List String)
    (a : α) (blank : Blanks b) (here : c.rest = b ++ (ahead '}' first (ms.map Member.text) ++ rest)) :
    Ends rest (s.assemble seen a ms) (s.members steps first seen a c) := by
  induction ms generalizing c b steps first seen a with
  | nil =>
    obtain ⟨more, rfl⟩ : ∃ more, steps = more + 1 := ⟨steps - 1, by grind⟩
    obtain ⟨c', close, none⟩ := name?_nil blank here
    rw [members, none, assemble]
    simp only [bind, Except.bind]
    cases s.missing? seen with
    | some name => exact .error
    | none => exact .ok (Cursor.rest_advance close)
  | cons m ms ih =>
    obtain ⟨more, rfl⟩ : ∃ more, steps = more + 1 := ⟨steps - 1, by grind⟩
    obtain ⟨front, spaced⟩ := List.forall_mem_cons.mp spaced
    obtain ⟨value, values⟩ := List.forall_mem_cons.mp values
    have later := fun seen a c => @ih c m.part.after spaced values more (Nat.lt_of_succ_lt_succ enough)
      false seen a front.part.after
    have named := name?_cons front blank here
    rw [members, assemble]
    cases decoded : StringUnit.decode m.name with
    | error cause =>
      rw [decoded] at named
      obtain ⟨place, failed⟩ := named.exists_error
      rw [failed]
      exact .error
    | ok name =>
      rw [decoded] at named
      obtain ⟨c₁, left₁, read⟩ := named.exists_ok
      rw [read]
      obtain ⟨c₂, left₂, marked⟩ := colon_of front.between left₁
      have stops := front.part.after.stops (stops_behind (.inr rfl) (ms.map Member.text) rest)
      simp only [bind, Except.bind]
      cases known : s.slot? (String.ofList name) with
      | none =>
        obtain ⟨c₃, left₃, skipped⟩ := skipValue_of value front.part.before stops left₂
        simp only [marked, skipped]
        exact later seen a c₃ left₃
      | some t =>
        simp only
        split
        · exact .error
        · have ends := settles t (mem_of_slot? known) a _ value c₂ _ _ front.part.before stops left₂
          simp only [marked]
          cases result : outcome (t.read a) m.part.value with
          | error cause =>
            rw [result] at ends
            obtain ⟨place, failed⟩ := ends.exists_error
            rw [failed]
            exact .error
          | ok x =>
            rw [result] at ends
            obtain ⟨c₃, left₃, took⟩ := ends.exists_ok
            rw [took]
            exact later (String.ofList name :: seen) x c₃ left₃

theorem read_object {blanks : List Char} (blank : Blanks blanks) :
    Yields s.read (objectText blanks ms) (s.assemble [] s.blank ms) := by
  intro c b rest before stops here
  have start := (ValueText.object blank spaced values).skipBlanks before here
  rw [objectText, enclosed_append] at start
  have inside := Cursor.rest_advance start
  have enough : ms.length < c.skipBlanks.advance.rest.length + 1 := by
    have least := length_le_ahead '}' true (ms.map Member.text)
    rw [inside]
    simp only [List.length_map, List.length_append] at least ⊢
    omega
  simp only [read, start]
  exact members_ends spaced values settles _ enough true [] s.blank blank inside

end

theorem read_refuses : RefusesUnless (fun d => d = '[' ∨ d = '{') s.label s.read := by
  intro c d t start other
  simp only [read]
  split
  · rename_i none
    cases start.symm.trans none
  · rename_i same
    cases start.symm.trans same
    exact absurd (.inl rfl) other
  · rename_i same
    cases start.symm.trans same
    exact absurd (.inr rfl) other
  · rfl

theorem read_settles (settles : ∀ t ∈ s.slots, ∀ a w, ValueText w → Settles (t.read a) w)
    (value : ValueText v) : Settles s.read v := by
  refine read_refuses.settles value ?_
  rintro _ t (rfl | rfl) value
  · obtain ⟨blanks, parts, blank, spaced, values, text⟩ := value.list_of_head
    exact text ▸ read_list blank spaced values settles
  · obtain ⟨blanks, members, blank, spaced, values, text⟩ := value.object_of_head
    exact text ▸ (read_object spaced values settles blank).settles

end Schema

end TraceTally.Json
