import TraceTally.Proofs.JsonRearranging
import TraceTally.Proofs.JsonWriting

/-!
# Events, entries and filters read back

The compact text of a record is an object of its fields. An entry's text is read as the entry where its
values are finite; a value that is not stands as `null` there, and the text is refused. Texts that say
more, or say it in another order, are read as the same.
-/

namespace TraceTally

open Json
open StringUnit (decode)

/-- A member as it is written without blanks, by a name that needs no escapes. -/
def Json.field (name : String) (value : List Char) : Member where
  name := name.toList.map .plain
  part := { value }

def Event.members (e : Event Binary64) : List Member :=
  [field "name" (writeString e.name), field "value" (writeNumber e.value),
    field "unit" (writeString e.unit)]

def Event.part (e : Event Binary64) : Part where
  value := objectText [] e.members

def Entry.members (e : Entry Binary64) : List Member :=
  [field "origin" (writeString e.origin), field "trace_id" (writeString e.traceId),
    field "events" (listText [] (e.events.map Event.part))]

def Filter.members (f : Filter) : List Member :=
  let value (s : Option String) : List Char := s.elim "null".toList writeString
  [field "trace_id" (value f.traceId), field "origin" (value f.origin),
    field "event_name" (value f.eventName)]

theorem decode_plain (cs : List Char) : decode (cs.map .plain) = .ok cs := by
  induction cs with
  | nil => rfl
  | cons c cs ih =>
    rw [List.map_cons, decode, ih]
    rfl

theorem field_text (name : String) (value : List Char)
    (plain : name.toList.flatMap escapeChar = name.toList) :
    (field name value).text = writeString name ++ ':' :: value := by
  have units : (name.toList.map StringUnit.plain).flatMap StringUnit.text = name.toList := by
    induction name.toList with
    | nil => rfl
    | cons c cs ih => simpa [StringUnit.text] using ih
  simp [field, Member.text, Part.text, quoted, writeString, units, plain]

theorem Event.compact_eq (e : Event Binary64) : e.json.compact = objectText [] e.members := by
  simp only [objectText, enclosed, members, List.map_cons, List.map_nil, json, compact, compactMembers,
    field_text "name" _ rfl, field_text "value" _ rfl, field_text "unit" _ rfl]
  rfl

theorem compactElements_events (events : List (Event Binary64)) :
    compactElements (events.map Event.json) = (events.map Event.part).map Part.text := by
  induction events with
  | nil => rfl
  | cons e events ih => simp [compactElements, ih, Event.part, Part.text, e.compact_eq]

theorem Entry.compact_eq (e : Entry Binary64) : e.json.compact = objectText [] e.members := by
  simp only [objectText, enclosed, members, List.map_cons, List.map_nil, json, compact, compactMembers,
    field_text "origin" _ rfl, field_text "trace_id" _ rfl, field_text "events" _ rfl, listText,
    compactElements_events]
  rfl

theorem Filter.compact_eq (f : Filter) : f.json.compact = objectText [] f.members := by
  have member (s : Option String) : (s.elim Json.null Json.string).compact =
      s.elim "null".toList writeString := by
    cases s <;> simp [compact]
  simp only [objectText, enclosed, members, List.map_cons, List.map_nil, json, compact, compactMembers,
    field_text "trace_id" _ rfl, field_text "origin" _ rfl, field_text "event_name" _ rfl, member]
  rfl

theorem Event.slots_settle : ∀ t ∈ Event.schema.slots, ∀ a v, ValueText v → Settles (t.read a) v := by
  intro t mem a v value
  simp only [Event.schema, List.mem_cons, List.not_mem_nil, or_false] at mem
  rcases mem with rfl | rfl | rfl <;> dsimp only
  · exact (readText_settles value).into _
  · exact (readDouble_settles value).into _
  · exact (readText_settles value).into _

theorem Event.settles {v : List Char} (value : ValueText v) : Settles Event.schema.read v :=
  Schema.read_settles Event.slots_settle value

theorem Entry.slots_settle : ∀ t ∈ Entry.schema.slots, ∀ a v, ValueText v → Settles (t.read a) v := by
  intro t mem a v value
  simp only [Entry.schema, List.mem_cons, List.not_mem_nil, or_false] at mem
  rcases mem with rfl | rfl | rfl <;> dsimp only
  · exact (readText_settles value).into _
  · exact (readText_settles value).into _
  · exact (readList_settles (fun _ => Event.settles) value).into _

theorem Filter.slots_settle : ∀ t ∈ Filter.schema.slots, ∀ a v, ValueText v → Settles (t.read a) v := by
  intro t mem a v value
  simp only [Filter.schema, List.mem_cons, List.not_mem_nil, or_false] at mem
  have settles := readOptional_settles (readText_settles value) value
  rcases mem with rfl | rfl | rfl <;> dsimp only <;> exact settles.into _

theorem Event.schema_independent : Event.schema.Independent := by
  refine .three rfl ?_ ?_ ?_
  · exact apart_of_put (fun e name => { e with name }) (fun e value => { e with value })
      (fun _ => rfl) (fun _ => rfl) fun _ _ _ => rfl
  · exact apart_of_put (fun e name => { e with name }) (fun e unit => { e with unit })
      (fun _ => rfl) (fun _ => rfl) fun _ _ _ => rfl
  · exact apart_of_put (fun e value => { e with value }) (fun e unit => { e with unit })
      (fun _ => rfl) (fun _ => rfl) fun _ _ _ => rfl

theorem Entry.schema_independent : Entry.schema.Independent := by
  refine .three rfl ?_ ?_ ?_
  · exact apart_of_put (fun e origin => { e with origin }) (fun e traceId => { e with traceId })
      (fun _ => rfl) (fun _ => rfl) fun _ _ _ => rfl
  · exact apart_of_put (fun e origin => { e with origin }) (fun e events => { e with events })
      (fun _ => rfl) (fun _ => rfl) fun _ _ _ => rfl
  · exact apart_of_put (fun e traceId => { e with traceId }) (fun e events => { e with events })
      (fun _ => rfl) (fun _ => rfl) fun _ _ _ => rfl

theorem Filter.schema_independent : Filter.schema.Independent := by
  refine .three rfl ?_ ?_ ?_
  · exact apart_of_put (fun f traceId => { f with traceId }) (fun f origin => { f with origin })
      (fun _ => rfl) (fun _ => rfl) fun _ _ _ => rfl
  · exact apart_of_put (fun f traceId => { f with traceId }) (fun f eventName => { f with eventName })
      (fun _ => rfl) (fun _ => rfl) fun _ _ _ => rfl
  · exact apart_of_put (fun f origin => { f with origin }) (fun f eventName => { f with eventName })
      (fun _ => rfl) (fun _ => rfl) fun _ _ _ => rfl

namespace Json

theorem ok_bind {α β : Type} (a : α) (next : α → Except Cause β) : (.ok a >>= next) = next a := rfl

theorem ok_map {α β : Type} (a : α) (f : α → β) : (.ok a : Except Cause α).map f = .ok (f a) := rfl

theorem Schema.assemble_field {α : Type} {s : Schema α} {name : String} {t : Slot α}
    {seen : List String} {a : α} {value : List Char} {ms : List Member}
    (known : s.slot? name = some t) (fresh : name ∉ seen) :
    s.assemble seen a (field name value :: ms) =
      outcome (t.read a) value >>= fun b => s.assemble (name :: seen) b ms := by
  rw [Schema.assemble, field]
  simp only [decode_plain, bind, Except.bind, String.ofList_toList, known, List.contains_iff_mem, fresh,
    if_false]

/-- Behind a field that is read the record goes on with its value. -/
theorem Schema.assemble_read {α β : Type} {s : Schema α} {name : String} {optional : Bool}
    {r : Reader β} {put : α → β → α} {seen : List String} {a : α} {x : β} {value : List Char}
    {ms : List Member}
    (known : s.slot? name = some { name, optional, read := fun a => into r (put a) })
    (fresh : name ∉ seen) (read : outcome r value = .ok x) :
    s.assemble seen a (field name value :: ms) = s.assemble (name :: seen) (put a x) ms := by
  rw [assemble_field known fresh, outcome_into, read]
  rfl

end Json

theorem Event.assemble_members (e : Event Binary64) :
    Event.schema.assemble [] Event.schema.blank e.members =
      (outcome readDouble (writeNumber e.value)).map fun value => { e with value } := by
  rw [members, Schema.assemble_read rfl (by decide) (readText_written e.name).outcome_eq,
    Schema.assemble_field rfl (by decide), outcome_into]
  cases outcome readDouble (writeNumber e.value) with
  | error cause => rfl
  | ok x =>
    rw [ok_map, ok_bind, Schema.assemble_read rfl (by decide) (readText_written e.unit).outcome_eq]
    rfl

theorem Entry.assemble_members (e : Entry Binary64) :
    Entry.schema.assemble [] Entry.schema.blank e.members =
      (outcome (readList Event.schema.read) (listText [] (e.events.map Event.part))).map
        fun events => { e with events } := by
  rw [members, Schema.assemble_read rfl (by decide) (readText_written e.origin).outcome_eq,
    Schema.assemble_read rfl (by decide) (readText_written e.traceId).outcome_eq,
    Schema.assemble_field rfl (by decide), outcome_into]
  cases outcome (readList Event.schema.read) (listText [] (e.events.map Event.part)) with
  | error cause => rfl
  | ok events => rfl

theorem Filter.assemble_members (f : Filter) :
    Filter.schema.assemble [] Filter.schema.blank f.members = .ok f := by
  have read (s : Option String) :
      outcome (readOptional readText) (s.elim "null".toList writeString) = .ok s := by
    cases s with
    | none => exact (readOptional_null readText).outcome_eq
    | some s => exact (readOptional_some (.written s) (by decide) (readText_written s)).outcome_eq
  rw [members, Schema.assemble_read rfl (by decide) (read f.traceId),
    Schema.assemble_read rfl (by decide) (read f.origin),
    Schema.assemble_read rfl (by decide) (read f.eventName)]
  rfl

theorem Json.field_valid {name : String} {value : List Char}
    (plain : name.toList.all StringUnit.isPlain = true) (text : ValueText value) :
    (field name value).Valid where
  before := .nil
  name := StringUnit.valid_plain plain
  between := .nil
  part := ⟨.nil, .nil⟩
  value := text

theorem Event.members_valid (e : Event Binary64) : ∀ m ∈ e.members, m.Valid := by
  simp only [members, List.forall_mem_cons, List.not_mem_nil, false_imp_iff, implies_true, and_true]
  exact ⟨field_valid (by decide) (.written _), field_valid (by decide) (.writtenNumber _),
    field_valid (by decide) (.written _)⟩

theorem Event.part_spaced (e : Event Binary64) : e.part.Spaced := ⟨.nil, .nil⟩

theorem Event.part_value (e : Event Binary64) : ValueText e.part.value :=
  .ofMembers .nil e.members_valid

theorem Entry.events_text (e : Entry Binary64) : ValueText (listText [] (e.events.map Event.part)) := by
  refine .list .nil (fun p mem => ?_) fun p mem => ?_
  · obtain ⟨event, -, rfl⟩ := List.mem_map.mp mem
    exact event.part_spaced
  · obtain ⟨event, -, rfl⟩ := List.mem_map.mp mem
    exact event.part_value

theorem Entry.members_valid (e : Entry Binary64) : ∀ m ∈ e.members, m.Valid := by
  simp only [members, List.forall_mem_cons, List.not_mem_nil, false_imp_iff, implies_true, and_true]
  exact ⟨field_valid (by decide) (.written _), field_valid (by decide) (.written _),
    field_valid (by decide) e.events_text⟩

theorem Filter.members_valid (f : Filter) : ∀ m ∈ f.members, m.Valid := by
  have text (s : Option String) : ValueText (s.elim "null".toList writeString) := by
    cases s with
    | none => exact .null
    | some s => exact .written s
  simp only [members, List.forall_mem_cons, List.not_mem_nil, false_imp_iff, implies_true, and_true]
  exact ⟨field_valid (by decide) (text _), field_valid (by decide) (text _),
    field_valid (by decide) (text _)⟩

theorem Event.outcome_part (e : Event Binary64) :
    outcome Event.schema.read e.part.value =
      (outcome readDouble (writeNumber e.value)).map fun value => { e with value } := by
  rw [← e.assemble_members]
  exact (Schema.read_object (fun m mem => (e.members_valid m mem).toSpaced)
    (fun m mem => (e.members_valid m mem).value) Event.slots_settle .nil).outcome_eq

theorem Event.outcome_finite {e : Event Binary64} (finite : e.value.isFinite = true)
    (back : ReadsBack e.value) : outcome Event.schema.read e.part.value = .ok e := by
  rw [outcome_part, (readDouble_written finite back).outcome_eq]
  rfl

theorem Event.outcome_notFinite {e : Event Binary64} (notFinite : e.value.isFinite = false) :
    outcome Event.schema.read e.part.value = .error (.unexpected .null "f64") := by
  rw [outcome_part, (readDouble_notFinite notFinite).outcome_eq]
  rfl

theorem Entry.outcome_events (e : Entry Binary64) :
    outcome (readList Event.schema.read) (listText [] (e.events.map Event.part)) =
      e.events.mapM fun event => outcome Event.schema.read event.part.value := by
  have each {P : Part → Prop} (holds : ∀ event : Event Binary64, P event.part) :
      ∀ p ∈ e.events.map Event.part, P p := by
    intro p mem
    obtain ⟨event, -, rfl⟩ := List.mem_map.mp mem
    exact holds event
  have read := readList_list (each Event.part_spaced) (each Event.part_value)
    (each fun event => Event.settles event.part_value) .nil
  rw [read.outcome_eq, List.mapM_map]
  rfl

/-- Up to the first value that is not finite everything is read. -/
theorem Event.mapM_outcome (events : List (Event Binary64))
    (back : ∀ event ∈ events, event.value.isFinite = true → ReadsBack event.value) :
    (events.mapM fun event => outcome Event.schema.read event.part.value) =
      if ∀ event ∈ events, event.value.isFinite = true then .ok events
      else .error (.unexpected .null "f64") := by
  induction events with
  | nil => rfl
  | cons event events ih =>
    obtain ⟨first, others⟩ := List.forall_mem_cons.mp back
    rw [List.mapM_cons]
    cases finite : event.value.isFinite with
    | true =>
      rw [outcome_finite finite (first finite), ih others, ok_bind]
      simp only [List.forall_mem_cons, finite, true_and]
      split <;> rfl
    | false =>
      rw [outcome_notFinite finite, if_neg (by simp [finite])]
      rfl

theorem Entry.outcome_members (e : Entry Binary64)
    (back : ∀ event ∈ e.events, event.value.isFinite = true → ReadsBack event.value) :
    outcome Entry.schema.read (objectText [] e.members) =
      if ∀ event ∈ e.events, event.value.isFinite = true then .ok e
      else .error (.unexpected .null "f64") := by
  have read := Schema.read_object (fun m mem => (e.members_valid m mem).toSpaced)
    (fun m mem => (e.members_valid m mem).value) Entry.slots_settle .nil
  rw [read.outcome_eq, e.assemble_members, e.outcome_events, Event.mapM_outcome _ back]
  split <;> rfl

/-- The texts of an event, which has no values to be rearranged inside. -/
def Event.Rearranged (v w : List Char) : Prop :=
  RearrangedText Event.schema.fields (fun _ _ _ => False) v w

/-- The texts of an entry's events, each of which may be rearranged. -/
inductive Event.RearrangedList : List Char → List Char → Prop where
  | list {blanks : List Char} {changes : List (Part × List Char)} (blank : Blanks blanks)
      (spaced : ∀ x ∈ changes, x.1.Spaced) (each : ∀ x ∈ changes, Event.Rearranged x.1.value x.2) :
      Event.RearrangedList (listText blanks (changes.map Prod.fst))
        (listText blanks (changes.map fun x => x.1.withValue x.2))

def Entry.Rearranged (v w : List Char) : Prop :=
  RearrangedText Entry.schema.fields
    (fun name v w => name = "events" ∧ Event.RearrangedList v w) v w

def Filter.Rearranged (v w : List Char) : Prop :=
  RearrangedText Filter.schema.fields (fun _ _ _ => False) v w

theorem Event.Rearranged.alike {v w : List Char} (rearranged : Event.Rearranged v w) :
    Alike Event.schema.read v w :=
  RearrangedText.alike Event.schema_independent Event.slots_settle (fun _ _ _ none => none.elim)
    (fun _ _ _ _ _ none => none.elim) rearranged

theorem Event.RearrangedList.value {v w : List Char} (rearranged : Event.RearrangedList v w) :
    ValueText w := by
  obtain ⟨blank, spaced, each⟩ := rearranged
  refine .list blank (List.forall_mem_map.mpr fun x mem => (spaced x mem).withValue x.2)
    (List.forall_mem_map.mpr fun x mem => ?_)
  exact RearrangedText.value_right (each x mem) fun _ _ _ none => none.elim

theorem Event.RearrangedList.alike {v w : List Char} (rearranged : Event.RearrangedList v w) :
    Alike (readList Event.schema.read) v w := by
  obtain ⟨blank, spaced, each⟩ := rearranged
  exact .list blank spaced (fun x mem => RearrangedText.value_left (each x mem))
    (fun x mem => RearrangedText.value_right (each x mem) fun _ _ _ none => none.elim)
    (fun _ => Event.settles) fun x mem => (each x mem).alike

theorem Entry.Rearranged.alike {v w : List Char} (rearranged : Entry.Rearranged v w) :
    Alike Entry.schema.read v w := by
  refine RearrangedText.alike Entry.schema_independent Entry.slots_settle
    (fun _ _ _ inside => inside.2.value) ?_ rearranged
  rintro name t known v w ⟨rfl, inside⟩ a
  cases (known : some _ = some t)
  exact inside.alike.into _

theorem Filter.Rearranged.alike {v w : List Char} (rearranged : Filter.Rearranged v w) :
    Alike Filter.schema.read v w :=
  RearrangedText.alike Filter.schema_independent Filter.slots_settle (fun _ _ _ none => none.elim)
    (fun _ _ _ _ _ none => none.elim) rearranged

/-- Whatever blanks stand around them, one text is read as a value exactly if the other is. -/
def Json.SameReading {α : Type} (ofJson : String → Except Json.Error α) (v w : List Char) : Prop :=
  ∀ b a b' a', Blanks b → Blanks a → Blanks b' → Blanks a' → ∀ x,
    ofJson (String.ofList (b ++ (v ++ a))) = .ok x ↔ ofJson (String.ofList (b' ++ (w ++ a'))) = .ok x

theorem Json.Alike.sameReading {α : Type} {r : Reader α} {v w : List Char} (alike : Alike r v w)
    (first : Settles r v) (second : Settles r w) :
    SameReading (fun text => readAll r text.toList) v w := by
  intro b a b' a' before after before' after' x
  simp only [String.toList_ofList]
  exact alike.readAll_iff first second before before' after after' x

theorem Entry.settles {v : List Char} (value : ValueText v) : Settles Entry.schema.read v :=
  Schema.read_settles Entry.slots_settle value

theorem Filter.settles {v : List Char} (value : ValueText v) : Settles Filter.schema.read v :=
  Schema.read_settles Filter.slots_settle value

theorem Entry.ofJson_compact {e : Entry Binary64}
    (back : ∀ event ∈ e.events, event.value.isFinite = true → ReadsBack event.value)
    (finite : ∀ event ∈ e.events, event.value.isFinite = true) :
    Entry.ofJson (String.ofList e.json.compact) = .ok e := by
  have read := readAll_ok_iff (x := e) (Entry.settles (.ofMembers .nil e.members_valid)) .nil .nil
  rw [List.nil_append, List.append_nil] at read
  rw [Entry.ofJson, String.toList_ofList, e.compact_eq, read, e.outcome_members back, if_pos finite]

theorem Entry.ofJson_compact_error {e : Entry Binary64}
    (back : ∀ event ∈ e.events, event.value.isFinite = true → ReadsBack event.value)
    (notFinite : ∃ event ∈ e.events, event.value.isFinite = false) :
    ∃ failure, Entry.ofJson (String.ofList e.json.compact) = .error failure ∧
      failure.cause = .unexpected .null "f64" := by
  have some' : ¬∀ event ∈ e.events, event.value.isFinite = true := by
    obtain ⟨event, mem, infinite⟩ := notFinite
    exact fun finite => Bool.noConfusion (infinite.symm.trans (finite event mem))
  have settled := Entry.settles (.ofMembers .nil e.members_valid)
  rw [Settles, e.outcome_members back, if_neg some'] at settled
  have failed := readAll_error settled .nil .nil
  rw [List.nil_append, List.append_nil] at failed
  rwa [Entry.ofJson, String.toList_ofList, e.compact_eq]

theorem Filter.ofJson_compact (f : Filter) : Filter.ofJson (String.ofList f.json.compact) = .ok f := by
  have valid := f.members_valid
  have read := readAll_ok_iff (x := f) (Filter.settles (.ofMembers .nil valid)) .nil .nil
  have outcome := (Schema.read_object (fun m mem => (valid m mem).toSpaced)
    (fun m mem => (valid m mem).value) Filter.slots_settle .nil).outcome_eq
  rw [List.nil_append, List.append_nil] at read
  rw [Filter.ofJson, String.toList_ofList, f.compact_eq, read, outcome, f.assemble_members]

/-- Entries of finite values and all filters read back, `null` in the place of a value is refused as
data, and texts that are rearranged are read alike. -/
theorem records_read_back :
    (∀ e : Entry Binary64,
      (∀ event ∈ e.events, event.value.isFinite = true → ReadsBack event.value) →
        ((∀ event ∈ e.events, event.value.isFinite = true) →
          Entry.ofJson (String.ofList e.json.compact) = .ok e) ∧
        ((∃ event ∈ e.events, event.value.isFinite = false) →
          ∃ failure, Entry.ofJson (String.ofList e.json.compact) = .error failure ∧
            failure.cause = .unexpected .null "f64" ∧ failure.cause.category = .data)) ∧
    (∀ e : Entry Binary64, e.json.compact = objectText [] e.members) ∧
    (∀ event : Event Binary64, event.value.isFinite = false → event.members =
      [field "name" (writeString event.name), field "value" "null".toList,
        field "unit" (writeString event.unit)]) ∧
    (∀ f : Filter, Filter.ofJson (String.ofList f.json.compact) = .ok f) ∧
    (∀ j : Json, ValueText j.compact) ∧
    (∀ v w, Event.Rearranged v w → SameReading Event.ofJson v w) ∧
    (∀ v w, Entry.Rearranged v w → SameReading Entry.ofJson v w) ∧
    (∀ v w, Filter.Rearranged v w → SameReading Filter.ofJson v w) := by
  refine ⟨fun e back => ⟨Entry.ofJson_compact back, fun notFinite => ?_⟩, Entry.compact_eq,
    fun event notFinite => ?_, Filter.ofJson_compact, compact_valueText, fun v w rearranged => ?_,
    fun v w rearranged => ?_, fun v w rearranged => ?_⟩
  · obtain ⟨failure, failed, cause⟩ := Entry.ofJson_compact_error back notFinite
    exact ⟨failure, failed, cause, by rw [cause]; rfl⟩
  · rw [Event.members, writeNumber, notFinite]
    rfl
  · exact rearranged.alike.sameReading (Event.settles (RearrangedText.value_left rearranged))
      (Event.settles (RearrangedText.value_right rearranged fun _ _ _ none => none.elim))
  · exact rearranged.alike.sameReading (Entry.settles (RearrangedText.value_left rearranged))
      (Entry.settles (RearrangedText.value_right rearranged fun _ _ _ inside => inside.2.value))
  · exact rearranged.alike.sameReading (Filter.settles (RearrangedText.value_left rearranged))
      (Filter.settles (RearrangedText.value_right rearranged fun _ _ _ none => none.elim))

/-- Quotes, a backslash, control codes, characters past ASCII, and both zeros. -/
def oddEntry : Entry Binary64 where
  origin := "a\"b\\c/\x01\n"
  traceId := "é☃😀\u2028"
  events := [⟨"x y", .zero false, "ms"⟩, ⟨"", .zero true, "\x7f"⟩]

def endlessEntry : Entry Binary64 :=
  { oddEntry with events := oddEntry.events ++ [⟨"z", .infinity true, ""⟩] }

/-- The name is `note`, its first letter written by number. -/
def strayMember : Member where
  before := [' ']
  name := .code "006e".toList 0x6e :: "ote".toList.map .plain
  between := ['\t']
  part :=
    { before := ['\n']
      value := (Json.list [.null, .object [("\"", .list [.object [], .string "\\"])]]).compact }

theorem strayMember_valid : strayMember.Valid where
  before := by decide
  name := List.forall_mem_cons.mpr ⟨⟨'0', '0', '6', 'e', _, _, _, _, rfl, rfl, rfl, rfl, rfl, rfl⟩,
    StringUnit.valid_plain (by decide)⟩
  between := by decide
  part := ⟨by decide, by decide⟩
  value := compact_valueText _

def oddChanges : List (Part × List Char) :=
  oddEntry.events.map fun event => (event.part, objectText [' '] (strayMember :: event.members.reverse))

def oddMembers : List Member :=
  [strayMember, field "events" (listText [] (oddChanges.map fun x => x.1.withValue x.2)),
    field "trace_id" (writeString oddEntry.traceId), field "origin" (writeString oddEntry.origin)]

theorem records_read_back_oddEntry :
    (∀ event ∈ endlessEntry.events, event.value.isFinite = true → ReadsBack event.value) ∧
    Entry.ofJson (String.ofList oddEntry.json.compact) = .ok oddEntry ∧
    (∃ failure, Entry.ofJson (String.ofList endlessEntry.json.compact) = .error failure ∧
      failure.cause = .unexpected .null "f64" ∧ failure.cause.category = .data) ∧
    Entry.ofJson (String.ofList ([' '] ++ (objectText [] oddMembers ++ ['\n']))) = .ok oddEntry := by
  have zeros (negative : Bool) : ReadsBack (.zero negative) := by
    revert negative
    unfold ReadsBack
    decide +kernel
  have back : ∀ event ∈ endlessEntry.events, event.value.isFinite = true → ReadsBack event.value := by
    simp only [endlessEntry, oddEntry, List.cons_append, List.nil_append, List.forall_mem_cons]
    exact ⟨fun _ => zeros false, fun _ => zeros true, fun finite => absurd finite (by decide), nofun⟩
  have oddBack := fun event mem => back event (List.mem_append_left _ mem)
  have read := (records_read_back.1 oddEntry oddBack).1 (by decide)
  have refused := (records_read_back.1 endlessEntry back).2
    ⟨_, List.mem_append_right _ List.mem_cons_self, by decide⟩
  have events : Event.RearrangedList (listText [] (oddChanges.map Prod.fst))
      (listText [] (oddChanges.map fun x => x.1.withValue x.2)) := by
    refine .list .nil (List.forall_mem_map.mpr fun event _ => event.part_spaced)
      (List.forall_mem_map.mpr fun event _ => ?_)
    exact .object .nil (by decide) event.members_valid
      (.trans (.order (List.reverse_perm _).symm) (.more strayMember_valid rfl (by decide)))
  have members : Entry.Rearranged (objectText [] oddEntry.members) (objectText [] oddMembers) :=
    .object .nil .nil oddEntry.members_valid (.trans (.order (List.reverse_perm _).symm)
      (.trans (.inside rfl ⟨rfl, events⟩) (.more strayMember_valid rfl (by decide))))
  have same := records_read_back.2.2.2.2.2.2.1 _ _ members [] [] [' '] ['\n'] .nil .nil (by decide)
    (by decide) oddEntry
  refine ⟨back, read, refused, same.mp ?_⟩
  rw [List.nil_append, List.append_nil, ← records_read_back.2.1 oddEntry]
  exact read

end TraceTally
