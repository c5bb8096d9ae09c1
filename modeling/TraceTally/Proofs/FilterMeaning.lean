import Mathlib.Data.List.TakeWhile
import TraceTally.Proofs.Answer
import TraceTally.Proofs.Condition
import TraceTally.Store.Memory

/-!
# What a filter means

A filter has a meaning when no field that is set breaks a rule; otherwise it is refused for its
first field that does. The meaning is that each field which is set equals its column, and it is the
same wherever the filter is used: for a row at hand, for the rows in memory, and for a server that
is sent a condition with marks.
-/

namespace TraceTally

variable {V : Type}

theorem Text.trim_eq_nil_iff {cs : List Char} :
    Text.trim cs = [] ↔ ∀ c ∈ cs, Text.isBlank c = true := by
  have start : Text.trimStart cs = [] ↔ ∀ c ∈ cs, Text.isBlank c = true :=
    List.dropWhile_eq_nil_iff
  rw [← start, Text.trim, Text.trimEnd, List.reverse_eq_nil_iff, List.dropWhile_eq_nil_iff]
  constructor
  · intro blank
    -- what is left begins with a character that is not blank, if anything is left
    by_contra left
    have visible : Text.isBlank ((Text.trimStart cs).head left) = false :=
      List.head_dropWhile_not Text.isBlank left
    rw [blank _ (List.mem_reverse.mpr (List.head_mem left))] at visible
    cases visible
  · intro none
    rw [none]
    exact nofun

/-- The columns in the order in which their fields are checked. -/
def Column.all : List Column := [.traceId, .origin, .event]

namespace Filter

def value? (f : Filter) : Column → Option String
  | .traceId => f.traceId
  | .origin => f.origin
  | .event => f.eventName

/-- The value breaks a rule. -/
def Breaks (value : String) : ValueFault → Prop
  | .blank => Text.trim value.toList = []
  | .tooLong => 1024 < Text.byteLength value.toList
  | .controlCharacter => ∃ c ∈ value.toList, Text.isControl c = true

/-- A field that is set breaks a rule. -/
def Offends (f : Filter) (c : Column) : Prop :=
  ∃ value fault, f.value? c = some value ∧ Breaks value fault

theorem breaks_of_valueFault? {value : String} {fault : ValueFault}
    (found : valueFault? value = some fault) : Breaks value fault := by
  unfold valueFault? at found
  dsimp only at found
  split at found
  · rename_i blank
    obtain rfl := Option.some.inj found
    exact Text.trim_eq_nil_iff.mpr (List.all_eq_true.mp blank)
  · split at found
    · rename_i long
      obtain rfl := Option.some.inj found
      exact long
    · split at found
      · rename_i control
        obtain rfl := Option.some.inj found
        exact List.any_eq_true.mp control
      · cases found

theorem ValidValue.not_breaks {value : String} (valid : ValidValue value) (fault : ValueFault) :
    ¬ Breaks value fault := by
  cases fault with
  | blank =>
    intro blank
    obtain ⟨c, hc, visible⟩ := valid.notBlank
    rw [Text.trim_eq_nil_iff.mp blank c hc] at visible
    cases visible
  | tooLong => exact Nat.not_lt_of_le valid.short
  | controlCharacter =>
    rintro ⟨c, hc, control⟩
    rw [valid.printable c hc] at control
    cases control

theorem mem_setFields {f : Filter} {c : Column} {value : String} :
    (c, value) ∈ f.setFields ↔ f.value? c = some value := by
  have fields : f.setFields = Column.all.filterMap fun c => (f.value? c).map fun v => (c, v) := rfl
  have all : c ∈ Column.all := by cases c <;> decide
  simp [fields, all]

/-- The rest of the model speaks of the fields that are set; here the columns are gone through. -/
theorem firstFault?_eq (f : Filter) :
    f.firstFault? = Column.all.findSome? fun c =>
      (f.value? c).bind fun v => (valueFault? v).map fun fault => (c, fault) := by
  obtain ⟨traceId, origin, eventName⟩ := f
  cases traceId <;> cases origin <;> cases eventName <;> rfl

theorem valid_iff {f : Filter} : f.Valid ↔ ∀ c, ¬ f.Offends c := by
  constructor
  · rintro valid c ⟨value, fault, set, breaks⟩
    exact (valid _ (mem_setFields.mpr set)).not_breaks fault breaks
  · rintro faultless ⟨c, value⟩ set
    rw [← valueFault?_eq_none_iff, Option.eq_none_iff_forall_ne_some]
    intro fault found
    exact faultless c ⟨value, fault, mem_setFields.mp set, breaks_of_valueFault? found⟩

theorem toPredicate_ok_iff {f : Filter} :
    (∃ p, f.toPredicate = .ok p) ↔ ∀ c, ¬ f.Offends c :=
  toPredicate_ok_iff_valid.trans valid_iff

/-- The field that is reported offends, and none before it does. -/
theorem toPredicate_error_first {f : Filter} {e : Failure} (invalid : f.toPredicate = .error e) :
    ∃ before c after value fault, Column.all = before ++ c :: after ∧ f.value? c = some value ∧
      Breaks value fault ∧ (∀ d ∈ before, ¬ f.Offends d) ∧
      e = .invalidFilter (faultMessage c fault) := by
  unfold toPredicate at invalid
  split at invalid
  · rename_i c fault first
    rw [firstFault?_eq, List.findSome?_eq_some_iff] at first
    obtain ⟨before, d, after, columns, found, faultless⟩ := first
    obtain ⟨value, set, found⟩ := Option.bind_eq_some_iff.mp found
    obtain ⟨fault', broken, same⟩ := Option.map_eq_some_iff.mp found
    obtain ⟨rfl, rfl⟩ := Prod.mk.inj same
    refine ⟨before, d, after, value, fault', columns, set, breaks_of_valueFault? broken, ?_,
      (Except.error.inj invalid).symm⟩
    rintro b hb ⟨other, otherFault, otherSet, breaks⟩
    have none := faultless b hb
    rw [otherSet, Option.bind_some, Option.map_eq_none_iff] at none
    exact (valueFault?_eq_none_iff.mp none).not_breaks otherFault breaks
  · cases invalid

theorem isEmpty_setFields_iff {f : Filter} :
    Predicate.isEmpty ⟨f.setFields⟩ = true ↔ ∀ c, f.value? c = none := by
  rw [Predicate.isEmpty, List.isEmpty_iff, List.eq_nil_iff_forall_not_mem]
  constructor
  · intro none c
    rw [Option.eq_none_iff_forall_ne_some]
    exact fun value set => none _ (mem_setFields.mpr set)
  · rintro none ⟨c, value⟩ set
    rw [mem_setFields, none c] at set
    cases set

theorem holds_setFields_iff {f : Filter} {r : Row} :
    Predicate.holds ⟨f.setFields⟩ r = true ↔
      ∀ c value, f.value? c = some value → r.get c = value := by
  rw [Predicate.holds, List.all_eq_true]
  constructor
  · intro holds c value set
    exact beq_iff_eq.mp (holds _ (mem_setFields.mpr set))
  · rintro holds ⟨c, value⟩ set
    exact beq_iff_eq.mpr (holds c value (mem_setFields.mp set))

open ClickHouse

/-- The rows that a scan in memory returns are those of which the sent condition holds. -/
theorem scan_eq_filter_holdsOf? (now : Int) (p : Predicate) (s : MemoryStore V) :
    EventStore.scan now p s =
      (.ok ((s.rows.filter fun r => holdsOf? r (scanCondition (p.clauses.map Prod.fst))
        (scanValues now p) = some true).map Record.scanned), s) := by
  simp only [holdsOf?_scanCondition, Option.some.injEq, Bool.decide_eq_true,
    Bool.and_comm (p.holds _)]
  rfl

/-- A filter is refused for the first field that breaks a rule. If there is none, it selects the
rows whose columns are what its fields say: at hand, in memory, and by the condition that is sent,
which takes as many values as there are. -/
theorem toPredicate_selects_alike (f : Filter) :
    ((∃ p, f.toPredicate = .ok p) ↔ ∀ c, ¬ f.Offends c) ∧
    match f.toPredicate with
    | .error e =>
      ∃ before c after value fault, Column.all = before ++ c :: after ∧ f.value? c = some value ∧
        Breaks value fault ∧ (∀ d ∈ before, ¬ f.Offends d) ∧
        e = .invalidFilter (faultMessage c fault)
    | .ok p =>
      (p.isEmpty = true ↔ ∀ c, f.value? c = none) ∧
      (∀ r, p.holds r = true ↔ ∀ c value, f.value? c = some value → r.get c = value) ∧
      ∀ now, marks (scanRows p) = (scanValues now p).length ∧
        ∃ condition, condition? (scanRows p) = some condition ∧
          (∀ r : Record V, ∃ selected, holdsOf? r condition (scanValues now p) = some selected) ∧
          ∀ s : MemoryStore V, EventStore.scan now p s =
            (.ok ((s.rows.filter fun r =>
              holdsOf? r condition (scanValues now p) = some true).map Record.scanned), s) := by
  refine ⟨toPredicate_ok_iff, ?_⟩
  cases validity : f.toPredicate with
  | error e => exact toPredicate_error_first validity
  | ok p =>
    obtain rfl := toPredicate_ok validity
    refine ⟨isEmpty_setFields_iff, fun r => holds_setFields_iff, ?_⟩
    intro now
    refine ⟨marks_scanRows now _, _, condition?_scanRows _, ?_, ?_⟩
    · exact fun r => ⟨_, holdsOf?_scanCondition now _ r⟩
    · exact fun s => scan_eq_filter_holdsOf? now ⟨f.setFields⟩ s

end Filter

end TraceTally
