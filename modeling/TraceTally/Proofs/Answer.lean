import TraceTally.Proofs.Query
import TraceTally.Proofs.Sums
import TraceTally.Proofs.TextOrder

/-!
# The answer to a query

What the answer has to be is said of the rows alone: one event per name and unit of a live row that
the filter selects, with the sum of the values of these rows, in the order of name and unit. There
is only one such list, so neither the order of the totals nor, if addition is exact, that of the
rows can show in it.
-/

namespace TraceTally

variable {V : Type}

namespace Filter

/-- The fields that are set are those of the key. -/
def Selects (f : Filter) (k : Key) : Prop :=
  (∀ t ∈ f.traceId, k.traceId = t) ∧ (∀ o ∈ f.origin, k.origin = o) ∧ ∀ e ∈ f.eventName, k.name = e

instance (f : Filter) (k : Key) : Decidable (f.Selects k) :=
  inferInstanceAs (Decidable (_ ∧ _ ∧ _))

theorem toPredicate_ok {f : Filter} {p : Predicate} (valid : f.toPredicate = .ok p) :
    p = ⟨f.setFields⟩ := by
  unfold toPredicate at valid
  split at valid
  · cases valid
  · exact (Except.ok.inj valid).symm

theorem toPredicate_error {f : Filter} {e : Failure} (invalid : f.toPredicate = .error e) :
    ∃ reason, e = .invalidFilter reason := by
  unfold toPredicate at invalid
  split at invalid
  · exact ⟨_, (Except.error.inj invalid).symm⟩
  · cases invalid

/-- What the value of a field has to be. -/
structure ValidValue (value : String) : Prop where
  notBlank : ∃ c ∈ value.toList, Text.isBlank c = false
  short : Text.byteLength value.toList ≤ maxValueBytes
  printable : ∀ c ∈ value.toList, Text.isControl c = false

/-- No field that is set breaks a rule. -/
def Valid (f : Filter) : Prop := ∀ field ∈ f.setFields, ValidValue field.2

theorem valueFault?_eq_none_iff {value : String} : valueFault? value = none ↔ ValidValue value := by
  unfold valueFault?
  dsimp only
  split
  · rename_i blank
    refine ⟨nofun, fun valid => ?_⟩
    obtain ⟨c, hc, visible⟩ := valid.notBlank
    rw [List.all_eq_true.mp blank c hc] at visible
    cases visible
  · rename_i visible
    split
    · rename_i long
      exact ⟨nofun, fun valid => absurd valid.short (Nat.not_le_of_lt long)⟩
    · rename_i short
      split
      · rename_i control
        refine ⟨nofun, fun valid => ?_⟩
        obtain ⟨c, hc, isControl⟩ := List.any_eq_true.mp control
        rw [valid.printable c hc] at isControl
        cases isControl
      · rename_i printable
        refine ⟨fun _ => ⟨?_, Nat.le_of_not_lt short, ?_⟩, fun _ => rfl⟩
        · simpa using visible
        · simpa using printable

theorem toPredicate_ok_iff_valid {f : Filter} : (∃ p, f.toPredicate = .ok p) ↔ f.Valid := by
  have faultless : f.firstFault? = none ↔ f.Valid := by
    simp [firstFault?, Valid, ← valueFault?_eq_none_iff]
  rw [← faultless]
  unfold toPredicate
  cases f.firstFault? with
  | some fault => exact ⟨nofun, nofun⟩
  | none => exact ⟨fun _ => rfl, fun _ => ⟨_, rfl⟩⟩

theorem holds_iff {f : Filter} {p : Predicate} (valid : f.toPredicate = .ok p) (r : Record V) :
    p.holds r.row = true ↔ f.Selects r.key := by
  rw [toPredicate_ok valid, Predicate.holds, Selects]
  obtain ⟨traceId, origin, eventName⟩ := f
  cases traceId <;> cases origin <;> cases eventName <;>
    simp [setFields, Row.get, Record.row]

/-- The values that count for a name and a unit, whatever origin and trace they have. -/
def contributions (f : Filter) (now : Int) (name unit : String) (rows : List (Record V)) : List V :=
  (rows.filter fun r => r.isLive now ∧ f.Selects r.key ∧ r.key.name = name ∧ r.key.unit = unit).map
    Record.value

theorem contributions_ne_nil_iff {f : Filter} {now : Int} {name unit : String}
    {rows : List (Record V)} : f.contributions now name unit rows ≠ [] ↔
      ∃ r ∈ rows,
        r.isLive now = true ∧ f.Selects r.key ∧ r.key.name = name ∧ r.key.unit = unit := by
  simp [contributions, List.filter_eq_nil_iff]

end Filter

theorem mem_sortedEvents {pairs : List (Key × V)} {name unit : String} {value : V} :
    ⟨name, value, unit⟩ ∈ sortedEvents pairs ↔
      ∃ k, (k, value) ∈ pairs ∧ k.name = name ∧ k.unit = unit := by
  rw [sortedEvents, List.mem_mergeSort, List.mem_map]
  constructor
  · rintro ⟨⟨k, v⟩, member, same⟩
    obtain ⟨rfl, rfl, rfl⟩ := Event.mk.inj same
    exact ⟨k, member, rfl, rfl⟩
  · rintro ⟨k, member, rfl, rfl⟩
    exact ⟨(k, value), member, rfl⟩

/-- No two pairs give an event of the same name and unit. -/
def Separate (pairs : List (Key × V)) : Prop :=
  pairs.Pairwise fun p q => ¬ (p.1.name = q.1.name ∧ p.1.unit = q.1.unit)

theorem bne_gt_eq_isLE (o : Ordering) : (o != .gt) = o.isLE := by
  cases o <;> rfl

theorem sortedEvents_increasing {pairs : List (Key × V)} (separate : Separate pairs) :
    (sortedEvents pairs).Pairwise fun a b => a.compare b = .lt := by
  have ordered : (sortedEvents pairs).Pairwise fun a b => (a.compare b != .gt) = true := by
    apply List.pairwise_mergeSort
    · intro a b c ab bc
      rw [bne_gt_eq_isLE] at ab bc ⊢
      exact Std.TransCmp.isLE_trans ab bc
    · intro a b
      rw [b.compare_swap a]
      cases a.compare b <;> rfl
  have different : (sortedEvents pairs).Pairwise fun a b =>
      ¬ (a.name = b.name ∧ a.unit = b.unit) := by
    refine (List.mergeSort_perm _ _).symm.pairwise (List.pairwise_map.mpr separate) ?_
    intro a b apart same
    exact apart ⟨same.1.symm, same.2.symm⟩
  refine (ordered.and different).imp ?_
  rintro a b ⟨le, apart⟩
  cases order : a.compare b with
  | lt => rfl
  | eq => exact absurd (Event.eq_of_compare order) apart
  | gt => simp [order] at le

/-- An increasing list is determined by its events. -/
theorem eq_of_increasing {l l' : List (Event V)}
    (increasing : l.Pairwise fun a b => a.compare b = .lt)
    (increasing' : l'.Pairwise fun a b => a.compare b = .lt) (same : ∀ e, e ∈ l ↔ e ∈ l') :
    l = l' := by
  have distinct : ∀ l : List (Event V), l.Pairwise (fun a b => a.compare b = .lt) → l.Nodup := by
    intro l increasing
    refine increasing.imp ?_
    rintro a _ lt rfl
    rw [Event.compare_self] at lt
    cases lt
  apply List.Perm.eq_of_pairwise _ increasing increasing'
  · exact (List.perm_ext_iff_of_nodup (distinct l increasing) (distinct l' increasing')).mpr same
  · intro a b _ _ lt gt
    rw [Event.compare_swap, gt] at lt
    cases lt

variable [Add V]

namespace Filter

/-- The list answers the filter's question about the rows at that time. -/
structure IsAnswer (f : Filter) (now : Int) (rows : List (Record V)) (events : List (Event V)) :
    Prop where
  increasing : events.Pairwise fun a b => a.compare b = .lt
  sums : ∀ name unit value,
    ⟨name, value, unit⟩ ∈ events ↔ leftSum (f.contributions now name unit rows) = some value

namespace IsAnswer

variable {f : Filter} {now now' : Int} {rows rows' : List (Record V)}
  {events events' : List (Event V)}

theorem exists_mem_iff (answer : f.IsAnswer now rows events) (name unit : String) :
    (∃ value, ⟨name, value, unit⟩ ∈ events) ↔
      ∃ r ∈ rows,
        r.isLive now = true ∧ f.Selects r.key ∧ r.key.name = name ∧ r.key.unit = unit := by
  rw [← contributions_ne_nil_iff, Ne, ← leftSum_eq_none_iff, ← Ne, Option.ne_none_iff_exists']
  exact exists_congr (answer.sums name unit)

theorem unique (answer : f.IsAnswer now rows events) (answer' : f.IsAnswer now' rows' events')
    (same : ∀ name unit, leftSum (f.contributions now name unit rows) =
      leftSum (f.contributions now' name unit rows')) : events = events' := by
  apply eq_of_increasing answer.increasing answer'.increasing
  rintro ⟨name, value, unit⟩
  rw [answer.sums, answer'.sums, same]

end IsAnswer

omit [Add V] in
/-- Every row that is summed has a key of the filter's origin and trace. -/
theorem valuesAt_keyOf {f : Filter} {p : Predicate} (valid : f.toPredicate = .ok p) (now : Int)
    (s : MemoryStore V) (name unit : String) :
    valuesAt ⟨f.origin.getD "", f.traceId.getD "", name, unit⟩
        ((s.select now p).map fun row => (f.keyOf row, row.value)) =
      f.contributions now name unit s.rows := by
  rw [valuesAt, MemoryStore.select, List.map_map, List.filter_map, List.filter_filter, List.map_map,
    contributions]
  have same : ∀ r : Record V, (decide (f.keyOf r.scanned =
      ⟨f.origin.getD "", f.traceId.getD "", name, unit⟩) && (r.isLive now && p.holds r.row)) =
      decide (r.isLive now ∧ f.Selects r.key ∧ r.key.name = name ∧ r.key.unit = unit) := by
    intro r
    rw [Bool.eq_iff_iff]
    simp only [Bool.and_eq_true, decide_eq_true_eq, holds_iff valid, keyOf, Record.scanned,
      Key.mk.injEq, true_and]
    tauto
  exact congrArg (List.map Record.value) (List.filter_congr fun r _ => same r)

theorem key_of_mem_aggregate {f : Filter} {rows : List (ScannedRow V)} {k : Key} {v : V}
    (member : (k, v) ∈ (f.aggregate rows).entries) :
    k = ⟨f.origin.getD "", f.traceId.getD "", k.name, k.unit⟩ := by
  have summed : leftSum (valuesAt k (rows.map fun row => (f.keyOf row, row.value))) = some v := by
    rw [← Totals.get?_mergeAll_empty, Totals.get?_eq_some_iff]
    exact member
  have some_ : valuesAt k (rows.map fun row => (f.keyOf row, row.value)) ≠ [] := by
    rw [Ne, ← leftSum_eq_none_iff, summed]
    nofun
  obtain ⟨w, hw⟩ := List.exists_mem_of_ne_nil _ some_
  obtain ⟨⟨k', v'⟩, found, -⟩ := List.mem_map.mp hw
  obtain ⟨found, same⟩ := List.mem_filter.mp found
  obtain ⟨row, -, eq⟩ := List.mem_map.mp found
  obtain ⟨rfl, -⟩ := Prod.mk.inj eq
  rw [← of_decide_eq_true same]
  rfl

theorem separate_aggregate (f : Filter) (rows : List (ScannedRow V)) :
    Separate (f.aggregate rows).entries := by
  have distinct := List.pairwise_map.mp (f.aggregate rows).nodup
  refine distinct.imp_of_mem ?_
  rintro ⟨k, v⟩ ⟨k', v'⟩ member member' different ⟨name, unit⟩
  apply different
  dsimp only at name unit ⊢
  rw [key_of_mem_aggregate member, key_of_mem_aggregate member', name, unit]

/-- In whatever order the totals are gone through, their events answer the question. -/
theorem isAnswer_sortedEvents {f : Filter} {p : Predicate} (valid : f.toPredicate = .ok p)
    (now : Int) (s : MemoryStore V) {pairs : List (Key × V)}
    (perm : pairs.Perm (f.aggregate (s.select now p)).entries) :
    f.IsAnswer now s.rows (sortedEvents pairs) where
  increasing := by
    apply sortedEvents_increasing
    refine perm.symm.pairwise (f.separate_aggregate _) ?_
    intro a b apart same
    exact apart ⟨same.1.symm, same.2.symm⟩
  sums name unit value := by
    rw [mem_sortedEvents, ← valuesAt_keyOf valid, ← Totals.get?_mergeAll_empty,
      Totals.get?_eq_some_iff]
    constructor
    · rintro ⟨k, member, rfl, rfl⟩
      have member := perm.mem_iff.mp member
      rwa [key_of_mem_aggregate member] at member
    · intro member
      exact ⟨_, perm.mem_iff.mpr member, rfl, rfl⟩

theorem IsAnswer.of_perm [Std.Associative (α := V) (· + ·)] [Std.Commutative (α := V) (· + ·)]
    {f : Filter} {now : Int} {rows rows' : List (Record V)} {events : List (Event V)}
    (answer : f.IsAnswer now rows events) (perm : rows'.Perm rows) :
    f.IsAnswer now rows' events where
  increasing := answer.increasing
  sums name unit value := by
    have summed : leftSum (f.contributions now name unit rows') =
        leftSum (f.contributions now name unit rows) :=
      leftSum_perm ((perm.filter _).map _)
    rw [summed, answer.sums]

end Filter

namespace Collector

/-- The same collector over other rows. -/
def withRows (rows : List (Record V)) (c : Collector (FallibleMemory V) V) :
    Collector (FallibleMemory V) V :=
  { c with store := { c.store with inner := { c.store.inner with rows } } }

omit [Add V] in
theorem consume_withRows (point : FaultPoint) (rows : List (Record V))
    (c : Collector (FallibleMemory V) V) :
    ((c.withRows rows).store.consume point).1 = (c.store.consume point).1 := by
  simp only [FaultyStore.consume, withRows]
  cases c.store.plan point <;> rfl

/-- A query leaves the buffer and the rows alone. A filter that is not valid is refused without a
scan, and a scan that fails leaves no answer; otherwise there is one list that answers, whatever
order the totals are gone through and, if addition is exact, the rows are stored in. -/
theorem query_isAnswer (today : Int) (f : Filter) (c : Collector (FallibleMemory V) V) :
    let asked := c.query today f
    (asked.2.totals = c.totals ∧ asked.2.lastExport = c.lastExport ∧
      asked.2.store.inner = c.store.inner ∧ asked.2.store.journal = c.store.journal) ∧
    (∀ e, f.toPredicate = .error e →
      asked.1 = .error e ∧ (∃ reason, e = .invalidFilter reason) ∧ asked.2.store = c.store) ∧
    ∀ p, f.toPredicate = .ok p →
      (∀ e, (c.store.consume .scan).1 = some e → asked.1 = .error e) ∧
      ((c.store.consume .scan).1 = none → ∃ answer, asked.1 = .ok answer ∧
        f.IsAnswer today c.store.inner.rows answer ∧
        (∀ name unit, (∃ value, ⟨name, value, unit⟩ ∈ answer) ↔
          ∃ r ∈ c.store.inner.rows,
            r.isLive today = true ∧ f.Selects r.key ∧ r.key.name = name ∧ r.key.unit = unit) ∧
        (∀ pairs : List (Key × V),
          pairs.Perm (f.aggregate (c.store.inner.select today p)).entries →
            sortedEvents pairs = answer) ∧
        (Std.Associative (α := V) (· + ·) → Std.Commutative (α := V) (· + ·) →
          ∀ rows : List (Record V), rows.Perm c.store.inner.rows →
            ((c.withRows rows).query today f).1 = .ok answer)) := by
  intro asked
  have answered : ∀ (p : Predicate) (c : Collector (FallibleMemory V) V),
      f.toPredicate = .ok p → (c.store.consume .scan).1 = none →
      (c.query today f).1 = .ok (f.aggregate (c.store.inner.select today p)).events := by
    intro p c valid passes
    simp only [query, ← queryBy_entries, queryBy_of_ok valid, passes]
    rfl
  refine ⟨⟨rfl, rfl, ?_⟩, ?_, ?_⟩
  · cases validity : f.toPredicate with
    | error e => simp only [asked, query, ← queryBy_entries, queryBy_of_error validity, count,
        and_self]
    | ok p =>
      simp only [asked, query, ← queryBy_entries, queryBy_of_ok validity, count,
        FaultyStore.inner_consume, FaultyStore.journal_consume, and_self]
  · intro e invalid
    refine ⟨?_, f.toPredicate_error invalid, ?_⟩ <;>
      simp only [asked, query, ← queryBy_entries, queryBy_of_error invalid, count]
  · intro p valid
    constructor
    · intro e fails
      simp only [asked, query, ← queryBy_entries, queryBy_of_ok valid, fails]
    · intro passes
      have answer := f.isAnswer_sortedEvents valid today c.store.inner (.refl _)
      refine ⟨_, answered p c valid passes, answer, answer.exists_mem_iff, ?_, ?_⟩
      · intro pairs perm
        exact (f.isAnswer_sortedEvents valid today c.store.inner perm).unique answer fun _ _ => rfl
      · intro _ _ rows perm
        have passes' : ((c.withRows rows).store.consume .scan).1 = none := by
          rwa [consume_withRows]
        have answer' := f.isAnswer_sortedEvents valid today (c.withRows rows).store.inner (.refl _)
        rw [answered p (c.withRows rows) valid passes']
        exact congrArg Except.ok (answer'.unique (answer.of_perm perm) fun _ _ => rfl)

/-- One flush put the same measurement of two traces down, and an older row has expired. -/
def twoTraces : Collector (FallibleMemory Nat) Nat :=
  (start ⟨9, .ofSeconds 60, .ofSeconds 3600, {}⟩ { inner := {} } ⟨0⟩).withRows
    [⟨0, ⟨"o", "t", "a", "u"⟩, 2, 0, 5⟩, ⟨1, ⟨"o", "t", "b", "u"⟩, 3, 0, 100⟩,
      ⟨2, ⟨"o", "t'", "b", "u"⟩, 4, 0, 100⟩]

theorem query_isAnswer_twoTraces :
    ∃ answer, (twoTraces.query 5 { origin := some "o" }).1 = .ok answer ∧
      (⟨"b", 7, "u"⟩ ∈ answer) ∧ ¬ ∃ value, ⟨"a", value, "u"⟩ ∈ answer := by
  obtain ⟨answer, asked, isAnswer, present, -⟩ :=
    ((query_isAnswer 5 { origin := some "o" } twoTraces).2.2 ⟨[(.origin, "o")]⟩ rfl).2 rfl
  refine ⟨answer, asked, (isAnswer.sums _ _ _).mpr (by decide +kernel), ?_⟩
  rw [present]
  decide +kernel

end Collector

end TraceTally
