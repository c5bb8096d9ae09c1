import TraceTally.Proofs.Conservation
import TraceTally.Proofs.Removal

/-!
# Which rows can be named

A row is named by the filter whose three fields are its own. Writing takes any text for them, and a
filter does not: it refuses a value that is blank, too long or has control characters. So every
event that is inserted gets its row when it is flushed, but only the rows whose three values a
filter takes can be asked for and removed one key at a time.
-/

namespace TraceTally

variable {V : Type}

namespace Key

/-- The filter that names what rows of the key have. -/
def filter (k : Key) : Filter :=
  { traceId := some k.traceId, origin := some k.origin, eventName := some k.name }

/-- A filter takes the values of the key. -/
def Addressable (k : Key) : Prop :=
  Filter.ValidValue k.traceId ∧ Filter.ValidValue k.origin ∧ Filter.ValidValue k.name

theorem valid_filter_iff {k : Key} : k.filter.Valid ↔ k.Addressable := by
  simp [Filter.Valid, Filter.setFields, filter, Addressable]

theorem mayRemove_filter_iff {k : Key} : k.filter.MayRemove ↔ k.Addressable :=
  ⟨fun may => valid_filter_iff.mp may.1, fun named => ⟨valid_filter_iff.mpr named, rfl⟩⟩

theorem selects_filter (k : Key) : k.filter.Selects k := by
  simp [Filter.Selects, filter]

end Key

/-- A row of the key is stored. -/
def MemoryStore.HasRow (s : MemoryStore V) (k : Key) : Prop := ∃ r ∈ s.rows, r.key = k

namespace Timed.Flushed

variable {horizon : Instant} {s s' : Timed (FallibleMemory V) V} {batch : List (Record V)}
  {landed : List Bool} {k : Key}

theorem hasRow {answer : Except Failure Nat} (flushed : Flushed horizon s s' answer batch landed)
    (stored : s.collector.store.inner.HasRow k) : s'.collector.store.inner.HasRow k := by
  obtain ⟨r, hr, same⟩ := stored
  refine ⟨r, ?_, same⟩
  rw [flushed.rows]
  exact List.mem_append_left _ hr

theorem hasRow_of_ok {n : Nat} (flushed : Flushed horizon s s' (.ok n) batch landed)
    (waits : k ∈ s.collector.totals.entries.map Prod.fst) :
    s'.collector.store.inner.HasRow k := by
  rcases flushed.ending with ⟨-, written | nothing, -, -⟩ | ⟨e, failed, -, -⟩
  · have attempts : landed ≠ [] := by rintro rfl; cases written
    rw [← flushed.contents attempts, List.map_map] at waits
    obtain ⟨r, hr, same⟩ := List.mem_map.mp waits
    refine ⟨r, ?_, same⟩
    rw [flushed.rows, if_pos written]
    exact List.mem_append_right _ hr
  · rw [nothing] at waits
    cases waits
  · cases failed

end Timed.Flushed

variable [Add V]

theorem Totals.mem_keys_mergeAll {t : Totals V} {pairs : List (Key × V)} {k : Key} :
    k ∈ (t.mergeAll pairs).entries.map Prod.fst ↔
      k ∈ t.entries.map Prod.fst ∨ k ∈ pairs.map Prod.fst := by
  induction pairs generalizing t with
  | nil => simp [mergeAll]
  | cons p pairs ih =>
    have first : (t.mergeAll (p :: pairs)).entries = ((t.merge p.1 p.2).mergeAll pairs).entries :=
      rfl
    have keys := keys_mergePair p.1 p.2 t.entries
    rw [first, ih, merge, keys, List.map_cons, List.mem_cons, ← or_assoc]
    by_cases held : p.1 ∈ t.entries.map Prod.fst
    · rw [if_pos held]
      refine or_congr_left ⟨.inl, ?_⟩
      rintro (held' | rfl)
      · exact held'
      · exact held
    · rw [if_neg held, List.mem_append, List.mem_singleton]

/-- Each of the keys waits in the buffer or has a row, and no row goes before the horizon. -/
structure Keeps (horizon : Instant) (keys : List Key) (s : Timed (FallibleMemory V) V) : Prop where
  sound : s.collector.store.Sound s.clock.wall horizon
  spares : s.clock.Spares s.collector.policy.lifetime horizon
  held : ∀ k ∈ keys,
    k ∈ s.collector.totals.entries.map Prod.fst ∨ s.collector.store.inner.HasRow k

namespace Keeps

variable {horizon : Instant} {keys : List Key} {s : Timed (FallibleMemory V) V}

theorem mergeEntry (keeps : Keeps horizon keys s) (e : Entry V) :
    Keeps horizon (keys ++ e.pairs.map Prod.fst)
      { s with collector := s.collector.mergeEntry e } where
  sound := keeps.sound
  spares := keeps.spares
  held k hk := by
    have merged : k ∈ (s.collector.totals.mergeEntry e).entries.map Prod.fst ↔
        k ∈ s.collector.totals.entries.map Prod.fst ∨ k ∈ e.pairs.map Prod.fst :=
      Totals.mem_keys_mergeAll
    rcases List.mem_append.mp hk with hk | hk
    · rcases keeps.held k hk with waits | stored
      · exact .inl (merged.mpr (.inl waits))
      · exact .inr stored
    · exact .inl (merged.mpr (.inr hk))

/-- A flush that answers has stored what it took. -/
theorem flush (keeps : Keeps horizon keys s) {trigger : Trigger} {n : Nat}
    (answered : (s.flush trigger).1 = .ok n) (late : (s.flush trigger).2.clock.now ≤ horizon) :
    Keeps horizon keys (s.flush trigger).2 ∧
      ∀ k ∈ keys, (s.flush trigger).2.collector.store.inner.HasRow k := by
  have wall := (s.before_flush trigger).wall
  obtain ⟨batch, landed, flushed⟩ := Timed.flush_outcome late keeps.sound keeps.spares
  rw [answered] at flushed
  have stored : ∀ k ∈ keys, (s.flush trigger).2.collector.store.inner.HasRow k := by
    intro k hk
    rcases keeps.held k hk with waits | stored
    · exact flushed.hasRow_of_ok waits
    · exact flushed.hasRow stored
  refine ⟨⟨?_, ?_, fun k hk => .inr (stored k hk)⟩, stored⟩
  · rw [wall]
    exact flushed.sound
  · rw [flushed.policy]
    intro t t'
    rw [wall]
    exact keeps.spares t t'

theorem write (keeps : Keeps horizon keys s) {e : Entry V} (accepted : (s.write e).1 = .ok ())
    (late : (s.write e).2.clock.now ≤ horizon) :
    Keeps horizon (keys ++ e.pairs.map Prod.fst) (s.write e).2 := by
  have merged := keeps.mergeEntry e
  simp only [Timed.write] at accepted late ⊢
  cases trigger : Collector.trigger? s.clock.now (s.collector.mergeEntry e) with
  | none => exact merged
  | some t =>
    rw [trigger] at accepted late
    dsimp only at accepted late ⊢
    cases answer : (Timed.flush t { s with collector := s.collector.mergeEntry e }).1 with
    | error f =>
      rw [answer] at accepted
      cases accepted
    | ok n => exact (merged.flush answer late).1

theorem writes (keeps : Keeps horizon keys s) {entries : List (Entry V)}
    (accepted : (untilFailure Timed.write entries s).1 = .ok ())
    (late : (untilFailure Timed.write entries s).2.clock.now ≤ horizon) :
    Keeps horizon (keys ++ entries.flatMap fun e => e.pairs.map Prod.fst)
      (untilFailure Timed.write entries s).2 := by
  induction entries generalizing keys s with
  | nil => simpa [untilFailure] using keeps
  | cons e rest ih =>
    have first := @write V _ horizon keys s keeps e
    simp only [untilFailure] at accepted late ⊢
    cases written : s.write e with
    | mk r s₁ =>
      rw [written] at accepted late first
      cases r with
      | error f => cases accepted
      | ok =>
        have inTime : s₁.clock.now ≤ horizon :=
          (Timed.before_untilFailure rest s₁).now.trans late
        have others := ih (first rfl inTime) accepted late
        rwa [List.append_assoc] at others

theorem insert (keeps : Keeps horizon keys s) {entries : List (Entry V)}
    (accepted : (s.insert entries).1 = .ok ())
    (late : (s.insert entries).2.clock.now ≤ horizon) :
    Keeps horizon (keys ++ entries.flatMap fun e => e.pairs.map Prod.fst) (s.insert entries).2 :=
  have written := keeps.writes accepted late
  ⟨written.sound, written.spares, written.held⟩

end Keeps

namespace Collector

variable {c : Collector (FallibleMemory V) V} {r : Record V} {today : Int}

theorem query_filter (named : r.key.Addressable) (stored : r ∈ c.store.inner.rows)
    (live : r.isLive today = true) (scan : (c.store.consume .scan).1 = none) :
    ∃ answer, (c.query today r.key.filter).1 = .ok answer ∧
      ∃ value, ⟨r.key.name, value, r.key.unit⟩ ∈ answer := by
  obtain ⟨p, valid⟩ := Filter.toPredicate_ok_iff_valid.mpr (Key.valid_filter_iff.mpr named)
  have answers := Filter.isAnswer_sortedEvents valid today c.store.inner (.refl _)
  refine ⟨_, query_of_scan valid scan, ?_⟩
  exact (answers.exists_mem_iff _ _).mpr ⟨r, stored, live, r.key.selects_filter, rfl, rfl⟩

omit [Add V] in
theorem delete_filter (named : r.key.Addressable) (stored : r ∈ c.store.inner.rows)
    (live : r.isLive today = true) (scan : (c.store.consume .scan).1 = none)
    (passes : c.store.firstFault .delete
      (r.key.filter.selected today c.store.inner.rows).length = none) :
    ∃ removed, (c.delete today r.key.filter).1 = .ok removed ∧
      r ∉ (c.delete today r.key.filter).2.store.inner.rows := by
  obtain ⟨answer, inner⟩ :=
    (delete_cases today r.key.filter c).of_passes (Key.mayRemove_filter_iff.mpr named) scan passes
  refine ⟨_, answer, ?_⟩
  have selected : r ∈ r.key.filter.selected today c.store.inner.rows :=
    List.mem_filter.mpr ⟨stored, decide_eq_true ⟨live, r.key.selects_filter⟩⟩
  rw [inner, MemoryStore.eraseAll, List.mem_filter]
  rintro ⟨-, spared⟩
  exact of_decide_eq_true spared (List.mem_map_of_mem selected)

/-- Neither is tried on the store. -/
theorem refuses_filter (c : Collector (FallibleMemory V) V) (today : Int) {k : Key}
    (unnamed : ¬ k.Addressable) :
    (∃ reason, (c.query today k.filter).1 = .error (.invalidFilter reason)) ∧
    (∃ reason, (c.delete today k.filter).1 = .error (.invalidFilter reason)) ∧
      (c.delete today k.filter).2.store = c.store := by
  have invalid : ¬ ∃ p, k.filter.toPredicate = .ok p := by
    rwa [Filter.toPredicate_ok_iff_valid, Key.valid_filter_iff]
  have refused := (delete_cases today k.filter c).of_not_mayRemove
    (mt Key.mayRemove_filter_iff.mp unnamed)
  refine ⟨?_, refused⟩
  cases validity : k.filter.toPredicate with
  | ok p => exact absurd ⟨p, validity⟩ invalid
  | error e =>
    obtain ⟨reason, rfl⟩ := Filter.toPredicate_error validity
    exact ⟨reason, by simp only [query, TraceTally.query, validity]⟩

end Collector

/-- What is accepted and flushed has a row for each event. Whoever names a row that lives, by its
own three values, finds it and can remove it if a filter takes these values; otherwise the name is
refused, and the row stays. -/
theorem inserted_rows_addressable {s : Timed (FallibleMemory V) V} {entries : List (Entry V)}
    {trigger : Trigger} {n : Nat} (accepted : (s.insert entries).1 = .ok ())
    (flushed : ((s.insert entries).2.flush trigger).1 = .ok n) :
    let done := ((s.insert entries).2.flush trigger).2
    let c := done.collector
    let rows := c.store.inner.rows
    ∀ e ∈ entries, ∀ event ∈ e.events,
      let k := Key.ofEvent e event
      (∀ horizon, s.collector.store.Sound s.clock.wall horizon →
        s.clock.Spares s.collector.policy.lifetime horizon → done.clock.now ≤ horizon →
          ∃ r ∈ rows, r.key = k) ∧
      ∀ r ∈ rows, r.key = k → ∀ today, r.isLive today = true →
        (k.Addressable → (c.store.consume .scan).1 = none →
          (∃ answer, (c.query today k.filter).1 = .ok answer ∧
            ∃ value, ⟨k.name, value, k.unit⟩ ∈ answer) ∧
          (c.store.firstFault .delete (k.filter.selected today rows).length = none →
            ∃ removed, (c.delete today k.filter).1 = .ok removed ∧
              r ∉ (c.delete today k.filter).2.store.inner.rows)) ∧
        (¬ k.Addressable →
          (∃ reason, (c.query today k.filter).1 = .error (.invalidFilter reason)) ∧
          (∃ reason, (c.delete today k.filter).1 = .error (.invalidFilter reason)) ∧
          r ∈ (c.delete today k.filter).2.store.inner.rows) := by
  intro done c rows e he event hevent k
  constructor
  · intro horizon sound spares late
    have inTime : (s.insert entries).2.clock.now ≤ horizon :=
      ((s.insert entries).2.before_flush trigger).now.trans late
    -- Nothing is asked of the keys that were there before the entries.
    have keeps : Keeps horizon [] s := ⟨sound, spares, nofun⟩
    have stored := ((keeps.insert accepted inTime).flush flushed late).2
    apply stored
    rw [List.nil_append, List.mem_flatMap]
    exact ⟨e, he, List.mem_map.mpr ⟨(k, event.value), List.mem_map_of_mem hevent, rfl⟩⟩
  · rintro r stored same today live
    rw [← same]
    refine ⟨fun named scan => ⟨?_, fun passes => ?_⟩, fun unnamed => ?_⟩
    · exact Collector.query_filter named stored live scan
    · exact Collector.delete_filter named stored live scan passes
    · obtain ⟨query, delete, unchanged⟩ := Collector.refuses_filter c today unnamed
      refine ⟨query, delete, ?_⟩
      rw [unchanged]
      exact stored

/-- A collector without rows, on a store that never fails. -/
def newlyStarted : Timed (FallibleMemory Nat) Nat :=
  Timed.fresh ⟨9, .ofSeconds 60, .ofSeconds 3600, {}⟩ ⟨⟨0⟩, fun _ => 0⟩ id fun _ => []

def oneEvent (traceId : String) : Entry Nat := ⟨"o", traceId, [⟨"a", 3, "u"⟩]⟩

theorem inserted_rows_addressable_oneEvent :
    let inserted := newlyStarted.insert [oneEvent "t"]
    let flushed := inserted.2.flush .manual
    let k : Key := ⟨"o", "t", "a", "u"⟩
    inserted.1 = .ok () ∧ flushed.1 = .ok 1 ∧ k.Addressable ∧
      ∃ answer, (flushed.2.collector.query 0 k.filter).1 = .ok answer ∧
        ∃ value, ⟨"a", value, "u"⟩ ∈ answer := by
  intro inserted flushed k
  have accepted : inserted.1 = .ok () := by decide +kernel
  have answered : flushed.1 = .ok 1 := by decide +kernel
  have named : k.Addressable := by
    rw [← Key.valid_filter_iff, ← Filter.toPredicate_ok_iff_valid]
    exact ⟨⟨k.filter.setFields⟩, by decide +kernel⟩
  have stored : (⟨0, k, 3, 0, 3600000⟩ : Record Nat) ∈ flushed.2.collector.store.inner.rows := by
    decide +kernel
  have addressed := (inserted_rows_addressable accepted answered (oneEvent "t")
    List.mem_cons_self ⟨"a", 3, "u"⟩ List.mem_cons_self).2 _ stored rfl 0 rfl
  exact ⟨accepted, answered, named, (addressed.1 named (by decide +kernel)).1⟩

/-- A blank trace is accepted, and its row can be neither asked for nor removed by its name. -/
theorem blank_trace_not_addressable :
    let inserted := newlyStarted.insert [oneEvent " "]
    let flushed := inserted.2.flush .manual
    let c := flushed.2.collector
    let r : Record Nat := ⟨0, Key.ofEvent (oneEvent " ") ⟨"a", 3, "u"⟩, 3, 0, 3600000⟩
    let refused := Failure.invalidFilter "trace_id must not be blank"
    inserted.1 = .ok () ∧ flushed.1 = .ok 1 ∧ r ∈ c.store.inner.rows ∧
      r.isLive flushed.2.clock.today = true ∧
      (c.query flushed.2.clock.today r.key.filter).1 = .error refused ∧
      (c.delete flushed.2.clock.today r.key.filter).1 = .error refused ∧
      r ∈ (c.delete flushed.2.clock.today r.key.filter).2.store.inner.rows := by
  decide +kernel

end TraceTally
