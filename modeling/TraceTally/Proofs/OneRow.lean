import TraceTally.Proofs.Flight

/-!
# One row per key

All attempts of a flush submit the same records, and a record that is written again takes the place
of its row. So the rows a flush adds are those of a single write, however many of its attempts the
store took. Nothing is assumed of the clock here, and rows may expire meanwhile.
-/

namespace TraceTally

variable {V : Type}

def Record.StaysLive (wall : Instant → Int) (start stop : Instant) (r : Record V) : Prop :=
  ∀ t : Instant, start ≤ t → t ≤ stop → r.isLive (wall t) = true

theorem Record.StaysLive.of_later {wall : Instant → Int} {start stop stop' : Instant} {r : Record V}
    (stays : r.StaysLive wall start stop') (later : stop ≤ stop') : r.StaysLive wall start stop :=
  fun t started ended => stays t started (ended.trans later)

/-- The clock is never set back. -/
def RunsForward (wall : Instant → Int) : Prop := ∀ t t' : Instant, t ≤ t' → wall t ≤ wall t'

/-- What has not expired at the end never had. -/
theorem Record.staysLive_of_runsForward {wall : Instant → Int} {stop : Instant} {r : Record V}
    (forward : RunsForward wall) (live : r.isLive (wall stop) = true) (start : Instant) :
    r.StaysLive wall start stop := by
  intro t _ ended
  rw [Record.isLive, decide_eq_true_eq] at live ⊢
  exact Int.lt_of_le_of_lt (forward t stop ended) live

/-- The rows after a flush that began with the rows `base`: unchanged if its batch was not stored,
else what did not expire meanwhile, and the batch. -/
def Gained (wall : Instant → Int) (start stop : Instant) (base batch : List (Record V)) :
    Bool → List (Record V) → Prop
  | false, rows => rows = base
  | true, rows => ∃ kept : Record V → Bool, rows = base.filter kept ++ batch ∧
      ∀ r ∈ base, r.StaysLive wall start stop → kept r = true

namespace Gained

variable {wall : Instant → Int} {start now stop : Instant} {base batch rows : List (Record V)}
  {stored : Bool}

theorem of_later (gained : Gained wall start now base batch stored rows) (later : now ≤ stop) :
    Gained wall start stop base batch stored rows := by
  cases stored with
  | false => exact gained
  | true =>
    obtain ⟨kept, same, stays⟩ := gained
    exact ⟨kept, same, fun r hr long => stays r hr (long.of_later later)⟩

theorem write {s s' : MemoryStore V} (gained : Gained wall start now base batch stored s.rows)
    (unused : ∀ r ∈ base, ∀ new ∈ batch, new.id ≠ r.id) (started : start ≤ now)
    (written : s' = s.write (wall now) batch) : Gained wall start now base batch true s'.rows := by
  subst written
  set stays : Record V → Bool := fun r => r.isLive (wall now) && !batch.any fun new => new.id = r.id
    with stays_eq
  have staying : ∀ r ∈ base, r.StaysLive wall start now → stays r = true := by
    intro r hr live
    simp only [stays_eq, live now started le_rfl, Bool.true_and, Bool.not_eq_true',
      List.any_eq_false, decide_eq_true_eq]
    exact unused r hr
  have replaced : batch.filter stays = [] := by
    apply List.filter_eq_nil_iff.mpr
    intro r hr
    simp only [stays_eq, Bool.and_eq_true, Bool.not_eq_true', List.any_eq_false,
      decide_eq_true_eq, not_and, not_forall, not_not]
    exact fun _ => ⟨r, hr, rfl⟩
  cases stored with
  | false =>
    have same : s.rows = base := gained
    exact ⟨stays, by rw [MemoryStore.write, ← same], staying⟩
  | true =>
    obtain ⟨kept, same, keeps⟩ := gained
    refine ⟨fun r => stays r && kept r, ?_, ?_⟩
    · rw [← List.filter_filter]
      simp only [MemoryStore.write, same, List.filter_append]
      change _ ++ batch.filter stays ++ batch = _
      rw [replaced, List.append_nil]
    · intro r hr live
      simp only [staying r hr live, keeps r hr live, Bool.and_self]

/-- A row that has not expired is still there. -/
theorem mem_of_isLive (gained : Gained wall start stop base batch stored rows)
    (forward : RunsForward wall) {r : Record V} (hr : r ∈ base)
    (live : r.isLive (wall stop) = true) : r ∈ rows := by
  cases stored with
  | false =>
    have same : rows = base := gained
    rwa [same]
  | true =>
    obtain ⟨kept, same, stays⟩ := gained
    rw [same]
    apply List.mem_append_left
    exact List.mem_filter.mpr ⟨hr, stays r hr (Record.staysLive_of_runsForward forward live start)⟩

end Gained

namespace FaultyStore

variable {σ : Type}

/-- How the first of the next `n` calls of this kind fails that does. -/
def firstFault (point : FaultPoint) (n : Nat) (s : FaultyStore σ V) : Option Failure :=
  ((s.plan point).take n).findSome? id

theorem firstFault_succ (point : FaultPoint) (n : Nat) (s : FaultyStore σ V) :
    s.firstFault point (n + 1) =
      (s.consume point).1.or ((s.consume point).2.firstFault point n) := by
  unfold consume
  cases planned : s.plan point with
  | nil => simp [firstFault, planned]
  | cons f rest => cases f <;> simp [firstFault, planned, setPlan]

end FaultyStore

namespace FallibleMemory

theorem buildBatch_eq_error_iff (today : Int) (lifetime : Duration) (pairs : List (Key × V))
    (s : FallibleMemory V) (e : Failure) :
    (buildBatch today lifetime pairs s).1 = .error e ↔
      s.firstFault .newId pairs.length = some e := by
  induction pairs generalizing s with
  | nil => simp [buildBatch, FaultyStore.firstFault]
  | cons p rest ih =>
    obtain ⟨key, value⟩ := p
    rw [List.length_cons, FaultyStore.firstFault_succ]
    simp only [buildBatch, EventStore.newRowId, FaultyStore.guarded]
    cases s.consume .newId with
    | mk fault s₁ =>
      cases fault with
      | some e' => simp
      | none =>
        have later := ih { s₁ with inner := s₁.inner.mint.2 }
        have same : FaultyStore.firstFault .newId rest.length { s₁ with inner := s₁.inner.mint.2 } =
          s₁.firstFault .newId rest.length := rfl
        rw [same] at later
        rw [Option.none_or, ← later]
        dsimp only
        split <;> simp_all

/-- The next `n` identifiers. -/
def upcoming (n : Nat) (s : FallibleMemory V) : List RowId :=
  (List.range' s.inner.minted n).map s.inner.source

/-- The next `n` identifiers are distinct, and no row has one of them. -/
structure FreshIds (n : Nat) (s : FallibleMemory V) : Prop where
  distinct : (s.upcoming n).Nodup
  unused : ∀ r ∈ s.inner.rows, r.id ∉ s.upcoming n

end FallibleMemory

variable [Add V]

/-- Whatever an attempt leads to, it submits the flush's records, and only a stored batch is
acknowledged. -/
theorem Collector.attempt_gained {clock : Clock} {f : Flight V}
    {c : Collector (FallibleMemory V) V} {start : Instant} {base : List (Record V)} {stored : Bool}
    (nonempty : f.records ≠ []) (unused : ∀ r ∈ base, ∀ new ∈ f.records, new.id ≠ r.id)
    (empty : c.totals = .empty) (started : start ≤ clock.now)
    (gained : Gained clock.wall start clock.now base f.records stored c.store.inner.rows) :
    let a := c.attempt clock f
    ∃ landed answer, AttemptCase clock f c a.2 answer a.1 ∧
      a.2.store.journal = c.store.journal ++ [⟨f.records, landed⟩] ∧
      Gained clock.wall start clock.now base f.records (stored || landed) a.2.store.inner.rows ∧
      (answer = .ok () → landed = true) := by
  intro a
  obtain ⟨store, -, outcome⟩ := attempt_cases clock nonempty empty
  rcases FallibleMemory.writeBatch_cases clock.today f.records c.store with
    ⟨e, failed, inner, journal, -⟩ | ⟨inner, journal, -⟩
  · rw [failed] at outcome
    refine ⟨false, _, outcome, store ▸ journal, ?_, nofun⟩
    rw [Bool.or_false, show a.2.store.inner = c.store.inner from store ▸ inner]
    exact gained
  · refine ⟨true, _, outcome, store ▸ journal, ?_, fun _ => rfl⟩
    rw [Bool.or_true]
    exact gained.write unused started (store ▸ inner)

namespace Timed

theorem finish_gained {f : Flight V} {s : Timed (FallibleMemory V) V} {start : Instant}
    {base : List (Record V)} {stored : Bool} (nonempty : f.records ≠ [])
    (unused : ∀ r ∈ base, ∀ new ∈ f.records, new.id ≠ r.id) (empty : s.collector.totals = .empty)
    (started : start ≤ s.clock.now)
    (gained : Gained s.clock.wall start s.clock.now base f.records stored
      s.collector.store.inner.rows) :
    let s' := (s.finish f).2
    ∃ landed : List Bool, landed ≠ [] ∧
      s'.collector.store.journal = s.collector.store.journal ++ landed.map (⟨f.records, ·⟩) ∧
      Gained s.clock.wall start s'.clock.now base f.records (stored || landed.any id)
        s'.collector.store.inner.rows ∧
      ∀ n, (s.finish f).1 = .ok n → n = f.taken.size ∧ landed.any id = true := by
  fun_induction Timed.finish f s generalizing stored with
  | case1 f s r c h =>
    obtain ⟨landed, answer, outcome, journal, gained', wrote⟩ :=
      Collector.attempt_gained nonempty unused empty started gained
    rw [h] at outcome journal gained'
    refine ⟨[landed], List.cons_ne_nil _ _, journal, by simpa using gained', ?_⟩
    intro n answered
    cases outcome with
    | written => exact ⟨(Except.ok.inj answered).symm, by simpa using wrote rfl⟩
    | gaveUp => cases answered
  | case2 f s d f' c h this ih =>
    obtain ⟨landed, answer, outcome, journal, gained', -⟩ :=
      Collector.attempt_gained nonempty unused empty started gained
    rw [h] at outcome journal gained'
    cases outcome with
    | @again e d loop _ totals _ =>
      have later : s.clock.now ≤ s.clock.now + d := Duration.le_add _ _
      have journal : c.store.journal = s.collector.store.journal ++ [⟨f.records, landed⟩] := journal
      obtain ⟨rest, -, journal', gained'', answered⟩ :=
        ih nonempty unused totals (started.trans later) (gained'.of_later later)
      refine ⟨landed :: rest, List.cons_ne_nil _ _, ?_, ?_, ?_⟩
      · rw [journal']
        simp [pass, journal]
      · have all : (stored || (landed :: rest).any id) = (stored || landed || rest.any id) := by
          simp [Bool.or_assoc]
        rw [all]
        exact gained''
      · intro n ended
        obtain ⟨size, wrote⟩ := answered n ended
        exact ⟨size, by simp [wrote]⟩

/-- A flush of a buffer that is not empty. Either some identifier cannot be made, and the store is
left as it is; or all attempts submit one batch, which has one record per key, and the rows are
those of one write of it, or of none. Only a stored batch is answered by the number of keys. -/
theorem flush_stores_one_row_per_key (trigger : Trigger) (s : Timed (FallibleMemory V) V)
    (nonempty : s.collector.totals.entries ≠ [])
    (fresh : s.collector.store.FreshIds s.collector.totals.size) :
    let before := s.collector.store
    let done := s.flush trigger
    let after := done.2.collector.store
    (∀ e, before.firstFault .newId s.collector.totals.size = some e →
      done.1 = .error e ∧ after.journal = before.journal ∧ after.inner.rows = before.inner.rows) ∧
    (before.firstFault .newId s.collector.totals.size = none →
      ∃ (batch : List (Record V)) (landed : List Bool),
        batch.map Record.pair = s.collector.totals.entries ∧ (batch.map Record.id).Nodup ∧
        (∀ r ∈ before.inner.rows, r.id ∉ batch.map Record.id) ∧
        landed ≠ [] ∧ after.journal = before.journal ++ landed.map (⟨batch, ·⟩) ∧
        Gained s.clock.wall s.clock.now done.2.clock.now before.inner.rows batch (landed.any id)
          after.inner.rows ∧
        (RunsForward s.clock.wall → ∀ r ∈ before.inner.rows,
          r.isLive done.2.clock.today = true → r ∈ after.inner.rows) ∧
        ∀ n, done.1 = .ok n → n = s.collector.totals.size ∧ landed.any id = true) := by
  have failing := FallibleMemory.buildBatch_eq_error_iff s.clock.today s.collector.policy.lifetime
    s.collector.totals.entries s.collector.store
  obtain ⟨same, built⟩ := FallibleMemory.buildBatch_cases s.clock.today s.collector.policy.lifetime
    s.collector.totals.entries s.collector.store
  cases batch : buildBatch s.clock.today s.collector.policy.lifetime s.collector.totals.entries
    s.collector.store with
  | mk r store =>
    rw [batch] at failing same built
    dsimp only at failing same built
    cases r with
    | error e =>
      obtain ⟨c, begun, left, -⟩ := Collector.beginFlush_of_error trigger nonempty batch
      have found := (failing e).mp rfl
      refine ⟨?_, fun none => absurd (found.symm.trans none) (Option.some_ne_none _)⟩
      intro e' first
      obtain rfl : e = e' := Option.some.inj (found.symm.trans first)
      simp only [flush, begun, resume, left]
      exact ⟨trivial, same.journal, same.rows⟩
    | ok records =>
      refine ⟨fun e first => (by cases (failing e).mpr first), fun _ => ?_⟩
      rcases built with ⟨e, failed, -⟩ | ⟨_, ⟨⟩, made⟩
      · cases failed
      have ids : records.map Record.id = s.collector.store.upcoming s.collector.totals.size :=
        made.ids
      have unused : ∀ r ∈ s.collector.store.inner.rows, ∀ new ∈ records, new.id ≠ r.id := by
        intro r hr new hnew used
        apply fresh.unused r hr
        rw [← ids, ← used]
        exact List.mem_map_of_mem hnew
      have some_ : records ≠ [] := by
        rintro rfl
        exact nonempty made.contents.symm
      let c : Collector (FallibleMemory V) V := { s.collector with store }
      let f : Flight V :=
        ⟨trigger, s.collector.totals, records, Retry.start s.collector.policy.retry⟩
      have begun : s.flush trigger = finish f ⟨s.clock, c.setTotals .empty⟩ := by
        simp only [flush, Collector.beginFlush_of_ok trigger nonempty batch, resume, f, c]
      have unchanged : Gained s.clock.wall s.clock.now s.clock.now s.collector.store.inner.rows
          records false store.inner.rows := same.rows
      obtain ⟨landed, attempted, journal, gained, answered⟩ :=
        finish_gained (f := f) (s := ⟨s.clock, c.setTotals .empty⟩) some_ unused rfl
          (le_refl s.clock.now) unchanged
      rw [Bool.false_or] at gained
      have wall : (finish f ⟨s.clock, c.setTotals .empty⟩).2.clock.wall = s.clock.wall :=
        (before_finish f _).wall
      rw [begun, ← same.journal]
      refine ⟨records, landed, made.contents, ids ▸ fresh.distinct, ids ▸ fresh.unused, attempted,
        journal, gained, ?_, answered⟩
      intro forward r hr live
      rw [Clock.today, wall] at live
      exact gained.mem_of_isLive forward hr live

/-- Two keys over a row that has expired: the first attempt finds the store down, the answer of the
second is lost, and the third one writes the batch again. -/
def thirdAttempt : Timed (FallibleMemory Nat) Nat :=
  ⟨⟨⟨0⟩, fun _ => 10⟩,
    { policy := ⟨9, .ofSeconds 60, .ofSeconds 3600, ⟨3, .ofMillis 100, .requeue⟩⟩
      store := {
        inner := { rows := [⟨7, ⟨"o", "t", "a", "u"⟩, 1, 0, 10⟩] }
        plan := fun point => match point with
          | .write => [some (.storeUnavailable "down")]
          | .acknowledge => [some (.storeUnavailable "lost")]
          | _ => [] }
      totals := Totals.empty.mergeEntry ⟨"o", "t", [⟨"a", 3, "u"⟩, ⟨"b", 4, "u"⟩]⟩
      lastExport := ⟨0⟩ }⟩

theorem flush_stores_one_row_per_key_thirdAttempt :
    (thirdAttempt.flush .manual).1 = .ok 2 ∧
      ∃ batch : List (Record Nat),
        batch.map Record.pair = [(⟨"o", "t", "a", "u"⟩, 3), (⟨"o", "t", "b", "u"⟩, 4)] ∧
        (batch.map Record.id).Nodup ∧
        ∃ landed : List Bool,
          (thirdAttempt.flush .manual).2.collector.store.journal = landed.map (⟨batch, ·⟩) ∧
          landed.any id = true := by
  obtain ⟨batch, landed, contents, distinct, -, -, journal, -, -, answered⟩ :=
    (flush_stores_one_row_per_key .manual thirdAttempt (by decide)
      ⟨by decide, by decide⟩).2 (by decide)
  have answer : (thirdAttempt.flush .manual).1 = .ok 2 := by decide +kernel
  refine ⟨answer, batch, contents, distinct, landed, journal, (answered 2 answer).2⟩

end Timed

end TraceTally
