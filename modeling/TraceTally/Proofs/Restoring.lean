import TraceTally.Proofs.Course
import TraceTally.Proofs.HashOrder

/-!
# What a failed flush leaves

A flush empties the buffer before it knows how it will end, and while it waits the lock keeps
everyone else from merging. So the totals that a failed flush puts back come into an empty buffer,
where each is appended as it is: of addition nothing is assumed, and of the state before the flush
neither.
-/

namespace TraceTally

variable {V : Type}

namespace Collector

/-- Whether a submitted batch was stored on the way from one state to the other. -/
def storedSince (c c' : Collector (FallibleMemory V) V) : Bool :=
  (c'.store.journal.drop c.store.journal.length).any Submission.stored

/-- What a failed flush leaves of a collector. -/
structure Restored (c c' : Collector (FallibleMemory V) V) : Prop where
  requeued : c.policy.retry.onExhausted = .requeue → ∀ k, c'.totals.get? k = c.totals.get? k
  discarded : c.policy.retry.onExhausted = .discard → c'.totals.entries = []
  exported : c'.lastExport = c.lastExport
  rows : c.storedSince c' = false → c'.store.inner.rows = c.store.inner.rows

/-- Nothing has happened but time and questions to the store. -/
structure Idle (c c' : Collector (FallibleMemory V) V) : Prop where
  policy : c'.policy = c.policy
  totals : c'.totals = c.totals
  exported : c'.lastExport = c.lastExport
  store : c.store.SameContents c'.store

theorem Idle.refl (c : Collector (FallibleMemory V) V) : c.Idle c := ⟨rfl, rfl, rfl, .refl _⟩

theorem Idle.trans {c c' c'' : Collector (FallibleMemory V) V} (idle : c.Idle c')
    (later : c'.Idle c'') : c.Idle c'' :=
  ⟨later.policy.trans idle.policy, later.totals.trans idle.totals,
    later.exported.trans idle.exported, idle.store.trans later.store⟩

/-- Batches may have been submitted, but nothing else has happened; and if none was stored, the rows
are the same. -/
structure Untouched (c c' : Collector (FallibleMemory V) V) : Prop where
  policy : c'.policy = c.policy
  totals : c'.totals = c.totals
  exported : c'.lastExport = c.lastExport
  journal : ∃ submitted, c'.store.journal = c.store.journal ++ submitted ∧
    (submitted.any Submission.stored = false → c'.store.inner.rows = c.store.inner.rows)

namespace Untouched

variable {c c' c'' : Collector (FallibleMemory V) V}

theorem of_idle (idle : c.Idle c') : c.Untouched c' :=
  ⟨idle.policy, idle.totals, idle.exported, [], by rw [idle.store.journal, List.append_nil],
    fun _ => idle.store.rows⟩

theorem trans (kept : c.Untouched c') (later : c'.Untouched c'') : c.Untouched c'' := by
  obtain ⟨submitted, journal, rows⟩ := kept.journal
  obtain ⟨submitted', journal', rows'⟩ := later.journal
  refine ⟨later.policy.trans kept.policy, later.totals.trans kept.totals,
    later.exported.trans kept.exported, submitted ++ submitted', ?_, ?_⟩
  · rw [journal', journal, List.append_assoc]
  · intro none
    rw [List.any_append, Bool.or_eq_false_iff] at none
    exact (rows' none.2).trans (rows none.1)

theorem rows (kept : c.Untouched c') (none : c.storedSince c' = false) :
    c'.store.inner.rows = c.store.inner.rows := by
  obtain ⟨submitted, journal, rows⟩ := kept.journal
  apply rows
  rwa [storedSince, journal, List.drop_left] at none

theorem submit (kept : c.Untouched c') (today : Int) (records : List (Record V)) :
    c.Untouched (c'.submit today records).2 := by
  refine kept.trans ?_
  unfold Collector.submit
  split
  · exact .of_idle (.refl c')
  · cases written : EventStore.writeBatch today records c'.store with
    | mk answer store =>
      have wrote := FallibleMemory.writeBatch_cases today records c'.store
      simp only [written] at wrote
      have submitted : ∃ submitted, store.journal = c'.store.journal ++ submitted ∧
          (submitted.any Submission.stored = false → store.inner.rows = c'.store.inner.rows) := by
        rcases wrote with ⟨-, -, inner, journal, -⟩ | ⟨-, journal, -⟩
        · exact ⟨_, journal, fun _ => by rw [inner]⟩
        · exact ⟨_, journal, nofun⟩
      cases answer with
      | error e => exact ⟨rfl, rfl, rfl, submitted⟩
      | ok => exact ⟨rfl, rfl, rfl, submitted⟩

variable [Add V]

/-- The totals come back into an empty buffer. -/
theorem conclude {base : Collector (FallibleMemory V) V} {taken : Totals V}
    (kept : ({ base with totals := .empty } : Collector (FallibleMemory V) V).Untouched c)
    (taken_eq : taken = base.totals) (now : Instant) (trigger : Trigger)
    {result : Except Failure Unit} {e : Failure}
    (failed : (c.conclude now trigger taken result).1 = .error e) :
    base.Restored (c.conclude now trigger taken result).2 := by
  cases result with
  | ok a => cases failed
  | error e' =>
    obtain ⟨-, totals, exported⟩ :=
      @conclude_error _ V _ now trigger taken e' c kept.totals
    rw [kept.policy] at totals
    refine ⟨?_, ?_, exported.trans kept.exported, ?_⟩
    · intro requeue k
      rw [totals, requeue, OnExhausted.keeps, taken_eq]
    · intro discard
      rw [totals, discard, OnExhausted.keeps]
      rfl
    · rw [storedSince, store_conclude]
      exact kept.rows

end Untouched

variable {c c' : Collector (FallibleMemory V) V}

theorem Restored.of_perm (restored : c.Restored c') {t t' : Totals V}
    (before : c.totals.entries.Perm t.entries) (after : c'.totals.entries.Perm t'.entries) :
    ({ c with totals := t } : Collector (FallibleMemory V) V).Restored { c' with totals := t' } where
  requeued requeue k := by
    rw [← Totals.get?_eq_of_perm after, restored.requeued requeue, Totals.get?_eq_of_perm before]
  discarded discard := by
    have none := restored.discarded discard
    rw [none] at after
    exact after.nil_eq.symm
  exported := restored.exported
  rows := restored.rows

theorem Restored.of_idle {base : Collector (FallibleMemory V) V} (restored : c.Restored c')
    (idle : base.Idle c) : base.Restored c' := by
  obtain ⟨policy, totals, exported, store⟩ := idle
  obtain ⟨requeued, discarded, exported', rows⟩ := restored
  rw [policy] at requeued discarded
  rw [totals] at requeued
  rw [storedSince, store.journal, store.rows] at rows
  exact ⟨requeued, discarded, exported'.trans exported, rows⟩

theorem Restored.idle {c'' : Collector (FallibleMemory V) V} (restored : c.Restored c')
    (idle : c'.Idle c'') : c.Restored c'' := by
  obtain ⟨-, totals, exported, store⟩ := idle
  obtain ⟨requeued, discarded, exported', rows⟩ := restored
  rw [← totals] at requeued discarded
  rw [storedSince, ← store.journal, ← store.rows] at rows
  exact ⟨requeued, discarded, exported.trans exported', rows⟩

theorem untouched_of_named {clock : Clock} {records : List (Record V)}
    {store : FallibleMemory V}
    (batch : buildBatch clock.today c.policy.lifetime c.totals.entries c.store =
      (.ok records, store)) :
    ({ c with totals := .empty } : Collector (FallibleMemory V) V).Untouched
      (({ c with store } : Collector (FallibleMemory V) V).setTotals .empty) := by
  have same := (FallibleMemory.buildBatch_cases clock.today c.policy.lifetime c.totals.entries
    c.store).1
  rw [batch] at same
  exact .of_idle ⟨rfl, rfl, rfl, same⟩

variable [Add V]

/-- A flush that cannot name its records fails at once. -/
theorem restored_of_unnamed {clock : Clock} (trigger : Trigger) {e : Failure}
    {store : FallibleMemory V}
    (batch : buildBatch clock.today c.policy.lifetime c.totals.entries c.store = (.error e, store)) :
    (c.beginFlush clock trigger).1 = .finished (.error e) ∧
      c.Restored (c.beginFlush clock trigger).2 := by
  have nonempty : c.totals.entries ≠ [] := by
    intro none
    rw [none] at batch
    cases batch
  have same := (FallibleMemory.buildBatch_cases clock.today c.policy.lifetime c.totals.entries
    c.store).1
  rw [batch] at same
  obtain ⟨c', begun, rfl, policy, totals, exported⟩ := beginFlush_of_error trigger nonempty batch
  rw [begun]
  refine ⟨rfl, ?_, ?_, exported, fun _ => same.rows⟩
  · intro requeue k
    rw [totals, requeue, OnExhausted.keeps]
  · intro discard
    rw [totals, discard, OnExhausted.keeps]
    rfl

end Collector

namespace Timed

/-- The answers to the attempts of a flush; if a record cannot be named, none is made. -/
def answers {σ : Type} [EventStore σ V] (trigger : Trigger) (s : Timed σ V) :
    Except Failure (List (Except Failure Unit)) :=
  let c := s.collector
  match buildBatch s.clock.today c.policy.lifetime c.totals.entries c.store with
  | (.error e, _) => .error e
  | (.ok records, store) =>
    let f : Flight V := ⟨trigger, c.totals, records, Retry.start c.policy.retry⟩
    let s : Timed σ V := { s with collector := ({ c with store }).setTotals .empty }
    .ok ((List.range (s.course f).attempts).map (s.answerTo f))

theorem untouched_beforeAttempt (f : Flight V) (s : Timed (FallibleMemory V) V) (k : Nat) :
    s.collector.Untouched (s.beforeAttempt f k).collector := by
  induction k with
  | zero => exact .of_idle (.refl _)
  | succ k ih => exact ih.submit _ _

variable [Add V] {s : Timed (FallibleMemory V) V} {trigger : Trigger} {e : Failure}

theorem restored_finish {base : Collector (FallibleMemory V) V} {f : Flight V}
    (kept : ({ base with totals := .empty } : Collector (FallibleMemory V) V).Untouched s.collector)
    (taken : f.taken = base.totals) (failed : (s.finish f).1 = .error e) :
    base.Restored (s.finish f).2.collector := by
  rw [finish_eq_course] at failed ⊢
  have attempted := kept.trans (s.untouched_beforeAttempt f (s.course f).waits.length)
  exact (attempted.submit _ f.records).conclude taken _ f.trigger failed

theorem restored_flush (failed : (s.flush trigger).1 = .error e) :
    s.collector.Restored (s.flush trigger).2.collector := by
  rw [flush] at failed ⊢
  cases batch : buildBatch s.clock.today s.collector.policy.lifetime s.collector.totals.entries
      s.collector.store with
  | mk named store =>
    cases named with
    | error e' =>
      obtain ⟨ended, restored⟩ := Collector.restored_of_unnamed trigger batch
      simpa only [ended, resume] using restored
    | ok records =>
      have nonempty : s.collector.totals.entries ≠ [] := by
        intro none
        simp only [Collector.beginFlush, Totals.isEmpty, none] at failed
        cases failed
      have begun := Collector.beginFlush_of_ok trigger nonempty batch
      simp only [begun, resume] at failed ⊢
      exact restored_finish (Collector.untouched_of_named batch) rfl failed

/-- A flush fails as its last attempt does, all others having failed before, or because a record
cannot be named. -/
theorem flush_eq_error_iff {σ : Type} [EventStore σ V] {s : Timed σ V}
    (nonempty : s.collector.totals.entries ≠ []) :
    (s.flush trigger).1 = .error e ↔ s.answers trigger = .error e ∨ ∃ failures : List Failure,
      s.answers trigger = .ok (failures.map .error) ∧ failures.getLast? = some e := by
  rw [flush, answers]
  cases batch : buildBatch s.clock.today s.collector.policy.lifetime s.collector.totals.entries
      s.collector.store with
  | mk named store =>
    cases named with
    | error e' =>
      obtain ⟨c', begun, -⟩ := Collector.beginFlush_of_error trigger nonempty batch
      simp only [begun, resume, Except.error.injEq, reduceCtorEq, false_and, exists_false, or_false]
    | ok records =>
      have begun := Collector.beginFlush_of_ok trigger nonempty batch
      simp only [begun, resume, reduceCtorEq, false_or, Except.ok.injEq]
      rw [finish_eq_error_iff, course, (Retry.ran_runFrom 0 _).result_eq_error_iff e]
      simp only [Nat.zero_add]

end Timed

namespace Callers

variable [Add V] {s : Callers V} {call : Call V} {c : Collector (FallibleMemory V) V}

/-- How far a call has come that was to bring the collector to `c` and to flush it. -/
inductive Since (call : Call V) (c : Collector (FallibleMemory V) V) (s : Callers V) : Prop where
  | entered (held : s.holder = some (call, .entered)) (idle : c.Idle (s.merge call).collector) :
      Since call c s
  | trying {f : Flight V} (trying : s.Trying call f) (taken : f.taken = c.totals)
      (kept : ({ c with totals := .empty } : Collector (FallibleMemory V) V).Untouched s.collector) :
      Since call c s
  | leaving {answer : Except Failure (Option Nat)} (held : s.holder = some (call, .leaving answer))
      (restored : ∀ e, answer = .error e → c.Restored s.collector) : Since call c s

theorem idle_merge {c' : Collector (FallibleMemory V) V} (idle : c.Idle c') (call : Call V) :
    (call.merge c).Idle (call.merge c') := by
  obtain ⟨policy, totals, exported, store⟩ := idle
  cases call with
  | write e => exact ⟨policy, congrArg (Totals.mergeEntry · e) totals, exported, store⟩
  | flush t => exact ⟨policy, totals, exported, store⟩
  | flushIfDue => exact ⟨policy, totals, exported, store⟩

/-- While a call has the lock, only its own steps matter. -/
theorem idle_of_held (held : s.holder ≠ none) {m : Move V} (other : m ≠ .proceed) :
    (s.step m).holder = s.holder ∧ s.collector.Idle (s.step m).collector := by
  cases m with
  | call call => exact ⟨rfl, .refl _⟩
  | acquire i =>
    rw [step]
    split
    · rename_i free _
      exact absurd free held
    · exact ⟨rfl, .refl _⟩
  | proceed => exact absurd rfl other
  | pass d => exact ⟨rfl, .refl _⟩
  | query f =>
    refine ⟨rfl, rfl, rfl, rfl, ?_⟩
    simp only [step, setCollector, collector, Collector.query, TraceTally.query, Collector.count]
    cases f.toPredicate with
    | error e => exact .refl _
    | ok p =>
      have same := FallibleMemory.sameContents_scan s.clock.today p s.timed.collector.store
      dsimp only
      split <;> simp_all

theorem length_returned_step {s' : Callers V} (step : s.StepCase s') :
    s.returned.length ≤ s'.returned.length := by
  cases step with
  | quiet quiet => rw [quiet.returned]
  | got => exact le_rfl
  | decided => exact le_rfl
  | began => exact le_rfl
  | tried => exact le_rfl
  | left => simp

theorem length_returned_run (s : Callers V) (moves : List (Move V)) :
    s.returned.length ≤ (s.run moves).returned.length := by
  induction moves generalizing s with
  | nil => exact le_rfl
  | cons m moves ih => exact (length_returned_step (s.step_cases m)).trans (ih (s.step m))

namespace Since

theorem holder_ne_none (since : Since call c s) : s.holder ≠ none := by
  intro free
  cases since with
  | entered held => cases free.symm.trans held
  | trying trying =>
    rcases trying with held | ⟨wake, held⟩
    · cases free.symm.trans held
    · cases free.symm.trans held
  | leaving held => cases free.symm.trans held

theorem idle {s' : Callers V} (since : Since call c s) (holder : s'.holder = s.holder)
    (idle : s.collector.Idle s'.collector) : Since call c s' := by
  cases since with
  | entered held same => exact .entered (holder.trans held) (same.trans (idle_merge idle call))
  | trying trying taken kept =>
    refine .trying ?_ taken (kept.trans (.of_idle idle))
    rwa [Trying, holder]
  | leaving held restored =>
    exact .leaving (holder.trans held) fun e failed => (restored e failed).idle idle

theorem finished {p : Progress V × Collector (FallibleMemory V) V} {r : Except Failure Nat}
    (ended : p.1 = .finished r) (restored : ∀ e, r = .error e → c.Restored p.2) :
    Since call c (s.land call p) := by
  obtain ⟨_, c'⟩ := p
  obtain rfl := ended
  refine .leaving rfl fun e failed => restored e ?_
  cases r with
  | ok rows => cases failed
  | error e' => exact congrArg Except.error (Except.error.inj failed)

theorem beginFlush (idle : c.Idle s.collector) (trigger : Trigger) :
    Since call c (s.land call (s.collector.beginFlush s.clock trigger)) := by
  by_cases nothing : s.collector.totals.entries = []
  · have ended : (s.collector.beginFlush s.clock trigger).1 = .finished (.ok 0) := by
      simp only [Collector.beginFlush, Totals.isEmpty, nothing]
      rfl
    exact finished ended fun _ failed => by cases failed
  · cases batch : buildBatch s.clock.today s.collector.policy.lifetime s.collector.totals.entries
        s.collector.store with
    | mk named store =>
      cases named with
      | error e =>
        obtain ⟨ended, restored⟩ := Collector.restored_of_unnamed trigger batch
        exact finished ended fun _ _ => restored.of_idle idle
      | ok records =>
        rw [Collector.beginFlush_of_ok trigger nothing batch]
        have emptied : ({ c with totals := .empty } : Collector (FallibleMemory V) V).Idle
            { s.collector with totals := .empty } :=
          ⟨idle.policy, rfl, idle.exported, idle.store⟩
        exact .trying (.inl rfl) idle.totals
          ((Collector.Untouched.of_idle emptied).trans (Collector.untouched_of_named batch))

theorem attempt {f : Flight V} (taken : f.taken = c.totals)
    (kept : ({ c with totals := .empty } : Collector (FallibleMemory V) V).Untouched s.collector) :
    Since call c (s.land call (s.collector.attempt s.clock f)) := by
  have submitted := kept.submit s.clock.today f.records
  rw [Collector.attempt]
  dsimp only
  split
  · rename_i result done
    exact finished rfl fun e failed => submitted.conclude taken _ f.trigger failed
  · rename_i d loop wait
    exact .trying (.inr ⟨_, rfl⟩) taken submitted

theorem proceed (since : Since call c s) (stays : s.proceed.returned.length ≤ s.returned.length) :
    Since call c s.proceed := by
  cases since with
  | entered held idle =>
    rw [Callers.proceed, held]
    simp only [enter]
    split
    · exact .leaving rfl fun _ failed => by cases failed
    · exact beginFlush idle _
  | @trying f trying taken kept =>
    rcases trying with held | ⟨wake, held⟩
    · rw [Callers.proceed, held]
      exact attempt taken kept
    · rw [Callers.proceed, held]
      dsimp only
      split
      · exact attempt taken kept
      · exact .trying (.inr ⟨wake, held⟩) taken kept
  | leaving held restored =>
    rw [Callers.proceed, held, List.length_append] at stays
    exact absurd stays (Nat.not_succ_le_self _)

theorem run {moves : List (Move V)} (since : Since call c s)
    (stays : (s.run moves).returned.length ≤ s.returned.length) : Since call c (s.run moves) := by
  induction moves generalizing s with
  | nil => exact since
  | cons m moves ih =>
    refine ih ?_ (stays.trans (length_returned_step (s.step_cases m)))
    by_cases own : m = .proceed
    · subst own
      exact since.proceed ((length_returned_run _ moves).trans stays)
    · obtain ⟨holder, idle⟩ := idle_of_held since.holder_ne_none own
      exact since.idle holder idle

end Since

end Callers

/-- However a flush fails, and in whatever orders its totals are gone through: under `requeue` every
key has the value it had, under `discard` the buffer is empty, the last export is what it was, and the
rows are unless an attempt stored the batch. It fails as the last attempt did, all having failed, or
because a record could not be named. What other callers do meanwhile makes no difference. -/
theorem restored_of_failed [Add V] :
    (∀ (s s₁ s₂ : Timed (FallibleMemory V) V) (trigger : Trigger) (e : Failure),
      s.Reordered s₁ → (s₁.flush trigger).1 = .error e → (s₁.flush trigger).2.Reordered s₂ →
      s.collector.Restored s₂.collector) ∧
    (∀ (s : Timed (FallibleMemory V) V) (trigger : Trigger) (e : Failure),
      s.collector.totals.entries ≠ [] →
      ((s.flush trigger).1 = .error e ↔ s.answers trigger = .error e ∨ ∃ failures : List Failure,
        s.answers trigger = .ok (failures.map .error) ∧ failures.getLast? = some e)) ∧
    ∀ (s : Callers V) (call : Call V) (moves : List (Move V)) (e : Failure),
      s.holder = some (call, .entered) → (s.run moves).returned = s.returned →
      (s.run moves).holder = some (call, .leaving (.error e)) →
      (s.merge call).collector.Restored (s.run moves).collector := by
  refine ⟨?_, fun s trigger e nonempty => Timed.flush_eq_error_iff nonempty, ?_⟩
  · rintro s _ _ trigger e ⟨t, perm, rfl⟩ failed ⟨t', perm', rfl⟩
    exact (Timed.restored_flush failed).of_perm perm.symm perm'
  · intro s call moves e entered stays left
    have since : Callers.Since call (s.merge call).collector s := .entered entered (.refl _)
    cases since.run (congrArg List.length stays).le with
    | entered held => cases held.symm.trans left
    | trying trying => exact absurd left (trying.not_leaving call _)
    | leaving held restored =>
      cases held.symm.trans left
      exact restored e rfl

/-- Two keys are buffered, over sums of which nothing is known, and the store is about to refuse two
batches. -/
def refusedTwice : Timed (FallibleMemory Written) Written :=
  let entry : Entry Written := ⟨"o", "t", [⟨"a", .value 1, "u"⟩, ⟨"b", .value 2, "u"⟩]⟩
  (Timed.fresh ⟨9, .ofSeconds 60, .ofSeconds 3600, ⟨2, .ofMillis 100, .requeue⟩⟩ ⟨⟨0⟩, fun _ => 0⟩ id
    fun point => if point = .write then
      [some (.storeUnavailable "down"), some (.storeUnavailable "gone")] else []).merge (.write entry)

/-- A flush has just got the lock, and the next write is already there. -/
def flushedFirst : Callers Written :=
  { timed := refusedTwice, queue := [.write ⟨"o", "t", [⟨"a", .value 3, "u"⟩]⟩],
    holder := some (.flush .manual, .entered) }

/-- The other write waits for the lock until the flush has put back what it took. -/
theorem restored_of_failed_twoAttempts :
    let s := refusedTwice
    let flipped : Totals Written :=
      ⟨[(⟨"o", "t", "b", "u"⟩, .value 2), (⟨"o", "t", "a", "u"⟩, .value 1)], by decide⟩
    let s₁ := { s with collector := { s.collector with totals := flipped } }
    let ended := flushedFirst.run
      [.proceed, .proceed, .acquire 0, .pass (.ofMillis 100), .proceed]
    (∀ k, (s₁.flush .manual).2.collector.totals.get? k = s.collector.totals.get? k) ∧
      (s₁.flush .manual).1 = .error (.storeUnavailable "gone") ∧
      ended.queue.length = 1 ∧
      ∀ k, ended.collector.totals.get? k = flushedFirst.collector.totals.get? k := by
  intro s flipped s₁ ended
  obtain ⟨alone, fails, among⟩ := restored_of_failed (V := Written)
  have answers : s₁.answers .manual = .ok
      ([.storeUnavailable "down", .storeUnavailable "gone"].map .error) := by decide +kernel
  have failed : (s₁.flush .manual).1 = .error (.storeUnavailable "gone") :=
    (fails s₁ .manual _ (by decide)).mpr (.inr ⟨_, answers, rfl⟩)
  have restored := alone s s₁ _ .manual _ ⟨flipped, by decide, rfl⟩ failed (.refl _)
  have left : ended.holder = some (.flush .manual,
      .leaving (.error (.storeUnavailable "gone"))) := rfl
  have stays : ended.returned = [] := rfl
  have kept := among flushedFirst (.flush .manual) _ _ rfl stays left
  exact ⟨restored.requeued rfl, failed, rfl, kept.requeued rfl⟩

end TraceTally
