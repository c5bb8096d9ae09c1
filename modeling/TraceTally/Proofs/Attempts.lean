import TraceTally.Proofs.Generations
import TraceTally.Proofs.OneRow
import TraceTally.Proofs.Restoring

/-!
# How often a flush is tried

The loop of attempts begins when all records have their identifiers. An identifier that cannot be made
ends the flush before the loop, however transient that failure is; only failures of the batch write use
up the attempts that the policy allows.
-/

namespace TraceTally

variable {V : Type}

namespace Retry

variable {ε α : Type} {retryable : ε → Bool} {attempt : Nat → Except ε α} {k : Nat} {l : Loop}
  {r : Run ε α}

theorem Ran.attempts_le (ran : Ran retryable attempt k l r) : r.attempts ≤ l.left + 1 := by
  refine Nat.succ_le_succ ?_
  by_contra more
  exact Nat.lt_irrefl _ (ran.before l.left (Nat.lt_of_not_le more)).1

/-- A failure that is worth another attempt is the answer only if there is none left. -/
theorem Ran.attempts_eq (ran : Ran retryable attempt k l r) {e : ε} (failed : r.result = .error e)
    (worth : retryable e = true) : r.attempts = l.left + 1 := by
  rcases ran.ended with last | ⟨a, success⟩ | ⟨e', failure, final⟩
  · exact congrArg (· + 1) last
  · cases failed.symm.trans (ran.result.trans success)
  · cases failed.symm.trans (ran.result.trans failure)
    cases worth.symm.trans final

end Retry

theorem Collector.store_submit {σ : Type} [EventStore σ V] (today : Int) {records : List (Record V)}
    (nonempty : records ≠ []) (c : Collector σ V) :
    (c.submit today records).2.store = (EventStore.writeBatch today records c.store).2 := by
  rw [submit, if_neg (by simpa using nonempty)]
  cases EventStore.writeBatch today records c.store with
  | mk answer store => cases answer <;> rfl

theorem FallibleMemory.submissions_writeBatch (today : Int) (records : List (Record V))
    (s : FallibleMemory V) :
    (EventStore.writeBatch today records s).2.submissions = s.submissions + 1 := by
  rcases writeBatch_cases today records s with ⟨-, -, -, journal, -⟩ | ⟨-, journal, -⟩
  · rw [FaultyStore.submissions, journal, List.length_append]
    rfl
  · rw [FaultyStore.submissions, journal, List.length_append]
    rfl

namespace Timed

/-- The outcomes of the tries of a flush. One that cannot name its records is tried once. -/
def tries {σ : Type} [EventStore σ V] (trigger : Trigger) (s : Timed σ V) :
    List (Except Failure Unit) :=
  match s.answers trigger with
  | .error e => [.error e]
  | .ok answers => answers

variable {f : Flight V} {s : Timed (FallibleMemory V) V}

theorem submissions_beforeAttempt (nonempty : f.records ≠ []) (k : Nat) :
    (s.beforeAttempt f k).collector.store.submissions = s.collector.store.submissions + k := by
  induction k with
  | zero => rfl
  | succ k ih =>
    simp only [beforeAttempt, pass, Collector.store_submit _ nonempty,
      FallibleMemory.submissions_writeBatch, ih]
    rfl

variable [Add V]

theorem submissions_finish (nonempty : f.records ≠ []) :
    (s.finish f).2.collector.store.submissions =
      s.collector.store.submissions + (s.course f).attempts := by
  rw [finish_eq_course, Collector.store_conclude, Collector.store_submit _ nonempty,
    FallibleMemory.submissions_writeBatch, submissions_beforeAttempt nonempty]
  rfl

theorem exists_failures_tried {trigger : Trigger} {e : Failure}
    (some_ : s.collector.totals.entries ≠ []) (failed : (s.flush trigger).1 = .error e) :
    ∃ failures : List Failure,
      s.tries trigger = failures.map .error ∧ failures.getLast? = some e := by
  rcases (flush_eq_error_iff some_).mp failed with unnamed | ⟨failures, tried, last⟩
  · exact ⟨[e], by rw [tries, unnamed]; rfl, rfl⟩
  · exact ⟨failures, by rw [tries, tried], last⟩

omit [Add V] in
theorem submissions_of_buildBatch {today : Int} {lifetime : Duration} {pairs : List (Key × V)}
    {store store' : FallibleMemory V} {named : Except Failure (List (Record V))}
    (batch : buildBatch today lifetime pairs store = (named, store')) :
    store'.submissions = store.submissions := by
  have same := (FallibleMemory.buildBatch_cases today lifetime pairs store).1
  rw [batch] at same
  exact congrArg List.length same.journal

/-- A flush that has named its records submits them once a try. -/
theorem tries_of_named {trigger : Trigger} {e : Failure} {records : List (Record V)}
    {store : FallibleMemory V} (some_ : s.collector.totals.entries ≠ [])
    (failed : (s.flush trigger).1 = .error e)
    (batch : buildBatch s.clock.today s.collector.policy.lifetime s.collector.totals.entries
      s.collector.store = (.ok records, store)) :
    let limit := max s.collector.policy.retry.maxAttempts 1
    (s.tries trigger).length ≤ limit ∧
      (s.flush trigger).2.collector.store.submissions =
        s.collector.store.submissions + (s.tries trigger).length ∧
      (e.isTransient = true → (s.tries trigger).length = limit) := by
  intro limit
  have begun := Collector.beginFlush_of_ok trigger some_ batch
  have nonempty : records ≠ [] := by
    rintro rfl
    exact some_ (List.length_eq_zero_iff.mp (Collector.length_buildBatch batch).symm)
  have kept := submissions_of_buildBatch batch
  set f : Flight V := ⟨trigger, s.collector.totals, records, Retry.start s.collector.policy.retry⟩
  set s₁ : Timed (FallibleMemory V) V :=
    { s with collector := ({ s.collector with store } : Collector _ V).setTotals .empty }
  have count : (s.tries trigger).length = (s₁.course f).attempts := by
    rw [tries, answers, batch]
    exact (List.length_map _).trans List.length_range
  have ended : s.flush trigger = s₁.finish f := by
    rw [flush, begun]
    rfl
  have ran : Retry.Ran Failure.isTransient (s₁.answerTo f) 0 f.loop (s₁.course f) :=
    Retry.ran_runFrom 0 f.loop
  have bound : f.loop.left + 1 = limit := Nat.succ_pred_eq_of_pos (Nat.le_max_right _ _)
  rw [ended, finish_eq_error_iff] at failed
  rw [count, ended, ← bound, submissions_finish nonempty]
  exact ⟨ran.attempts_le, congrArg (· + _) kept, fun worth => ran.attempts_eq failed worth⟩

/-- A flush that cannot name its records submits nothing and does not try again. -/
theorem tries_of_unnamed (trigger : Trigger) {e : Failure} {store : FallibleMemory V}
    (some_ : s.collector.totals.entries ≠ [])
    (batch : buildBatch s.clock.today s.collector.policy.lifetime s.collector.totals.entries
      s.collector.store = (.error e, store)) :
    (s.tries trigger).length = 1 ∧
      (s.flush trigger).2.collector.store.submissions = s.collector.store.submissions := by
  obtain ⟨c', begun, kept, -⟩ := Collector.beginFlush_of_error trigger some_ batch
  refine ⟨by rw [tries, answers, batch]; rfl, ?_⟩
  rw [flush, begun]
  change c'.store.submissions = _
  rw [kept, submissions_of_buildBatch batch]

/-- A flush that fails has been tried at least once, and each try failed, the last one with the answer
of the flush. Its batch is submitted once a try, unless an identifier could not be made. If its failure
is transient it has used up its attempts, unless an identifier could not be made and more than one
attempt is allowed. -/
theorem attempts_used_up_iff_named (trigger : Trigger) (e : Failure)
    (failed : (s.flush trigger).1 = .error e) :
    let limit := max s.collector.policy.retry.maxAttempts 1
    let unnamed := s.collector.store.firstFault .newId s.collector.totals.size
    (∃ failures : List Failure,
      s.tries trigger = failures.map .error ∧ failures.getLast? = some e) ∧
    (s.tries trigger).length ≤ limit ∧
    (s.flush trigger).2.collector.store.submissions = s.collector.store.submissions +
      (if unnamed = none then (s.tries trigger).length else 0) ∧
    (e.isTransient = true →
      ((s.tries trigger).length = limit ↔ unnamed = none ∨ limit = 1)) := by
  intro limit unnamed
  have some_ : s.collector.totals.entries ≠ [] := by
    intro none
    simp only [flush, Collector.beginFlush, Totals.isEmpty, none] at failed
    cases failed
  have faults := FallibleMemory.buildBatch_eq_error_iff s.clock.today s.collector.policy.lifetime
    s.collector.totals.entries s.collector.store
  refine ⟨exists_failures_tried some_ failed, ?_⟩
  cases batch : buildBatch s.clock.today s.collector.policy.lifetime s.collector.totals.entries
      s.collector.store with
  | mk named store =>
    rw [batch] at faults
    cases named with
    | ok records =>
      have none : unnamed = none := by
        refine Option.eq_none_iff_forall_ne_some.mpr fun e' fault => ?_
        cases (faults e').mpr fault
      obtain ⟨bounded, submitted, used⟩ := tries_of_named some_ failed batch
      rw [if_pos none]
      exact ⟨bounded, submitted, fun worth => iff_of_true (used worth) (.inl none)⟩
    | error e' =>
      have fault : unnamed = some e' := (faults e').mp rfl
      obtain ⟨once, nothing⟩ := tries_of_unnamed trigger some_ batch
      rw [once, fault, if_neg (Option.some_ne_none e')]
      refine ⟨Nat.le_max_right _ _, nothing, fun _ => ?_⟩
      rw [or_iff_right (Option.some_ne_none e'), eq_comm]

/-- The store refuses two batches, and two attempts are allowed. -/
theorem attempts_used_up_refusedTwice :
    let s := refusedTwice
    (s.flush .manual).1 = .error (.storeUnavailable "gone") ∧
      (s.tries .manual).length = 2 ∧ (s.flush .manual).2.collector.store.submissions = 2 := by
  intro s
  have failed : (s.flush .manual).1 = .error (.storeUnavailable "gone") := by decide +kernel
  obtain ⟨-, -, submitted, used⟩ := attempts_used_up_iff_named .manual _ failed
  have two : (s.tries .manual).length = 2 := (used rfl).mpr (.inl (by decide +kernel))
  refine ⟨failed, two, submitted.trans ?_⟩
  rw [two]
  decide +kernel

/-- Three attempts are allowed, and the first identifier cannot be made, for a reason that passes: the
flush fails at once, without a wait and without a batch. Made again it succeeds. -/
theorem gives_up_without_identifier :
    let plan (point : FaultPoint) : FaultPlan :=
      if point = .newId then [some (.identifierGenerationFailed "entropy exhausted")] else []
    let s : Timed (FallibleMemory Nat) Nat := (Timed.fresh
      ⟨9, .ofSeconds 60, .ofSeconds 3600, ⟨3, .ofMillis 100, .requeue⟩⟩ ⟨⟨0⟩, fun _ => 0⟩ id
      plan).merge (.write ⟨"o", "t", [⟨"a", 3, "u"⟩]⟩)
    let failure := Failure.identifierGenerationFailed "entropy exhausted"
    let s' := (s.flush .manual).2
    (s.flush .manual).1 = .error failure ∧ failure.isTransient = true ∧
      s.tries .manual = [.error failure] ∧ s.collector.policy.retry.maxAttempts = 3 ∧
      s'.collector.store.submissions = 0 ∧ s'.clock.now = s.clock.now ∧
      (s'.flush .manual).1 = .ok 1 := by
  decide +kernel

end Timed

end TraceTally
