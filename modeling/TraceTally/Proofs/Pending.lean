import Mathlib.Tactic.Abel
import TraceTally.Collector.Ingest
import TraceTally.Proofs.Flight

/-!
# Between the steps of a flush

While a flush is in progress, what it took is neither buffered nor, perhaps, stored: it is pending.
Every step of a flush keeps the sum of what is stored and what is pending, unless it gives up and
does not put back what it took, or puts back what is stored.
-/

namespace TraceTally

variable {V : Type}

def Progress.flight? : Progress V → Option (Flight V)
  | finished _ => none
  | ready f => some f
  | waiting _ f => some f

/-- The store has the batch. -/
def Flight.isStored (f : Flight V) (s : FallibleMemory V) : Bool :=
  f.records.all fun r => s.inner.rows.any fun row => row.id = r.id

theorem Flight.Above.isStored_eq {f : Flight V} {wall : Instant → Int} {horizon : Instant}
    {base : List (Record V)} {stored : Bool} {s : FallibleMemory V}
    (above : f.Above wall horizon base stored s) : f.isStored s = stored := by
  cases stored with
  | false =>
    obtain ⟨r, hr⟩ := List.exists_mem_of_ne_nil _ above.nonempty
    have rows : s.inner.rows = base := by simpa using above.rows
    refine List.all_eq_false.mpr ⟨r, hr, ?_⟩
    simp only [rows, List.any_eq_true, decide_eq_true_eq, not_exists, not_and]
    exact fun row hrow used => above.fresh row hrow r hr used.symm
  | true =>
    refine List.all_eq_true.mpr fun r hr => List.any_eq_true.mpr ⟨r, ?_, by simp⟩
    rw [above.rows, if_pos rfl]
    exact List.mem_append_right _ hr

theorem Flight.isStored_congr {f : Flight V} {s s' : FallibleMemory V}
    (rows : s'.inner.rows = s.inner.rows) : f.isStored s' = f.isStored s := by
  rw [isStored, isStored, rows]

/-- What has not reached the store, while a flush may hold the buffer. -/
def Timed.pending (s : Timed (FallibleMemory V) V) : Option (Flight V) → List (Key × V)
  | none => s.collector.totals.entries
  | some f => if f.isStored s.collector.store then [] else f.taken.entries

variable [AddCommMonoid V]

/-- What was given is stored, pending or gone; and a flush that holds the buffer took all of it. -/
structure Balanced (policy : BufferPolicy) (horizon : Instant) (given gone : List (Key × V))
    (flight? : Option (Flight V)) (s : Timed (FallibleMemory V) V) : Prop where
  policy_eq : s.collector.policy = policy
  sound : s.collector.store.Sound s.clock.wall horizon
  spares : s.clock.Spares policy.lifetime horizon
  taken : ∀ f, flight? = some f → s.collector.totals = .empty ∧
    ∃ base, f.Above s.clock.wall horizon base (f.isStored s.collector.store) s.collector.store
  balance : tally given =
    tally s.collector.store.inner.pairs + tally (s.pending flight?) + tally gone

/-- What a step of a flush does not fail to do, by where it leads. -/
structure Moved (s s' : Timed (FallibleMemory V) V) (p : Progress V) : Prop where
  reliable : ∀ point, s.collector.store.Reliable point → s'.collector.store.Reliable point
  emptied : ∀ n, p = .finished (.ok n) → s'.collector.totals = .empty
  failed : ∀ e, p = .finished (.error e) →
    ¬ (s.collector.store.Reliable .newId ∧ s.collector.store.Reliable .write ∧
      s.collector.store.Reliable .acknowledge)

/-- No answer of the store is lost, so that a flush in progress is not stored. -/
structure Unstored (flight? : Option (Flight V)) (s : Timed (FallibleMemory V) V) : Prop where
  acknowledged : s.collector.store.Reliable .acknowledge
  unstored : ∀ f, flight? = some f → f.isStored s.collector.store = false

namespace Balanced

variable {policy : BufferPolicy} {horizon : Instant} {given gone : List (Key × V)}
  {flight? : Option (Flight V)} {s : Timed (FallibleMemory V) V}

theorem at_rest (policy_eq : s.collector.policy = policy)
    (sound : s.collector.store.Sound s.clock.wall horizon)
    (spares : s.clock.Spares policy.lifetime horizon)
    (balance : tally given = tally s.collector.store.inner.pairs +
      tally s.collector.totals.entries + tally gone) :
    Balanced policy horizon given gone none s :=
  ⟨policy_eq, sound, spares, fun _ => nofun, balance⟩

theorem in_flight {f : Flight V} {base : List (Record V)} {stored : Bool}
    (policy_eq : s.collector.policy = policy) (spares : s.clock.Spares policy.lifetime horizon)
    (above : f.Above s.clock.wall horizon base stored s.collector.store)
    (empty : s.collector.totals = .empty)
    (balance : tally given = tally s.collector.store.inner.pairs +
      (if stored then 0 else tally f.taken.entries) + tally gone) :
    Balanced policy horizon given gone (some f) s where
  policy_eq := policy_eq
  sound := above.sound
  spares := spares
  taken := by
    rintro _ ⟨⟩
    exact ⟨empty, base, by rwa [above.isStored_eq]⟩
  balance := by
    rw [balance, Timed.pending, above.isStored_eq]
    cases stored <;> simp

/-- With what its batch has added to the store, a flush in progress makes up the same sum. -/
theorem above_sum {f : Flight V} {base : List (Record V)} {stored : Bool} {wall : Instant → Int}
    {store : FallibleMemory V} (above : f.Above wall horizon base stored store) :
    tally store.inner.pairs + (if stored then 0 else tally f.taken.entries) =
      tally (base.map Record.pair) + tally f.taken.entries := by
  rw [MemoryStore.pairs, above.rows, List.map_append, tally_append]
  cases stored <;> simp [above.contents]

/-- What the beginning of a flush leads to, from a state at rest. -/
theorem begin_cases (balanced : Balanced policy horizon given gone none s) (trigger : Trigger)
    (inTime : s.clock.now ≤ horizon) :
    let b := s.collector.beginFlush s.clock trigger
    s.collector.store.SameContents b.2.store ∧ b.2.policy = policy ∧
      Collector.BeginCase s.clock horizon trigger s.collector b.2 b.1 := by
  have spares : s.clock.Spares s.collector.policy.lifetime horizon := by
    rw [balanced.policy_eq]
    exact balanced.spares
  obtain ⟨same, policy_eq, outcome⟩ :=
    Collector.beginFlush_cases trigger balanced.sound spares inTime
  exact ⟨same, policy_eq.trans balanced.policy_eq, outcome⟩

theorem begin_moved (balanced : Balanced policy horizon given gone none s) (trigger : Trigger)
    (inTime : s.clock.now ≤ horizon) :
    let b := s.collector.beginFlush s.clock trigger
    Moved s { s with collector := b.2 } b.1 := by
  intro b
  obtain ⟨same, -, outcome⟩ := balanced.begin_cases trigger inTime
  generalize b.1 = p at outcome ⊢
  refine ⟨same.reliable, ?_, ?_⟩
  · rintro n rfl
    cases outcome with
    | nothing _ totals _ => exact totals
  · rintro e rfl reliable
    cases outcome with
    | unnamed faulty _ _ => exact faulty reliable.1

theorem begin (balanced : Balanced policy horizon given gone none s) (trigger : Trigger)
    (inTime : s.clock.now ≤ horizon) :
    let b := s.collector.beginFlush s.clock trigger
    (∀ e, b.1 = .finished (.error e) → policy.retry.onExhausted = .requeue) →
    Balanced policy horizon given gone b.1.flight? { s with collector := b.2 } := by
  intro b kept
  obtain ⟨same, policy_eq, outcome⟩ := balanced.begin_cases trigger inTime
  have sound := balanced.sound.of_sameContents same
  have balance := balanced.balance
  have pairs : b.2.store.inner.pairs = s.collector.store.inner.pairs :=
    congrArg (List.map Record.pair) same.rows
  rw [Timed.pending, ← pairs] at balance
  generalize b.1 = p at outcome kept ⊢
  cases outcome with
  | nothing nothing totals _ =>
    refine at_rest policy_eq sound balanced.spares ?_
    rw [balance, nothing, totals]
    rfl
  | @unnamed e _ totals _ =>
    refine at_rest policy_eq sound balanced.spares ?_
    rw [balanced.policy_eq, kept e rfl] at totals
    rw [balance, totals]
    rfl
  | @batched f _ taken totals _ above =>
    refine in_flight policy_eq balanced.spares above totals ?_
    rw [balance, taken]
    rfl

theorem begin_unstored (balanced : Balanced policy horizon given gone none s)
    (unstored : Unstored none s) (trigger : Trigger) (inTime : s.clock.now ≤ horizon) :
    let b := s.collector.beginFlush s.clock trigger
    Unstored b.1.flight? { s with collector := b.2 } ∧
      b.2.store.inner.rows = s.collector.store.inner.rows := by
  intro b
  obtain ⟨same, -, outcome⟩ := balanced.begin_cases trigger inTime
  refine ⟨⟨same.reliable _ unstored.acknowledged, ?_⟩, same.rows⟩
  intro f flying
  generalize b.1 = p at outcome flying
  cases outcome with
  | nothing => cases flying
  | unnamed => cases flying
  | batched _ _ _ _ above =>
    cases flying
    exact above.isStored_eq

theorem attempt_moved {f : Flight V} (balanced : Balanced policy horizon given gone (some f) s)
    (inTime : s.clock.now ≤ horizon) :
    let a := s.collector.attempt s.clock f
    Moved s { s with collector := a.2 } a.1 := by
  obtain ⟨empty, base, above⟩ := balanced.taken f rfl
  obtain ⟨landed, answer, attempted⟩ := Collector.attempt_above above empty inTime
  have outcome := attempted.outcome
  refine ⟨attempted.reliable, ?_, ?_⟩
  · intro n finished
    rw [finished] at outcome
    cases outcome with
    | written totals _ => exact totals
  · intro e finished reliable
    have stored := attempted.written reliable.2.1
    rw [attempted.answered stored reliable.2.2] at outcome
    rw [outcome.of_ok] at finished
    cases finished

theorem attempt {f : Flight V} (balanced : Balanced policy horizon given gone (some f) s)
    (inTime : s.clock.now ≤ horizon) :
    let a := s.collector.attempt s.clock f
    (∀ e, a.1 = .finished (.error e) →
      policy.retry.onExhausted = .requeue ∧ f.isStored a.2.store = false) →
    Balanced policy horizon given gone a.1.flight? { s with collector := a.2 } := by
  intro a kept
  obtain ⟨empty, base, above⟩ := balanced.taken f rfl
  obtain ⟨landed, answer, attempted⟩ := Collector.attempt_above above empty inTime
  have balance : tally given = tally a.2.store.inner.pairs +
      (if f.isStored s.collector.store || landed then 0 else tally f.taken.entries) +
        tally gone := by
    rw [(above_sum attempted.above).trans (above_sum above).symm, balanced.balance, Timed.pending]
    cases f.isStored s.collector.store <;> simp
  have policy_eq : a.2.policy = policy := attempted.policy.trans balanced.policy_eq
  have sound := attempted.above.sound
  have wrote := attempted.wrote
  have outcome := attempted.outcome
  generalize a.1 = p at outcome kept ⊢
  cases outcome with
  | written totals _ =>
    refine at_rest policy_eq sound balanced.spares ?_
    rw [balance, wrote rfl, Bool.or_true, totals]
    rfl
  | @again e d loop _ totals _ =>
    exact in_flight policy_eq balanced.spares (attempted.above.with_loop loop) totals balance
  | @gaveUp e _ totals _ =>
    obtain ⟨requeue, unstored⟩ := kept e rfl
    rw [attempted.above.isStored_eq] at unstored
    refine at_rest policy_eq sound balanced.spares ?_
    rw [balance, unstored, totals, balanced.policy_eq, requeue]
    rfl

/-- Without lost answers, an attempt that stores the batch ends the flush, and every other one
leaves the store alone. -/
theorem attempt_unstored {f : Flight V} (balanced : Balanced policy horizon given gone (some f) s)
    (unstored : Unstored (some f) s) (inTime : s.clock.now ≤ horizon) :
    let a := s.collector.attempt s.clock f
    Unstored a.1.flight? { s with collector := a.2 } ∧
      (a.2.store.inner.rows = s.collector.store.inner.rows ∧ f.isStored a.2.store = false ∨
        ∃ n, a.1 = .finished (.ok n)) := by
  intro a
  obtain ⟨empty, base, above⟩ := balanced.taken f rfl
  obtain ⟨landed, answer, attempted⟩ := Collector.attempt_above above empty inTime
  have acknowledged := attempted.reliable _ unstored.acknowledged
  have outcome := attempted.outcome
  have after := attempted.above
  cases landed with
  | true =>
    rw [attempted.answered rfl unstored.acknowledged] at outcome
    have finished : a.1 = _ := outcome.of_ok
    rw [finished]
    exact ⟨⟨acknowledged, fun _ => nofun⟩, .inr ⟨_, rfl⟩⟩
  | false =>
    have before := unstored.unstored f rfl
    rw [before] at above after
    have still : f.isStored a.2.store = false := after.isStored_eq
    have same : a.2.store.inner.rows = s.collector.store.inner.rows :=
      after.rows.trans above.rows.symm
    refine ⟨⟨acknowledged, ?_⟩, .inl ⟨same, still⟩⟩
    intro f' flying
    generalize a.1 = p at outcome flying
    cases outcome with
    | written => cases flying
    | again =>
      cases flying
      exact still
    | gaveUp => cases flying

/-- Time may pass and plans be used up. -/
theorem of_same {s' : Timed (FallibleMemory V) V}
    (balanced : Balanced policy horizon given gone flight? s) (before : s.Before s')
    (policy_eq : s'.collector.policy = s.collector.policy)
    (totals : s'.collector.totals = s.collector.totals)
    (same : s.collector.store.SameContents s'.collector.store) :
    Balanced policy horizon given gone flight? s' where
  policy_eq := policy_eq.trans balanced.policy_eq
  sound := by
    rw [before.wall]
    exact balanced.sound.of_sameContents same
  spares t t' := by
    rw [before.wall]
    exact balanced.spares t t'
  taken f flying := by
    obtain ⟨empty, base, above⟩ := balanced.taken f flying
    rw [Flight.isStored_congr same.rows, before.wall]
    exact ⟨totals.trans empty, base, above.of_sameContents same⟩
  balance := by
    have pending : s'.pending flight? = s.pending flight? := by
      cases flight? with
      | none => rw [Timed.pending, Timed.pending, totals]
      | some f => rw [Timed.pending, Timed.pending, Flight.isStored_congr same.rows]
    rw [pending, MemoryStore.pairs, same.rows]
    exact balanced.balance

theorem mergeEntry {e : Entry V}
    (balanced : Balanced policy horizon given (gone ++ e.pairs) none s) :
    Balanced policy horizon given gone none
      { s with collector := s.collector.mergeEntry e } := by
  refine at_rest balanced.policy_eq balanced.sound balanced.spares ?_
  have merged : tally (s.collector.totals.mergeEntry e).entries =
      tally s.collector.totals.entries + tally e.pairs := Totals.tally_mergeAll _ _
  have balance := balanced.balance
  rw [Timed.pending, tally_append] at balance
  simp only [Collector.mergeEntry, Collector.setTotals, Collector.count, merged, balance]
  abel

end Balanced

end TraceTally
