import TraceTally.Proofs.Sums
import TraceTally.Proofs.Visibility

/-!
# Callers of a store that never fails

Every flush then succeeds at its first attempt, and what waits to be stored is known, down to the
order of its keys: the entries of the writes that got the lock after the last flush, merged into
nothing.
-/

namespace TraceTally

variable {V : Type}

section Merging

variable [Add V]

theorem Totals.mergeAll_append (t : Totals V) (pairs more : List (Key × V)) :
    t.mergeAll (pairs ++ more) = (t.mergeAll pairs).mergeAll more :=
  List.foldl_append

theorem Totals.entries_mergeAll_empty_eq_nil_iff {pairs : List (Key × V)} :
    (Totals.empty.mergeAll pairs).entries = [] ↔ pairs = [] := by
  refine ⟨fun nothing => ?_, fun nothing => by rw [nothing]; rfl⟩
  cases pairs with
  | nil => rfl
  | cons p pairs =>
    have absent : (Totals.empty.mergeAll (p :: pairs)).get? p.1 = none := by
      rw [Totals.get?, nothing, List.lookup_nil]
    rw [Totals.get?_mergeAll_empty, leftSum_eq_none_iff, valuesAt_cons, if_pos rfl] at absent
    cases absent

theorem Call.totals_merge (c : Collector (FallibleMemory V) V) (call : Call V) :
    (call.merge c).totals = c.totals.mergeAll (call.entries.flatMap Entry.pairs) := by
  cases call with
  | write e =>
    rw [Call.entries, List.flatMap_singleton]
    rfl
  | flush t => rfl
  | flushIfDue => rfl

end Merging

namespace Callers

/-- What waits to be stored, in the buffer or taken by a flush. -/
def waiting (s : Callers V) : Totals V :=
  match s.flight? with
  | some f => f.taken
  | none => s.collector.totals

/-- No call that leaves has failed, and one that asked for a flush has made it. -/
def Succeeding (s : Callers V) : Prop :=
  ∀ call answer, s.holder = some (call, .leaving answer) →
    (∃ n, answer = .ok (some n)) ∨ answer = .ok none ∧ ∀ t, call ≠ .flush t

variable [AddCommMonoid V]

/-- The first `n` writes are stored and the others wait, over a store that never fails. -/
structure Unfailing (policy : BufferPolicy) (horizon : Instant) (n : Nat) (s : Callers V) :
    Prop where
  visible : Visible policy horizon n s
  reliable : ∀ point, s.collector.store.Reliable point
  succeeding : s.Succeeding
  waiting : s.waiting.mergeAll s.entering =
    Totals.empty.mergeAll ((s.acquired.drop n).flatMap Entry.pairs)

namespace Unfailing

variable {policy : BufferPolicy} {horizon : Instant} {n : Nat} {s s' : Callers V}

/-- A move that makes no flush leaves the number of visible writes as it is. -/
theorem stays (visible : Visible policy horizon (if s'.flushed then s'.acquired.length else n) s')
    (same : s'.flushed = true → n = s'.acquired.length)
    (reliable : ∀ point, s'.collector.store.Reliable point) (succeeding : s'.Succeeding)
    (waiting : s'.waiting.mergeAll s'.entering =
      Totals.empty.mergeAll ((s'.acquired.drop n).flatMap Entry.pairs)) :
    Unfailing policy horizon (if s'.flushed then s'.acquired.length else n) s' := by
  have kept : (if s'.flushed then s'.acquired.length else n) = n := by
    by_cases flushed : s'.flushed = true
    · rw [if_pos flushed, same flushed]
    · rw [if_neg flushed]
  rw [kept] at visible ⊢
  exact ⟨visible, reliable, succeeding, waiting⟩

/-- After a flush nothing waits. -/
theorem catches_up {call : Call V} {r : Nat} {p : Progress V × Collector (FallibleMemory V) V}
    (visible : Visible policy horizon (if (s.land call p).flushed then
      (s.land call p).acquired.length else n) (s.land call p))
    (finished : p.1 = .finished (.ok r)) (totals : p.2.totals = .empty)
    (reliable : ∀ point, p.2.store.Reliable point) :
    Unfailing policy horizon (if (s.land call p).flushed then
      (s.land call p).acquired.length else n) (s.land call p) := by
  have flushed : (s.land call p).flushed = true := flushed_land.mpr ⟨r, finished⟩
  obtain ⟨p, c⟩ := p
  obtain rfl : p = .finished (.ok r) := finished
  refine ⟨visible, reliable, ?_, ?_⟩
  · rintro _ answer ⟨⟩
    exact .inl ⟨r, rfl⟩
  · rw [if_pos flushed, List.drop_length]
    exact congrArg (Totals.mergeAll · []) totals

theorem step (unfailing : Unfailing policy horizon n s) (step : s.StepCase s')
    (inTime : s.clock.now ≤ horizon) :
    Unfailing policy horizon (if s'.flushed then s'.acquired.length else n) s' := by
  have visible := unfailing.visible.step step inTime
  have reliable := unfailing.reliable
  have waiting := unfailing.waiting
  cases step with
  | quiet quiet =>
    refine stays visible ?_ (fun point => quiet.store.reliable point (reliable point)) ?_ ?_
    · rw [Callers.flushed, quiet.holder, quiet.acquired]
      exact unfailing.visible.latest
    · rw [Succeeding, quiet.holder]
      exact unfailing.succeeding
    · rw [Callers.waiting, quiet.flight?_eq, quiet.totals, quiet.entering_eq, quiet.acquired]
      exact waiting
  | @got call queue free =>
    refine stays visible (absurd · Bool.false_ne_true) reliable (by rintro _ _ ⟨⟩) ?_
    have idle : s.waiting.mergeAll s.entering = s.collector.totals := by
      simp only [Callers.waiting, flight?, entering, free, Totals.mergeAll_nil]
    rw [idle] at waiting
    rw [List.drop_append_of_le_length unfailing.visible.le, List.flatMap_append,
      Totals.mergeAll_append, ← waiting]
    rfl
  | @decided call held undue =>
    have came : s.waiting.mergeAll s.entering = (s.merge call).collector.totals := by
      simp only [Callers.waiting, flight?, entering, held]
      exact (call.totals_merge s.collector).symm
    rw [came] at waiting
    refine stays visible (absurd · Bool.false_ne_true) ?_ ?_ waiting
    · intro point
      change (s.merge call).collector.store.Reliable point
      rw [Visible.store_merge]
      exact reliable point
    · rintro _ _ ⟨⟩
      refine .inr ⟨rfl, ?_⟩
      rintro t rfl
      cases undue
  | @began call t held =>
    have came : s.waiting.mergeAll s.entering = (s.merge call).collector.totals := by
      simp only [Callers.waiting, flight?, entering, held]
      exact (call.totals_merge s.collector).symm
    rw [came] at waiting
    have merged := unfailing.visible.accounted.merge held
    have store : (s.merge call).collector.store = s.collector.store := Visible.store_merge call s
    set p := (s.merge call).collector.beginFlush (s.merge call).clock t
    have reliable' : ∀ point, p.2.store.Reliable point := fun point =>
      (merged.begin_moved t inTime).reliable point (store ▸ reliable point)
    have outcome : Collector.BeginCase (s.merge call).clock horizon t (s.merge call).collector p.2
        p.1 := (merged.begin_cases t inTime).2.2
    clear_value p
    obtain ⟨progress, c⟩ := p
    cases outcome with
    | nothing _ totals _ => exact catches_up visible rfl totals reliable'
    | unnamed faulty _ _ => exact absurd (store ▸ reliable .newId) faulty
    | batched _ taken _ _ _ =>
      refine stays visible (absurd · Bool.false_ne_true) reliable' (by rintro _ _ ⟨⟩) ?_
      exact (congrArg (Totals.mergeAll · []) taken).trans waiting
  | @tried call f trying =>
    obtain ⟨empty, base, above⟩ := (unfailing.visible.accounted.flying trying).taken f rfl
    obtain ⟨landed, answer, attempted⟩ := Collector.attempt_above above empty inTime
    have written := attempted.written (reliable .write)
    set p := s.collector.attempt s.clock f
    have reliable' : ∀ point, p.2.store.Reliable point :=
      fun point => attempted.reliable point (reliable point)
    have outcome : Collector.AttemptCase s.clock f s.collector p.2 (.ok ()) p.1 := by
      rw [← attempted.answered written (reliable .acknowledge)]
      exact attempted.outcome
    clear_value p
    obtain ⟨progress, c⟩ := p
    cases outcome with
    | written totals _ => exact catches_up visible rfl totals reliable'
  | @left call answer held =>
    have idle : s.waiting.mergeAll s.entering = s.collector.totals := by
      simp only [Callers.waiting, flight?, entering, held, Totals.mergeAll_nil]
    rw [idle] at waiting
    exact stays visible (absurd · Bool.false_ne_true) reliable (by rintro _ _ ⟨⟩) waiting

end Unfailing

end Callers

end TraceTally
