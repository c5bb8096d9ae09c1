import TraceTally.Collector.Flush
import TraceTally.Proofs.Backoff

/-!
# A flush is the retry loop

The attempts of a flush are those of the retry loop when it is run against the store: the store's
answers are the outcomes, and each attempt is made in the state that the attempts before it and their
waits have left. So all that is known of the loop holds of a flush, over any store.
-/

namespace TraceTally.Timed

variable {σ V : Type} [EventStore σ V]

/-- The state in which attempt `k` is made, if the attempts before it do not end the flush. -/
def beforeAttempt (f : Flight V) (s : Timed σ V) : Nat → Timed σ V
  | 0 => s
  | k + 1 =>
    let s := s.beforeAttempt f k
    ({ s with collector := (s.collector.submit s.clock.today f.records).2 } : Timed σ V).pass
      (f.loop.delayAt k)

/-- What the store answers to attempt `k`. -/
def answerTo (f : Flight V) (s : Timed σ V) (k : Nat) : Except Failure Unit :=
  ((s.beforeAttempt f k).collector.submit (s.beforeAttempt f k).clock.today f.records).1

/-- The loop against the store. -/
def course (f : Flight V) (s : Timed σ V) : Retry.Run Failure Unit :=
  Retry.runFrom Failure.isTransient (s.answerTo f) 0 f.loop

/-- Carries a flush past an attempt that does not end it. -/
def afterFirst (f : Flight V) (s : Timed σ V) : Timed σ V := s.beforeAttempt f 1

theorem beforeAttempt_succ (f : Flight V) (s : Timed σ V) (k : Nat) :
    s.beforeAttempt f (k + 1) = (s.afterFirst f).beforeAttempt { f with loop := f.loop.following } k := by
  induction k with
  | zero => rfl
  | succ k ih =>
    rw [beforeAttempt, ih]
    rfl

theorem answerTo_succ (f : Flight V) (s : Timed σ V) (k : Nat) :
    s.answerTo f (k + 1) = (s.afterFirst f).answerTo { f with loop := f.loop.following } k := by
  rw [answerTo, beforeAttempt_succ]
  rfl

theorem course_of_ends {f : Flight V} {s : Timed σ V}
    (ends : f.loop.left = 0 ∨ Retry.Final Failure.isTransient (s.answerTo f 0)) :
    s.course f = ⟨s.answerTo f 0, []⟩ :=
  Retry.runFrom_of_ends ends

theorem course_of_goes_on {f : Flight V} {s : Timed σ V} (allowed : f.loop.left ≠ 0)
    (goesOn : ¬ Retry.Final Failure.isTransient (s.answerTo f 0)) :
    let rest := (s.afterFirst f).course { f with loop := f.loop.following }
    s.course f = { rest with waits := f.loop.delay :: rest.waits } := by
  have later : Retry.runFrom Failure.isTransient (s.answerTo f) 1 f.loop.following =
      (s.afterFirst f).course { f with loop := f.loop.following } := by
    apply Retry.runFrom_congr
    intro k _
    rw [Nat.add_comm 1 k, Nat.zero_add, answerTo_succ]
  have whole := @Retry.runFrom_of_goes_on _ _ _ (s.answerTo f) _ _ allowed goesOn
  rw [Nat.zero_add, later] at whole
  exact whole

variable [Add V]

/-- A flush ends as the loop does: in the state of its last attempt, with that attempt's answer. -/
theorem finish_eq_course (f : Flight V) (s : Timed σ V) :
    let last := s.beforeAttempt f (s.course f).waits.length
    let ended := (last.collector.submit last.clock.today f.records).2.conclude last.clock.now f.trigger
      f.taken (s.course f).result
    s.finish f = (ended.1, { last with collector := ended.2 }) := by
  by_cases ends : f.loop.left = 0 ∨ Retry.Final Failure.isTransient (s.answerTo f 0)
  · have done : s.collector.attempt s.clock f =
        let ended := (s.collector.submit s.clock.today f.records).2.conclude s.clock.now f.trigger
          f.taken (s.answerTo f 0)
        (.finished ended.1, ended.2) := by
      have next := Retry.next_of_ends ends
      rw [answerTo, beforeAttempt] at next
      rw [Collector.attempt]
      dsimp only
      rw [next]
      rfl
    rw [course_of_ends ends, finish_of_finished done]
    rfl
  · obtain ⟨allowed, goesOn⟩ := not_or.mp ends
    have waiting : s.collector.attempt s.clock f =
        (.waiting f.loop.delay { f with loop := f.loop.following },
          (s.collector.submit s.clock.today f.records).2) := by
      have next := Retry.next_of_goes_on allowed goesOn
      rw [answerTo, beforeAttempt] at next
      rw [Collector.attempt]
      dsimp only
      rw [next]
    have fewer := f.loop.following_left_lt allowed
    have later := finish_eq_course { f with loop := f.loop.following } (s.afterFirst f)
    rw [finish_of_waiting waiting, course_of_goes_on allowed goesOn]
    rw [List.length_cons, beforeAttempt_succ]
    exact later
termination_by f.loop.left

theorem finish_eq_error_iff (f : Flight V) (s : Timed σ V) (e : Failure) :
    (s.finish f).1 = .error e ↔ (s.course f).result = .error e := by
  rw [finish_eq_course]
  dsimp only
  cases (s.course f).result with
  | ok a => exact ⟨nofun, nofun⟩
  | error e' =>
    rw [Collector.conclude]
    split
    · simp only [Except.error.injEq]
    · simp only [Except.error.injEq]

end TraceTally.Timed
