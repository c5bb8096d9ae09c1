import TraceTally.Collector.Ticker
import TraceTally.Proofs.Restoring
import TraceTally.Proofs.Shutdown
import TraceTally.Proofs.Whereabouts

/-!
# Cancelling the ticker

The ticker is one of the callers that share the buffer. It chooses between its next tick and the
cancellation only while it is in no call: a flush that a tick has begun goes on to its end, however
it is faring, and then the cancellation is chosen, or another tick that is due. The last flush comes
after all others. If it succeeds it leaves nothing in the buffer, and whatever was written is stored,
unless a failed flush has dropped it.
-/

namespace TraceTally

variable {V : Type}

/-- What happens to the ticker's task. -/
inductive TickerEvent where
  | cancelled
  /-- It has chosen what to do: its last flush, or a flush if one is due. -/
  | called (last : Bool)
  | returned (last : Bool) (answer : Except Failure (Option Nat))

namespace TickerEvent

def isCall : TickerEvent → Bool
  | cancelled => false
  | called _ | returned _ _ => true

/-- Ticks only, and every call has returned before the next. -/
def Settled (log : List TickerEvent) : Prop :=
  ∃ answers : List (Except Failure (Option Nat)),
    log.filter isCall = answers.flatMap fun answer => [.called false, .returned false answer]

/-- What has happened until the ticker came to the stage. -/
def Led (log : List TickerEvent) : TickerStage → Prop
  | .selecting => Settled log
  | .calling false => ∃ before after,
      log = before ++ .called false :: after ∧ Settled before ∧ after.filter isCall = []
  | .calling true => ∃ before, log = before ++ [.called true] ∧ Settled before ∧ .cancelled ∈ before
  | .ended => ∃ before answer, log = before ++ [.called true, .returned true answer] ∧
      Settled before ∧ .cancelled ∈ before

variable {log : List TickerEvent} {answer : Except Failure (Option Nat)}

theorem Led.cancel {stage : TickerStage} (led : Led log stage) (first : .cancelled ∉ log) :
    Led (log ++ [.cancelled]) stage := by
  match stage, led with
  | .selecting, ⟨answers, calls⟩ =>
    refine ⟨answers, ?_⟩
    rw [List.filter_append, calls]
    exact List.append_nil _
  | .calling false, ⟨before, after, shape, settled, quiet⟩ =>
    refine ⟨before, after ++ [.cancelled], by rw [shape]; simp, settled, ?_⟩
    rw [List.filter_append, quiet]
    rfl
  | .calling true, ⟨before, shape, _, logged⟩ =>
    exact absurd (shape ▸ List.mem_append_left _ logged) first
  | .ended, ⟨before, answer, shape, _, logged⟩ =>
    exact absurd (shape ▸ List.mem_append_left _ logged) first

theorem Led.returned (led : Led log (.calling false)) :
    Led (log ++ [.returned false answer]) .selecting := by
  obtain ⟨before, after, rfl, ⟨answers, calls⟩, quiet⟩ := led
  refine ⟨answers ++ [answer], ?_⟩
  rw [List.append_assoc, List.filter_append, calls, List.flatMap_append, List.cons_append,
    List.filter_cons_of_pos rfl, List.filter_append, quiet]
  rfl

end TickerEvent

namespace Callers

theorem exists_leaving_of_flushed {s : Callers V} (flushed : s.flushed = true) :
    ∃ call n, s.holder = some (call, .leaving (.ok (some n))) := by
  unfold Callers.flushed at flushed
  split at flushed
  · exact ⟨_, _, ‹_›⟩
  · cases flushed

/-- The call that has the lock keeps it, unless it leaves. -/
theorem call?_step [Add V] (s : Callers V) {m : Move V} {call : Call V} (held : s.call? = some call)
    (staying : m = .proceed → ∀ call answer, s.holder ≠ some (call, .leaving answer)) :
    (s.step m).call? = s.call? := by
  by_cases proceeds : m = .proceed
  · subst proceeds
    rcases s.proceed_keeps with ⟨call, answer, leaving, -⟩ | ⟨-, same⟩
    · exact absurd leaving (staying rfl call answer)
    · exact same
  · have busy : s.holder ≠ none := fun free => by
      rw [Callers.call?_eq_none_iff.mpr free] at held
      cases held
    rw [call?, call?, (idle_of_held busy proceeds).1]

end Callers

/-- The ticker's task, and the callers it shares the buffer with. -/
structure TickerTask (V : Type) where
  callers : Callers V
  stage : TickerStage := .selecting
  /-- Whether the call that has the lock is the ticker's. -/
  owns : Bool := false
  cancelled : Bool := false
  log : List TickerEvent := []
  /-- The flushes that failed, whoever called for them. -/
  failed : List (FailedFlush V) := []

namespace TickerTask

inductive Action (V : Type) where
  | move (m : Move V)
  | cancel
  | tick
  /-- The ticker notices that it was cancelled. -/
  | notice
  /-- The ticker gets the lock. -/
  | lock

def start (policy : BufferPolicy) (clock : Clock) (source : Nat → RowId)
    (plan : FaultPoint → FaultPlan) : TickerTask V :=
  { callers := .fresh policy clock source plan }

def call (last : Bool) (a : TickerTask V) : TickerTask V :=
  { a with stage := .calling last, log := a.log ++ [.called last] }

/-- The ticker's call returns: after its last flush the task ends, else it chooses again. -/
def release (last : Bool) (answer : Except Failure (Option Nat)) (a : TickerTask V) : TickerTask V :=
  { a with
    owns := false
    stage := if last then .ended else .selecting
    log := a.log ++ [.returned last answer] }

variable [Add V]

def advance (m : Move V) (a : TickerTask V) : TickerTask V :=
  let callers := a.callers.step m
  { a with callers, failed := a.failed ++ (a.callers.failed? callers).toList }

def proceed (a : TickerTask V) : TickerTask V :=
  match a.owns, a.stage, a.callers.holder with
  | true, .calling last, some (_, .leaving answer) => (a.advance .proceed).release last answer
  | _, _, _ => a.advance .proceed

def step (a : TickerTask V) : Action V → TickerTask V
  | .move .proceed => a.proceed
  | .move m => a.advance m
  | .cancel => if a.cancelled then a else { a with cancelled := true, log := a.log ++ [.cancelled] }
  | .tick => if a.stage = .selecting then a.call false else a
  | .notice => if a.stage = .selecting ∧ a.cancelled = true then a.call true else a
  | .lock =>
    match a.callers.holder, a.stage with
    | none, .calling last =>
      { (a.advance (.call (TickerStage.call last))).advance (.acquire a.callers.queue.length) with
        owns := true }
    | _, _ => a

def run (a : TickerTask V) (actions : List (Action V)) : TickerTask V := actions.foldl step a

theorem run_append (a : TickerTask V) (actions more : List (Action V)) :
    a.run (actions ++ more) = (a.run actions).run more :=
  List.foldl_append

/-- The call that has the lock takes its next step; if it is the ticker's and leaves, it returns. -/
theorem proceed_cases (a : TickerTask V) :
    (∃ last call answer, a.owns = true ∧ a.stage = .calling last ∧
      a.callers.holder = some (call, .leaving answer) ∧
      a.proceed = (a.advance .proceed).release last answer) ∨
    a.proceed = a.advance .proceed ∧ ∀ last call answer, a.owns = true →
      a.stage = .calling last → a.callers.holder ≠ some (call, .leaving answer) := by
  unfold proceed
  split
  · rename_i last call answer owns calling held
    exact .inl ⟨last, call, answer, owns, calling, held, rfl⟩
  · rename_i staying
    exact .inr ⟨rfl, fun last call answer owns calling held =>
      staying last call answer owns calling held⟩

/-- A ticker that has called gets the lock, and is not in the queue any more. -/
theorem step_lock {a : TickerTask V} {last : Bool} (free : a.callers.holder = none)
    (calling : a.stage = .calling last) :
    a.step .lock = { a with
      callers := { a.callers with holder := some (TickerStage.call last, .entered) }
      owns := true } := by
  have brings : (TickerStage.call last : Call V).entries = [] := by cases last <;> rfl
  have seized := Callers.step_seize free (TickerStage.call last)
  rw [brings, List.append_nil] at seized
  have queued : a.callers.failed? (a.callers.step (.call (TickerStage.call last))) = none := by
    simp only [Callers.failed?, Callers.step, free]
  simp only [step, free, calling, advance, seized, queued]
  simp only [Callers.failed?, Option.toList_none, List.append_nil]

/-- The lock is the ticker's only in a call of its, and the log tells what has happened. -/
structure OnCourse (a : TickerTask V) : Prop where
  owned : a.owns = true →
    ∃ last, a.stage = .calling last ∧ a.callers.call? = some (TickerStage.call last)
  cancelled : a.cancelled = true ↔ .cancelled ∈ a.log
  led : TickerEvent.Led a.log a.stage

namespace OnCourse

variable {a : TickerTask V}

omit [Add V] in
theorem call_eq (course : a.OnCourse) (owns : a.owns = true) {last : Bool}
    (calling : a.stage = .calling last) {call : Call V} {reached : Stage V}
    (held : a.callers.holder = some (call, reached)) : call = TickerStage.call last := by
  obtain ⟨last', calling', called⟩ := course.owned owns
  cases calling.symm.trans calling'
  rw [Callers.call?, held] at called
  exact Option.some.inj called

omit [Add V] in
theorem start (policy : BufferPolicy) (clock : Clock) (source : Nat → RowId)
    (plan : FaultPoint → FaultPlan) : (start policy clock source plan : TickerTask V).OnCourse where
  owned := nofun
  cancelled := by simp [TickerTask.start]
  led := ⟨[], rfl⟩

theorem advance (course : a.OnCourse) (m : Move V)
    (staying : a.owns = true → m = .proceed →
      ∀ call answer, a.callers.holder ≠ some (call, .leaving answer)) :
    (a.advance m).OnCourse where
  owned owns := by
    obtain ⟨last, calling, held⟩ := course.owned owns
    exact ⟨last, calling, (a.callers.call?_step held (staying owns)).trans held⟩
  cancelled := course.cancelled
  led := course.led

theorem proceed (course : a.OnCourse) : a.proceed.OnCourse := by
  rcases a.proceed_cases with ⟨last, call, answer, owns, calling, held, released⟩ | ⟨kept, staying⟩
  · rw [released]
    refine ⟨by rintro ⟨⟩, course.cancelled.trans (by simp [release, TickerTask.advance]), ?_⟩
    have led := course.led
    rw [calling] at led
    cases last with
    | false => exact led.returned
    | true =>
      obtain ⟨before, shape, settled, cancelled⟩ := led
      refine ⟨before, answer, ?_, settled, cancelled⟩
      change a.log ++ _ = _
      rw [shape, List.append_assoc]
      rfl
  · rw [kept]
    refine course.advance _ fun owns _ call answer held => ?_
    obtain ⟨last, calling, -⟩ := course.owned owns
    exact staying last call answer owns calling held

omit [Add V] in
theorem call (course : a.OnCourse) (selecting : a.stage = .selecting) {last : Bool}
    (led : TickerEvent.Led (a.log ++ [.called last]) (.calling last)) :
    (a.call last).OnCourse where
  owned owns := by
    obtain ⟨last, calling, -⟩ := course.owned owns
    cases selecting.symm.trans calling
  cancelled := course.cancelled.trans (by simp [TickerTask.call])
  led := led

theorem step (course : a.OnCourse) (action : Action V) : (a.step action).OnCourse := by
  cases action with
  | move m =>
    cases m with
    | proceed => exact course.proceed
    | _ => exact course.advance _ nofun
  | cancel =>
    rw [TickerTask.step]
    split
    · exact course
    · rename_i first
      refine ⟨course.owned, by simp, course.led.cancel fun logged => ?_⟩
      exact first (course.cancelled.mpr logged)
  | tick =>
    rw [TickerTask.step]
    split
    · rename_i selecting
      have settled := course.led
      rw [selecting] at settled
      exact course.call selecting ⟨a.log, [], rfl, settled, rfl⟩
    · exact course
  | notice =>
    rw [TickerTask.step]
    split
    · rename_i noticed
      have settled := course.led
      rw [noticed.1] at settled
      exact course.call noticed.1 ⟨a.log, rfl, settled, course.cancelled.mp noticed.2⟩
    · exact course
  | lock =>
    cases free : a.callers.holder with
    | some p => simpa only [TickerTask.step, free] using course
    | none =>
      cases calling : a.stage with
      | selecting => simpa only [TickerTask.step, free, calling] using course
      | ended => simpa only [TickerTask.step, free, calling] using course
      | calling last =>
        rw [step_lock free calling]
        exact ⟨fun _ => ⟨last, calling, rfl⟩, course.cancelled, course.led⟩

theorem run (course : a.OnCourse) (actions : List (Action V)) : (a.run actions).OnCourse := by
  induction actions generalizing a with
  | nil => exact course
  | cons action actions ih => exact ih (course.step action)

end OnCourse

/-- The ticker's call has the lock until it returns, whatever happens meanwhile. -/
theorem OnCourse.lock_kept {a : TickerTask V} (course : a.OnCourse) (owns : a.owns = true)
    (action : Action V) :
    ((a.step action).owns = true ∧ (a.step action).callers.call? = a.callers.call?) ∨
      ∃ last answer, a.callers.holder = some (TickerStage.call last, .leaving answer) ∧
        (a.step action).log = a.log ++ [.returned last answer] := by
  obtain ⟨last, calling, called⟩ := course.owned owns
  have kept {m : Move V} (staying : m = .proceed →
      ∀ call answer, a.callers.holder ≠ some (call, .leaving answer)) :
      (a.advance m).owns = true ∧ (a.advance m).callers.call? = a.callers.call? :=
    ⟨owns, a.callers.call?_step called staying⟩
  cases action with
  | move m =>
    cases m with
    | proceed =>
      rcases a.proceed_cases with ⟨last, call, answer, -, calling, held, released⟩ | ⟨same, staying⟩
      · obtain rfl := course.call_eq owns calling held
        exact .inr ⟨last, answer, held, congrArg log released⟩
      · refine .inl ?_
        rw [TickerTask.step, same]
        exact kept fun _ call answer => staying last call answer owns calling
    | _ => exact .inl (kept (by rintro ⟨⟩))
  | cancel =>
    refine .inl ?_
    rw [TickerTask.step]
    split <;> exact ⟨owns, rfl⟩
  | tick => exact .inl (by simp [TickerTask.step, calling, owns])
  | notice => exact .inl (by simp [TickerTask.step, calling, owns])
  | lock =>
    refine .inl ?_
    cases held : a.callers.holder with
    | none =>
      rw [Callers.call?_eq_none_iff.mpr held] at called
      cases called
    | some p => simp [TickerTask.step, held, owns]

/-- A call is logged to have returned as it leaves the lock. -/
theorem OnCourse.returned_step {a : TickerTask V} (course : a.OnCourse) {action : Action V}
    {last : Bool} {answer : Except Failure (Option Nat)}
    (logged : .returned last answer ∈ (a.step action).log) :
    .returned last answer ∈ a.log ∨ a.owns = true ∧ a.stage = .calling last ∧
      a.callers.holder = some (TickerStage.call last, .leaving answer) := by
  cases action with
  | move m =>
    cases m with
    | proceed =>
      rcases a.proceed_cases with ⟨last', call, answer', owns, calling, held, released⟩ | ⟨same, -⟩
      · rw [TickerTask.step, released] at logged
        rcases List.mem_append.mp logged with old | new
        · exact .inl old
        · cases List.mem_singleton.mp new
          obtain rfl := course.call_eq owns calling held
          exact .inr ⟨owns, calling, held⟩
      · rw [TickerTask.step, same] at logged
        exact .inl logged
    | _ => exact .inl logged
  | cancel =>
    rw [TickerTask.step] at logged
    split at logged
    · exact .inl logged
    · exact .inl (by simpa using logged)
  | tick =>
    rw [TickerTask.step] at logged
    split at logged
    · exact .inl (by simpa [TickerTask.call] using logged)
    · exact .inl logged
  | notice =>
    rw [TickerTask.step] at logged
    split at logged
    · exact .inl (by simpa [TickerTask.call] using logged)
    · exact .inl logged
  | lock =>
    rw [TickerTask.step] at logged
    split at logged <;> exact .inl logged

theorem OnCourse.exists_leaving {a : TickerTask V} (course : a.OnCourse) {actions : List (Action V)}
    {last : Bool} {answer : Except Failure (Option Nat)} (unlogged : .returned last answer ∉ a.log)
    (logged : .returned last answer ∈ (a.run actions).log) :
    ∃ before after, actions = before ++ after ∧ (a.run before).owns = true ∧
      (a.run before).stage = .calling last ∧
      (a.run before).callers.holder = some (TickerStage.call last, .leaving answer) := by
  induction actions generalizing a with
  | nil => exact absurd logged unlogged
  | cons action actions ih =>
    by_cases leaving : .returned last answer ∈ (a.step action).log
    · exact ⟨[], _, rfl, (course.returned_step leaving).resolve_left unlogged⟩
    · obtain ⟨before, after, rfl, moment⟩ := ih (course.step action) leaving logged
      exact ⟨action :: before, after, rfl, moment⟩

omit [Add V] in
theorem OnCourse.owns_of_ended {a : TickerTask V} (course : a.OnCourse)
    (ended : a.stage = .ended) : a.owns = false := by
  by_contra owns
  obtain ⟨last, calling, -⟩ := course.owned (Bool.not_eq_false _ ▸ owns)
  cases ended.symm.trans calling

theorem OnCourse.step_of_ended {a : TickerTask V} (course : a.OnCourse) (ended : a.stage = .ended)
    (action : Action V) : (a.step action).log = a.log ∧ (a.step action).stage = .ended := by
  have free := course.owns_of_ended ended
  have cancelled : a.cancelled = true := by
    have led := course.led
    rw [ended] at led
    obtain ⟨before, answer, shape, -, logged⟩ := led
    rw [course.cancelled, shape]
    exact List.mem_append_left _ logged
  cases action with
  | move m =>
    cases m with
    | proceed =>
      rcases a.proceed_cases with ⟨last, call, answer, owns, -⟩ | ⟨same, -⟩
      · cases free.symm.trans owns
      · rw [TickerTask.step, same]
        exact ⟨rfl, ended⟩
    | _ => exact ⟨rfl, ended⟩
  | cancel => simp [TickerTask.step, cancelled, ended]
  | tick => simp [TickerTask.step, ended]
  | notice => simp [TickerTask.step, ended]
  | lock => cases held : a.callers.holder <;> simp [TickerTask.step, held, ended]

theorem OnCourse.run_of_ended {a : TickerTask V} (course : a.OnCourse) (ended : a.stage = .ended)
    (actions : List (Action V)) :
    (a.run actions).log = a.log ∧ (a.run actions).stage = .ended := by
  induction actions generalizing a with
  | nil => exact ⟨rfl, ended⟩
  | cons action actions ih =>
    obtain ⟨log, stage⟩ := course.step_of_ended ended action
    obtain ⟨log', stage'⟩ := ih (course.step action) stage
    exact ⟨log'.trans log, stage'⟩

section Stopping

variable {a : TickerTask V}

/-- As long as no call returns, the ticker's does not. -/
theorem step_move_of_returned {m : Move V}
    (none : (a.callers.step m).returned.length = a.callers.returned.length) :
    ∃ failed, a.step (.move m) = { a with callers := a.callers.step m, failed } := by
  cases m with
  | proceed =>
    rcases a.proceed_cases with ⟨last, call, answer, -, -, held, -⟩ | ⟨same, -⟩
    · simp [Callers.step, Callers.proceed, held] at none
    · exact ⟨_, same⟩
  | _ => exact ⟨_, rfl⟩

theorem run_moves_of_returned {moves : List (Move V)}
    (none : (a.callers.run moves).returned.length = a.callers.returned.length) :
    ∃ failed, a.run (moves.map .move) = { a with callers := a.callers.run moves, failed } := by
  induction moves generalizing a with
  | nil => exact ⟨_, rfl⟩
  | cons m moves ih =>
    have first := Callers.length_returned_step (a.callers.step_cases m)
    have rest := (a.callers.step m).length_returned_run moves
    have whole : (a.callers.run (m :: moves)).returned = ((a.callers.step m).run moves).returned :=
      rfl
    rw [whole] at none
    obtain ⟨failed, stepped⟩ := @step_move_of_returned _ _ a m (by omega)
    obtain ⟨failed', ran⟩ := @ih { a with callers := a.callers.step m, failed }
      (by dsimp only; omega)
    refine ⟨failed', ?_⟩
    rw [List.map_cons, run, List.foldl_cons, stepped]
    exact ran

/-- The ticker has returned from a call, and the clock and the collector are so. -/
structure Returned (last : Bool) (timed : Timed (FallibleMemory V) V) (a b : TickerTask V) :
    Prop where
  stage : b.stage = if last then .ended else .selecting
  free : b.callers.holder = none
  cancelled : b.cancelled = a.cancelled
  timed_eq : b.callers.timed = timed

theorem exists_run_returned {last : Bool} {moves : List (Move V)} {call : Call V}
    {timed : Timed (FallibleMemory V) V} {answer : Except Failure (Option Nat)}
    (owns : a.owns = true) (calling : a.stage = .calling last)
    (ends : a.callers.run moves =
      { a.callers with timed, holder := some (call, .leaving answer) }) :
    ∃ actions, a.Returned last timed (a.run actions) := by
  have none : (a.callers.run moves).returned.length = a.callers.returned.length := by rw [ends]
  obtain ⟨failed, ran⟩ := run_moves_of_returned none
  refine ⟨moves.map .move ++ [.move .proceed], ?_⟩
  rw [run_append, ran, ends]
  simp only [run, List.foldl_cons, List.foldl_nil, step, proceed, owns, calling]
  exact ⟨rfl, rfl, rfl, rfl⟩

/-- A call for which the lock is free ends as the function does. -/
theorem exists_run_called {last : Bool} (calling : a.stage = .calling last)
    (free : a.callers.holder = none) :
    ∃ actions, a.Returned last ((TickerStage.call last).serve a.callers.timed).2 (a.run actions) := by
  set b : TickerTask V := { a with
    callers := { a.callers with holder := some (TickerStage.call last, .entered) }, owns := true }
    with b_eq
  have locked : a.step .lock = b := step_lock free calling
  have entered : b.callers.holder = some (TickerStage.call last, .entered) := rfl
  obtain ⟨moves, ends⟩ := b.callers.exists_run_of_entered entered
  obtain ⟨actions, stage, free, cancelled, timed⟩ := b.exists_run_returned rfl calling ends
  refine ⟨.lock :: actions, ?_⟩
  rw [run, List.foldl_cons, locked]
  exact ⟨stage, free, cancelled, timed⟩

/-- The task stands where the ticker of a runtime does. -/
inductive Mirrors (a : TickerTask V) : TickerPhase V → Prop where
  | idle (selecting : a.stage = .selecting) (free : a.callers.holder = none) : Mirrors a .idle
  | queued (calling : a.stage = .calling false) (free : a.callers.holder = none) : Mirrors a .queued
  | flying {wake : Instant} {f : Flight V} (calling : a.stage = .calling false)
      (owns : a.owns = true) (held : a.callers.holder = some (.flushIfDue, .attempting f) ∨
        a.callers.holder = some (.flushIfDue, .waiting wake f)) : Mirrors a (.flying wake f)

omit [Add V] in
/-- To wait until a moment is to reach it. -/
theorem pass_eq_reach (s : Runtime (FallibleMemory V) V) (wake : Instant) :
    s.timed.pass ⟨wake.nanos - s.now.nanos⟩ = (s.reach wake).timed := by
  have sum : s.now + ⟨wake.nanos - s.now.nanos⟩ = max s.now wake := by
    apply congrArg Duration.mk
    change s.now.nanos + (wake.nanos - s.now.nanos) = max s.now.nanos wake.nanos
    omega
  rw [Timed.pass, Clock.pass, Runtime.reach, ← sum]
  rfl

/-- A flush that a tick has begun ends as it would without the cancellation. -/
theorem exists_run_finishTimed {s : Runtime (FallibleMemory V) V} {ticker : Ticker V}
    (ticking : s.ticker = some ticker) (timed : a.callers.timed = s.timed)
    (mirrors : a.Mirrors ticker.phase) :
    ∃ actions, a.Returned false s.finishTimed.timed (a.run actions) := by
  obtain ⟨due, phase⟩ := ticker
  dsimp only at mirrors
  cases mirrors with
  | idle selecting free =>
    refine ⟨[], selecting, free, rfl, timed.trans ?_⟩
    simp only [Runtime.finishTimed, ticking]
  | queued calling free =>
    have ends := exists_run_called calling free
    rw [timed, TickerStage.call, if_neg (by decide), Call.serve_flushIfDue] at ends
    simpa only [Runtime.finishTimed, ticking] using ends
  | @flying wake f calling owns held =>
    have reached :
        (a.callers.step (.pass ⟨wake.nanos - s.now.nanos⟩)).timed = (s.reach wake).timed := by
      rw [← pass_eq_reach, ← timed]
      rfl
    have late : wake ≤ (s.reach wake).timed.clock.now := Nat.le_max_right _ _
    have due : (a.callers.step (.pass ⟨wake.nanos - s.now.nanos⟩)).Due .flushIfDue f := by
      refine held.imp id fun waits => ⟨wake, ?_, waits⟩
      rw [Callers.clock, reached]
      exact late
    obtain ⟨moves, ends⟩ := due.exists_run
    rw [reached] at ends
    obtain ⟨actions, returned⟩ := @exists_run_returned _ _ a _ (_ :: moves) _ _ _ owns calling ends
    exact ⟨actions, by simpa only [Runtime.finishTimed, ticking] using returned⟩

omit [Add V] in
theorem Mirrors.of_eq {b : TickerTask V} {phase : TickerPhase V} (mirrors : a.Mirrors phase)
    (callers : b.callers = a.callers) (stage : b.stage = a.stage) (owns : b.owns = a.owns) :
    b.Mirrors phase := by
  cases mirrors with
  | idle selecting free => exact .idle (stage.trans selecting) (callers ▸ free)
  | queued calling free => exact .queued (stage.trans calling) (callers ▸ free)
  | flying calling owned held =>
    exact .flying (stage.trans calling) (owns.trans owned) (callers ▸ held)

theorem step_cancel (a : TickerTask V) :
    ∃ log, a.step .cancel = { a with cancelled := true, log } := by
  rw [step]
  split
  · rename_i cancelled
    exact ⟨a.log, by rw [← cancelled]⟩
  · exact ⟨_, rfl⟩

/-- Cancelling the ticker and waiting for it is one of the ways to go on. -/
theorem exists_run_stopTicker {s : Runtime (FallibleMemory V) V} {ticker : Ticker V}
    (ticking : s.ticker = some ticker) (timed : a.callers.timed = s.timed)
    (mirrors : a.Mirrors ticker.phase) :
    ∃ actions, (a.run (.cancel :: actions)).stage = .ended ∧
      (a.run (.cancel :: actions)).callers.timed = s.stopTicker.timed := by
  obtain ⟨log, cancelled⟩ := a.step_cancel
  set b : TickerTask V := { a with cancelled := true, log }
  obtain ⟨actions, stage, free, noticed, finished⟩ :=
    exists_run_finishTimed (a := b) ticking timed (mirrors.of_eq rfl rfl rfl)
  set c := b.run actions
  have notices : c.step .notice = c.call true := if_pos ⟨stage, noticed⟩
  have calling : (c.call true).stage = .calling true := rfl
  obtain ⟨more, ended, -, -, flushed⟩ := exists_run_called calling free
  refine ⟨actions ++ .notice :: more, ?_⟩
  have ran : a.run (.cancel :: (actions ++ .notice :: more)) = (c.call true).run more := by
    rw [run, List.foldl_cons, cancelled]
    change b.run _ = _
    rw [run_append, run, List.foldl_cons, notices]
    rfl
  rw [ran]
  refine ⟨ended, flushed.trans ?_⟩
  change (Call.serve c.callers.timed (.flush .manual)).2 = _
  rw [finished, Call.serve_flush, Runtime.stopTicker, if_pos (by rw [ticking]; rfl)]

end Stopping

section Values

variable {ι : Type} {policy : BufferPolicy} {a : TickerTask (Multiset ι)}

theorem traced_step (traced : a.callers.Traced policy a.failed) (action : Action (Multiset ι)) :
    (a.step action).callers.Traced policy (a.step action).failed := by
  have advanced {a : TickerTask (Multiset ι)} (traced : a.callers.Traced policy a.failed)
      (m : Move (Multiset ι)) : (a.advance m).callers.Traced policy (a.advance m).failed :=
    traced.step (a.callers.step_cases m)
  cases action with
  | move m =>
    cases m with
    | proceed =>
      rw [step]
      rcases a.proceed_cases with ⟨last, call, answer, -, -, -, released⟩ | ⟨same, -⟩
      · rw [released]
        exact advanced traced _
      · rw [same]
        exact advanced traced _
    | _ => exact advanced traced _
  | cancel =>
    rw [step]
    split <;> exact traced
  | tick =>
    rw [step]
    split <;> exact traced
  | notice =>
    rw [step]
    split <;> exact traced
  | lock =>
    rw [step]
    split
    · exact advanced (advanced traced _) _
    · exact traced

theorem traced_run (traced : a.callers.Traced policy a.failed)
    (actions : List (Action (Multiset ι))) :
    (a.run actions).callers.Traced policy (a.run actions).failed := by
  induction actions generalizing a with
  | nil => exact traced
  | cons action actions ih => exact ih (traced_step traced action)

/-- However ticks, callers, time, failures and the cancellation come one after the other: the log
is that of timed flushes, each of which has returned before the next, and the last flush comes after
all of them and after the cancellation. A call of the ticker keeps the lock until it returns. When
the task has ended nothing more happens. And if its last flush succeeds, then as it leaves the lock
the buffer is empty, and every value whose write got the lock is in a record that was stored and is
kept until it expires, or a failed flush has dropped it and reported that. -/
theorem cancelled_ends_with_flush (policy : BufferPolicy) (clock : Clock) (source : Nat → RowId)
    (plan : FaultPoint → FaultPlan) (actions : List (Action (Multiset ι)))
    (injective : Function.Injective source) :
    let a := (start policy clock source plan).run actions
    TickerEvent.Led a.log a.stage ∧
    (∀ last answer, .returned last answer ∈ a.log → ∃ before after, actions = before ++ after ∧
      let b := (start policy clock source plan).run before
      b.owns = true ∧ b.stage = .calling last ∧
        b.callers.holder = some (TickerStage.call last, .leaving answer)) ∧
    (a.owns = true → ∀ action,
      ((a.step action).owns = true ∧ (a.step action).callers.call? = a.callers.call?) ∨
        ∃ last answer, a.callers.holder = some (TickerStage.call last, .leaving answer) ∧
          (a.step action).log = a.log ++ [.returned last answer]) ∧
    (a.stage = .ended → ∀ more, (a.run more).log = a.log ∧ (a.run more).owns = false) ∧
    (a.owns = true → a.stage = .calling true →
      ∀ call answer, a.callers.holder = some (call, .leaving (.ok answer)) →
        a.callers.collector.totals.entries = [] ∧
        ∀ k, ∀ x ∈ total k (a.callers.acquired.flatMap Entry.pairs),
          (∃ p ∈ a.callers.collector.store.journal, p.stored = true ∧ ∃ r ∈ p.batch,
            r.key = k ∧ x ∈ r.value ∧ a.callers.collector.store.Keeps a.callers.clock r) ∨
          (policy.retry.onExhausted = .discard ∧ ∃ r ∈ a.failed,
            (r.call, .error r.failure) ∈ a.callers.returned ∧ x ∈ total k r.taken.entries)) := by
  intro a
  have starts : (start policy clock source plan : TickerTask (Multiset ι)).OnCourse :=
    OnCourse.start policy clock source plan
  have course : a.OnCourse := starts.run actions
  have traced : a.callers.Traced policy a.failed :=
    traced_run (a := start policy clock source plan) (.fresh injective) actions
  refine ⟨course.led, fun last answer => starts.exists_leaving List.not_mem_nil, course.lock_kept,
    ?_, ?_⟩
  · intro ended more
    obtain ⟨log, stage⟩ := course.run_of_ended ended more
    exact ⟨log, (course.run more).owns_of_ended stage⟩
  · intro owns calling call answer held
    have flushed : a.callers.flushed = true := by
      obtain rfl : call = .flush .manual := course.call_eq owns calling held
      cases answer with
      | none => exact absurd held (traced.asked .manual)
      | some n => simp only [Callers.flushed, held]
    have empty : a.callers.collector.totals = .empty := traced.flushed flushed
    have nothing : a.callers.underway = [] := by
      simp only [Callers.underway, Callers.entering, Callers.flight?, held, empty]
      rfl
    refine ⟨congrArg Totals.entries empty, fun k x hx => ?_⟩
    cases traced.located k x hx with
    | underway mem =>
      rw [nothing] at mem
      exact absurd mem (Multiset.notMem_zero x)
    | stored submitted taken hr key mem =>
      exact .inl ⟨_, submitted, taken, _, hr, key, mem, traced.stocked.kept _ submitted taken _ hr⟩
    | dropped discard hr mem =>
      refine .inr ⟨discard, _, hr, ?_, mem⟩
      rcases traced.reported _ hr with returned | leaving
      · exact returned
      · cases held.symm.trans leaving

/-- A timed flush finds the store down and waits; meanwhile the ticker is cancelled and a write queues
for the lock, which it gets before the last flush. -/
def cancelledInBackoff : List (Action (Multiset Nat)) :=
  [.move (.call (.write ⟨"o", "t", [⟨"a", {0}, "u"⟩]⟩)), .move (.acquire 0), .move .proceed,
    .move .proceed, .move (.pass (.ofSeconds 60)), .tick, .lock, .move .proceed, .move .proceed,
    .cancel, .move (.call (.write ⟨"o", "t", [⟨"a", {1}, "u"⟩]⟩)), .notice,
    .move (.pass (.ofMillis 100)), .move .proceed, .move .proceed, .notice, .move (.acquire 0),
    .lock, .move .proceed, .move .proceed, .lock, .move .proceed, .move .proceed]

theorem cancelled_ends_with_flush_inBackoff :
    let policy : BufferPolicy := ⟨9, .ofSeconds 60, .ofSeconds 3600, ⟨2, .ofMillis 100, .requeue⟩⟩
    let a := (start policy ⟨⟨0⟩, fun t => t.millis⟩ id Callers.downOnce).run cancelledInBackoff
    a.owns = true ∧ a.stage = .calling true ∧ a.callers.collector.totals.entries = [] ∧
      ∃ p ∈ a.callers.collector.store.journal, p.stored = true ∧ ∃ r ∈ p.batch,
        r.key = ⟨"o", "t", "a", "u"⟩ ∧ 1 ∈ r.value := by
  intro policy a
  have owns : a.owns = true := by decide +kernel
  have calling : a.stage = .calling true := by decide +kernel
  have flushed : a.callers.flushed = true := by decide +kernel
  have acquired : a.callers.acquired =
      [⟨"o", "t", [⟨"a", {0}, "u"⟩]⟩, ⟨"o", "t", [⟨"a", {1}, "u"⟩]⟩] := by decide +kernel
  obtain ⟨call, n, held⟩ := Callers.exists_leaving_of_flushed flushed
  obtain ⟨-, -, -, -, last⟩ := cancelled_ends_with_flush policy ⟨⟨0⟩, fun t => t.millis⟩ id
    Callers.downOnce cancelledInBackoff Function.injective_id
  have ran : (start policy ⟨⟨0⟩, fun t => t.millis⟩ id Callers.downOnce).run cancelledInBackoff = a :=
    rfl
  rw [ran] at last
  -- From here on only what has been evaluated is to be used of the run.
  clear_value a
  obtain ⟨empty, located⟩ := last owns calling call (some n) held
  rw [acquired] at located
  refine ⟨owns, calling, empty, ?_⟩
  rcases located ⟨"o", "t", "a", "u"⟩ 1 (by decide) with stored | ⟨discard, -⟩
  · obtain ⟨p, submitted, taken, r, hr, key, mem, -⟩ := stored
    exact ⟨p, submitted, taken, r, hr, key, mem⟩
  · cases discard

/-- A value is stored by somebody's flush and lives for a second. When that has passed, the ticker is
cancelled after another write. -/
def cancelledAfterExpiry : List (Action (Multiset Nat)) :=
  [.move (.call (.write ⟨"o", "t", [⟨"a", {0}, "u"⟩]⟩)), .move (.acquire 0), .move .proceed,
    .move .proceed, .move (.call (.flush .manual)), .move (.acquire 0), .move .proceed,
    .move .proceed, .move .proceed, .move (.pass (.ofSeconds 1)),
    .move (.call (.write ⟨"o", "t", [⟨"b", {1}, "u"⟩]⟩)), .move (.acquire 0), .move .proceed,
    .move .proceed, .cancel, .notice, .lock, .move .proceed, .move .proceed]

/-- No flush has failed, and yet the last flush, which succeeds, leaves no row with that value. -/
theorem last_flush_drops_expired :
    let policy : BufferPolicy := ⟨9, .ofSeconds 60, .ofSeconds 1, {}⟩
    let a := (start policy ⟨⟨0⟩, fun t => t.millis⟩ id fun _ => []).run cancelledAfterExpiry
    let k : Key := ⟨"o", "t", "a", "u"⟩
    a.owns = true ∧ a.stage = .calling true ∧ a.callers.flushed = true ∧ a.failed.isEmpty = true ∧
      0 ∈ total k (a.callers.acquired.flatMap Entry.pairs) ∧
      0 ∉ total k a.callers.collector.store.inner.pairs := by
  decide +kernel

end Values

end TickerTask

end TraceTally
