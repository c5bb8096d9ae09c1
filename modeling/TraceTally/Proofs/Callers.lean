import Mathlib.Tactic.Abel
import TraceTally.Collector.Query
import TraceTally.Proofs.Pending

/-!
# Callers that share a buffer

Any number of callers write and flush; whoever has the lock goes on alone, step by step, and others
may call, time may pass and queries may scan the store between any two of its steps. A step ends
where a call waits: for the lock, for the store's answer, or for the next attempt.
-/

namespace TraceTally

variable {V : Type}

/-- What is asked of the buffer. A tick of the background ticker is a flush if one is due. -/
inductive Call (V : Type) where
  | write (e : Entry V)
  | flush (trigger : Trigger)
  | flushIfDue

namespace Call

def entries : Call V → List (Entry V)
  | write e => [e]
  | flush _ => []
  | flushIfDue => []

/-- What the call merges, once it has the lock. -/
def merge [Add V] (c : Collector (FallibleMemory V) V) :
    Call V → Collector (FallibleMemory V) V
  | write e => c.mergeEntry e
  | flush _ => c
  | flushIfDue => c

/-- The flush that the call then has to start. -/
def trigger? (now : Instant) (c : Collector (FallibleMemory V) V) : Call V → Option Trigger
  | write _ => c.trigger? now
  | flush t => some t
  | flushIfDue => if c.isDue now then some .ticker else none

end Call

/-- Where the call that has the lock stands. The answer of a call that made no flush is `none`. -/
inductive Stage (V : Type) where
  | entered
  /-- The batch is with the store. -/
  | attempting (f : Flight V)
  /-- The next attempt is made at `wake`. -/
  | waiting (wake : Instant) (f : Flight V)
  | leaving (answer : Except Failure (Option Nat))

def Stage.of (now : Instant) : Progress V → Stage V
  | .finished r => leaving (r.map some)
  | .ready f => attempting f
  | .waiting d f => waiting (now + d) f

structure Callers (V : Type) where
  timed : Timed (FallibleMemory V) V
  queue : List (Call V) := []
  holder : Option (Call V × Stage V) := none
  /-- The entries of the writes that got the lock, in that order. -/
  acquired : List (Entry V) := []
  /-- The calls that returned, with their answers. -/
  returned : List (Call V × Except Failure (Option Nat)) := []

inductive Move (V : Type) where
  | call (c : Call V)
  /-- One of the calls in the queue gets the lock, if it is free. -/
  | acquire (i : Nat)
  /-- The call that has the lock takes its next step. -/
  | proceed
  | pass (d : Duration)
  | query (f : Filter)

namespace Callers

def collector (s : Callers V) : Collector (FallibleMemory V) V := s.timed.collector

def clock (s : Callers V) : Clock := s.timed.clock

def setCollector (c : Collector (FallibleMemory V) V) (s : Callers V) : Callers V :=
  { s with timed := { s.timed with collector := c } }

def hold (call : Call V) (stage : Stage V) (s : Callers V) : Callers V :=
  { s with holder := some (call, stage) }

/-- The call has come as far as its flush has. -/
def land (call : Call V) (p : Progress V × Collector (FallibleMemory V) V) (s : Callers V) :
    Callers V :=
  (s.setCollector p.2).hold call (.of s.clock.now p.1)

def fresh (policy : BufferPolicy) (clock : Clock) (source : Nat → RowId)
    (plan : FaultPoint → FaultPlan) : Callers V :=
  { timed := .fresh policy clock source plan }

def flight? (s : Callers V) : Option (Flight V) :=
  match s.holder with
  | some (_, .attempting f) => some f
  | some (_, .waiting _ f) => some f
  | _ => none

/-- What a write brings that has the lock and has not merged. -/
def entering (s : Callers V) : List (Key × V) :=
  match s.holder with
  | some (call, .entered) => call.entries.flatMap Entry.pairs
  | _ => []

/-- The flush of the call that has the lock goes on. -/
def Trying (s : Callers V) (call : Call V) (f : Flight V) : Prop :=
  s.holder = some (call, .attempting f) ∨ ∃ wake, s.holder = some (call, .waiting wake f)

/-- Neither the buffer nor what is stored changes, and nobody gets or leaves the lock. -/
structure Quiet (s s' : Callers V) : Prop where
  before : s.timed.Before s'.timed
  policy_eq : s'.collector.policy = s.collector.policy
  totals : s'.collector.totals = s.collector.totals
  store : s.collector.store.SameContents s'.collector.store
  holder : s'.holder = s.holder
  acquired : s'.acquired = s.acquired
  returned : s'.returned = s.returned

theorem Quiet.refl (s : Callers V) : s.Quiet s :=
  ⟨.refl _, rfl, rfl, .refl _, rfl, rfl, rfl⟩

variable {s s' : Callers V}

theorem flight?_land (call : Call V) (p : Progress V × Collector (FallibleMemory V) V)
    (s : Callers V) : (s.land call p).flight? = p.1.flight? := by
  obtain ⟨p, c⟩ := p
  cases p <;> rfl

theorem holder_land_failed_iff (call call' : Call V) (s : Callers V) {e : Failure}
    {p : Progress V × Collector (FallibleMemory V) V} :
    (s.land call p).holder = some (call', .leaving (.error e)) ↔
      call = call' ∧ p.1 = .finished (.error e) := by
  obtain ⟨p, c⟩ := p
  cases p with
  | finished r => cases r <;> simp [land, hold, Stage.of, Except.map]
  | ready f => simp [land, hold, Stage.of]
  | waiting d f => simp [land, hold, Stage.of]

theorem entering_land (call : Call V) (p : Progress V × Collector (FallibleMemory V) V)
    (s : Callers V) : (s.land call p).entering = [] := by
  obtain ⟨p, c⟩ := p
  cases p <;> rfl

theorem Quiet.flight?_eq (quiet : s.Quiet s') : s'.flight? = s.flight? := by
  rw [flight?, flight?, quiet.holder]

theorem Quiet.entering_eq (quiet : s.Quiet s') : s'.entering = s.entering := by
  rw [entering, entering, quiet.holder]

namespace Trying

variable {call : Call V} {f : Flight V}

theorem flight?_eq (trying : s.Trying call f) : s.flight? = some f := by
  rcases trying with held | ⟨wake, held⟩ <;> rw [flight?, held]

theorem entering_eq (trying : s.Trying call f) : s.entering = [] := by
  rcases trying with held | ⟨wake, held⟩ <;> rw [entering, held]

theorem not_leaving (trying : s.Trying call f) (call' : Call V)
    (answer : Except Failure (Option Nat)) : s.holder ≠ some (call', .leaving answer) := by
  intro left
  rcases trying with held | ⟨wake, held⟩
  · cases held.symm.trans left
  · cases held.symm.trans left

end Trying

variable [Add V]

def merge (call : Call V) (s : Callers V) : Callers V := s.setCollector (call.merge s.collector)

/-- A call that got the lock merges and decides; if it has to flush, it begins to. -/
def enter (call : Call V) (s : Callers V) : Callers V :=
  let s := s.merge call
  match call.trigger? s.clock.now s.collector with
  | none => s.hold call (.leaving (.ok none))
  | some t => s.land call (s.collector.beginFlush s.clock t)

def proceed (s : Callers V) : Callers V :=
  match s.holder with
  | none => s
  | some (call, .entered) => s.enter call
  | some (call, .attempting f) => s.land call (s.collector.attempt s.clock f)
  | some (call, .waiting wake f) =>
    if wake ≤ s.clock.now then s.land call (s.collector.attempt s.clock f) else s
  | some (call, .leaving answer) =>
    { s with holder := none, returned := s.returned ++ [(call, answer)] }

def step (s : Callers V) : Move V → Callers V
  | .call c => { s with queue := s.queue ++ [c] }
  | .acquire i =>
    match s.holder, s.queue[i]? with
    | none, some c =>
      { s with queue := s.queue.eraseIdx i, holder := some (c, .entered),
               acquired := s.acquired ++ c.entries }
    | _, _ => s
  | .proceed => s.proceed
  | .pass d => { s with timed := s.timed.pass d }
  | .query f => s.setCollector (s.collector.query s.clock.today f).2

def run (s : Callers V) (moves : List (Move V)) : Callers V := moves.foldl step s

theorem run_append (s : Callers V) (moves more : List (Move V)) :
    s.run (moves ++ more) = (s.run moves).run more :=
  List.foldl_append

inductive StepCase (s : Callers V) : Callers V → Prop where
  | quiet {s' : Callers V} (quiet : s.Quiet s') : StepCase s s'
  | got {call : Call V} {queue : List (Call V)} (free : s.holder = none) :
      StepCase s { s with queue, holder := some (call, .entered),
                          acquired := s.acquired ++ call.entries }
  | decided {call : Call V} (held : s.holder = some (call, .entered))
      (undue : call.trigger? (s.merge call).clock.now (s.merge call).collector = none) :
      StepCase s ((s.merge call).hold call (.leaving (.ok none)))
  | began {call : Call V} {t : Trigger} (held : s.holder = some (call, .entered)) :
      StepCase s ((s.merge call).land call
        ((s.merge call).collector.beginFlush (s.merge call).clock t))
  | tried {call : Call V} {f : Flight V} (trying : s.Trying call f) :
      StepCase s (s.land call (s.collector.attempt s.clock f))
  | left {call : Call V} {answer : Except Failure (Option Nat)}
      (held : s.holder = some (call, .leaving answer)) :
      StepCase s { s with holder := none, returned := s.returned ++ [(call, answer)] }

theorem step_cases (s : Callers V) (m : Move V) : s.StepCase (s.step m) := by
  cases m with
  | call c => exact .quiet ⟨.refl _, rfl, rfl, .refl _, rfl, rfl, rfl⟩
  | acquire i =>
    simp only [step]
    split
    · rename_i c free _
      exact .got free
    · exact .quiet (.refl s)
  | proceed =>
    simp only [step, proceed]
    split
    · exact .quiet (.refl s)
    · rename_i call held
      simp only [enter]
      split
      · exact .decided held ‹_›
      · exact .began held
    · rename_i call f held
      exact .tried (.inl held)
    · rename_i call wake f held
      split
      · exact .tried (.inr ⟨wake, held⟩)
      · exact .quiet (.refl s)
    · rename_i call answer held
      exact .left held
  | pass d => exact .quiet ⟨s.timed.before_pass d, rfl, rfl, .refl _, rfl, rfl, rfl⟩
  | query f =>
    refine .quiet ⟨⟨rfl, le_rfl⟩, rfl, rfl, ?_, rfl, rfl, rfl⟩
    simp only [step, setCollector, collector, Collector.query, TraceTally.query, Collector.count]
    cases f.toPredicate with
    | error e => exact .refl _
    | ok p =>
      have same := FallibleMemory.sameContents_scan s.clock.today p s.timed.collector.store
      dsimp only
      split <;> simp_all

theorem StepCase.before (step : s.StepCase s') : s.timed.Before s'.timed := by
  cases step with
  | quiet quiet => exact quiet.before
  | got => exact .refl _
  | decided => exact ⟨rfl, le_rfl⟩
  | began => exact ⟨rfl, le_rfl⟩
  | tried => exact ⟨rfl, le_rfl⟩
  | left => exact .refl _

theorem before_run (s : Callers V) (moves : List (Move V)) :
    s.timed.Before (s.run moves).timed := by
  induction moves generalizing s with
  | nil => exact .refl _
  | cons m moves ih => exact (s.step_cases m).before.trans (ih _)

end Callers

/-- What the call does when nobody else has the lock, and its answer. -/
def Call.serve [Add V] (s : Timed (FallibleMemory V) V) (call : Call V) :
    Except Failure (Option Nat) × Timed (FallibleMemory V) V :=
  let s := { s with collector := call.merge s.collector }
  match call.trigger? s.clock.now s.collector with
  | none => (.ok none, s)
  | some t => ((s.flush t).1.map some, (s.flush t).2)

namespace Call

variable [Add V] (s : Timed (FallibleMemory V) V)

theorem serve_write (e : Entry V) :
    s.write e = (((write e).serve s).1.map fun _ => (), ((write e).serve s).2) := by
  simp only [Timed.write, serve, merge, trigger?]
  cases (s.collector.mergeEntry e).trigger? s.clock.now with
  | none => rfl
  | some t =>
    dsimp only
    cases (Timed.flush t { s with collector := s.collector.mergeEntry e }).1 <;> rfl

theorem serve_flush (t : Trigger) :
    (flush t).serve s = ((s.flush t).1.map some, (s.flush t).2) := rfl

theorem serve_flushIfDue : flushIfDue.serve s = s.flushIfDue := by
  simp only [Timed.flushIfDue, serve, merge, trigger?]
  by_cases due : s.collector.isDue s.clock.now
  · simp only [due, if_true]
  · simp only [due, Bool.false_eq_true, if_false]

end Call

namespace Callers

variable [Add V] {s : Callers V} {call : Call V} {f : Flight V}

/-- The holder's next attempt is to be made now. -/
def Due (s : Callers V) (call : Call V) (f : Flight V) : Prop :=
  s.holder = some (call, .attempting f) ∨
    ∃ wake ≤ s.clock.now, s.holder = some (call, .waiting wake f)

theorem Due.proceed (due : s.Due call f) :
    s.proceed = s.land call (s.collector.attempt s.clock f) := by
  rcases due with held | ⟨wake, le, held⟩
  · rw [Callers.proceed, held]
  · simp only [Callers.proceed, held, le, if_true]

/-- A flush whose next attempt is due goes on to its end if time passes. -/
theorem Due.exists_run (due : s.Due call f) :
    ∃ moves, s.run moves = { s with
      timed := (s.timed.finish f).2
      holder := some (call, .leaving ((s.timed.finish f).1.map some)) } := by
  -- One step for each attempt, and time passes between two of them.
  generalize timed : s.timed = t
  fun_induction Timed.finish f t generalizing s with
  | case1 f t r c h =>
    refine ⟨[.proceed], ?_⟩
    subst timed
    have ended : s.proceed = s.land call (.finished r, c) :=
      due.proceed.trans (congrArg (s.land call) h)
    exact ended
  | case2 f t d f' c h this ih =>
    subst timed
    have waiting : s.proceed = s.land call (.waiting d f', c) :=
      due.proceed.trans (congrArg (s.land call) h)
    have next : (s.proceed.step (.pass d)).Due call f' := by
      rw [waiting]
      exact .inr ⟨_, le_rfl, rfl⟩
    obtain ⟨moves, ends⟩ := ih next (by rw [waiting]; rfl)
    refine ⟨.proceed :: .pass d :: moves, ?_⟩
    rw [run, List.foldl_cons, List.foldl_cons]
    apply ends.trans
    rw [waiting]
    rfl

theorem exists_run_land (s : Callers V) (call : Call V) (p : Progress V)
    (c : Collector (FallibleMemory V) V) :
    let done := Timed.resume p { s.timed with collector := c }
    ∃ moves, (s.land call (p, c)).run moves =
      { s with timed := done.2, holder := some (call, .leaving (done.1.map some)) } := by
  cases p with
  | finished r => exact ⟨[], rfl⟩
  | ready f =>
    have due : (s.land call (.ready f, c)).Due call f := .inl rfl
    exact due.exists_run
  | waiting d f =>
    have due : ((s.land call (.waiting d f, c)).step (.pass d)).Due call f := .inr ⟨_, le_rfl, rfl⟩
    obtain ⟨moves, ends⟩ := due.exists_run
    exact ⟨.pass d :: moves, ends⟩

/-- Once a call has the lock, it comes to the end that the function comes to. -/
theorem exists_run_of_entered (held : s.holder = some (call, .entered)) :
    ∃ moves, s.run moves = { s with
      timed := (call.serve s.timed).2
      holder := some (call, .leaving (call.serve s.timed).1) } := by
  have enters : s.proceed = s.enter call := by simp only [proceed, held]
  simp only [Call.serve]
  cases trigger : call.trigger? s.timed.clock.now (call.merge s.timed.collector) with
  | none =>
    have trigger : call.trigger? (s.merge call).clock.now (s.merge call).collector = none := trigger
    refine ⟨[.proceed], ?_⟩
    rw [run, List.foldl_cons, List.foldl_nil, step, enters, enter]
    simp only [trigger]
    rfl
  | some t =>
    have trigger : call.trigger? (s.merge call).clock.now (s.merge call).collector = some t :=
      trigger
    obtain ⟨moves, ends⟩ := (s.merge call).exists_run_land call
      ((s.merge call).collector.beginFlush (s.merge call).clock t).1
      ((s.merge call).collector.beginFlush (s.merge call).clock t).2
    refine ⟨.proceed :: moves, ?_⟩
    rw [run, List.foldl_cons, step, enters, enter]
    simp only [trigger]
    exact ends

/-- A call that finds nobody else ends as the function does. -/
theorem exists_run_serve (free : s.holder = none) (alone : s.queue = []) (call : Call V) :
    ∃ moves, s.run (.call call :: .acquire 0 :: moves) = { s with
      timed := (call.serve s.timed).2
      acquired := s.acquired ++ call.entries
      returned := s.returned ++ [(call, (call.serve s.timed).1)] } := by
  have entered : (s.step (.call call)).step (.acquire 0) = { s with
      holder := some (call, .entered), acquired := s.acquired ++ call.entries } := by
    simp only [step, free, alone]
    rfl
  set s₁ : Callers V := { s with
    holder := some (call, .entered), acquired := s.acquired ++ call.entries } with s₁_eq
  obtain ⟨moves, ends⟩ := s₁.exists_run_of_entered rfl
  refine ⟨moves ++ [.proceed], ?_⟩
  rw [run, List.foldl_cons, List.foldl_cons, entered]
  change s₁.run (moves ++ [.proceed]) = _
  rw [run_append, ends, s₁_eq]
  change Callers.mk _ _ none _ _ = _
  rw [← free]

end Callers

variable [AddCommMonoid V]

namespace Callers

variable {policy : BufferPolicy} {horizon : Instant} {gone : List (Key × V)} {s s' : Callers V}

/-- What the writes that got the lock brought is stored, pending, about to be merged, or gone. -/
def Accounted (policy : BufferPolicy) (horizon : Instant) (gone : List (Key × V)) (s : Callers V) :
    Prop :=
  Balanced policy horizon (s.acquired.flatMap Entry.pairs) (gone ++ s.entering) s.flight? s.timed

theorem accounted_land {call : Call V} {p : Progress V × Collector (FallibleMemory V) V}
    (balanced : Balanced policy horizon (s.acquired.flatMap Entry.pairs) gone p.1.flight?
      { s.timed with collector := p.2 }) : (s.land call p).Accounted policy horizon gone := by
  rw [Accounted, flight?_land, entering_land, List.append_nil]
  exact balanced

theorem accounted_fresh {clock : Clock} {source : Nat → RowId} {plan : FaultPoint → FaultPlan}
    (injective : Function.Injective source) (spares : clock.Spares policy.lifetime horizon) :
    (fresh policy clock source plan : Callers V).Accounted policy horizon [] :=
  Balanced.at_rest rfl (Timed.sound_fresh injective horizon) spares rfl

/-- A call that has merged leaves nothing that is about to be merged. -/
theorem Accounted.merge {call : Call V} (accounted : s.Accounted policy horizon gone)
    (held : s.holder = some (call, .entered)) :
    Balanced policy horizon (s.acquired.flatMap Entry.pairs) gone none (s.merge call).timed := by
  have balanced := accounted
  simp only [Accounted, flight?, entering, held] at balanced
  cases call with
  | write e =>
    rw [Call.entries, List.flatMap_singleton] at balanced
    exact balanced.mergeEntry
  | flush t =>
    rw [Call.entries, List.flatMap_nil, List.append_nil] at balanced
    exact balanced
  | flushIfDue =>
    rw [Call.entries, List.flatMap_nil, List.append_nil] at balanced
    exact balanced

theorem Accounted.flying {call : Call V} {f : Flight V}
    (accounted : s.Accounted policy horizon gone) (trying : s.Trying call f) :
    Balanced policy horizon (s.acquired.flatMap Entry.pairs) gone (some f) s.timed := by
  have balanced := accounted
  rwa [Accounted, trying.flight?_eq, trying.entering_eq, List.append_nil] at balanced

/-- Every move keeps the account, unless it ends a flush by a failure that does not put back what
was taken, or puts back what is stored. -/
theorem Accounted.step (accounted : s.Accounted policy horizon gone) (step : s.StepCase s')
    (inTime : s.clock.now ≤ horizon)
    (kept : ∀ call e, s'.holder = some (call, .leaving (.error e)) → s.holder = s'.holder ∨
      policy.retry.onExhausted = .requeue ∧
        ∀ f, s.flight? = some f → f.isStored s'.collector.store = false) :
    s'.Accounted policy horizon gone := by
  cases step with
  | quiet quiet =>
    rw [Accounted, quiet.flight?_eq, quiet.entering_eq, quiet.acquired]
    exact accounted.of_same quiet.before quiet.policy_eq quiet.totals quiet.store
  | @got call queue free =>
    have idle : s.flight? = none ∧ s.entering = [] := by simp [flight?, entering, free]
    have balanced := accounted
    rw [Accounted, idle.1, idle.2, List.append_nil] at balanced
    refine Balanced.at_rest balanced.policy_eq balanced.sound balanced.spares ?_
    have balance := balanced.balance
    rw [Timed.pending] at balance
    simp only [List.flatMap_append, tally_append, balance, entering]
    abel
  | @decided call held =>
    have merged := accounted.merge held
    rwa [← List.append_nil gone] at merged
  | @began call t held =>
    apply accounted_land
    apply (accounted.merge held).begin t inTime
    intro e failed
    have ended := (holder_land_failed_iff call call (s.merge call)).mpr ⟨rfl, failed⟩
    rcases kept call e ended with same | kept
    · cases held.symm.trans (same.trans ended)
    · exact kept.1
  | @tried call f trying =>
    apply accounted_land
    apply (accounted.flying trying).attempt inTime
    intro e failed
    have ended := (holder_land_failed_iff call call s).mpr ⟨rfl, failed⟩
    rcases kept call e ended with same | ⟨requeue, unstored⟩
    · exact absurd (same.trans ended) (trying.not_leaving call _)
    · exact ⟨requeue, unstored f trying.flight?_eq⟩
  | @left call answer held =>
    have idle : s.flight? = none ∧ s.entering = [] := by simp [flight?, entering, held]
    have balanced := accounted
    rw [Accounted, idle.1, idle.2] at balanced
    exact balanced

end Callers

end TraceTally
