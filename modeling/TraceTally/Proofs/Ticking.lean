import TraceTally.Proofs.Staleness

/-!
# The ticker beside its callers

Time passes step by step, and the ticker runs by itself. Over a store that never fails nobody holds the
lock while time passes, so that the ticker is idle whenever something else happens. Timers run at whole
milliseconds: a tick may run late by less than one of these, which is not enough to move the later ones,
and so they stay at multiples of the period.
-/

namespace TraceTally

namespace Ticker

theorem wakeTime_lt (due : Instant) : (wakeTime due).nanos < due.nanos + 10 ^ 6 := by
  simp only [wakeTime, Duration.ofMillis]
  omega

theorem wakeTime_le_wakeTime_add (due : Instant) (d : Duration) :
    wakeTime due ≤ wakeTime (due + d) := by
  have later : due.nanos ≤ (due + d).nanos := Nat.le_add_right _ _
  exact Nat.mul_le_mul_right _ (Nat.div_le_div_right (Nat.add_le_add_right later _))

theorem following_wakeTime (period : Duration) (due : Instant) :
    following period due (wakeTime due) = due + period := by
  have near := wakeTime_lt due
  apply if_neg
  change ¬ due.nanos + 5 * 10 ^ 6 < (wakeTime due).nanos
  omega

end Ticker

/-- How much time an operation lets pass. -/
def Operation.span {V : Type} : Operation V → Duration
  | .pass d => d
  | .write _ | .insert _ | .flush _ | .flushIfDue | .tick => ⟨0⟩

/-- When operations are over that begin at `t`. -/
def spanned {V : Type} (t : Instant) (ops : List (Operation V)) : Instant :=
  ops.foldl (fun t op => t + op.span) t

namespace Runtime

variable {σ V : Type} [EventStore σ V] [Add V] {good : σ → Prop}

/-- Does an operation, after which the ticker does what is due. No tick is asked for: the ticker ticks
by itself. -/
def perform (s : Runtime σ V) : Operation V → Runtime σ V
  | .write e => (s.locked (Timed.write e)).2.settle
  | .insert entries => (s.insert entries).2.settle
  | .flush trigger => (s.locked (Timed.flush trigger)).2.settle
  | .flushIfDue => (s.locked Timed.flushIfDue).2.settle
  | .tick => s.settle
  | .pass d => s.sleep d

def run (s : Runtime σ V) (ops : List (Operation V)) : Runtime σ V := ops.foldl perform s

/-- What a run writes beside the ticker, and when. -/
def writes (s : Runtime σ V) : List (Operation V) → List (Instant × Entry V)
  | [] => []
  | op :: ops => op.writes s.now ++ writes (s.perform op) ops

theorem runUntil_of_some {s s' : Runtime σ V} {t : Instant} (step : s.tickerStep? t = some s') :
    s.runUntil t = s'.runUntil t := by
  rw [runUntil.eq_def]
  split <;> simp_all

theorem runUntil_of_none {s : Runtime σ V} {t : Instant} (idle : s.tickerStep? t = none) :
    s.runUntil t = s.reach t := by
  rw [runUntil.eq_def]
  split <;> simp_all

omit [EventStore σ V] [Add V] in
theorem reach_now (s : Runtime σ V) : s.reach s.now = s := by
  have same : max s.now s.now = s.now := congrArg Duration.mk (Nat.max_self _)
  simp only [reach, same]
  rfl

omit [EventStore σ V] [Add V] in
theorem now_reach {s : Runtime σ V} {t : Instant} (le : s.now ≤ t) : (s.reach t).now = t :=
  congrArg Duration.mk (Nat.max_eq_right le)

/-- A flush that the ticker begins over such a store ends before anything else happens. -/
theorem runUntil_beginTimed (dependable : EventStore.Dependable good) {s : Runtime σ V}
    (fit : good s.collector.store) (due : Instant) {t : Instant} (le : s.now ≤ t) :
    (s.beginTimed due).runUntil t = runUntil t ⟨s.timed.flushIfDue.2, some ⟨due, .idle⟩⟩ := by
  by_cases isDue : s.collector.isDue s.now = true
  · obtain ⟨n, c, flushes, -⟩ := Timed.flushesAtOnce dependable fit .ticker
    have flushed : s.timed.flushIfDue.2 = { s.timed with collector := c } := by
      have isDue : s.timed.collector.isDue s.timed.clock.now = true := isDue
      simp only [Timed.flushIfDue, isDue, if_true, flushes.flush_eq]
    rw [flushed, beginTimed, if_pos isDue]
    cases flushes with
    | empty begun =>
      have begun : s.collector.beginFlush s.timed.clock .ticker = (.finished (.ok n), c) := begun
      simp only [begun]
      rfl
    | @written f held begun attempted =>
      have begun : s.collector.beginFlush s.timed.clock .ticker = (.ready f, held) := begun
      simp only [begun]
      apply runUntil_of_some
      set flying : Runtime σ V :=
        { s.setCollector held with ticker := some (land due s.now (.ready f)) }
      have woken : flying.reach s.now = flying := flying.reach_now
      have attempted : flying.collector.attempt flying.timed.clock f = (.finished (.ok n), c) :=
        attempted
      have step : flying.tickerStep? t = some ((flying.reach s.now).attemptTimed due f) := if_pos le
      rw [step, woken, attemptTimed, attempted]
      rfl
  · have undue : s.timed.flushIfDue.2 = s.timed := by
      have isDue : ¬ s.timed.collector.isDue s.timed.clock.now = true := isDue
      rw [Timed.flushIfDue, if_neg isDue]
    rw [beginTimed, if_neg isDue, undue]

/-- A tick that is due by `t` runs when its timer does, and the next one is due a period after it was. -/
theorem runUntil_of_due (dependable : EventStore.Dependable good) {s : Runtime σ V}
    (fit : good s.collector.store) {due t : Instant} (idle : s.ticker = some ⟨due, .idle⟩)
    (ahead : s.now ≤ Ticker.wakeTime due) (inTime : Ticker.wakeTime due ≤ t) :
    s.runUntil t = runUntil t
      ⟨(s.reach (Ticker.wakeTime due)).timed.flushIfDue.2, some ⟨due + s.tickPeriod, .idle⟩⟩ := by
  have step : s.tickerStep? t =
      some ((s.reach (Ticker.wakeTime due)).beginTimed (due + s.tickPeriod)) := by
    simp only [tickerStep?, idle, inTime, if_true]
    rw [now_reach ahead, Ticker.following_wakeTime]
    rfl
  rw [runUntil_of_some step]
  exact runUntil_beginTimed dependable (s := s.reach (Ticker.wakeTime due)) fit _
    ((now_reach ahead).trans_le inTime)

/-- Nobody has the lock, and what is done with it takes no time. -/
theorem locked_of_idle {α : Type} {s : Runtime σ V} {due : Instant}
    (idle : s.ticker = some ⟨due, .idle⟩) (act : Timed σ V → α × Timed σ V)
    (early : (act s.timed).2.clock.now ≤ Ticker.wakeTime due) :
    s.locked act = ((act s.timed).1, { s with timed := (act s.timed).2 }) := by
  have free : s.acquire = s := by simp [acquire, isLocked, idle]
  simp only [locked, free, tickWhileHeld, idle]
  exact congrArg _ (if_neg (not_lt_of_ge early))

/-- `n` ticks have run, and the ticker waits for the next one. -/
structure Idles (good : σ → Prop) (policy : BufferPolicy) (start : Instant) (n : Nat)
    (written : List (Instant × Entry V)) (s : Runtime σ V) : Prop where
  beating : Beating good policy (Ticker.period policy.interval) start n written s.timed
  ticker : s.ticker = some ⟨Ticker.dueAt (Ticker.period policy.interval) start n, .idle⟩
  ahead : s.now ≤ Ticker.wakeTime (Ticker.dueAt (Ticker.period policy.interval) start n)

/-- Every tick whose timer was to run has run. -/
def CaughtUp (policy : BufferPolicy) (start : Instant) (n : Nat) (s : Runtime σ V) : Prop :=
  s.now < Ticker.wakeTime (Ticker.dueAt (Ticker.period policy.interval) start n)

namespace Idles

variable {policy : BufferPolicy} {start : Instant} {n : Nat}
  {written : List (Instant × Entry V)} {s : Runtime σ V}

/-- The next tick runs when its timer does, and the one after it stays where it was due. -/
theorem tick (dependable : EventStore.Dependable good)
    (idles : Idles good policy start n written s) {t : Instant}
    (inTime : Ticker.wakeTime (Ticker.dueAt (Ticker.period policy.interval) start n) ≤ t) :
    ∃ s', s.runUntil t = s'.runUntil t ∧ Idles good policy start (n + 1) written s' ∧ s'.now ≤ t := by
  set period := Ticker.period policy.interval
  set wake := Ticker.wakeTime (Ticker.dueAt period start n)
  have woken : (s.reach wake).now = wake := now_reach idles.ahead
  have beating : Beating good policy period start n written (s.reach wake).timed :=
    idles.beating.wait (Nat.le_max_left _ _)
  have due : Ticker.dueAt period start n ≤ wake := Ticker.le_wakeTime _
  have stays : (s.reach wake).timed.flushIfDue.2.clock.now = wake := by
    rw [(beating.holds.flushIfDue dependable).1]
    exact woken
  have next := runUntil_of_due dependable idles.beating.holds.fit idles.ticker idles.ahead inTime
  have samePeriod : s.tickPeriod = period :=
    congrArg (fun p : BufferPolicy => Ticker.period p.interval) idles.beating.holds.policy
  rw [samePeriod, ← Ticker.dueAt_succ] at next
  refine ⟨_, next, ⟨beating.tick dependable (due.trans_eq woken.symm), rfl, ?_⟩,
    stays.trans_le inTime⟩
  rw [Ticker.dueAt_succ]
  exact stays.trans_le (Ticker.wakeTime_le_wakeTime_add _ _)

/-- When time has passed up to `t`, no tick is left that was to run. -/
theorem runUntil {n : Nat} {s : Runtime σ V} (dependable : EventStore.Dependable good)
    (idles : Idles good policy start n written s) {t : Instant} (le : s.now ≤ t) :
    ∃ m, Idles good policy start m written (s.runUntil t) ∧
      (s.runUntil t).CaughtUp policy start m ∧ (s.runUntil t).now = t := by
  by_cases inTime : Ticker.wakeTime (Ticker.dueAt (Ticker.period policy.interval) start n) ≤ t
  · obtain ⟨s', next, idles', le'⟩ := idles.tick dependable inTime
    rw [next]
    exact idles'.runUntil dependable le'
  · have nothing : s.tickerStep? t = none := by
      simp only [tickerStep?, idles.ticker, inTime, if_false]
    have early : t < Ticker.wakeTime (Ticker.dueAt (Ticker.period policy.interval) start n) :=
      Nat.lt_of_not_le inTime
    rw [runUntil_of_none nothing]
    refine ⟨n, ⟨idles.beating.wait (Nat.le_max_left _ _), idles.ticker, ?_⟩, ?_, now_reach le⟩
    · exact (now_reach le).trans_le (le_of_lt early)
    · exact (now_reach le).trans_lt early
termination_by t.nanos + 1 - (Ticker.dueAt (Ticker.period policy.interval) start n).nanos
decreasing_by
  have due := Ticker.le_wakeTime (Ticker.dueAt (Ticker.period policy.interval) start n)
  have apart := Ticker.period_pos policy.interval
  have inTime : (Ticker.wakeTime _).nanos ≤ t.nanos := inTime
  rw [Ticker.dueAt_succ, Ticker.add_nanos]
  omega

theorem step (dependable : EventStore.Dependable good)
    (idles : Idles good policy start n written s) (op : Operation V) (atOnce : ∀ d, op ≠ .pass d) :
    Idles good policy start n (written ++ op.writes s.now) { s with timed := op.run s.timed } ∧
      (op.run s.timed).clock.now = s.now := by
  have clock := (idles.beating.holds.step dependable (fun _ => idles.beating.near) op).2 atOnce
  have now : (op.run s.timed).clock.now = s.now := congrArg Clock.now clock
  exact ⟨⟨idles.beating.step dependable op, idles.ticker, now.trans_le idles.ahead⟩, now⟩

theorem untilFailure (dependable : EventStore.Dependable good)
    (idles : Idles good policy start n written s) (entries : List (Entry V)) :
    TraceTally.untilFailure (fun e s => s.locked (Timed.write e)) entries s =
      ((TraceTally.untilFailure Timed.write entries s.timed).1,
        { s with timed := (TraceTally.untilFailure Timed.write entries s.timed).2 }) := by
  induction entries generalizing s written with
  | nil => rfl
  | cons e rest ih =>
    obtain ⟨timed, answer, -, -⟩ :=
      idles.beating.holds.write dependable (fun _ => idles.beating.near) e
    obtain ⟨next, -⟩ := idles.step dependable (.write e) nofun
    have first : s.locked (Timed.write e) = (.ok (), { s with timed }) := by
      rw [locked_of_idle idles.ticker _ next.ahead, answer]
    rw [Operation.run, answer] at next
    simp only [TraceTally.untilFailure, first, answer]
    exact ih next

/-- Nothing but `pass` takes time, and the ticker then catches up. -/
theorem perform (dependable : EventStore.Dependable good)
    (idles : Idles good policy start n written s) (op : Operation V) :
    ∃ m, Idles good policy start m (written ++ op.writes s.now) (s.perform op) ∧
      (s.perform op).CaughtUp policy start m ∧ (s.perform op).now = s.now + op.span := by
  have settles (atOnce : ∀ d, op ≠ .pass d) :
      let acted : Runtime σ V := { s with timed := op.run s.timed }
      ∃ m, Idles good policy start m (written ++ op.writes s.now) acted.settle ∧
        acted.settle.CaughtUp policy start m ∧ acted.settle.now = s.now := by
    obtain ⟨acted, now⟩ := idles.step dependable op atOnce
    obtain ⟨m, idles, caughtUp, settled⟩ := acted.runUntil dependable le_rfl
    exact ⟨m, idles, caughtUp, settled.trans now⟩
  have early := fun atOnce => (idles.step dependable op atOnce).1.ahead
  cases op with
  | write e =>
    rw [Runtime.perform, locked_of_idle idles.ticker _ (early nofun)]
    exact settles nofun
  | insert entries =>
    rw [Runtime.perform, Runtime.insert, idles.untilFailure dependable]
    exact settles nofun
  | flush trigger =>
    rw [Runtime.perform, locked_of_idle idles.ticker _ (early nofun)]
    exact settles nofun
  | flushIfDue =>
    rw [Runtime.perform, locked_of_idle idles.ticker _ (early nofun)]
    exact settles nofun
  | tick =>
    rw [Operation.writes, List.append_nil]
    exact idles.runUntil dependable le_rfl
  | pass d =>
    rw [Operation.writes, List.append_nil]
    exact idles.runUntil dependable (Duration.le_add _ d)

theorem run (dependable : EventStore.Dependable good) (ops : List (Operation V))
    (idles : Idles good policy start n written s) (caughtUp : s.CaughtUp policy start n) :
    ∃ m, Idles good policy start m (written ++ s.writes ops) (s.run ops) ∧
      (s.run ops).CaughtUp policy start m ∧
      (s.run ops).now = spanned s.now ops := by
  induction ops generalizing n s written with
  | nil =>
    rw [writes, List.append_nil]
    exact ⟨n, idles, caughtUp, rfl⟩
  | cons op ops ih =>
    obtain ⟨m, idles, caughtUp, now⟩ := idles.perform dependable op
    rw [writes, ← List.append_assoc, spanned, List.foldl_cons, ← now]
    exact ih idles caughtUp

end Idles

end Runtime

/-- While a ticker runs over a store that never fails, whatever is written and flushed and whenever:
once all ticks that are due have run, everything in the buffer was written less than an interval and a
period ago. This is so of ticks that come among the operations, none before its time; and of the ticker
that runs by itself while time passes step by step. The ticks of that one stay at multiples of the
period, and each has run as soon as its timer has. -/
theorem buffered_less_than_interval_and_period {σ V : Type} [EventStore σ V] [Add V]
    {good : σ → Prop} (dependable : EventStore.Dependable good) (policy : BufferPolicy) {store : σ}
    (fit : good store) (clock : Clock) (before after : List (Operation V)) :
    let period := Ticker.period policy.interval
    let first : Timed σ V := ⟨clock, .start policy store clock.now⟩
    let start := run first before
    let due := Ticker.dueAt period start.clock.now
    let s := run start after
    let beside := ({ timed := start } : Runtime σ V).startTicker.settle
    let s' := beside.run after
    (OnTime period start.clock.now 0 start after →
      s.clock.now < due (after.countP Operation.isTick) →
      s.Recent (policy.interval + period) (writes first before ++ writes start after)) ∧
    s'.now = spanned start.clock.now after ∧
    ∃ n, s'.ticker = some ⟨due n, .idle⟩ ∧ s'.now < Ticker.wakeTime (due n) ∧
      due n ≤ s'.now + period ∧
      (s'.now < due n →
        s'.timed.Recent (policy.interval + period) (writes first before ++ beside.writes after)) := by
  intro period first start due s beside s'
  have holds : start.Holds good policy (fun _ => True) (writes first before) :=
    (Timed.Holds.start policy fit clock fun _ => True).run dependable before
  have beating : Beating good policy period start.clock.now 0 (writes first before) start :=
    .begin holds
  refine ⟨fun onTime caughtUp => ?_, ?_⟩
  · have ticked := beating.run dependable after onTime
    rw [Nat.zero_add] at ticked
    exact ticked.recent caughtUp
  · have idles : Runtime.Idles good policy start.clock.now 0 (writes first before)
        ({ timed := start } : Runtime σ V).startTicker := by
      refine ⟨beating, ?_, ?_⟩
      · rw [Ticker.dueAt_zero]
        rfl
      · rw [Ticker.dueAt_zero]
        exact Ticker.le_wakeTime _
    obtain ⟨m, idles, caughtUp, began⟩ := idles.runUntil dependable le_rfl
    obtain ⟨n, idles, caughtUp, now⟩ := idles.run dependable after caughtUp
    exact ⟨now.trans (congrArg (spanned · after) began), n, idles.ticker, caughtUp,
      idles.beating.ahead, idles.beating.recent⟩

/-- The old value waits at the start and goes with the second tick. The new one is written just after a
flush, so that the fourth tick comes half a millisecond too early for it, and waits for the fifth. Beside
the operations the fourth tick runs half a millisecond later. -/
theorem buffered_just_before_tick :
    let policy : BufferPolicy := ⟨9, .ofMillis 25, .ofSeconds 3600, ⟨1, .ofMillis 100, .discard⟩⟩
    let first : Timed (FallibleMemory Nat) Nat := .fresh policy ⟨⟨0⟩, fun _ => 0⟩ id fun _ => []
    let old : Entry Nat := ⟨"o", "t", [⟨"a", 3, "u"⟩]⟩
    let new : Entry Nat := ⟨"o", "t", [⟨"b", 4, "u"⟩]⟩
    let before : List (Operation Nat) := [.write old, .pass (.ofMillis 20)]
    let half : Operation Nat := .pass ⟨12500000⟩
    let after : List (Operation Nat) := [.tick, half, .tick, .pass ⟨500000⟩, .flush .manual, .write new,
      .pass (.ofMillis 12), .tick, half, .tick, .pass ⟨12400000⟩]
    let start := run first before
    let s := run start after
    let beside := ({ timed := start } : Runtime (FallibleMemory Nat) Nat).startTicker.settle
    s.clock.now = ⟨69900000⟩ ∧ s.collector.totals.entries = [(⟨"o", "t", "b", "u"⟩, 4)] ∧
      s.Recent ⟨37500000⟩ [(⟨0⟩, old), (⟨33000000⟩, new)] ∧
      (beside.run after).now = ⟨69900000⟩ ∧
      (beside.run after).timed.Recent ⟨37500000⟩ ([(⟨0⟩, old)] ++ beside.writes after) := by
  intro policy first old new before half after start s beside
  have reliable : ∀ point, first.collector.store.Reliable point :=
    fun _ _ never => absurd never List.not_mem_nil
  have age : policy.interval + Ticker.period policy.interval = ⟨37500000⟩ := by decide
  have wroteBefore : writes first before = [(⟨0⟩, old)] := by decide +kernel
  have wroteAfter : writes start after = [(⟨33000000⟩, new)] := by decide +kernel
  obtain ⟨recent, now, n, -, caughtUp, -, recent'⟩ := buffered_less_than_interval_and_period
    FallibleMemory.dependable policy reliable first.clock before after
  have recent : s.Recent (policy.interval + Ticker.period policy.interval)
      (writes first before ++ writes start after) := recent (by decide +kernel) (by decide +kernel)
  have now : (beside.run after).now = ⟨69900000⟩ := now.trans (by decide +kernel)
  have started : start.clock.now = ⟨20000000⟩ := by decide +kernel
  have period : Ticker.period policy.interval = ⟨12500000⟩ := by decide
  have fifth : (beside.run after).now <
      Ticker.dueAt (Ticker.period policy.interval) start.clock.now n := by
    have caughtUp : (beside.run after).now <
      Ticker.wakeTime (Ticker.dueAt (Ticker.period policy.interval) start.clock.now n) := caughtUp
    rw [now, started, period] at caughtUp ⊢
    have near := caughtUp.trans (Ticker.wakeTime_lt _)
    change 69900000 < 20000000 + n * 12500000 + 10 ^ 6 at near
    change 69900000 < 20000000 + n * 12500000
    omega
  have recent' : (beside.run after).timed.Recent (policy.interval + Ticker.period policy.interval)
      (writes first before ++ beside.writes after) := recent' fifth
  rw [wroteBefore, age] at recent recent'
  rw [wroteAfter] at recent
  exact ⟨by decide +kernel, by decide +kernel, recent, now, recent'⟩

end TraceTally
