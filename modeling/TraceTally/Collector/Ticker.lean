import TraceTally.Collector.Ingest

/-!
# The background ticker

A ticker flushes the buffer when the interval has passed, whether or not anything is written. It
shares the buffer's lock with its callers; whoever asks first gets it first. While it holds the lock
in a wait between attempts, and while it waits for the lock itself, its ticks do not run.

Ticks come every half interval, at least ten milliseconds apart. The first is due at once. A tick
that runs late by more than five milliseconds moves all later ones.
-/

namespace TraceTally

/-- Where the ticker stands. -/
inductive TickerPhase (V : Type) where
  | idle
  /-- A tick has run and waits for the lock. -/
  | queued
  /-- It holds the lock; the next attempt of its flush is to be made at `wake`. -/
  | flying (wake : Instant) (f : Flight V)

structure Ticker (V : Type) where
  /-- When the next tick is due. -/
  due : Instant
  phase : TickerPhase V := .idle

namespace Ticker

def shortestPeriod : Duration := .ofMillis 10

def period (interval : Duration) : Duration := max interval.half shortestPeriod

theorem period_pos (interval : Duration) : 0 < (period interval).nanos := by
  have : shortestPeriod.nanos ≤ (period interval).nanos := Nat.le_max_right _ _
  exact Nat.lt_of_lt_of_le (by decide) this

/-- How late a tick may run without moving the later ones. -/
def tolerance : Duration := .ofMillis 5

/-- Timers run at whole milliseconds, never early. -/
def wakeTime (due : Instant) : Instant := .ofMillis ((due.nanos + 999999) / 10 ^ 6)

/-- When the tick after one that was due at `due` and runs at `now` is due. -/
def following (period : Duration) (due now : Instant) : Instant :=
  if due + tolerance < now then now + period else due + period

theorem le_wakeTime (due : Instant) : due.nanos ≤ (wakeTime due).nanos := by
  simp only [wakeTime, Duration.ofMillis]
  omega

theorem add_nanos (d e : Duration) : (d + e).nanos = d.nanos + e.nanos := rfl

theorem lt_following {period : Duration} (h : 0 < period.nanos) (due now : Instant) :
    due.nanos < (following period due now).nanos := by
  unfold following
  split
  · rename_i hlt
    have hlt : due.nanos + tolerance.nanos < now.nanos := hlt
    rw [Ticker.add_nanos]
    omega
  · rw [Ticker.add_nanos]
    omega

end Ticker

/-- A collector with the tasks that run beside its callers. -/
structure Runtime (σ V : Type) where
  timed : Timed σ V
  ticker : Option (Ticker V) := none

namespace Runtime

variable {σ V : Type} [EventStore σ V] [Add V]

def collector (s : Runtime σ V) : Collector σ V := s.timed.collector

def now (s : Runtime σ V) : Instant := s.timed.clock.now

def setCollector (s : Runtime σ V) (c : Collector σ V) : Runtime σ V :=
  { s with timed := { s.timed with collector := c } }

/-- Moves the clock forward to a moment, if that is still to come. -/
def reach (s : Runtime σ V) (t : Instant) : Runtime σ V :=
  { s with timed := { s.timed with clock := { s.timed.clock with now := max s.now t } } }

def tickPeriod (s : Runtime σ V) : Duration := Ticker.period s.collector.policy.interval

/-- What the ticker does with the progress of its flush. -/
def land (due : Instant) (now : Instant) : Progress V → Ticker V
  | .finished _ => ⟨due, .idle⟩
  | .ready f => ⟨due, .flying now f⟩
  | .waiting d f => ⟨due, .flying (now + d) f⟩

/-- The ticker has the lock after a tick: it begins a flush if one is due. -/
def beginTimed (due : Instant) (s : Runtime σ V) : Runtime σ V :=
  if s.collector.isDue s.now then
    let (p, c) := s.collector.beginFlush s.timed.clock .ticker
    { s.setCollector c with ticker := some (land due s.now p) }
  else { s with ticker := some ⟨due, .idle⟩ }

/-- The ticker makes the next attempt of its flush. -/
def attemptTimed (due : Instant) (f : Flight V) (s : Runtime σ V) : Runtime σ V :=
  let (p, c) := s.collector.attempt s.timed.clock f
  { s.setCollector c with ticker := some (land due s.now p) }

/-- What the ticker can do by `t`, when nobody else holds the lock: the next moment at which
something happens, and what. -/
def tickerStep? (t : Instant) (s : Runtime σ V) : Option (Runtime σ V) :=
  match s.ticker with
  | none => none
  | some ⟨due, .queued⟩ => some (s.beginTimed due)
  | some ⟨due, .idle⟩ =>
    if Ticker.wakeTime due ≤ t then
      let s := s.reach (Ticker.wakeTime due)
      some (s.beginTimed (Ticker.following s.tickPeriod due s.now))
    else none
  | some ⟨due, .flying wake f⟩ =>
    if wake ≤ t then some ((s.reach wake).attemptTimed due f) else none

/-- Every step of the ticker brings it closer to having nothing to do by `t`. -/
def tickerRank (t : Instant) (s : Runtime σ V) : Nat × Nat × Nat :=
  match s.ticker with
  | none => (0, 0, 0)
  | some k => (t.nanos + 1 - k.due.nanos, match k.phase with
    | .idle => (0, 0)
    | .queued => (2, 0)
    | .flying _ f => (1, f.loop.left))

omit [Add V] in
theorem land_due (due now : Instant) (p : Progress V) : (land due now p).due = due := by
  cases p <;> rfl

theorem tickerRank_lt {t : Instant} {s s' : Runtime σ V} (h : s.tickerStep? t = some s') :
    Prod.Lex (· < ·) (Prod.Lex (· < ·) (· < ·)) (s'.tickerRank t) (s.tickerRank t) := by
  unfold tickerStep? at h
  split at h
  · simp at h
  · rename_i due hk
    simp only [Option.some.injEq] at h
    subst h
    unfold beginTimed
    split
    · cases hp : (s.collector.beginFlush s.timed.clock .ticker).1 <;>
        simp only [tickerRank, hk, hp, land] <;>
        exact .right _ (.left _ _ (by decide))
    · simp only [tickerRank, hk]
      exact .right _ (.left _ _ (by decide))
  · rename_i due hk
    split at h
    · rename_i hw
      simp only [Option.some.injEq] at h
      subst h
      have hle : due.nanos ≤ t.nanos := Nat.le_trans (Ticker.le_wakeTime due) hw
      have hlt := Ticker.lt_following (Ticker.period_pos s.collector.policy.interval) due
        (s.reach (Ticker.wakeTime due)).now
      unfold beginTimed
      split <;> simp only [tickerRank, hk, land_due] <;> exact .left _ _ (by
        simp only [tickPeriod, collector, reach] at hlt ⊢
        omega)
    · simp at h
  · rename_i due wake f hk
    split at h
    · simp only [Option.some.injEq] at h
      subst h
      unfold attemptTimed
      cases hp : (s.reach wake).collector.attempt (s.reach wake).timed.clock f with
      | mk p c =>
        cases p with
        | finished r =>
          simp only [tickerRank, hk, land]
          exact .right _ (.left _ _ (by decide))
        | ready f' => exact absurd hp Collector.attempt_ne_ready
        | waiting d f' =>
          simp only [tickerRank, hk, land]
          exact .right _ (.right _ (Collector.left_of_attempt_waiting hp))
    · simp at h

/-- Time passes up to `t` while nobody else holds the lock; what is due at `t` has run then. -/
def runUntil (t : Instant) (s : Runtime σ V) : Runtime σ V :=
  match _h : s.tickerStep? t with
  | none => s.reach t
  | some s' =>
    runUntil t s'
termination_by s.tickerRank t
decreasing_by exact tickerRank_lt ‹_›

/-- Runs what is due now. -/
def settle (s : Runtime σ V) : Runtime σ V := s.runUntil s.now

/-- Time passes step by step. -/
def sleep (d : Duration) (s : Runtime σ V) : Runtime σ V := s.runUntil (s.now + d)

/-- The clock jumps; what became due on the way runs late. -/
def advance (d : Duration) (s : Runtime σ V) : Runtime σ V := (s.reach (s.now + d)).settle

/-- The lock was held for a while: a tick that came due before now has run and queues for it. -/
def tickWhileHeld (s : Runtime σ V) : Runtime σ V :=
  match s.ticker with
  | some ⟨due, .idle⟩ =>
    if Ticker.wakeTime due < s.now then
      { s with ticker := some ⟨Ticker.following s.tickPeriod due (Ticker.wakeTime due), .queued⟩ }
    else s
  | _ => s

/-- The ticker has ended a flush: a tick that is due by now runs at once and queues again. -/
def tickAgain (s : Runtime σ V) : Runtime σ V :=
  match s.ticker with
  | some ⟨due, .idle⟩ =>
    if Ticker.wakeTime due ≤ s.now then
      { s with ticker := some ⟨Ticker.following s.tickPeriod due s.now, .queued⟩ }
    else s
  | _ => s

/-- Carries the ticker's flush to its end, if it has the lock or comes first for it. -/
def finishTimed (s : Runtime σ V) : Runtime σ V :=
  match s.ticker with
  | some ⟨due, .queued⟩ => { timed := s.timed.flushIfDue.2, ticker := some ⟨due, .idle⟩ }
  | some ⟨due, .flying wake f⟩ =>
    { timed := ((s.reach wake).timed.finish f).2, ticker := some ⟨due, .idle⟩ }
  | _ => s

/-- Whether somebody holds the lock, or has been given it. -/
def isLocked (s : Runtime σ V) : Bool :=
  match s.ticker with
  | some ⟨_, .queued⟩ | some ⟨_, .flying _ _⟩ => true
  | _ => false

/-- Waits for the lock. A tick that came due meanwhile queues behind the caller. -/
def acquire (s : Runtime σ V) : Runtime σ V :=
  if s.isLocked then s.finishTimed.tickAgain else s

/-- Does something with the collector while holding the lock. -/
def locked {α : Type} (act : Timed σ V → α × Timed σ V) (s : Runtime σ V) : α × Runtime σ V :=
  let s := s.acquire
  let (a, timed) := act s.timed
  (a, ({ s with timed } : Runtime σ V).tickWhileHeld)

def insert (entries : List (Entry V)) (s : Runtime σ V) : Except Failure Unit × Runtime σ V :=
  let (r, s) := untilFailure (fun e s => s.locked (Timed.write e)) entries s
  (r, s.setCollector (s.collector.count (·.countInsert (.of r))))

/-- A flush on demand during which something looks at the collector: after the buffer was taken and
before the first attempt if there is one, when the lock is held, else after the flush. -/
def flushWatched {α : Type} (look : Bool → Collector σ V → α × Collector σ V) (s : Runtime σ V) :
    α × Except Failure Nat × Runtime σ V :=
  let s := s.acquire
  let (p, c) := s.collector.beginFlush s.timed.clock .manual
  let (a, c) := look (match p with | .finished _ => false | _ => true) c
  let (r, timed) := (s.setCollector c).timed.resume p
  (a, r, ({ s with timed } : Runtime σ V).tickWhileHeld)

def startTicker (s : Runtime σ V) : Runtime σ V := { s with ticker := some ⟨s.now, .idle⟩ }

/-- Cancels the ticker and waits for it: a flush it is in ends first, then it flushes once more. -/
def stopTicker (s : Runtime σ V) : Runtime σ V :=
  if s.ticker.isSome then
    let s := s.finishTimed
    { timed := (s.timed.flush .manual).2, ticker := none }
  else s

end Runtime

end TraceTally
