import TraceTally.Duration

/-!
# Trying again with growing waits

A policy gives the number of attempts, the wait before the second one and what becomes of the data
when all attempts failed. The wait doubles after each failure; a doubled wait is cut to half a
minute. Zero attempts count as one.

The loop is a step function on outcomes: after each attempt it says whether the work is finished or
how long to wait, so it can be run against any source of outcomes and any clock.
-/

namespace TraceTally

inductive OnExhausted where
  | discard
  | requeue
  deriving DecidableEq, Repr

def OnExhausted.name : OnExhausted → String
  | .discard => "discard"
  | .requeue => "requeue"

structure RetryPolicy where
  maxAttempts : Nat := 1
  initialDelay : Duration := .ofMillis 100
  onExhausted : OnExhausted := .discard
  deriving DecidableEq, Repr

namespace Retry

def maxDelay : Duration := .ofSeconds 30

/-- What remains to be done after the attempts so far: the number of attempts left after the
current one, and the wait before the next. -/
structure Loop where
  left : Nat
  delay : Duration
  deriving DecidableEq, Repr

def start (p : RetryPolicy) : Loop := ⟨max p.maxAttempts 1 - 1, p.initialDelay⟩

/-- What follows an attempt. -/
inductive Next (ε α : Type) where
  | done (result : Except ε α)
  | wait (delay : Duration) (loop : Loop)

/-- A success ends the loop, as does a failure that is the last or not worth another attempt. A delay
that is too large to be doubled in 64 bits of seconds is doubled all the same, and then cut. -/
def next {ε α : Type} (retryable : ε → Bool) (loop : Loop) : Except ε α → Next ε α
  | .ok a => .done (.ok a)
  | .error e =>
    match loop.left with
    | 0 => .done (.error e)
    | left + 1 =>
      if retryable e then .wait loop.delay ⟨left, min loop.delay.double maxDelay⟩
      else .done (.error e)

theorem left_of_next_wait {ε α : Type} {retryable : ε → Bool} {l l' : Loop} {d : Duration}
    {r : Except ε α} (h : next retryable l r = .wait d l') : l'.left < l.left := by
  unfold next at h
  split at h
  · simp at h
  · split at h
    · simp at h
    · split at h
      · simp only [Next.wait.injEq] at h
        rw [← h.2]
        simp_all
      · simp at h

/-- A finished run: its result and the waits between its attempts. -/
structure Run (ε α : Type) where
  result : Except ε α
  waits : List Duration

/-- Runs the loop on attempts that are numbered from `k`. -/
def runFrom {ε α : Type} (retryable : ε → Bool) (attempt : Nat → Except ε α) (k : Nat) (loop : Loop) :
    Run ε α :=
  match h : next retryable loop (attempt k) with
  | .done result => ⟨result, []⟩
  | .wait d loop' =>
    have := left_of_next_wait h
    let rest := runFrom retryable attempt (k + 1) loop'
    { rest with waits := d :: rest.waits }
termination_by loop.left

def run {ε α : Type} (p : RetryPolicy) (retryable : ε → Bool) (attempt : Nat → Except ε α) : Run ε α :=
  runFrom retryable attempt 0 (start p)

/-- How many attempts were made. -/
def Run.attempts {ε α : Type} (r : Run ε α) : Nat := r.waits.length + 1

/-- When each attempt starts, if attempts take no time. -/
def startTimes (waits : List Duration) : List Duration :=
  (waits.foldl (fun (now, times) d => (now + d, times ++ [now + d])) (⟨0⟩, [⟨0⟩])).2

def Run.elapsed {ε α : Type} (r : Run ε α) : Duration := r.waits.foldl (· + ·) ⟨0⟩

end Retry

end TraceTally
