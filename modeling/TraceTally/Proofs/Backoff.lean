import Mathlib.Data.List.Induction
import Mathlib.Order.Bounds.Defs
import TraceTally.Retry

/-!
# How often the retry loop tries, and when

An outcome is final if the loop ends with it although attempts are left: a success, or a failure that
is not worth another attempt. The loop ends with the first final outcome or with its last attempt,
whichever comes first, and looks at no later one. The waits between its attempts have a closed form,
because a wait that has been cut stays at the cut.
-/

namespace TraceTally

/-- The wait behind attempt `k`, attempts being numbered from zero. -/
def RetryPolicy.wait (p : RetryPolicy) (k : Nat) : Duration :=
  if k = 0 then p.initialDelay else min ⟨2 ^ k * p.initialDelay.nanos⟩ Retry.maxDelay

/-- The waits before attempt `k`, together. -/
def RetryPolicy.startOf (p : RetryPolicy) : Nat → Duration
  | 0 => ⟨0⟩
  | k + 1 => p.startOf k + p.wait k

namespace Retry

variable {ε α : Type} {retryable : ε → Bool} {attempt : Nat → Except ε α}

def Final (retryable : ε → Bool) (r : Except ε α) : Prop :=
  (∃ a, r = .ok a) ∨ ∃ e, r = .error e ∧ retryable e = false

namespace Loop

def following (l : Loop) : Loop := ⟨l.left - 1, min l.delay.double maxDelay⟩

theorem following_left_lt (l : Loop) (allowed : l.left ≠ 0) : l.following.left < l.left :=
  Nat.sub_lt (Nat.pos_of_ne_zero allowed) Nat.one_pos

/-- The wait behind the `k`-th attempt from here. -/
def delayAt (l : Loop) : Nat → Duration
  | 0 => l.delay
  | k + 1 => l.following.delayAt k

end Loop

theorem next_of_ends {l : Loop} {r : Except ε α} (ends : l.left = 0 ∨ Final retryable r) :
    next retryable l r = .done r := by
  obtain ⟨left, delay⟩ := l
  cases r with
  | ok a => rfl
  | error e =>
    cases left with
    | zero => rfl
    | succ left =>
      rcases ends with none | ⟨a, success⟩ | ⟨e', same, final⟩
      · cases none
      · cases success
      · obtain rfl := Except.error.inj same
        simp [next, final]

theorem next_of_goes_on {l : Loop} {r : Except ε α} (allowed : l.left ≠ 0)
    (goesOn : ¬ Final retryable r) : next retryable l r = .wait l.delay l.following := by
  obtain ⟨left, delay⟩ := l
  cases r with
  | ok a => exact absurd (.inl ⟨a, rfl⟩) goesOn
  | error e =>
    cases left with
    | zero => exact absurd rfl allowed
    | succ left =>
      have worth : retryable e = true :=
        Bool.of_not_eq_false fun final => goesOn (.inr ⟨e, rfl, final⟩)
      simp [next, worth, Loop.following]

theorem runFrom_of_ends {k : Nat} {l : Loop} (ends : l.left = 0 ∨ Final retryable (attempt k)) :
    runFrom retryable attempt k l = ⟨attempt k, []⟩ := by
  have done := next_of_ends ends
  rw [runFrom]
  split
  · rename_i result ended
    cases done.symm.trans ended
    rfl
  · rename_i d l' waits
    cases done.symm.trans waits

theorem runFrom_of_goes_on {k : Nat} {l : Loop} (allowed : l.left ≠ 0)
    (goesOn : ¬ Final retryable (attempt k)) :
    runFrom retryable attempt k l =
      { runFrom retryable attempt (k + 1) l.following with
        waits := l.delay :: (runFrom retryable attempt (k + 1) l.following).waits } := by
  have wait := next_of_goes_on allowed goesOn
  rw [runFrom]
  split
  · rename_i result ended
    cases wait.symm.trans ended
  · rename_i d l' waits
    cases wait.symm.trans waits
    rfl

/-- The run from attempt `k` on: its last attempt is the first that ends it. -/
structure Ran (retryable : ε → Bool) (attempt : Nat → Except ε α) (k : Nat) (l : Loop)
    (r : Run ε α) : Prop where
  result : r.result = attempt (k + r.waits.length)
  waits : r.waits = (List.range r.waits.length).map l.delayAt
  before : ∀ j < r.waits.length, j < l.left ∧ ¬ Final retryable (attempt (k + j))
  ended : r.waits.length = l.left ∨ Final retryable (attempt (k + r.waits.length))

theorem Ran.cons {k : Nat} {l : Loop} {r : Run ε α} (allowed : l.left ≠ 0)
    (goesOn : ¬ Final retryable (attempt k))
    (ran : Ran retryable attempt (k + 1) l.following r) :
    Ran retryable attempt k l { r with waits := l.delay :: r.waits } := by
  obtain ⟨result, waits, before, ended⟩ := ran
  have attempts : k + (l.delay :: r.waits).length = k + 1 + r.waits.length := by
    rw [List.length_cons]
    omega
  have fewer : l.following.left + 1 = l.left := Nat.succ_pred_eq_of_ne_zero allowed
  refine ⟨?_, ?_, ?_, ?_⟩
  · rw [attempts]
    exact result
  · conv_lhs => rw [waits]
    rw [List.length_cons, List.range_succ_eq_map, List.map_cons, List.map_map]
    rfl
  · intro j early
    cases j with
    | zero => exact ⟨Nat.pos_of_ne_zero allowed, goesOn⟩
    | succ j =>
      obtain ⟨fits, open_⟩ := before j (Nat.lt_of_succ_lt_succ early)
      refine ⟨by omega, ?_⟩
      rwa [show k + (j + 1) = k + 1 + j by omega]
  · rw [attempts, List.length_cons]
    rcases ended with last | final
    · exact .inl (by omega)
    · exact .inr final

theorem ran_runFrom (k : Nat) (l : Loop) : Ran retryable attempt k l (runFrom retryable attempt k l) := by
  by_cases ends : l.left = 0 ∨ Final retryable (attempt k)
  · rw [runFrom_of_ends ends]
    exact ⟨rfl, rfl, nofun, ends.imp Eq.symm id⟩
  · obtain ⟨allowed, goesOn⟩ := not_or.mp ends
    have fewer := l.following_left_lt allowed
    rw [runFrom_of_goes_on allowed goesOn]
    exact (ran_runFrom (k + 1) l.following).cons allowed goesOn
termination_by l.left

theorem exists_failures {outcome : Nat → Except ε α} {n : Nat}
    (failed : ∀ j < n, ∃ e, outcome j = .error e) :
    ∃ failures : List ε, (List.range n).map outcome = failures.map .error := by
  induction n with
  | zero => exact ⟨[], rfl⟩
  | succ n ih =>
    obtain ⟨failures, same⟩ := ih fun j early => failed j (Nat.lt_succ_of_lt early)
    obtain ⟨e, last⟩ := failed n (Nat.lt_succ_self n)
    refine ⟨failures ++ [e], ?_⟩
    rw [List.range_succ, List.map_append, List.map_append, same, List.map_singleton, last,
      List.map_singleton]

/-- A run that fails has failed each time. -/
theorem Ran.result_eq_error_iff {k : Nat} {l : Loop} {r : Run ε α}
    (ran : Ran retryable attempt k l r) (e : ε) :
    r.result = .error e ↔ ∃ failures : List ε,
      ((List.range r.attempts).map fun j => attempt (k + j)) = failures.map .error ∧
        failures.getLast? = some e := by
  obtain ⟨result, -, before, -⟩ := ran
  have ends : ∀ failures : List ε,
      ((List.range r.attempts).map fun j => attempt (k + j)) = failures.map .error →
        some r.result = failures.getLast?.map .error := by
    intro failures same
    rw [← List.getLast?_map, ← same, Run.attempts, List.range_succ, List.map_append,
      List.map_singleton, List.getLast?_concat, result]
  constructor
  · intro failed
    obtain ⟨failures, same⟩ : ∃ failures : List ε,
        ((List.range r.attempts).map fun j => attempt (k + j)) = failures.map .error := by
      apply exists_failures
      intro j early
      rcases Nat.lt_succ_iff_lt_or_eq.mp early with early | rfl
      · cases outcome : attempt (k + j) with
        | ok a => exact absurd (.inl ⟨a, outcome⟩) (before j early).2
        | error e' => exact ⟨e', rfl⟩
      · exact ⟨e, result.symm.trans failed⟩
    have last := ends failures same
    rw [failed] at last
    obtain ⟨e', last', agrees⟩ := Option.map_eq_some_iff.mp last.symm
    rw [Except.error.inj agrees] at last'
    exact ⟨failures, same, last'⟩
  · rintro ⟨failures, same, last⟩
    have last' := ends failures same
    rw [last] at last'
    exact Option.some.inj last'

/-- Neither the numbers of the attempts nor what comes behind the last one is looked at. -/
theorem runFrom_congr {attempt' : Nat → Except ε α} {k k' : Nat} {l : Loop}
    (same : ∀ j ≤ (runFrom retryable attempt k l).waits.length,
      attempt' (k' + j) = attempt (k + j)) :
    runFrom retryable attempt' k' l = runFrom retryable attempt k l := by
  have first := same 0 (Nat.zero_le _)
  rw [Nat.add_zero, Nat.add_zero] at first
  by_cases ends : l.left = 0 ∨ Final retryable (attempt k)
  · rw [runFrom_of_ends ends, runFrom_of_ends (by rwa [first]), first]
  · obtain ⟨allowed, goesOn⟩ := not_or.mp ends
    have fewer := l.following_left_lt allowed
    rw [runFrom_of_goes_on allowed goesOn] at same ⊢
    rw [runFrom_of_goes_on allowed (by rwa [first]), runFrom_congr]
    intro j early
    rw [show k + 1 + j = k + (j + 1) by omega, show k' + 1 + j = k' + (j + 1) by omega]
    exact same (j + 1) (Nat.succ_le_succ early)
termination_by l.left

theorem Loop.delayAt_succ (l : Loop) (k : Nat) :
    l.delayAt (k + 1) = min (l.delayAt k).double maxDelay := by
  induction k generalizing l with
  | zero => rfl
  | succ k ih => exact ih l.following

/-- Doubling and cutting again and again is doubling and cutting once. -/
theorem delayAt_start (p : RetryPolicy) (k : Nat) : (start p).delayAt k = p.wait k := by
  induction k with
  | zero => rfl
  | succ k ih =>
    rw [Loop.delayAt_succ, ih]
    apply congrArg Duration.mk
    by_cases first : k = 0
    · subst first
      rfl
    · have cut : (p.wait k).nanos = min (2 ^ k * p.initialDelay.nanos) maxDelay.nanos := by
        simp only [RetryPolicy.wait, first, if_false]
        rfl
      simp only [Duration.double, cut, Nat.pow_succ]
      have twice : 2 ^ k * 2 * p.initialDelay.nanos = 2 * (2 ^ k * p.initialDelay.nanos) := by
        rw [Nat.mul_comm (2 ^ k) 2, Nat.mul_assoc]
      omega

theorem wait_succ_le_maxDelay (p : RetryPolicy) (k : Nat) : p.wait (k + 1) ≤ maxDelay :=
  Nat.min_le_right _ _

/-- A wait that was cut is short, and the first one is as short as the policy makes it. -/
theorem double_wait_lt_iff {p : RetryPolicy} (k : Nat) :
    (p.wait k).double < .ofSeconds (2 ^ 64) ↔
      k ≠ 0 ∨ p.initialDelay < .ofSeconds (2 ^ 63) := by
  cases k with
  | zero =>
    change 2 * p.initialDelay.nanos < 2 ^ 64 * 10 ^ 9 ↔ _ ∨ p.initialDelay.nanos < 2 ^ 63 * 10 ^ 9
    omega
  | succ k =>
    have cut : (p.wait (k + 1)).nanos ≤ 30 * 10 ^ 9 := wait_succ_le_maxDelay p k
    have short : (p.wait (k + 1)).double < .ofSeconds (2 ^ 64) := by
      change 2 * (p.wait (k + 1)).nanos < 2 ^ 64 * 10 ^ 9
      omega
    exact iff_of_true short (.inl k.succ_ne_zero)

theorem double_wait_lt {p : RetryPolicy} (fits : p.initialDelay < .ofSeconds (2 ^ 63)) (k : Nat) :
    (p.wait k).double < .ofSeconds (2 ^ 64) :=
  (double_wait_lt_iff k).mpr (.inr fits)

theorem startTimes_concat (waits : List Duration) (d : Duration) :
    startTimes (waits ++ [d]) = startTimes waits ++ [waits.foldl (· + ·) ⟨0⟩ + d] := by
  rw [startTimes, startTimes, List.foldl_append]
  -- the clock of the fold is the wait so far
  exact congrArg (fun now => _ ++ [now + d]) (List.foldl_hom Prod.fst fun _ _ => rfl).symm

theorem elapsed_waits (p : RetryPolicy) (n : Nat) :
    ((List.range n).map p.wait).foldl (· + ·) ⟨0⟩ = p.startOf n := by
  induction n with
  | zero => rfl
  | succ n ih =>
    rw [List.range_succ, List.map_append, List.foldl_append, ih]
    rfl

theorem startTimes_waits (p : RetryPolicy) (n : Nat) :
    startTimes ((List.range n).map p.wait) = (List.range (n + 1)).map p.startOf := by
  induction n with
  | zero => rfl
  | succ n ih =>
    rw [List.range_succ, List.map_append, List.map_singleton, startTimes_concat, ih, elapsed_waits,
      List.range_succ (n := n + 1), List.map_append]
    rfl

/-- Whatever the outcomes are, the loop makes the least number of attempts that is the policy's limit,
or ends in a success, or ends in a failure not worth another one. It answers with the last of them, and
its waits and start times are those of the policy; no wait is too long to be doubled. -/
theorem attempts_isLeast (p : RetryPolicy) (retryable : ε → Bool) (attempt : Nat → Except ε α)
    (fits : p.initialDelay < .ofSeconds (2 ^ 63)) :
    let r := run p retryable attempt
    IsLeast {n | n = max p.maxAttempts 1 ∨ ∃ k, n = k + 1 ∧
      ((∃ a, attempt k = .ok a) ∨ ∃ e, attempt k = .error e ∧ retryable e = false)} r.attempts ∧
    (∀ attempt', (∀ k < r.attempts, attempt' k = attempt k) → run p retryable attempt' = r) ∧
    r.result = attempt (r.attempts - 1) ∧
    r.waits = (List.range (r.attempts - 1)).map p.wait ∧
    startTimes r.waits = (List.range r.attempts).map p.startOf ∧
    r.elapsed = p.startOf (r.attempts - 1) ∧
    (∀ k, (p.wait k).double < .ofSeconds (2 ^ 64)) ∧
    IsLeast {n | n = max p.maxAttempts 1 ∨ ∃ k, n = k + 1 ∧ ∃ a, attempt k = .ok a}
      (run p (fun _ => true) attempt).attempts := by
  intro r
  have least (retryable : ε → Bool) :
      IsLeast {n | n = max p.maxAttempts 1 ∨ ∃ k, n = k + 1 ∧ Final retryable (attempt k)}
        (run p retryable attempt).attempts := by
    obtain ⟨-, -, before, ended⟩ := @ran_runFrom _ _ retryable attempt 0 (start p)
    simp only [Nat.zero_add] at before ended
    have limit : (start p).left + 1 = max p.maxAttempts 1 :=
      Nat.succ_pred_eq_of_pos (Nat.le_max_right _ _)
    refine ⟨?_, ?_⟩
    · rcases ended with last | final
      · exact .inl ((congrArg (· + 1) last).trans limit)
      · exact .inr ⟨_, rfl, final⟩
    · rintro n (rfl | ⟨k, rfl, final⟩)
      · rw [← limit]
        by_contra more
        exact absurd (before (start p).left (by simpa [Run.attempts, run] using more)).1
          (Nat.lt_irrefl _)
      · by_contra more
        exact (before k (by simpa [Run.attempts, run] using more)).2 final
  obtain ⟨result, waits, -, -⟩ := @ran_runFrom _ _ retryable attempt 0 (start p)
  rw [Nat.zero_add] at result
  have waits : r.waits = (List.range (r.attempts - 1)).map p.wait :=
    waits.trans (List.map_congr_left fun k _ => delayAt_start p k)
  have times := startTimes_waits p (r.attempts - 1)
  have elapsed := elapsed_waits p (r.attempts - 1)
  rw [← waits] at times elapsed
  refine ⟨least retryable, ?_, result, waits, times, elapsed, double_wait_lt fits, ?_⟩
  · intro attempt' same
    refine runFrom_congr fun k early => ?_
    rw [Nat.zero_add]
    exact same k (Nat.lt_succ_of_le early)
  · simpa [Final] using least fun _ => true

/-- The first wait is longer than a doubled one may be, and the third failure is for good. -/
theorem attempts_isLeast_thirdForGood :
    let p : RetryPolicy := ⟨5, .ofSeconds 40, .discard⟩
    let attempt (k : Nat) : Except String Unit := .error (if k = 2 then "for good" else "down")
    let r := run p (fun e => e ≠ "for good") attempt
    p.initialDelay < .ofSeconds (2 ^ 63) ∧ r.attempts = 3 ∧ r.result = .error "for good" ∧
      r.waits = [.ofSeconds 40, .ofSeconds 30] := by
  intro p attempt r
  have fits : p.initialDelay < .ofSeconds (2 ^ 63) := by decide
  obtain ⟨-, -, result, waits, -⟩ := attempts_isLeast p (fun e => e ≠ "for good") attempt fits
  have three : r.attempts = 3 := by decide +kernel
  refine ⟨fits, three, ?_, ?_⟩
  · exact result.trans (by rw [three]; decide)
  · exact waits.trans (by rw [three]; decide)

end Retry

end TraceTally
