import TraceTally.Proofs.Backoff
import TraceTally.Settings.Basic

/-!
# Which waits keep to the bound

A wait is cut when the one before it is doubled, so the first wait is never cut. It alone can be longer
than the bound, longer than what comes behind it, and too long to be doubled; the check of the settings
looks at the number of attempts and not at the wait.
-/

namespace TraceTally

namespace RetryPolicy

theorem wait_succ_le {p : RetryPolicy} {j k : Nat} (before : j ≤ k) :
    p.wait (j + 1) ≤ p.wait (k + 1) := by
  have grows : 2 ^ (j + 1) * p.initialDelay.nanos ≤ 2 ^ (k + 1) * p.initialDelay.nanos :=
    Nat.mul_le_mul_right _ (Nat.pow_le_pow_right Nat.two_pos (Nat.succ_le_succ before))
  exact Nat.le_min.mpr ⟨Nat.le_trans (Nat.min_le_left _ _) grows, Nat.min_le_right _ _⟩

theorem wait_zero_le_iff {p : RetryPolicy} (k : Nat) :
    p.wait 0 ≤ p.wait (k + 1) ↔ p.initialDelay ≤ Retry.maxDelay := by
  have once : p.initialDelay.nanos ≤ 2 ^ (k + 1) * p.initialDelay.nanos :=
    Nat.le_mul_of_pos_left _ (Nat.two_pow_pos _)
  exact Nat.le_min.trans (and_iff_right once)

end RetryPolicy

namespace Retry

variable {ε α : Type} {p : RetryPolicy}

theorem forall_wait_le_iff (n : Nat) :
    (∀ k < n, p.wait k ≤ maxDelay) ↔ n = 0 ∨ p.initialDelay ≤ maxDelay := by
  cases n with
  | zero => exact iff_of_true nofun (.inl rfl)
  | succ n =>
    rw [Nat.forall_lt_succ_left, and_iff_left fun k _ => wait_succ_le_maxDelay p k,
      or_iff_right n.succ_ne_zero]
    rfl

theorem forall_double_wait_lt_iff (n : Nat) :
    (∀ k < n, (p.wait k).double < .ofSeconds (2 ^ 64)) ↔
      n = 0 ∨ p.initialDelay < .ofSeconds (2 ^ 63) := by
  cases n with
  | zero => exact iff_of_true nofun (.inl rfl)
  | succ n =>
    rw [Nat.forall_lt_succ_left,
      and_iff_left fun k _ => (double_wait_lt_iff (k + 1)).mpr (.inl k.succ_ne_zero),
      or_iff_right n.succ_ne_zero, double_wait_lt_iff, or_iff_right (not_not_intro rfl)]

theorem pairwise_wait_le_iff (n : Nat) :
    ((List.range n).map p.wait).Pairwise (· ≤ ·) ↔ n ≤ 1 ∨ p.initialDelay ≤ maxDelay := by
  rw [List.pairwise_map]
  constructor
  · intro sorted
    refine or_iff_not_imp_left.mpr fun many => ?_
    have two : 1 < (List.range n).length := by rwa [List.length_range, ← Nat.not_le]
    have first := List.pairwise_iff_getElem.mp sorted 0 1 (Nat.zero_lt_of_lt two) two Nat.one_pos
    rw [List.getElem_range, List.getElem_range] at first
    exact (RetryPolicy.wait_zero_le_iff 0).mp first
  · rintro (few | short)
    · refine List.pairwise_lt_range.imp_of_mem fun _ last before => ?_
      have last := List.mem_range.mp last
      omega
    · refine List.pairwise_lt_range.imp fun {j k} before => ?_
      obtain ⟨k, rfl⟩ := Nat.exists_eq_succ_of_ne_zero (Nat.ne_zero_of_lt before)
      cases j with
      | zero => exact (RetryPolicy.wait_zero_le_iff k).mpr short
      | succ j => exact RetryPolicy.wait_succ_le (Nat.le_of_lt (Nat.lt_of_succ_lt_succ before))

theorem waits_run (p : RetryPolicy) (retryable : ε → Bool) (attempt : Nat → Except ε α) :
    (run p retryable attempt).waits =
      (List.range (run p retryable attempt).waits.length).map p.wait :=
  (ran_runFrom 0 (start p)).waits.trans (List.map_congr_left fun k _ => delayAt_start p k)

/-- In every run of every policy: the waits keep to the bound if there are none or the policy's own
wait does, they never get shorter if there are fewer than two or the policy's own wait keeps to the bound,
and each can be doubled if there are none or the policy's own wait can be. From the second wait on all of
this always holds. -/
theorem waits_capped_iff (p : RetryPolicy) (retryable : ε → Bool) (attempt : Nat → Except ε α) :
    let r := run p retryable attempt
    ((∀ d ∈ r.waits, d ≤ maxDelay) ↔ r.attempts = 1 ∨ p.initialDelay ≤ maxDelay) ∧
    (r.waits.Pairwise (· ≤ ·) ↔ r.attempts ≤ 2 ∨ p.initialDelay ≤ maxDelay) ∧
    ((∀ d ∈ r.waits, d.double < .ofSeconds (2 ^ 64)) ↔
      r.attempts = 1 ∨ p.initialDelay < .ofSeconds (2 ^ 63)) ∧
    (∀ d ∈ r.waits.tail, d ≤ maxDelay) ∧ r.waits.tail.Pairwise (· ≤ ·) := by
  intro r
  obtain ⟨n, count, waits⟩ : ∃ n, r.attempts = n + 1 ∧ r.waits = (List.range n).map p.wait :=
    ⟨_, rfl, waits_run p retryable attempt⟩
  rw [count, waits, List.forall_mem_map, List.forall_mem_map, Nat.add_eq_right, Nat.add_le_add_iff_right]
  simp only [List.mem_range]
  refine ⟨forall_wait_le_iff n, pairwise_wait_le_iff n, forall_double_wait_lt_iff n, ?_⟩
  cases n with
  | zero => exact ⟨nofun, .nil⟩
  | succ n =>
    rw [List.range_succ_eq_map, List.map_cons, List.tail_cons, List.map_map]
    refine ⟨?_, ?_⟩
    · rw [List.forall_mem_map]
      exact fun k _ => wait_succ_le_maxDelay p k
    · rw [List.pairwise_map]
      exact List.pairwise_lt_range.imp fun before => RetryPolicy.wait_succ_le (Nat.le_of_lt before)

/-- The settings pass the check, and of the waits behind three failures the first is longer than the
bound and than the second. With the longest wait of all the settings still pass, and doubling it goes
beyond what 64 bits of seconds hold. -/
theorem first_wait_not_capped :
    let waits (s : Settings) :=
      (run s.retry Failure.isTransient fun _ => (.error (.storeUnavailable "down") :
        Except Failure Unit)).waits
    let slow : Settings := { retry := ⟨3, .ofSeconds 45, .discard⟩ }
    let slowest : Settings := { retry := ⟨2, .ofSeconds (2 ^ 64 - 1), .discard⟩ }
    slow.fault? = none ∧ waits slow = [.ofSeconds 45, .ofSeconds 30] ∧
      ¬ (∀ d ∈ waits slow, d ≤ maxDelay) ∧ ¬ (waits slow).Pairwise (· ≤ ·) ∧
      slowest.fault? = none ∧
      ¬ ∀ d ∈ waits slowest, d.double < .ofSeconds (2 ^ 64) := by
  decide +kernel

end Retry

end TraceTally
