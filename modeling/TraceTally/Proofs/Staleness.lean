import TraceTally.Proofs.Triggers
import TraceTally.Proofs.Unfailing

/-!
# How long values wait

A ticker whose store never fails. A tick that finds nothing due leaves only what was written less than
an interval before it, and the tick after it comes a period later. So whatever waits, and whenever it
was written, the next tick comes within an interval and a period of that moment; this is what each
operation keeps.
-/

namespace TraceTally

variable {σ V : Type}

section Waiting

variable [Add V]

namespace Collector

/-- The buffer holds what the latest of the writes merged, and `known` holds of their moments. -/
def Buffers (known : Instant → Prop) (written : List (Instant × Entry V)) (c : Collector σ V) :
    Prop :=
  ∃ older recent, written = older ++ recent ∧
    c.totals = Totals.empty.mergeAll (recent.flatMap fun w => w.2.pairs) ∧
    ∀ w ∈ recent, known w.1

theorem Buffers.imp {known known' : Instant → Prop} {written : List (Instant × Entry V)}
    {c : Collector σ V} (buffers : c.Buffers known written) (imp : ∀ t, known t → known' t) :
    c.Buffers known' written := by
  obtain ⟨older, recent, split, totals, moments⟩ := buffers
  exact ⟨older, recent, split, totals, fun w hw => imp w.1 (moments w hw)⟩

end Collector

namespace Timed

/-- What is buffered was written less than `age` ago. -/
def Recent (age : Duration) (written : List (Instant × Entry V)) (s : Timed σ V) : Prop :=
  s.collector.Buffers (fun t => t ≤ s.clock.now ∧ s.clock.now < t + age) written

/-- What is buffered was written since the last export, at moments of which `known` holds. -/
structure Holds (good : σ → Prop) (policy : BufferPolicy) (known : Instant → Prop)
    (written : List (Instant × Entry V)) (s : Timed σ V) : Prop where
  policy : s.collector.policy = policy
  fit : good s.collector.store
  le_now : s.collector.lastExport ≤ s.clock.now
  buffered : s.collector.Buffers
    (fun t => s.collector.lastExport ≤ t ∧ t ≤ s.clock.now ∧ known t) written

namespace Holds

variable {good : σ → Prop} {policy : BufferPolicy} {known known' : Instant → Prop}
  {written : List (Instant × Entry V)} {s : Timed σ V}

theorem start (policy : BufferPolicy) {store : σ} (fit : good store) (clock : Clock)
    (known : Instant → Prop) :
    Holds (V := V) good policy known [] ⟨clock, .start policy store clock.now⟩ :=
  ⟨rfl, fit, le_rfl, [], [], rfl, rfl, fun _ hw => absurd hw List.not_mem_nil⟩

theorem imp (holds : Holds good policy known written s)
    (imp : ∀ t, s.collector.lastExport ≤ t → known t → known' t) :
    Holds good policy known' written s :=
  ⟨holds.policy, holds.fit, holds.le_now,
    holds.buffered.imp fun t ⟨since, le_now, fact⟩ => ⟨since, le_now, imp t since fact⟩⟩

theorem wait (holds : Holds good policy known written s) {clock : Clock}
    (later : s.clock.now ≤ clock.now) : Holds good policy known written { s with clock } :=
  ⟨holds.policy, holds.fit, holds.le_now.trans later,
    holds.buffered.imp fun _ ⟨since, le_now, fact⟩ => ⟨since, le_now.trans later, fact⟩⟩

theorem merge (holds : Holds good policy known written s) (now : known s.clock.now)
    (e : Entry V) :
    Holds good policy known (written ++ [(s.clock.now, e)])
      { s with collector := s.collector.mergeEntry e } := by
  obtain ⟨older, recent, split, totals, moments⟩ := holds.buffered
  refine ⟨holds.policy, holds.fit, holds.le_now, older, recent ++ [(s.clock.now, e)], ?_, ?_, ?_⟩
  · rw [split, List.append_assoc]
  · rw [List.flatMap_append, List.flatMap_singleton, Totals.mergeAll_append, ← totals]
    rfl
  · rw [List.forall_mem_append, List.forall_mem_singleton]
    exact ⟨moments, holds.le_now, le_rfl, now⟩

end Holds

end Timed

/-- When the tick with this number is due, of a ticker that started at `start`. -/
def Ticker.dueAt (period : Duration) (start : Instant) (n : Nat) : Instant :=
  ⟨start.nanos + n * period.nanos⟩

theorem Ticker.dueAt_zero (period : Duration) (start : Instant) :
    Ticker.dueAt period start 0 = start :=
  congrArg Duration.mk (by omega)

theorem Ticker.dueAt_succ (period : Duration) (start : Instant) (n : Nat) :
    Ticker.dueAt period start (n + 1) = Ticker.dueAt period start n + period :=
  congrArg Duration.mk (by rw [Nat.succ_mul, ← Nat.add_assoc]; rfl)

/-- After `n` ticks the next one comes within a period, and within an interval and a period of every
write that is still buffered. Before the first tick nothing is known of those. -/
structure Beating (good : σ → Prop) (policy : BufferPolicy) (period : Duration) (start : Instant)
    (n : Nat) (written : List (Instant × Entry V)) (s : Timed σ V) : Prop where
  started : start ≤ s.clock.now
  ahead : Ticker.dueAt period start n ≤ s.clock.now + period
  holds : s.Holds good policy
    (fun t => n ≠ 0 → Ticker.dueAt period start n ≤ t + policy.interval + period) written

namespace Beating

variable {good : σ → Prop} {policy : BufferPolicy} {period : Duration} {start : Instant}
  {n : Nat} {written : List (Instant × Entry V)} {s : Timed σ V}

theorem begin (holds : s.Holds good policy (fun _ => True) written) :
    Beating good policy period s.clock.now 0 written s := by
  refine ⟨le_rfl, ?_, holds.imp fun _ _ _ first => absurd rfl first⟩
  rw [Ticker.dueAt_zero]
  exact Duration.le_add _ _

theorem wait (beating : Beating good policy period start n written s) {clock : Clock}
    (later : s.clock.now ≤ clock.now) : Beating good policy period start n written { s with clock } :=
  ⟨beating.started.trans later, beating.ahead.trans (Nat.add_le_add_right later _),
    beating.holds.wait later⟩

theorem near (beating : Beating good policy period start n written s) :
    Ticker.dueAt period start n ≤ s.clock.now + policy.interval + period :=
  beating.ahead.trans (Nat.add_le_add_right (Duration.le_add _ _) _)

theorem recent (beating : Beating good policy period start n written s)
    (caughtUp : s.clock.now < Ticker.dueAt period start n) :
    s.Recent (policy.interval + period) written := by
  have begun : n ≠ 0 := by
    rintro rfl
    rw [Ticker.dueAt_zero] at caughtUp
    exact not_lt_of_ge beating.started caughtUp
  refine beating.holds.buffered.imp fun t ⟨_, le_now, near⟩ => ⟨le_now, ?_⟩
  calc s.clock.now
      < Ticker.dueAt period start n := caughtUp
    _ ≤ t + policy.interval + period := near begun
    _ = t + (policy.interval + period) := congrArg Duration.mk (Nat.add_assoc _ _ _)

end Beating

end Waiting

variable [EventStore σ V]

/-- In these states the calls that a flush makes succeed, and lead to such states again. -/
structure EventStore.Dependable (good : σ → Prop) : Prop where
  named : ∀ s, good s → ∃ id s', EventStore.newRowId s = (.ok id, s') ∧ good s'
  written : ∀ now (records : List (Record V)) s, good s →
    ∃ s', EventStore.writeBatch now records s = (.ok (), s') ∧ good s'

theorem FallibleMemory.dependable :
    EventStore.Dependable fun s : FallibleMemory V => ∀ point, s.Reliable point where
  named s reliable := by
    obtain ⟨same, ⟨-, -, faulty⟩ | ⟨answer, -⟩⟩ := FallibleMemory.newRowId_cases s
    · exact absurd (reliable .newId) faulty
    · exact ⟨_, _, Prod.ext answer rfl, fun point => same.reliable point (reliable point)⟩
  written now records s reliable := by
    have reliable' : ∀ point, (EventStore.writeBatch now records s).2.Reliable point :=
      fun point => FallibleMemory.reliable_writeBatch (reliable point)
    obtain ⟨-, -, -, -, faulty⟩ | ⟨-, -, answer | ⟨-, faulty⟩⟩ :=
      FallibleMemory.writeBatch_cases now records s
    · exact absurd (reliable .write) faulty
    · exact ⟨_, Prod.ext answer rfl, reliable'⟩
    · exact absurd (reliable .acknowledge) faulty

namespace EventStore.Dependable

variable {good : σ → Prop} (dependable : Dependable good)

include dependable

theorem buildBatch (today : Int) (lifetime : Duration) (pairs : List (Key × V)) {store : σ}
    (fit : good store) :
    ∃ records store', TraceTally.buildBatch today lifetime pairs store = (.ok records, store') ∧
      good store' := by
  induction pairs generalizing store with
  | nil => exact ⟨[], store, rfl, fit⟩
  | cons p rest ih =>
    obtain ⟨id, store₁, named, fit₁⟩ := dependable.named store fit
    obtain ⟨records, store₂, built, fit₂⟩ := ih fit₁
    refine ⟨⟨id, p.1, p.2, today, Duration.expiry today lifetime⟩ :: records, store₂, ?_, fit₂⟩
    simp only [TraceTally.buildBatch, named, built]

theorem submit (today : Int) (records : List (Record V)) {c : Collector σ V}
    (fit : good c.store) : ∃ c', c.submit today records = (.ok (), c') ∧ good c'.store := by
  unfold Collector.submit
  split
  · exact ⟨c, rfl, fit⟩
  · obtain ⟨store, written, fit⟩ := dependable.written today records c.store fit
    exact ⟨_, by rw [written], fit⟩

end EventStore.Dependable

variable [Add V]

namespace Timed

/-- The flush succeeds where it begins, as there is nothing to do, or in its first attempt. -/
inductive FlushesAtOnce (trigger : Trigger) (s : Timed σ V) (n : Nat) (c : Collector σ V) : Prop where
  | empty (begun : s.collector.beginFlush s.clock trigger = (.finished (.ok n), c))
  | written {f : Flight V} {held : Collector σ V}
      (begun : s.collector.beginFlush s.clock trigger = (.ready f, held))
      (attempted : held.attempt s.clock f = (.finished (.ok n), c))

theorem FlushesAtOnce.flush_eq {trigger : Trigger} {s : Timed σ V} {n : Nat} {c : Collector σ V}
    (flushes : s.FlushesAtOnce trigger n c) :
    s.flush trigger = (.ok n, { s with collector := c }) := by
  cases flushes with
  | empty begun => simp only [flush, begun, resume]
  | written begun attempted =>
    simp only [flush, begun, resume]
    exact finish_of_finished attempted

theorem flushesAtOnce {good : σ → Prop} (dependable : EventStore.Dependable good)
    {s : Timed σ V} (fit : good s.collector.store) (trigger : Trigger) :
    ∃ n c, s.FlushesAtOnce trigger n c ∧ good c.store := by
  by_cases nothing : s.collector.totals.entries = []
  · refine ⟨0, { s.collector.setTotals .empty with lastExport := s.clock.now }, .empty ?_, fit⟩
    simp only [Collector.beginFlush, Totals.isEmpty, nothing]
    rfl
  · obtain ⟨records, store, batch, fit⟩ := dependable.buildBatch s.clock.today
      s.collector.policy.lifetime s.collector.totals.entries fit
    have begun := Collector.beginFlush_of_ok trigger nothing batch
    obtain ⟨c, submitted, fit⟩ := dependable.submit s.clock.today records
      (c := ({ s.collector with store } : Collector σ V).setTotals .empty) fit
    refine ⟨s.collector.totals.size,
      (c.conclude s.clock.now trigger s.collector.totals (.ok ())).2, .written begun ?_, fit⟩
    simp only [Collector.attempt, submitted]
    rfl

end Timed

def Operation.isTick : Operation V → Bool
  | .tick => true
  | _ => false

/-- What an operation writes that is made at `now`, if no write fails. -/
def Operation.writes (now : Instant) : Operation V → List (Instant × Entry V)
  | .write e => [(now, e)]
  | .insert entries => entries.map (now, ·)
  | .flush _ | .flushIfDue | .tick | .pass _ => []

/-- What a run writes, and when. -/
def writes (s : Timed σ V) : List (Operation V) → List (Instant × Entry V)
  | [] => []
  | op :: ops => op.writes s.clock.now ++ writes (op.run s) ops

namespace Timed.Holds

variable {good : σ → Prop} {policy : BufferPolicy} {known : Instant → Prop}
  {written : List (Instant × Entry V)} {s : Timed σ V}

variable (dependable : EventStore.Dependable good)

include dependable

/-- A flush leaves nothing, so that anything may be said of what waits. -/
theorem flush (holds : Holds good policy known written s) (trigger : Trigger)
    (known' : Instant → Prop) :
    ∃ n s', s.flush trigger = (.ok n, s') ∧ s'.clock = s.clock ∧
      Holds good policy known' written s' := by
  obtain ⟨n, c, flushes, fit⟩ := flushesAtOnce dependable holds.fit trigger
  obtain ⟨samePolicy, -, outcome⟩ := s.ended_flush trigger
  rw [ending, flushes.flush_eq] at outcome
  rw [flushes.flush_eq] at samePolicy
  obtain ⟨-, -, totals, exported⟩ | ⟨_, answer, -⟩ := outcome
  · exact ⟨n, _, flushes.flush_eq, rfl, samePolicy.trans holds.policy, fit, exported.le,
      written, [], (List.append_nil _).symm, totals, fun _ hw => absurd hw List.not_mem_nil⟩
  · cases answer

theorem write (holds : Holds good policy known written s) (now : known s.clock.now)
    (e : Entry V) :
    ∃ s', s.write e = (.ok (), s') ∧ s'.clock = s.clock ∧
      Holds good policy known (written ++ [(s.clock.now, e)]) s' := by
  have merged := holds.merge now e
  simp only [Timed.write]
  split
  · exact ⟨_, rfl, rfl, merged⟩
  · rename_i trigger _
    obtain ⟨n, s', flushed, clock, holds⟩ := merged.flush dependable trigger known
    exact ⟨s', by rw [flushed]; rfl, clock, holds⟩

theorem untilFailure (holds : Holds good policy known written s) (now : known s.clock.now)
    (entries : List (Entry V)) :
    ∃ s', TraceTally.untilFailure Timed.write entries s = (.ok (), s') ∧ s'.clock = s.clock ∧
      Holds good policy known (written ++ entries.map (s.clock.now, ·)) s' := by
  induction entries generalizing written s with
  | nil => exact ⟨s, rfl, rfl, by rwa [List.map_nil, List.append_nil]⟩
  | cons e rest ih =>
    obtain ⟨s₁, first, clock₁, holds₁⟩ := holds.write dependable now e
    obtain ⟨s₂, later, clock₂, holds₂⟩ := ih holds₁ (clock₁ ▸ now)
    refine ⟨s₂, by simp only [TraceTally.untilFailure, first, later], clock₂.trans clock₁, ?_⟩
    rwa [List.append_assoc, List.singleton_append, clock₁] at holds₂

/-- If nothing is due, what waits was written less than an interval ago. -/
theorem flushIfDue (holds : Holds good policy known written s) :
    s.flushIfDue.2.clock = s.clock ∧
      Holds good policy (fun t => known t ∧ s.clock.now < t + policy.interval) written
        s.flushIfDue.2 := by
  have dueIff := Collector.isDue_iff holds.le_now
  rw [holds.policy] at dueIff
  unfold Timed.flushIfDue
  split
  · obtain ⟨n, s', flushed, clock, holds⟩ := holds.flush dependable .ticker
      (fun t => known t ∧ s.clock.now < t + policy.interval)
    rw [flushed]
    exact ⟨clock, holds⟩
  · rename_i undue
    refine ⟨rfl, holds.imp fun t since fact => ⟨fact, ?_⟩⟩
    have undue : ¬ s.collector.lastExport.nanos + policy.interval.nanos ≤ s.clock.now.nanos :=
      fun due => undue (dueIff.mpr due)
    have since : s.collector.lastExport.nanos ≤ t.nanos := since
    change s.clock.now.nanos < t.nanos + policy.interval.nanos
    omega

/-- Time passes in no operation but the one that lets it pass. -/
theorem step (holds : Holds good policy known written s) (now : known s.clock.now)
    (op : Operation V) :
    Holds good policy known (written ++ op.writes s.clock.now) (op.run s) ∧
      ((∀ d, op ≠ .pass d) → (op.run s).clock = s.clock) := by
  have flushedIfDue : Holds good policy known (written ++ []) s.flushIfDue.2 ∧
      s.flushIfDue.2.clock = s.clock := by
    obtain ⟨clock, holds⟩ := holds.flushIfDue dependable
    rw [List.append_nil]
    exact ⟨holds.imp fun _ _ fact => fact.1, clock⟩
  cases op with
  | write e =>
    obtain ⟨s', answer, clock, holds⟩ := holds.write dependable now e
    rw [Operation.run, answer]
    exact ⟨holds, fun _ => clock⟩
  | insert entries =>
    obtain ⟨s', answer, clock, holds⟩ := holds.untilFailure dependable now entries
    rw [Operation.run, Timed.insert, answer]
    exact ⟨⟨holds.policy, holds.fit, holds.le_now, holds.buffered⟩, fun _ => clock⟩
  | flush trigger =>
    obtain ⟨n, s', answer, clock, holds⟩ := holds.flush dependable trigger known
    rw [Operation.run, answer, Operation.writes, List.append_nil]
    exact ⟨holds, fun _ => clock⟩
  | flushIfDue => exact ⟨flushedIfDue.1, fun _ => flushedIfDue.2⟩
  | tick =>
    rw [Operation.run, Timed.tick_eq]
    exact ⟨flushedIfDue.1, fun _ => flushedIfDue.2⟩
  | pass d =>
    rw [Operation.writes, List.append_nil]
    exact ⟨holds.wait (Duration.le_add _ d), fun other => absurd rfl (other d)⟩

theorem run (ops : List (Operation V)) (holds : Holds good policy (fun _ => True) written s) :
    Holds good policy (fun _ => True) (written ++ writes s ops) (TraceTally.run s ops) := by
  induction ops generalizing written s with
  | nil =>
    rw [writes, List.append_nil]
    exact holds
  | cons op ops ih =>
    have later := ih (holds.step dependable trivial op).1
    rwa [List.append_assoc] at later

end Timed.Holds

/-- No tick comes before its time, the first one having the number `n`. -/
def OnTime (period : Duration) (start : Instant) (n : Nat) (s : Timed σ V) :
    List (Operation V) → Prop
  | [] => True
  | op :: ops =>
    (op.isTick = true → Ticker.dueAt period start n ≤ s.clock.now) ∧
      OnTime period start (if op.isTick then n + 1 else n) (op.run s) ops

instance decidableOnTime (period : Duration) (start : Instant) :
    (n : Nat) → (s : Timed σ V) → (ops : List (Operation V)) →
      Decidable (OnTime period start n s ops)
  | _, _, [] => inferInstanceAs (Decidable True)
  | n, s, op :: ops =>
    have := decidableOnTime period start (if op.isTick then n + 1 else n) (op.run s) ops
    inferInstanceAs (Decidable (_ ∧ _))

namespace Beating

variable {good : σ → Prop} {policy : BufferPolicy} {period : Duration} {start : Instant}
  {n : Nat} {written : List (Instant × Entry V)} {s : Timed σ V}

variable (dependable : EventStore.Dependable good)

include dependable

/-- A tick leaves the next one no farther away from what still waits. -/
theorem tick (beating : Beating good policy period start n written s)
    (due : Ticker.dueAt period start n ≤ s.clock.now) :
    Beating good policy period start (n + 1) written s.flushIfDue.2 := by
  obtain ⟨clock, holds⟩ := beating.holds.flushIfDue dependable
  have next : Ticker.dueAt period start (n + 1) ≤ s.clock.now + period := by
    rw [Ticker.dueAt_succ]
    exact Nat.add_le_add_right due _
  refine ⟨clock ▸ beating.started, clock ▸ next, holds.imp fun t _ ⟨_, undue⟩ _ => ?_⟩
  exact next.trans (Nat.add_le_add_right (le_of_lt undue) _)

theorem step (beating : Beating good policy period start n written s) (op : Operation V) :
    Beating good policy period start n (written ++ op.writes s.clock.now) (op.run s) := by
  have now := (op.before_run s).now
  exact ⟨beating.started.trans now, beating.ahead.trans (Nat.add_le_add_right now _),
    (beating.holds.step dependable (fun _ => beating.near) op).1⟩

theorem run (ops : List (Operation V)) (beating : Beating good policy period start n written s)
    (onTime : OnTime period start n s ops) :
    Beating good policy period start (n + ops.countP Operation.isTick) (written ++ writes s ops)
      (TraceTally.run s ops) := by
  induction ops generalizing n written s with
  | nil =>
    rw [writes, List.append_nil]
    exact beating
  | cons op ops ih =>
    obtain ⟨due, onTime⟩ := onTime
    rw [writes, ← List.append_assoc, List.countP_cons]
    by_cases ticks : op.isTick = true
    · obtain rfl : op = .tick := by
        cases op <;> first | rfl | cases ticks
      have ticked := beating.tick dependable (due rfl)
      rw [← Timed.tick_eq] at ticked
      rw [Operation.writes, List.append_nil]
      have later := ih ticked onTime
      rwa [Nat.add_right_comm] at later
    · rw [if_neg ticks] at onTime ⊢
      exact ih (beating.step dependable op) onTime

end Beating

end TraceTally
