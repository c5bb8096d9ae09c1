import TraceTally.Proofs.Callers
import TraceTally.Proofs.Query

/-!
# What queries can see

At every moment of every run the stored rows add up to the entries of the first writes, in the order
in which these got the lock. How many are visible only grows, and after a flush that succeeded it is
all of them.
-/

namespace TraceTally

variable {V : Type}

namespace MemoryStore

/-- A store with one row per pair, all of them live now. -/
def holding (now : Int) (pairs : List (Key × V)) : MemoryStore V :=
  { rows := pairs.zipIdx.map fun (p, i) => ⟨i, p.1, p.2, now, now + 1⟩, minted := pairs.length }

theorem pairs_holding (now : Int) (pairs : List (Key × V)) : (holding now pairs).pairs = pairs := by
  rw [MemoryStore.pairs, holding, List.map_map]
  exact List.zipIdx_map_fst 0 pairs

theorem isLive_of_mem_holding {now : Int} {pairs : List (Key × V)} {r : Record V}
    (h : r ∈ (holding now pairs).rows) : r.isLive now = true := by
  obtain ⟨⟨p, i⟩, -, rfl⟩ := List.mem_map.mp h
  simp [Record.isLive]

end MemoryStore

namespace Callers

/-- The call that has the lock has made a flush that succeeded. -/
def flushed (s : Callers V) : Bool :=
  match s.holder with
  | some (_, .leaving (.ok (some _))) => true
  | _ => false

/-- How many writes are visible: those that had the lock when a flush last succeeded. -/
def latest (states : Nat → Callers V) : Nat → Nat
  | 0 => 0
  | i + 1 => if (states (i + 1)).flushed then (states (i + 1)).acquired.length else latest states i

theorem flushed_land {call : Call V} {p : Progress V × Collector (FallibleMemory V) V}
    {s : Callers V} : (s.land call p).flushed = true ↔ ∃ n, p.1 = .finished (.ok n) := by
  obtain ⟨p, c⟩ := p
  cases p with
  | finished r => cases r <;> simp [flushed, land, hold, Stage.of, Except.map]
  | ready f => simp [flushed, land, hold, Stage.of]
  | waiting d f => simp [flushed, land, hold, Stage.of]

variable [AddCommMonoid V]

/-- The first `n` writes are stored and the others are not, and nothing gets lost. -/
structure Visible (policy : BufferPolicy) (horizon : Instant) (n : Nat) (s : Callers V) : Prop where
  accounted : s.Accounted policy horizon []
  unstored : Unstored s.flight? s.timed
  discarding : policy.retry.onExhausted = .discard →
    s.collector.store.Reliable .newId ∧ s.collector.store.Reliable .write
  le : n ≤ s.acquired.length
  rows : tally s.collector.store.inner.pairs = tally ((s.acquired.take n).flatMap Entry.pairs)
  latest : s.flushed = true → n = s.acquired.length

namespace Visible

variable {policy : BufferPolicy} {horizon : Instant} {n : Nat} {s s' : Callers V}

theorem stays (visible : Visible policy horizon n s) (accounted : s'.Accounted policy horizon [])
    (unstored : Unstored s'.flight? s'.timed)
    (reliable : ∀ point, s.collector.store.Reliable point → s'.collector.store.Reliable point)
    (rows : s'.collector.store.inner.rows = s.collector.store.inner.rows)
    (acquired : s.acquired <+: s'.acquired)
    (latest : s'.flushed = true → n = s'.acquired.length) :
    Visible policy horizon (if s'.flushed then s'.acquired.length else n) s' := by
  have same : (if s'.flushed then s'.acquired.length else n) = n := by
    by_cases flushed : s'.flushed = true
    · rw [if_pos flushed, latest flushed]
    · rw [if_neg flushed]
  rw [same]
  obtain ⟨rest, more⟩ := acquired
  refine ⟨accounted, unstored, ?_, ?_, ?_, latest⟩
  · intro discard
    obtain ⟨ids, writes⟩ := visible.discarding discard
    exact ⟨reliable _ ids, reliable _ writes⟩
  · rw [← more, List.length_append]
    exact visible.le.trans (Nat.le_add_right _ _)
  · rw [MemoryStore.pairs, rows, ← more, List.take_append_of_le_length visible.le]
    exact visible.rows

/-- After a flush that succeeded nothing is pending, so that everything is visible. -/
theorem catches_up (visible : Visible policy horizon n s)
    (accounted : s'.Accounted policy horizon [])
    (unstored : Unstored s'.flight? s'.timed)
    (reliable : ∀ point, s.collector.store.Reliable point → s'.collector.store.Reliable point)
    (flushed : s'.flushed = true) (empty : s'.collector.totals = .empty) :
    Visible policy horizon (if s'.flushed then s'.acquired.length else n) s' := by
  rw [if_pos flushed]
  refine ⟨accounted, unstored, ?_, le_rfl, ?_, fun _ => rfl⟩
  · intro discard
    obtain ⟨ids, writes⟩ := visible.discarding discard
    exact ⟨reliable _ ids, reliable _ writes⟩
  · have idle : s'.flight? = none ∧ s'.entering = [] := by
      unfold Callers.flushed at flushed
      split at flushed
      · rename_i held
        simp [flight?, entering, held]
      · cases flushed
    have balance := accounted.balance
    rw [idle.1, idle.2] at balance
    have pending : s'.timed.pending none = [] := congrArg Totals.entries empty
    rw [pending, List.append_nil, tally_nil, add_zero, add_zero] at balance
    rw [List.take_length]
    exact balance.symm

omit [AddCommMonoid V] in
theorem store_merge [Add V] (call : Call V) (s : Callers V) :
    (s.merge call).collector.store = s.collector.store := by
  cases call <;> rfl

theorem merged_unstored (visible : Visible policy horizon n s) (call : Call V) :
    Unstored none (s.merge call).timed := by
  refine ⟨?_, fun _ => nofun⟩
  have store : (s.merge call).timed.collector.store = s.collector.store := store_merge call s
  rw [store]
  exact visible.unstored.acknowledged

theorem requeue_of_failed (visible : Visible policy horizon n s) {t t' : Timed (FallibleMemory V) V}
    {p : Progress V} {e : Failure} (moved : Moved t t' p)
    (store : t.collector.store = s.collector.store) (failed : p = .finished (.error e)) :
    policy.retry.onExhausted = .requeue := by
  cases discard : policy.retry.onExhausted with
  | requeue => rfl
  | discard =>
    obtain ⟨ids, writes⟩ := visible.discarding discard
    have faulty := moved.failed e failed
    rw [store] at faulty
    exact absurd ⟨ids, writes, visible.unstored.acknowledged⟩ faulty

/-- Only a flush under `requeue` fails, and it has stored nothing. -/
theorem kept (visible : Visible policy horizon n s) (step : s.StepCase s')
    (inTime : s.clock.now ≤ horizon) (call : Call V) (e : Failure)
    (ended : s'.holder = some (call, .leaving (.error e))) :
    s.holder = s'.holder ∨ policy.retry.onExhausted = .requeue ∧
      ∀ f, s.flight? = some f → f.isStored s'.collector.store = false := by
  cases step with
  | quiet quiet => exact .inl quiet.holder.symm
  | got => cases ended
  | decided => cases ended
  | @began call' t held =>
    have failed := ((holder_land_failed_iff _ _ _).mp ended).2
    have moved := (visible.accounted.merge held).begin_moved t inTime
    refine .inr ⟨visible.requeue_of_failed moved (store_merge call' s) failed, ?_⟩
    intro f flying
    simp [flight?, held] at flying
  | @tried call' f trying =>
    have failed := ((holder_land_failed_iff _ _ _).mp ended).2
    have balanced := visible.accounted.flying trying
    have flying := trying.flight?_eq
    have unstored := visible.unstored
    rw [flying] at unstored
    refine .inr ⟨visible.requeue_of_failed (balanced.attempt_moved inTime) rfl failed, ?_⟩
    intro f' flying'
    obtain rfl : f = f' := Option.some.inj (flying.symm.trans flying')
    obtain ⟨-, ⟨-, still⟩ | ⟨n, finished⟩⟩ := balanced.attempt_unstored unstored inTime
    · exact still
    · cases finished.symm.trans failed
  | left => cases ended

theorem step (visible : Visible policy horizon n s) (step : s.StepCase s')
    (inTime : s.clock.now ≤ horizon) :
    Visible policy horizon (if s'.flushed then s'.acquired.length else n) s' := by
  have accounted := visible.accounted.step step inTime (visible.kept step inTime)
  cases step with
  | quiet quiet =>
    refine visible.stays accounted ?_ quiet.store.reliable quiet.store.rows
      (by rw [quiet.acquired]) fun flushed => ?_
    · refine ⟨quiet.store.reliable _ visible.unstored.acknowledged, ?_⟩
      intro f flying
      rw [quiet.flight?_eq] at flying
      exact (Flight.isStored_congr quiet.store.rows).trans (visible.unstored.unstored f flying)
    · rw [quiet.acquired]
      apply visible.latest
      rwa [Callers.flushed, quiet.holder] at flushed
  | got =>
    exact visible.stays accounted ⟨visible.unstored.acknowledged, fun _ => nofun⟩ (fun _ h => h) rfl
      (List.prefix_append _ _) nofun
  | @decided call held =>
    have store := store_merge call s
    exact visible.stays accounted (visible.merged_unstored call)
      (fun point h => by
        change (s.merge call).collector.store.Reliable point
        rwa [store])
      (congrArg (·.inner.rows) store) (List.prefix_refl _) nofun
  | @began call t held =>
    have merged := visible.accounted.merge held
    have moved := merged.begin_moved t inTime
    obtain ⟨unstored, rows⟩ := merged.begin_unstored (visible.merged_unstored call) t inTime
    rw [← flight?_land call] at unstored
    have store : (s.merge call).timed.collector.store = s.collector.store := store_merge call s
    rw [store] at rows
    have reliable := fun point h => moved.reliable point (store ▸ h)
    by_cases flushed : ((s.merge call).land call
        ((s.merge call).collector.beginFlush (s.merge call).clock t)).flushed = true
    · obtain ⟨n, finished⟩ := flushed_land.mp flushed
      exact visible.catches_up accounted unstored reliable flushed (moved.emptied n finished)
    · exact visible.stays accounted unstored reliable rows (List.prefix_refl _)
        fun flushed' => absurd flushed' flushed
  | @tried call f trying =>
    have balanced := visible.accounted.flying trying
    have moved := balanced.attempt_moved inTime
    have unstored := visible.unstored
    rw [trying.flight?_eq] at unstored
    obtain ⟨unstored, rows⟩ := balanced.attempt_unstored unstored inTime
    rw [← flight?_land call] at unstored
    by_cases flushed : (s.land call (s.collector.attempt s.clock f)).flushed = true
    · obtain ⟨n, finished⟩ := flushed_land.mp flushed
      exact visible.catches_up accounted unstored moved.reliable flushed (moved.emptied n finished)
    · rcases rows with ⟨rows, -⟩ | finished
      · exact visible.stays accounted unstored moved.reliable rows (List.prefix_refl _)
          fun flushed' => absurd flushed' flushed
      · exact absurd (flushed_land.mpr finished) flushed
  | left =>
    exact visible.stays accounted ⟨visible.unstored.acknowledged, fun _ => nofun⟩ (fun _ h => h) rfl
      (List.prefix_refl _) nofun

end Visible

/-- After some of the moves, the next one is a step, unless there is none. -/
theorem stepCase_take (s : Callers V) (moves : List (Move V)) (i : Nat) :
    (s.run (moves.take i)).StepCase (s.run (moves.take (i + 1))) := by
  rw [List.take_add_one, run_append]
  cases moves[i]? with
  | none => exact .quiet (.refl _)
  | some m => exact step_cases _ m

theorem before_run_take (s : Callers V) (moves : List (Move V)) (i : Nat) :
    (s.run (moves.take i)).timed.Before (s.run moves).timed := by
  have rest := (s.run (moves.take i)).before_run (moves.drop i)
  rwa [← run_append, List.take_append_drop] at rest

theorem visible_run {policy : BufferPolicy} {horizon : Instant} {s : Callers V}
    (visible : Visible policy horizon 0 s) (moves : List (Move V))
    (late : (s.run moves).clock.now ≤ horizon) (i : Nat) :
    Visible policy horizon (latest (fun i => s.run (moves.take i)) i) (s.run (moves.take i)) := by
  induction i with
  | zero => exact visible
  | succ i ih =>
    have inTime := (before_run_take s moves i).now.trans late
    exact ih.step (stepCase_take s moves i) inTime

theorem StepCase.acquired_extends {s s' : Callers V} (step : s.StepCase s') :
    s.acquired <+: s'.acquired := by
  cases step with
  | quiet quiet => rw [quiet.acquired]
  | got => exact List.prefix_append _ _
  | decided => exact List.prefix_refl _
  | began => exact List.prefix_refl _
  | tried => exact List.prefix_refl _
  | left => exact List.prefix_refl _

/-- Whatever callers do and whenever queries scan: what is stored are the first writes that got the
lock. Their number never falls, it is that of all writes after a flush that succeeded, and a query
answers as if it saw the events of these writes as they came. -/
theorem exists_first_writes_visible (policy : BufferPolicy) (clock : Clock) (source : Nat → RowId)
    (plan : FaultPoint → FaultPlan) (moves : List (Move V)) (injective : Function.Injective source)
    (spares : clock.Spares policy.lifetime ((fresh policy clock source plan).run moves).clock.now)
    (acknowledged : ∀ outcome ∈ plan .acknowledge, outcome = none)
    (discarding : policy.retry.onExhausted = .discard →
      (∀ outcome ∈ plan .newId, outcome = none) ∧ ∀ outcome ∈ plan .write, outcome = none) :
    ∃ n : Nat → Nat, Monotone n ∧ ∀ i,
      let s := (fresh policy clock source plan).run (moves.take i)
      let first := (s.acquired.take (n i)).flatMap Entry.pairs
      n i ≤ s.acquired.length ∧
      (∀ k, total k s.collector.store.inner.pairs = total k first ∧
        (k ∈ s.collector.store.inner.pairs.map Prod.fst ↔ k ∈ first.map Prod.fst)) ∧
      (s.flushed = true → n i = s.acquired.length) ∧
      ∀ filter answer, (query s.clock.today filter s.collector.store).1 = .ok answer →
        ∃ expected, (query s.clock.today filter (MemoryStore.holding s.clock.today first)).1 =
          .ok expected ∧ answer.Perm expected := by
  set start : Callers V := fresh policy clock source plan
  have visible : Visible policy (start.run moves).clock.now 0 start :=
    ⟨accounted_fresh injective spares, ⟨acknowledged, fun _ => nofun⟩, discarding, le_rfl, rfl,
      nofun⟩
  have now := visible_run visible moves le_rfl
  refine ⟨latest fun i => start.run (moves.take i), monotone_nat_of_le_succ ?_, ?_⟩
  · intro i
    rw [latest]
    split
    · exact (now i).le.trans (stepCase_take start moves i).acquired_extends.length_le
    · exact le_rfl
  · intro i s first
    have rows : tally s.collector.store.inner.pairs = tally first := (now i).rows
    refine ⟨(now i).le, ?_, (now i).latest, ?_⟩
    · intro k
      exact ⟨total_eq_of_tally_eq rows k, mem_keys_iff_of_tally_eq rows k⟩
    · intro filter answer asked
      obtain ⟨p, valid, rfl⟩ := query_fallible asked
      refine ⟨_, by rw [query, valid]; rfl, filter.events_perm p ?_ ?_ ?_⟩
      · intro r hr
        have lives := (now i).accounted.sound.outlives r hr
        exact lives.isLive (before_run_take start moves i).now
      · intro r hr
        exact MemoryStore.isLive_of_mem_holding hr
      · rw [MemoryStore.pairs_holding, rows]

/-- Two writes of which the second got the lock first; the flush that the other one starts finds the
store down, waits, and is asked about meanwhile. -/
def twoWrites : List (Move Nat) :=
  [.call (.write ⟨"o", "t", [⟨"a", 3, "u"⟩]⟩), .call (.write ⟨"o", "t", [⟨"b", 4, "u"⟩]⟩),
    .acquire 1, .proceed, .proceed, .acquire 0, .proceed, .proceed, .pass (.ofMillis 100),
    .query {}, .proceed, .proceed]

/-- Two keys are more than the buffer is to hold, and a failed attempt is made again. -/
def twoWritesPolicy : BufferPolicy :=
  ⟨1, .ofSeconds 60, .ofSeconds 3600, ⟨2, .ofMillis 100, .requeue⟩⟩

def downOnce (point : FaultPoint) : FaultPlan :=
  if point = .write then [some (.storeUnavailable "down")] else []

theorem exists_first_writes_visible_twoWrites :
    let start : Callers Nat := fresh twoWritesPolicy ⟨⟨0⟩, fun _ => 0⟩ id downOnce
    ∃ n : Nat → Nat, Monotone n ∧ n 11 = 2 ∧ ∀ k,
      total k (start.run (twoWrites.take 10)).collector.store.inner.pairs =
        total k (((start.run (twoWrites.take 10)).acquired.take (n 10)).flatMap Entry.pairs) := by
  obtain ⟨n, grows, visible⟩ := exists_first_writes_visible twoWritesPolicy ⟨⟨0⟩, fun _ => 0⟩ id
    downOnce twoWrites Function.injective_id (Clock.spares_of_constant (by decide) _) (by decide)
    nofun
  have all : n 11 = _ := (visible 11).2.2.1 (by decide +kernel)
  refine ⟨n, grows, all.trans ?_, fun k => ((visible 10).2.1 k).1⟩
  decide +kernel

end Callers

end TraceTally
