import Mathlib.Tactic.Abel
import TraceTally.Collector.Ingest
import TraceTally.Collector.Ticker
import TraceTally.Proofs.Flight

/-!
# Where merged values are

A run of operations on the collector leaves a history: the pairs that were merged, and what became
of each flush. Only two kinds of flush disturb the balance of what was merged against what is
buffered and stored. One that failed under `discard` and stored nothing loses what it took; one that
failed under `requeue` although an attempt stored its batch leaves what it took in two places.
-/

namespace TraceTally

variable {σ V : Type}

/-- What became of a flush: what it took, its answer, and whether an attempt stored its batch. -/
structure FlushReport (V : Type) where
  taken : Totals V
  answer : Except Failure Nat
  stored : Bool

namespace FlushReport

def failed (r : FlushReport V) : Bool :=
  match r.answer with
  | .ok _ => false
  | .error _ => true

/-- The flush failed, and yet its batch is stored. -/
def Unacknowledged (r : FlushReport V) : Prop := r.failed = true ∧ r.stored = true

instance (r : FlushReport V) : Decidable r.Unacknowledged :=
  inferInstanceAs (Decidable (_ ∧ _))

def lost (policy : OnExhausted) (r : FlushReport V) : List (Key × V) :=
  if policy = .discard ∧ r.failed = true ∧ r.stored = false then r.taken.entries else []

def doubled (policy : OnExhausted) (r : FlushReport V) : List (Key × V) :=
  if policy = .requeue ∧ r.failed = true ∧ r.stored = true then r.taken.entries else []

end FlushReport

/-- What a run merged, and its flushes, in order. -/
structure History (V : Type) where
  merged : List (Key × V)
  flushes : List (FlushReport V)

namespace History

instance : EmptyCollection (History V) := ⟨⟨[], []⟩⟩

instance : Append (History V) := ⟨fun h h' => ⟨h.merged ++ h'.merged, h.flushes ++ h'.flushes⟩⟩

@[simp] theorem merged_append (h h' : History V) : (h ++ h').merged = h.merged ++ h'.merged := rfl

@[simp] theorem flushes_append (h h' : History V) : (h ++ h').flushes = h.flushes ++ h'.flushes :=
  rfl

theorem append_assoc (h h' h'' : History V) : h ++ h' ++ h'' = h ++ (h' ++ h'') := by
  change History.mk _ _ = History.mk _ _
  simp

@[simp] theorem empty_append (h : History V) : ∅ ++ h = h := rfl

@[simp] theorem append_empty (h : History V) : h ++ ∅ = h :=
  congrArg₂ History.mk (List.append_nil _) (List.append_nil _)

/-- What failed flushes threw away. -/
def lost (policy : OnExhausted) (h : History V) : List (Key × V) :=
  h.flushes.flatMap (·.lost policy)

/-- What failed flushes put back although it was stored. -/
def doubled (policy : OnExhausted) (h : History V) : List (Key × V) :=
  h.flushes.flatMap (·.doubled policy)

@[simp] theorem lost_append (policy : OnExhausted) (h h' : History V) :
    (h ++ h').lost policy = h.lost policy ++ h'.lost policy := by
  simp [lost]

@[simp] theorem doubled_append (policy : OnExhausted) (h h' : History V) :
    (h ++ h').doubled policy = h.doubled policy ++ h'.doubled policy := by
  simp [doubled]

theorem lost_requeue (h : History V) : h.lost .requeue = [] := by
  simp [lost, FlushReport.lost]

theorem doubled_eq_nil {policy : OnExhausted} {h : History V}
    (acknowledged : ∀ r ∈ h.flushes, r.Unacknowledged → policy = .discard) :
    h.doubled policy = [] := by
  refine List.flatMap_eq_nil_iff.mpr fun r hr => if_neg ?_
  rintro ⟨requeue, failed, stored⟩
  have discard := acknowledged r hr ⟨failed, stored⟩
  rw [requeue] at discard
  cases discard

end History

inductive Operation (V : Type) where
  | write (e : Entry V)
  | insert (entries : List (Entry V))
  | flush (trigger : Trigger)
  | flushIfDue
  /-- A tick of the background ticker that finds the lock free. -/
  | tick
  | pass (d : Duration)

namespace Timed

variable [EventStore σ V] [Add V]

/-- The ticker begins a flush if one is due, and carries it to its end. -/
def tick (s : Timed σ V) : Timed σ V :=
  (({ timed := s } : Runtime σ V).beginTimed s.clock.now).finishTimed.timed

theorem tick_eq (s : Timed σ V) : s.tick = s.flushIfDue.2 := by
  have reached : ∀ (timed : Timed σ V) (t : Instant) (k : Option (Ticker V)), timed.clock.now ≤ t →
      (({ timed, ticker := k } : Runtime σ V).reach t).timed =
        { timed with clock := { timed.clock with now := t } } := by
    intro timed t k le
    have later : max timed.clock.now t = t := congrArg Duration.mk (Nat.max_eq_right le)
    simp only [Runtime.reach, Runtime.now, later]
  simp only [tick, flushIfDue, flush, Runtime.beginTimed, Runtime.collector, Runtime.now]
  by_cases due : s.collector.isDue s.clock.now
  · simp only [due, if_true]
    cases s.collector.beginFlush s.clock .ticker with
    | mk p c =>
      cases p with
      | finished r => rfl
      | ready f =>
        simp only [Runtime.land, Runtime.finishTimed, Runtime.setCollector, resume]
        rw [reached _ _ _ le_rfl]
      | waiting d f =>
        simp only [Runtime.land, Runtime.finishTimed, Runtime.setCollector, resume]
        rw [reached _ _ _ (Duration.le_add _ _)]
        rfl
  · simp only [due, Bool.false_eq_true, if_false]
    rfl

end Timed

namespace Operation

variable [EventStore σ V] [Add V]

def run (s : Timed σ V) : Operation V → Timed σ V
  | write e => (s.write e).2
  | insert entries => (s.insert entries).2
  | flush trigger => (s.flush trigger).2
  | flushIfDue => s.flushIfDue.2
  | tick => s.tick
  | pass d => s.pass d

end Operation

def run [EventStore σ V] [Add V] (s : Timed σ V) (ops : List (Operation V)) : Timed σ V :=
  ops.foldl Operation.run s

section History

variable [Add V]

namespace Timed

/-- What becomes of a flush that is made now. -/
def report (trigger : Trigger) (s : Timed (FallibleMemory V) V) : FlushReport V :=
  let (answer, s') := s.flush trigger
  let attempts := s'.collector.store.journal.drop s.collector.store.journal.length
  ⟨s.collector.totals, answer, attempts.any Submission.stored⟩

def writeHistory (e : Entry V) (s : Timed (FallibleMemory V) V) : History V :=
  let s := { s with collector := s.collector.mergeEntry e }
  match s.collector.trigger? s.clock.now with
  | none => ⟨e.pairs, []⟩
  | some t => ⟨e.pairs, [s.report t]⟩

def insertHistory : List (Entry V) → Timed (FallibleMemory V) V → History V
  | [], _ => ∅
  | e :: rest, s =>
    match s.write e with
    | (.error _, _) => s.writeHistory e
    | (.ok (), s') => s.writeHistory e ++ insertHistory rest s'

def flushIfDueHistory (s : Timed (FallibleMemory V) V) : History V :=
  if s.collector.isDue s.clock.now then ⟨[], [s.report .ticker]⟩ else ∅

end Timed

/-- What an operation merges, and the flushes it makes. -/
def Operation.history (s : Timed (FallibleMemory V) V) : Operation V → History V
  | .write e => s.writeHistory e
  | .insert entries => s.insertHistory entries
  | .flush trigger => ⟨[], [s.report trigger]⟩
  | .flushIfDue | .tick => s.flushIfDueHistory
  | .pass _ => ∅

def history (s : Timed (FallibleMemory V) V) : List (Operation V) → History V
  | [] => ∅
  | op :: ops => op.history s ++ history (op.run s) ops

end History

namespace Timed

variable [EventStore σ V] [Add V]

theorem before_write (e : Entry V) (s : Timed σ V) : s.Before (s.write e).2 := by
  have merged : s.Before { s with collector := s.collector.mergeEntry e } := ⟨rfl, le_rfl⟩
  simp only [write]
  split
  · exact merged
  · exact merged.trans (before_flush _ _)

theorem before_untilFailure (entries : List (Entry V)) (s : Timed σ V) :
    s.Before (untilFailure write entries s).2 := by
  induction entries generalizing s with
  | nil => exact .refl s
  | cons e rest ih =>
    have first := before_write e s
    simp only [untilFailure]
    cases h : s.write e with
    | mk r s₁ =>
      rw [h] at first
      cases r with
      | error f => exact first
      | ok => exact first.trans (ih s₁)

theorem before_insert (entries : List (Entry V)) (s : Timed σ V) : s.Before (s.insert entries).2 :=
  (before_untilFailure entries s).trans ⟨rfl, le_rfl⟩

theorem before_flushIfDue (s : Timed σ V) : s.Before s.flushIfDue.2 := by
  unfold flushIfDue
  split
  · exact before_flush _ s
  · exact .refl s

end Timed

theorem Operation.before_run [EventStore σ V] [Add V] (s : Timed σ V) (op : Operation V) :
    s.Before (op.run s) := by
  cases op with
  | write e => exact s.before_write e
  | insert entries => exact s.before_insert entries
  | flush trigger => exact s.before_flush trigger
  | flushIfDue => exact s.before_flushIfDue
  | tick => rw [Operation.run, Timed.tick_eq]; exact s.before_flushIfDue
  | pass d => exact s.before_pass d

theorem before_run [EventStore σ V] [Add V] (s : Timed σ V) (ops : List (Operation V)) :
    s.Before (run s ops) := by
  induction ops generalizing s with
  | nil => exact .refl s
  | cons op ops ih => exact (op.before_run s).trans (ih _)

/-- The totals are sums of merged pairs. -/
def History.Explains [AddCommMonoid V] (h : History V) (t : Totals V) : Prop :=
  ∃ parts : List (Key × V), parts.Sublist h.merged ∧ tally t.entries = tally parts

namespace History.Explains

variable [AddCommMonoid V] {h h' : History V} {t : Totals V}

theorem empty : h.Explains (.empty : Totals V) := ⟨[], List.nil_sublist _, rfl⟩

theorem append (explains : h.Explains t) : (h ++ h').Explains t := by
  obtain ⟨parts, sublist, sums⟩ := explains
  exact ⟨parts, sublist.trans (List.sublist_append_left _ _), sums⟩

theorem mergeEntry (explains : h.Explains t) (e : Entry V) :
    (h ++ ⟨e.pairs, []⟩).Explains (t.mergeEntry e) := by
  obtain ⟨parts, sublist, sums⟩ := explains
  refine ⟨parts ++ e.pairs, sublist.append (List.Sublist.refl _), ?_⟩
  rw [Totals.mergeEntry_eq, Totals.tally_mergeAll, sums, tally_append]

end History.Explains

/-- What was merged, and what is in two places, is buffered, stored or lost; and no flush took
anything that was not merged. -/
structure Accounts [AddCommMonoid V] (policy : BufferPolicy) (horizon : Instant) (h : History V)
    (s : Timed (FallibleMemory V) V) : Prop where
  policy_eq : s.collector.policy = policy
  sound : s.collector.store.Sound s.clock.wall horizon
  spares : s.clock.Spares policy.lifetime horizon
  balance : tally h.merged + tally (h.doubled policy.retry.onExhausted) =
    tally s.collector.totals.entries + tally s.collector.store.inner.pairs +
      tally (h.lost policy.retry.onExhausted)
  buffered : h.Explains s.collector.totals
  taken : ∀ r ∈ h.flushes, h.Explains r.taken
  nonempty : ∀ r ∈ h.flushes, r.stored = true → r.taken.entries ≠ []

namespace Accounts

variable [AddCommMonoid V] {policy : BufferPolicy} {horizon : Instant} {h : History V}
  {s : Timed (FallibleMemory V) V}

theorem merge (accounts : Accounts policy horizon h s) (e : Entry V) :
    Accounts policy horizon (h ++ ⟨e.pairs, []⟩)
      { s with collector := s.collector.mergeEntry e } where
  policy_eq := accounts.policy_eq
  sound := accounts.sound
  spares := accounts.spares
  balance := by
    have merged : tally (s.collector.totals.mergeEntry e).entries =
        tally s.collector.totals.entries + tally e.pairs := Totals.tally_mergeAll _ _
    have balance := accounts.balance
    simp only [Collector.mergeEntry, Collector.setTotals, Collector.count, merged,
      History.merged_append, History.doubled_append, History.lost_append, tally_append]
    simp only [History.doubled, History.lost, List.flatMap_nil, tally_nil, add_zero]
      at balance ⊢
    rw [add_right_comm, balance]
    abel
  buffered := accounts.buffered.mergeEntry e
  taken r hr := by
    rw [History.flushes_append, List.append_nil] at hr
    exact (accounts.taken r hr).append
  nonempty r hr := by
    rw [History.flushes_append, List.append_nil] at hr
    exact accounts.nonempty r hr

omit [AddCommMonoid V] in
theorem stored_report [Add V] {trigger : Trigger} {batch : List (Record V)} {landed : List Bool}
    (flushed : Timed.Flushed horizon s (s.flush trigger).2 (s.flush trigger).1 batch landed) :
    (s.report trigger).stored = landed.any id := by
  simp only [Timed.report, flushed.journal, List.drop_left, List.any_map]
  rfl

/-- A flush shares out what it took: it is kept, stored or lost, or both kept and stored. -/
theorem flush_shares {trigger : Trigger} {batch : List (Record V)} {landed : List Bool}
    (flushed : Timed.Flushed horizon s (s.flush trigger).2 (s.flush trigger).1 batch landed) :
    let s' := (s.flush trigger).2
    let policy := s.collector.policy.retry.onExhausted
    tally s'.collector.totals.entries + tally s'.collector.store.inner.pairs +
        tally ((s.report trigger).lost policy) =
      tally s.collector.totals.entries + tally s.collector.store.inner.pairs +
        tally ((s.report trigger).doubled policy) := by
  have stored := stored_report flushed
  have taken : (s.report trigger).taken = s.collector.totals := rfl
  have rows : tally (s.flush trigger).2.collector.store.inner.pairs =
      tally s.collector.store.inner.pairs +
        if landed.any id then tally s.collector.totals.entries else 0 := by
    simp only [MemoryStore.pairs, flushed.rows, List.map_append, tally_append]
    by_cases written : landed.any id = true
    · have attempts : landed ≠ [] := by rintro rfl; cases written
      simp only [written, if_true, flushed.contents attempts]
    · simp [written]
  rcases flushed.ending with ⟨answer, written, totals, -⟩ | ⟨e, answer, totals, -⟩
  · have failed : (s.report trigger).failed = false := by
      simp [FlushReport.failed, Timed.report, answer]
    have moved : (if landed.any id then tally s.collector.totals.entries else 0) =
        tally s.collector.totals.entries := by
      rcases written with written | nothing
      · rw [if_pos written]
      · simp [nothing]
    simp only [rows, totals, moved, FlushReport.lost, FlushReport.doubled, failed, Totals.empty,
      Bool.false_eq_true, false_and, and_false, if_false, tally_nil, add_zero, zero_add]
    exact add_comm _ _
  · have failed : (s.report trigger).failed = true := by
      simp [FlushReport.failed, Timed.report, answer]
    simp only [rows, totals, FlushReport.lost, FlushReport.doubled, failed, stored, taken, true_and]
    cases s.collector.policy.retry.onExhausted <;> cases landed.any id <;>
      simp only [OnExhausted.keeps, Totals.empty, reduceCtorEq, Bool.false_eq_true, false_and,
        and_false, and_self, if_true, if_false, tally_nil, add_zero, zero_add] <;>
      abel

theorem flush_balance (accounts : Accounts policy horizon h s) {trigger : Trigger}
    {batch : List (Record V)} {landed : List Bool}
    (flushed : Timed.Flushed horizon s (s.flush trigger).2 (s.flush trigger).1 batch landed) :
    let h' := h ++ ⟨[], [s.report trigger]⟩
    let s' := (s.flush trigger).2
    tally h'.merged + tally (h'.doubled policy.retry.onExhausted) =
      tally s'.collector.totals.entries + tally s'.collector.store.inner.pairs +
        tally (h'.lost policy.retry.onExhausted) := by
  intro h' s'
  have shares := flush_shares flushed
  have balance := accounts.balance
  rw [accounts.policy_eq] at shares
  generalize policy.retry.onExhausted = policy at shares balance ⊢
  have doubled : h'.doubled policy =
      h.doubled policy ++ (s.report trigger).doubled policy := by
    simp [h', History.doubled]
  have lost : h'.lost policy =
      h.lost policy ++ (s.report trigger).lost policy := by
    simp [h', History.lost]
  calc
    _ = tally h.merged + tally (h.doubled policy) + tally ((s.report trigger).doubled policy) := by
      rw [doubled, tally_append, History.merged_append, List.append_nil, add_assoc]
    _ = tally s.collector.totals.entries + tally s.collector.store.inner.pairs +
        tally ((s.report trigger).doubled policy) + tally (h.lost policy) := by
      rw [balance, add_right_comm]
    _ = _ := by
      rw [← shares, lost, tally_append]
      abel

theorem flush (accounts : Accounts policy horizon h s) {trigger : Trigger}
    (late : (s.flush trigger).2.clock.now ≤ horizon) :
    Accounts policy horizon (h ++ ⟨[], [s.report trigger]⟩) (s.flush trigger).2 := by
  have wall := (s.before_flush trigger).wall
  obtain ⟨batch, landed, flushed⟩ := Timed.flush_outcome late accounts.sound
    (by rw [accounts.policy_eq]; exact accounts.spares)
  refine ⟨flushed.policy.trans accounts.policy_eq, ?_, ?_, accounts.flush_balance flushed, ?_, ?_,
    ?_⟩
  · rw [wall]
    exact flushed.sound
  · intro t t'
    rw [wall]
    exact accounts.spares t t'
  · rcases flushed.ending with ⟨-, -, totals, -⟩ | ⟨e, -, totals, -⟩
    · rw [totals]
      exact .empty
    · rw [totals]
      cases s.collector.policy.retry.onExhausted with
      | discard => exact .empty
      | requeue => exact accounts.buffered.append
  · intro r hr
    rcases List.mem_append.mp hr with hr | hr
    · exact (accounts.taken r hr).append
    · rw [List.mem_singleton.mp hr]
      exact accounts.buffered.append
  · intro r hr stored
    rcases List.mem_append.mp hr with hr | hr
    · exact accounts.nonempty r hr stored
    · rw [List.mem_singleton.mp hr] at stored ⊢
      rw [stored_report flushed] at stored
      exact flushed.nonempty (by rintro rfl; cases stored)

theorem fresh {clock : Clock} {source : Nat → RowId}
    {plan : FaultPoint → FaultPlan} (injective : Function.Injective source)
    (spares : clock.Spares policy.lifetime horizon) :
    Accounts policy horizon ∅ (Timed.fresh policy clock source plan : Timed (FallibleMemory V) V) :=
  ⟨rfl, Timed.sound_fresh injective horizon, spares, rfl, .empty,
    fun _ hr => absurd hr List.not_mem_nil, fun _ hr => absurd hr List.not_mem_nil⟩

theorem write (accounts : Accounts policy horizon h s) {e : Entry V}
    (late : (s.write e).2.clock.now ≤ horizon) :
    Accounts policy horizon (h ++ s.writeHistory e) (s.write e).2 := by
  have merged := accounts.merge e
  simp only [Timed.write, Timed.writeHistory] at late ⊢
  cases trigger : Collector.trigger? s.clock.now (s.collector.mergeEntry e) with
  | none => exact merged
  | some t =>
    rw [trigger] at late
    have flushed := merged.flush late
    rw [History.append_assoc] at flushed
    have joined : (⟨e.pairs, []⟩ : History V) ++ ⟨[], [_]⟩ =
        ⟨e.pairs, [Timed.report t { s with collector := s.collector.mergeEntry e }]⟩ :=
      congrArg (History.mk · _) (List.append_nil _)
    rwa [joined] at flushed

theorem insert (accounts : Accounts policy horizon h s) {entries : List (Entry V)}
    (late : (s.insert entries).2.clock.now ≤ horizon) :
    Accounts policy horizon (h ++ s.insertHistory entries) (s.insert entries).2 := by
  -- the count of requests is all that `insert` adds to its writes
  suffices written : Accounts policy horizon (h ++ s.insertHistory entries)
      (untilFailure Timed.write entries s).2 from
    ⟨written.policy_eq, written.sound, written.spares, written.balance, written.buffered,
      written.taken, written.nonempty⟩
  have late : (untilFailure Timed.write entries s).2.clock.now ≤ horizon := late
  induction entries generalizing h s with
  | nil => simpa [untilFailure, Timed.insertHistory] using accounts
  | cons e rest ih =>
    simp only [untilFailure, Timed.insertHistory] at late ⊢
    have written := @write V _ policy horizon h s accounts e
    cases first : s.write e with
    | mk r s₁ =>
      rw [first] at late written
      cases r with
      | error f => exact written late
      | ok =>
        have inTime : s₁.clock.now ≤ horizon :=
          (Timed.before_untilFailure rest s₁).now.trans late
        rw [← History.append_assoc]
        exact ih (written inTime) late late

theorem flushIfDue (accounts : Accounts policy horizon h s)
    (late : s.flushIfDue.2.clock.now ≤ horizon) :
    Accounts policy horizon (h ++ s.flushIfDueHistory) s.flushIfDue.2 := by
  unfold Timed.flushIfDue at late ⊢
  unfold Timed.flushIfDueHistory
  by_cases due : s.collector.isDue s.clock.now
  · simp only [due, if_true] at late ⊢
    exact accounts.flush late
  · simp only [due, Bool.false_eq_true, if_false] at late ⊢
    rwa [History.append_empty]

theorem step (accounts : Accounts policy horizon h s) {op : Operation V}
    (late : (op.run s).clock.now ≤ horizon) :
    Accounts policy horizon (h ++ op.history s) (op.run s) := by
  cases op with
  | write e => exact accounts.write late
  | insert entries => exact accounts.insert late
  | flush trigger => exact accounts.flush late
  | flushIfDue => exact accounts.flushIfDue late
  | tick =>
    rw [Operation.run, Timed.tick_eq] at late ⊢
    exact accounts.flushIfDue late
  | pass d =>
    rw [Operation.history, History.append_empty]
    exact ⟨accounts.policy_eq, accounts.sound, accounts.spares, accounts.balance, accounts.buffered,
      accounts.taken, accounts.nonempty⟩

theorem run (accounts : Accounts policy horizon h s) {ops : List (Operation V)}
    (late : (run s ops).clock.now ≤ horizon) :
    Accounts policy horizon (h ++ history s ops) (TraceTally.run s ops) := by
  induction ops generalizing h s with
  | nil => rwa [history, History.append_empty]
  | cons op ops ih =>
    have inTime := (before_run (op.run s) ops).now.trans late
    rw [history, ← History.append_assoc]
    exact ih (accounts.step inTime) late

end Accounts

/-- However flushes fell and failed: if none under `requeue` failed after its batch was stored, then
what was merged under a key is buffered, stored, or was thrown away by a failed flush. -/
theorem merged_eq_buffered_add_stored_add_lost [AddCommMonoid V] (policy : BufferPolicy)
    (clock : Clock) (source : Nat → RowId) (plan : FaultPoint → FaultPlan)
    (ops : List (Operation V)) (injective : Function.Injective source)
    (spares : clock.Spares policy.lifetime
      (run (Timed.fresh policy clock source plan) ops).clock.now)
    (acknowledged : ∀ r ∈ (history (Timed.fresh policy clock source plan) ops).flushes,
      r.Unacknowledged → policy.retry.onExhausted = .discard) (k : Key) :
    let s := run (Timed.fresh policy clock source plan) ops
    let h := history (Timed.fresh policy clock source plan) ops
    total k h.merged = (s.collector.totals.get? k).getD 0 +
        total k s.collector.store.inner.pairs + total k (h.lost policy.retry.onExhausted) ∧
      (policy.retry.onExhausted = .requeue →
        total k h.merged =
          (s.collector.totals.get? k).getD 0 + total k s.collector.store.inner.pairs) := by
  intro s h
  have accounts : Accounts policy s.clock.now (∅ ++ h) s :=
    (Accounts.fresh injective spares).run le_rfl
  have balance := accounts.balance
  rw [History.empty_append] at balance
  rw [History.doubled_eq_nil acknowledged, tally_nil, add_zero, ← tally_append, ← tally_append]
    at balance
  have sums := total_eq_of_tally_eq balance k
  rw [total_append, total_append, Totals.total_entries] at sums
  refine ⟨sums, ?_⟩
  intro requeue
  rw [sums, requeue, History.lost_requeue, total_nil, add_zero]

/-- Under `requeue`: the first flush gets no identifier, the second is tried twice. -/
theorem merged_eq_of_second_attempt :
    let policy : BufferPolicy := ⟨9, .ofSeconds 60, .ofSeconds 3600, ⟨2, .ofMillis 100, .requeue⟩⟩
    let clock : Clock := ⟨⟨0⟩, fun _ => 0⟩
    let plan : FaultPoint → FaultPlan := fun point =>
      if point = .newId then [some (.identifierGenerationFailed "none")]
      else if point = .write then [some (.storeUnavailable "down")] else []
    let entry : Entry Nat := ⟨"o", "t", [⟨"a", 3, "u"⟩]⟩
    let ops := [.write entry, .flush .manual, .flush .manual, .write entry]
    let s := run (Timed.fresh policy clock id plan) ops
    let k : Key := ⟨"o", "t", "a", "u"⟩
    total k (history (Timed.fresh policy clock id plan) ops).merged =
      (s.collector.totals.get? k).getD 0 + total k s.collector.store.inner.pairs :=
  (merged_eq_buffered_add_stored_add_lost _ _ _ _ _ Function.injective_id
    (Clock.spares_of_constant (by decide) _)
    (by decide +kernel) _).2 rfl

end TraceTally
