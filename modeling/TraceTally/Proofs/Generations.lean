import TraceTally.Proofs.Conservation

/-!
# Generations of buffered keys

A pair that is merged under a key which the buffer does not hold begins a generation of that key.
Flushing takes the generation out of the buffer, and ends it unless the totals are put back: either
its row is written and counted as written, or it is dropped and counted as dropped. So the counters
that the collector shows account for every generation that has begun, whatever the store does.
-/

namespace TraceTally

variable {σ V : Type}

namespace Metrics

/-- What the exposition shows for a family, summed over its labels. -/
def shown (m : Metrics) (family : String) : Nat :=
  (((m.families.filter (·.name = family)).flatMap Family.samples).map Sample.count).sum

theorem shown_bufferKeys (m : Metrics) : m.shown "spanstat_buffer_keys" = m.bufferKeys := by
  simp [shown, families, Family.single, Family.byStatus]

theorem shown_flushRows (m : Metrics) : m.shown "spanstat_flush_rows_total" = m.flushRows := by
  simp [shown, families, Family.single, Family.byStatus]

theorem shown_flushDiscarded (m : Metrics) :
    m.shown "spanstat_flush_discarded_total" = m.flushDiscarded := by
  simp [shown, families, Family.single, Family.byStatus]

/-- The flushes of all triggers and outcomes. -/
def flushTotal (m : Metrics) : Nat :=
  (Status.all.map fun s => (Trigger.all.map fun t => m.flushes t s).sum).sum

/-- Labels that do not show stand for zero. -/
theorem shown_flushTotal (m : Metrics) : m.shown "spanstat_flush_total" = m.flushTotal := by
  have touched : ∀ (s : Status) (triggers : List Trigger),
      ((triggers.filter fun t => m.flushes t s ≠ 0).map fun t => m.flushes t s).sum =
        (triggers.map fun t => m.flushes t s).sum := by
    intro s triggers
    induction triggers with
    | nil => rfl
    | cons t triggers ih =>
      by_cases zero : m.flushes t s = 0 <;> simp_all
  have family : m.shown "spanstat_flush_total" =
      (Status.all.map fun s =>
        ((Trigger.all.filter fun t => m.flushes t s ≠ 0).map fun t => m.flushes t s).sum).sum := by
    simp [shown, families, Family.single, Family.byStatus, Status.all, Function.comp_def]
  rw [family]
  simp only [touched, flushTotal]

theorem flushTotal_countFlush (m : Metrics) (t : Trigger) (s : Status) :
    (m.countFlush t s).flushTotal = m.flushTotal + 1 := by
  cases t <;> cases s <;> simp [flushTotal, countFlush, Status.all, Trigger.all] <;> omega

end Metrics

namespace Totals

variable [Add V]

/-- How many of the pairs come under a new key when they are merged one after the other. -/
def begun : List (Key × V) → Totals V → Nat
  | [], _ => 0
  | (k, v) :: rest, t => (if k ∈ t.entries.map Prod.fst then 0 else 1) + begun rest (t.merge k v)

theorem size_merge (t : Totals V) (k : Key) (v : V) :
    (t.merge k v).size = t.size + if k ∈ t.entries.map Prod.fst then 0 else 1 := by
  have keys := congrArg List.length (keys_mergePair k v t.entries)
  rw [apply_ite List.length, List.length_append, List.length_map, List.length_map] at keys
  by_cases held : k ∈ t.entries.map Prod.fst
  · rwa [if_pos held] at keys ⊢
  · rwa [if_neg held] at keys ⊢

theorem size_mergeAll (t : Totals V) (pairs : List (Key × V)) :
    (t.mergeAll pairs).size = t.size + begun pairs t := by
  induction pairs generalizing t with
  | nil => rfl
  | cons p rest ih =>
    have first : (t.mergeAll (p :: rest)).size = ((t.merge p.1 p.2).mergeAll rest).size := rfl
    rw [first, ih, size_merge, begun, add_assoc]

end Totals

/-- How many rows a flush says it wrote. -/
def FlushReport.rows (r : FlushReport V) : Nat := r.answer.toOption.getD 0

namespace Collector

/-- The buffer is empty, and shown to be. -/
structure Drained (c : Collector σ V) : Prop where
  totals : c.totals = .empty
  shown : c.metrics.bufferKeys = 0

/-- What the end of a flush leaves, from the counters before it: each key that it took is written,
dropped or back in the buffer. -/
structure Settles (taken : Totals V) (answer : Except Failure Nat) (before : Metrics)
    (c : Collector σ V) : Prop where
  shown : c.metrics.bufferKeys = c.totals.size
  rows : c.metrics.flushRows = before.flushRows + answer.toOption.getD 0
  shares : answer.toOption.getD 0 + c.metrics.flushDiscarded + c.totals.size =
    before.flushDiscarded + taken.size
  flushes : c.metrics.flushTotal = before.flushTotal + if taken.isEmpty then 0 else 1

theorem Settles.of_setTotals {taken t : Totals V} {answer : Except Failure Nat}
    {c c' : Collector σ V} (settles : Settles taken answer (c.setTotals t).metrics c') :
    Settles taken answer c.metrics c' :=
  ⟨settles.shown, settles.rows, settles.shares, settles.flushes⟩

section Conclude

variable [Add V]

theorem settles_conclude_ok {c : Collector σ V} {before : Metrics} (now : Instant)
    (trigger : Trigger) {taken : Totals V} (drained : c.Drained) (nonempty : taken.isEmpty = false)
    (written : c.metrics = { before with flushRows := before.flushRows + taken.size }) :
    Settles taken (c.conclude now trigger taken (.ok ())).1 before
      (c.conclude now trigger taken (.ok ())).2 where
  shown := by rw [conclude, count, drained.totals]; exact drained.shown
  rows := by simp [conclude, count, Metrics.countFlush, written, Except.toOption]
  shares := by
    simp [conclude, count, Metrics.countFlush, written, drained.totals, Totals.size, Totals.empty,
      Except.toOption, Nat.add_comm]
  flushes := by
    simp only [conclude, count, Metrics.flushTotal_countFlush, written, nonempty]
    rfl

theorem settles_conclude_error {c : Collector σ V} (now : Instant) (trigger : Trigger)
    {taken : Totals V} (e : Failure) (drained : c.Drained) (nonempty : taken.isEmpty = false) :
    Settles taken (c.conclude now trigger taken (.error e)).1 c.metrics
      (c.conclude now trigger taken (.error e)).2 := by
  have counted := c.metrics.flushTotal_countFlush trigger .error
  cases policy : c.policy.retry.onExhausted with
  | discard =>
    simp only [conclude, count, policy]
    refine ⟨?_, rfl, ?_, ?_⟩
    · rw [drained.totals]; exact drained.shown
    · simp [Metrics.countFlush, drained.totals, Totals.size, Totals.empty, Except.toOption]
    · rw [nonempty]; exact counted
  | requeue =>
    simp only [conclude, count, setTotals, policy, drained.totals, Totals.absorb_empty]
    refine ⟨rfl, rfl, ?_, ?_⟩
    · simp [Metrics.countFlush, Except.toOption]
    · rw [nonempty]; exact counted

end Conclude

variable [EventStore σ V]

theorem length_buildBatch {today : Int} {lifetime : Duration} {pairs : List (Key × V)} {s s' : σ}
    {records : List (Record V)}
    (built : buildBatch today lifetime pairs s = (.ok records, s')) :
    records.length = pairs.length := by
  induction pairs generalizing s s' records with
  | nil =>
    simp only [buildBatch, Prod.mk.injEq, Except.ok.injEq] at built
    rw [← built.1]
    rfl
  | cons p rest ih =>
    simp only [buildBatch] at built
    split at built
    · cases built
    · split at built
      · cases built
      · rename_i batch
        simp only [Prod.mk.injEq, Except.ok.injEq] at built
        rw [← built.1, List.length_cons, List.length_cons, ih batch]

variable [Add V]

/-- A failed attempt that is to be repeated leaves the counters as they were. -/
theorem attempt_settles (clock : Clock) {f : Flight V} {c : Collector σ V} (drained : c.Drained)
    (nonempty : f.taken.isEmpty = false) (complete : f.records.length = f.taken.size) :
    (∃ answer, (c.attempt clock f).1 = .finished answer ∧
      Settles f.taken answer c.metrics (c.attempt clock f).2) ∨
    ∃ d loop, (c.attempt clock f).1 = .waiting d { f with loop } ∧
      (c.attempt clock f).2.Drained ∧ (c.attempt clock f).2.metrics = c.metrics := by
  have submitted : f.records.isEmpty = false := by
    rw [Totals.isEmpty, List.isEmpty_eq_false_iff_exists_mem] at nonempty
    obtain ⟨p, hp⟩ := nonempty
    rw [List.isEmpty_eq_false_iff, ← List.length_pos_iff, complete]
    exact List.length_pos_of_mem hp
  simp only [attempt, submit, submitted, Bool.false_eq_true, if_false]
  cases EventStore.writeBatch clock.today f.records c.store with
  | mk r store =>
    cases r with
    | ok =>
      left
      refine ⟨_, rfl, ?_⟩
      refine settles_conclude_ok _ _ ⟨drained.totals, drained.shown⟩ nonempty ?_
      rw [← complete]
      rfl
    | error e =>
      rcases next_error f.loop e with ⟨d, loop, next⟩ | next
      · right
        simp only [next]
        exact ⟨d, loop, rfl, ⟨drained.totals, drained.shown⟩, trivial⟩
      · left
        simp only [next]
        refine ⟨_, rfl, ?_⟩
        exact settles_conclude_error (c := { c with store }) _ _ e ⟨drained.totals, drained.shown⟩
          nonempty

end Collector

namespace Timed

variable [EventStore σ V] [Add V]

open Collector

theorem finish_settles {f : Flight V} {s : Timed σ V} (drained : s.collector.Drained)
    (nonempty : f.taken.isEmpty = false) (complete : f.records.length = f.taken.size) :
    Settles f.taken (s.finish f).1 s.collector.metrics (s.finish f).2.collector := by
  -- Waiting does not touch the counters, so the rest of the flush starts from the same ones.
  fun_induction Timed.finish f s with
  | case1 f s r c attempted =>
    have outcome := attempt_settles s.clock drained nonempty complete
    rw [attempted] at outcome
    rcases outcome with ⟨answer, same, settles⟩ | ⟨d, loop, waits, -⟩
    · cases same
      exact settles
    · cases waits
  | case2 f s d f' c attempted less ih =>
    have outcome := attempt_settles s.clock drained nonempty complete
    rw [attempted] at outcome
    rcases outcome with ⟨answer, ends, -⟩ | ⟨d', loop, waits, still, unchanged⟩
    · cases ends
    · cases waits
      have settles := ih still nonempty complete
      simp only [pass] at settles
      rwa [unchanged] at settles

theorem flush_settles (trigger : Trigger) (s : Timed σ V) :
    Settles s.collector.totals (s.flush trigger).1 s.collector.metrics
      (s.flush trigger).2.collector := by
  cases nonempty : s.collector.totals.isEmpty with
  | true =>
    have entries : s.collector.totals.entries = [] := List.isEmpty_iff.mp nonempty
    simp only [flush, beginFlush, nonempty, if_true, resume, setTotals]
    exact ⟨rfl, rfl, by simp [Totals.size, entries, Except.toOption, Totals.empty],
      by rw [nonempty]; rfl⟩
  | false =>
    have drained (store : σ) :
        (({ s.collector with store } : Collector σ V).setTotals .empty).Drained := ⟨rfl, rfl⟩
    simp only [flush, beginFlush, nonempty, Bool.false_eq_true, if_false]
    split
    · rename_i e store batch
      exact .of_setTotals (settles_conclude_error s.clock.now trigger e (drained store) nonempty)
    · rename_i records store batch
      apply Settles.of_setTotals
      exact finish_settles (f := ⟨trigger, s.collector.totals, records, _⟩)
        (s := { s with collector := _ }) (drained store) nonempty (length_buildBatch batch)

end Timed

namespace Timed

variable [EventStore σ V] [Add V]

/-- The generations that a write begins. -/
def writeGenerations (e : Entry V) (s : Timed σ V) : Nat := s.collector.totals.begun e.pairs

def insertGenerations : List (Entry V) → Timed σ V → Nat
  | [], _ => 0
  | e :: rest, s =>
    match s.write e with
    | (.error _, _) => s.writeGenerations e
    | (.ok (), s') => s.writeGenerations e + insertGenerations rest s'

end Timed

/-- Only merging begins generations: what a failed flush puts back has begun before. -/
def Operation.generations [EventStore σ V] [Add V] (s : Timed σ V) : Operation V → Nat
  | .write e => s.writeGenerations e
  | .insert entries => s.insertGenerations entries
  | .flush _ | .flushIfDue | .tick | .pass _ => 0

def generations [EventStore σ V] [Add V] (s : Timed σ V) : List (Operation V) → Nat
  | [] => 0
  | op :: ops => op.generations s + generations (op.run s) ops

@[simp] theorem History.flushes_empty : (∅ : History V).flushes = [] := rfl

/-- The counters of a collector after so many generations and these flushes. -/
structure KeyAccounts (begun : Nat) (flushes : List (FlushReport V)) (c : Collector σ V) :
    Prop where
  shown : c.metrics.bufferKeys = c.totals.size
  balance : begun = c.metrics.flushRows + c.metrics.flushDiscarded + c.totals.size
  rows : c.metrics.flushRows = (flushes.map FlushReport.rows).sum
  flushes : c.metrics.flushTotal = flushes.countP fun r => !r.taken.isEmpty

namespace KeyAccounts

variable {begun : Nat} {flushes : List (FlushReport V)}

theorem fresh (policy : BufferPolicy) (clock : Clock) (source : Nat → RowId)
    (plan : FaultPoint → FaultPlan) :
    KeyAccounts 0 []
      (Timed.fresh policy clock source plan : Timed (FallibleMemory V) V).collector :=
  ⟨rfl, rfl, rfl, rfl⟩

variable [Add V]

theorem mergeEntry {c : Collector σ V} (accounts : KeyAccounts begun flushes c) (e : Entry V) :
    KeyAccounts (begun + c.totals.begun e.pairs) flushes (c.mergeEntry e) where
  shown := rfl
  balance := by
    have size : (c.mergeEntry e).totals.size = c.totals.size + c.totals.begun e.pairs :=
      c.totals.size_mergeAll e.pairs
    rw [size, accounts.balance]
    exact Nat.add_assoc _ _ _
  rows := accounts.rows
  flushes := accounts.flushes

variable {s : Timed (FallibleMemory V) V}

theorem flush (accounts : KeyAccounts begun flushes s.collector) (trigger : Trigger) :
    KeyAccounts begun (flushes ++ [s.report trigger]) (s.flush trigger).2.collector := by
  have settles := s.flush_settles trigger
  have rows : (s.report trigger).rows = (s.flush trigger).1.toOption.getD 0 := rfl
  have taken : (s.report trigger).taken = s.collector.totals := rfl
  refine ⟨settles.shown, ?_, ?_, ?_⟩
  · have balance := accounts.balance
    have shares := settles.shares
    have written := settles.rows
    omega
  · simp [settles.rows, accounts.rows, rows]
  · rw [settles.flushes, accounts.flushes, List.countP_append]
    cases nonempty : s.collector.totals.isEmpty <;> simp [taken, nonempty]

theorem write (accounts : KeyAccounts begun flushes s.collector) (e : Entry V) :
    KeyAccounts (begun + s.writeGenerations e) (flushes ++ (s.writeHistory e).flushes)
      (s.write e).2.collector := by
  have merged := accounts.mergeEntry e
  simp only [Timed.write, Timed.writeHistory]
  cases Collector.trigger? s.clock.now (s.collector.mergeEntry e) with
  | none => rwa [List.append_nil]
  | some t => exact merged.flush (s := { s with collector := s.collector.mergeEntry e }) t

theorem insert (accounts : KeyAccounts begun flushes s.collector) (entries : List (Entry V)) :
    KeyAccounts (begun + s.insertGenerations entries)
      (flushes ++ (s.insertHistory entries).flushes) (s.insert entries).2.collector := by
  -- the count of requests is all that `insert` adds to its writes
  suffices written : KeyAccounts (begun + s.insertGenerations entries)
      (flushes ++ (s.insertHistory entries).flushes)
      (untilFailure Timed.write entries s).2.collector
    from ⟨written.shown, written.balance, written.rows, written.flushes⟩
  induction entries generalizing begun flushes s with
  | nil =>
    simpa [untilFailure, Timed.insertHistory, Timed.insertGenerations] using accounts
  | cons e rest ih =>
    have first := accounts.write e
    simp only [untilFailure, Timed.insertHistory, Timed.insertGenerations]
    cases written : s.write e with
    | mk r s₁ =>
      rw [written] at first
      cases r with
      | error f => exact first
      | ok =>
        have others := ih first
        rwa [List.append_assoc, Nat.add_assoc] at others

theorem flushIfDue (accounts : KeyAccounts begun flushes s.collector) :
    KeyAccounts begun (flushes ++ s.flushIfDueHistory.flushes) s.flushIfDue.2.collector := by
  unfold Timed.flushIfDue Timed.flushIfDueHistory
  by_cases due : s.collector.isDue s.clock.now
  · simp only [due, if_true]
    exact accounts.flush .ticker
  · simpa only [due, Bool.false_eq_true, if_false, History.flushes_empty, List.append_nil]
      using accounts

theorem step (accounts : KeyAccounts begun flushes s.collector) (op : Operation V) :
    KeyAccounts (begun + op.generations s) (flushes ++ (op.history s).flushes)
      (op.run s).collector := by
  cases op with
  | write e => exact accounts.write e
  | insert entries => exact accounts.insert entries
  | flush trigger => exact accounts.flush trigger
  | flushIfDue => exact accounts.flushIfDue
  | tick =>
    rw [Operation.run, Timed.tick_eq]
    exact accounts.flushIfDue
  | pass d =>
    rw [Operation.history, History.flushes_empty, List.append_nil]
    exact accounts

theorem run (accounts : KeyAccounts begun flushes s.collector) (ops : List (Operation V)) :
    KeyAccounts (begun + generations s ops) (flushes ++ (history s ops).flushes)
      (TraceTally.run s ops).collector := by
  induction ops generalizing begun flushes s with
  | nil =>
    rw [history, History.flushes_empty, List.append_nil]
    exact accounts
  | cons op ops ih =>
    have rest := ih (accounts.step op)
    rwa [List.append_assoc, Nat.add_assoc] at rest

end KeyAccounts

/-- After every run from an empty collector: each generation of a key was written, was dropped or is
buffered, and the collector shows how many were; it shows what its flushes answered, and how many
of them had something to write. -/
theorem generations_eq_shown [Add V] (policy : BufferPolicy) (clock : Clock)
    (source : Nat → RowId) (plan : FaultPoint → FaultPlan) (ops : List (Operation V)) :
    let start : Timed (FallibleMemory V) V := Timed.fresh policy clock source plan
    let c := (run start ops).collector
    let flushes := (history start ops).flushes
    c.metrics.shown "spanstat_buffer_keys" = c.totals.size ∧
      generations start ops = c.metrics.shown "spanstat_flush_rows_total" +
        c.metrics.shown "spanstat_flush_discarded_total" + c.totals.size ∧
      c.metrics.shown "spanstat_flush_rows_total" = (flushes.map FlushReport.rows).sum ∧
      c.metrics.shown "spanstat_flush_total" = flushes.countP fun r => !r.taken.isEmpty := by
  intro start c flushes
  have accounts := (KeyAccounts.fresh (V := V) policy clock source plan).run ops
  rw [Nat.zero_add, List.nil_append] at accounts
  rw [Metrics.shown_bufferKeys, Metrics.shown_flushRows, Metrics.shown_flushDiscarded,
    Metrics.shown_flushTotal]
  exact ⟨accounts.shown, accounts.balance, accounts.rows, accounts.flushes⟩

end TraceTally
