import TraceTally.Proofs.Conservation
import TraceTally.Proofs.Course

/-!
# When the buffer is flushed, and how far it grows

A run leaves a list of the flushes it made. What decides about the next one can be read off it: the
last export is the end of the last flush that succeeded, and the buffer holds more keys than its
capacity only if the last flush of all failed and put them back. The store is any store.
-/

namespace TraceTally

variable {σ V : Type}

/-- A flush that has ended. -/
structure Ending where
  trigger : Trigger
  /-- How many keys it took. -/
  keys : Nat
  answer : Except Failure Nat
  ended : Instant

namespace Ending

/-- A flush that took something is counted by its trigger and its outcome. -/
def countsAs (t : Trigger) (status : Status) (e : Ending) : Bool :=
  e.keys ≠ 0 ∧ e.trigger = t ∧ Status.of e.answer = status

/-- When the last of the flushes that succeeded ended, or `start` if none did. -/
def lastOk (start : Instant) (endings : List Ending) : Instant :=
  endings.foldl (fun last e => match e.answer with
    | .ok _ => e.ended
    | .error _ => last) start

end Ending

namespace Collector

/-- Only the store is another one, and what was counted besides flushes. -/
structure Steady (c c' : Collector σ V) : Prop where
  policy : c'.policy = c.policy
  totals : c'.totals = c.totals
  exported : c'.lastExport = c.lastExport
  flushes : c'.metrics.flushes = c.metrics.flushes

theorem Steady.refl (c : Collector σ V) : c.Steady c := ⟨rfl, rfl, rfl, rfl⟩

theorem Steady.trans {c c' c'' : Collector σ V} (steady : c.Steady c') (later : c'.Steady c'') :
    c.Steady c'' :=
  ⟨later.policy.trans steady.policy, later.totals.trans steady.totals,
    later.exported.trans steady.exported, later.flushes.trans steady.flushes⟩

/-- What has become of a collector when its flush has ended. -/
structure Ended (c c' : Collector σ V) (e : Ending) : Prop where
  policy : c'.policy = c.policy
  flushes : ∀ t status, c'.metrics.flushes t status =
    c.metrics.flushes t status + if e.countsAs t status then 1 else 0
  outcome : (∃ n, e.answer = .ok n ∧ c'.totals = .empty ∧ c'.lastExport = e.ended) ∨
    ∃ failure, e.answer = .error failure ∧
      c'.totals = c.policy.retry.onExhausted.keeps c.totals ∧ c'.lastExport = c.lastExport

variable [Add V] {base c : Collector σ V}

theorem flushes_conclude (now : Instant) (trigger : Trigger) (taken : Totals V)
    (result : Except Failure Unit) (c : Collector σ V) :
    let r := c.conclude now trigger taken result
    r.2.metrics.flushes = (c.metrics.countFlush trigger (.of r.1)).flushes := by
  cases result with
  | ok a => rfl
  | error e =>
    rw [conclude]
    dsimp only
    split
    · rfl
    · rfl

theorem ended_conclude (steady : ({ base with totals := .empty } : Collector σ V).Steady c)
    (nonempty : base.totals.entries ≠ []) (now : Instant) (trigger : Trigger)
    (result : Except Failure Unit) :
    let r := c.conclude now trigger base.totals result
    base.Ended r.2 ⟨trigger, base.totals.size, r.1, now⟩ := by
  intro r
  obtain ⟨policy, totals, exported, flushes⟩ := steady
  refine ⟨by rw [policy_conclude, policy], ?_, ?_⟩
  · intro t status
    have took : base.totals.size ≠ 0 := List.length_eq_zero_iff.not.mpr nonempty
    rw [flushes_conclude, Metrics.countFlush, flushes]
    simp only [Ending.countsAs, decide_eq_true_eq]
    grind
  · cases result with
    | ok a => exact .inl ⟨_, rfl, totals, rfl⟩
    | error e =>
      obtain ⟨answer, totals, exported'⟩ := conclude_error totals
      rw [policy] at totals
      exact .inr ⟨e, answer, totals, exported'.trans exported⟩

variable [EventStore σ V]

omit [Add V] in
theorem steady_submit (today : Int) (records : List (Record V)) (c : Collector σ V) :
    c.Steady (c.submit today records).2 := by
  unfold submit
  split
  · exact .refl c
  · split
    · exact ⟨rfl, rfl, rfl, rfl⟩
    · exact ⟨rfl, rfl, rfl, rfl⟩

/-- A flush that cannot name its records ends with that failure. -/
theorem beginFlush_of_unnamed {clock : Clock} {store : σ} {e : Failure} (trigger : Trigger)
    (nonempty : c.totals.entries ≠ [])
    (batch : buildBatch clock.today c.policy.lifetime c.totals.entries c.store =
      (.error e, store)) :
    let ended := (({ c with store } : Collector σ V).setTotals .empty).conclude clock.now trigger
      c.totals (.error e)
    c.beginFlush clock trigger = (.finished ended.1, ended.2) := by
  have some_ : c.totals.entries.isEmpty = false := by simpa using nonempty
  simp only [beginFlush, Totals.isEmpty, some_, Bool.false_eq_true, if_false, setTotals, batch]

end Collector

namespace Timed

variable [EventStore σ V]

theorem steady_beforeAttempt (f : Flight V) (s : Timed σ V) (k : Nat) :
    s.collector.Steady (s.beforeAttempt f k).collector := by
  induction k with
  | zero => exact .refl _
  | succ k ih => exact ih.trans (Collector.steady_submit _ _ _)

variable [Add V]

theorem ended_finish {base : Collector σ V} {f : Flight V} {s : Timed σ V}
    (steady : ({ base with totals := .empty } : Collector σ V).Steady s.collector)
    (taken : f.taken = base.totals) (nonempty : base.totals.entries ≠ []) :
    base.Ended (s.finish f).2.collector
      ⟨f.trigger, base.totals.size, (s.finish f).1, (s.finish f).2.clock.now⟩ := by
  have attempted := steady.trans (s.steady_beforeAttempt f (s.course f).waits.length)
  rw [finish_eq_course, taken]
  exact Collector.ended_conclude (attempted.trans (Collector.steady_submit _ _ _)) nonempty _ _ _

/-- What becomes of a flush that is made now. -/
def ending (trigger : Trigger) (s : Timed σ V) : Ending :=
  ⟨trigger, s.collector.totals.size, (s.flush trigger).1, (s.flush trigger).2.clock.now⟩

theorem ended_flush (trigger : Trigger) (s : Timed σ V) :
    s.collector.Ended (s.flush trigger).2.collector (s.ending trigger) := by
  rw [ending, flush]
  by_cases nothing : s.collector.totals.entries = []
  · have begun : s.collector.beginFlush s.clock trigger = (.finished (.ok 0),
        { s.collector.setTotals .empty with lastExport := s.clock.now }) := by
      simp only [Collector.beginFlush, Totals.isEmpty, nothing]
      rfl
    rw [begun]
    refine ⟨rfl, ?_, .inl ⟨0, rfl, rfl, rfl⟩⟩
    intro t status
    simp [Ending.countsAs, Totals.size, nothing, resume, Collector.setTotals]
  · cases batch : buildBatch s.clock.today s.collector.policy.lifetime s.collector.totals.entries
        s.collector.store with
    | mk named store =>
      have emptied : ({ s.collector with totals := .empty } : Collector σ V).Steady
          (({ s.collector with store } : Collector σ V).setTotals .empty) := ⟨rfl, rfl, rfl, rfl⟩
      cases named with
      | error e =>
        rw [Collector.beginFlush_of_unnamed trigger nothing batch]
        exact Collector.ended_conclude emptied nothing s.clock.now trigger _
      | ok records =>
        rw [Collector.beginFlush_of_ok trigger nothing batch]
        exact ended_finish (s := { s with collector := _ }) emptied rfl nothing

def writeEndings (e : Entry V) (s : Timed σ V) : List Ending :=
  let s : Timed σ V := { s with collector := s.collector.mergeEntry e }
  match s.collector.trigger? s.clock.now with
  | none => []
  | some t => [s.ending t]

def insertEndings : List (Entry V) → Timed σ V → List Ending
  | [], _ => []
  | e :: rest, s =>
    match s.write e with
    | (.error _, _) => s.writeEndings e
    | (.ok (), s') => s.writeEndings e ++ insertEndings rest s'

def flushIfDueEndings (s : Timed σ V) : List Ending :=
  if s.collector.isDue s.clock.now then [s.ending .ticker] else []

end Timed

variable [EventStore σ V] [Add V]

/-- The flushes that an operation makes, in order. -/
def Operation.endings (s : Timed σ V) : Operation V → List Ending
  | .write e => s.writeEndings e
  | .insert entries => s.insertEndings entries
  | .flush trigger => [s.ending trigger]
  | .flushIfDue | .tick => s.flushIfDueEndings
  | .pass _ => []

def endings (s : Timed σ V) : List (Operation V) → List Ending
  | [] => []
  | op :: ops => op.endings s ++ endings (op.run s) ops

/-- After these flushes the last export is where they put it, and they have all been counted. -/
structure Paced (start : Timed σ V) (endings : List Ending) (s : Timed σ V) : Prop where
  policy : s.collector.policy = start.collector.policy
  le_now : s.collector.lastExport ≤ s.clock.now
  exported : s.collector.lastExport = Ending.lastOk start.collector.lastExport endings
  later : start.collector.lastExport ≤ s.collector.lastExport
  counted : ∀ t status, s.collector.metrics.flushes t status =
    start.collector.metrics.flushes t status + endings.countP (·.countsAs t status)

/-- More keys than the capacity are there only because the last flush put them back. -/
def Bounded (endings : List Ending) (c : Collector σ V) : Prop :=
  c.policy.capacity < c.totals.size → c.policy.retry.onExhausted = .requeue ∧
    ∃ e, endings.getLast? = some e ∧ ∃ failure, e.answer = .error failure

namespace Paced

variable {start s s' : Timed σ V} {log : List Ending}

omit [EventStore σ V] [Add V] in
theorem steady (paced : Paced start log s) (now : s.clock.now ≤ s'.clock.now)
    (policy : s'.collector.policy = s.collector.policy)
    (exported : s'.collector.lastExport = s.collector.lastExport)
    (flushes : s'.collector.metrics.flushes = s.collector.metrics.flushes) : Paced start log s' where
  policy := policy.trans paced.policy
  le_now := by rw [exported]; exact paced.le_now.trans now
  exported := by rw [exported]; exact paced.exported
  later := by rw [exported]; exact paced.later
  counted := by rw [flushes]; exact paced.counted

omit [EventStore σ V] [Add V] in
theorem refl (le_now : s.collector.lastExport ≤ s.clock.now) : Paced s [] s :=
  ⟨rfl, le_now, rfl, le_rfl, fun _ _ => rfl⟩

theorem flush (paced : Paced start log s) (trigger : Trigger) :
    Paced start (log ++ [s.ending trigger]) (s.flush trigger).2 ∧
      Bounded (log ++ [s.ending trigger]) (s.flush trigger).2.collector := by
  have now := (s.before_flush trigger).now
  obtain ⟨policy, flushes, outcome⟩ := s.ended_flush trigger
  have counted : ∀ t status, (s.flush trigger).2.collector.metrics.flushes t status =
      start.collector.metrics.flushes t status +
        (log ++ [s.ending trigger]).countP (·.countsAs t status) := by
    intro t status
    rw [flushes, paced.counted, List.countP_append, List.countP_singleton, Nat.add_assoc]
  rcases outcome with ⟨n, answer, totals, exported⟩ | ⟨failure, answer, totals, exported⟩
  · refine ⟨⟨policy.trans paced.policy, exported.le, ?_, ?_, counted⟩, ?_⟩
    · rw [exported, Ending.lastOk, List.foldl_append, List.foldl_cons, List.foldl_nil, answer]
    · rw [exported]
      exact (paced.later.trans paced.le_now).trans now
    · intro beyond
      rw [totals] at beyond
      cases beyond
  · refine ⟨⟨policy.trans paced.policy, ?_, ?_, ?_, counted⟩, ?_⟩
    · rw [exported]
      exact paced.le_now.trans now
    · rw [exported, Ending.lastOk, List.foldl_append, List.foldl_cons, List.foldl_nil, answer]
      exact paced.exported
    · rw [exported]
      exact paced.later
    · intro beyond
      rw [totals] at beyond
      rw [policy] at beyond ⊢
      cases kept : s.collector.policy.retry.onExhausted with
      | discard =>
        rw [kept] at beyond
        cases beyond
      | requeue => exact ⟨rfl, _, List.getLast?_concat, failure, answer⟩

theorem write (paced : Paced start log s) (e : Entry V) :
    Paced start (log ++ s.writeEndings e) (s.write e).2 ∧
      Bounded (log ++ s.writeEndings e) (s.write e).2.collector := by
  have merged : Paced start log { s with collector := s.collector.mergeEntry e } :=
    paced.steady le_rfl rfl rfl rfl
  simp only [Timed.write, Timed.writeEndings]
  cases trigger : Collector.trigger? s.clock.now (s.collector.mergeEntry e) with
  | none =>
    rw [List.append_nil]
    refine ⟨merged, fun beyond => ?_⟩
    rw [Collector.trigger?, if_pos beyond] at trigger
    cases trigger
  | some t => exact merged.flush t

theorem writes (entries : List (Entry V)) (paced : Paced start log s) :
    let s' := (untilFailure Timed.write entries s).2
    Paced start (log ++ s.insertEndings entries) s' ∧
      (Bounded log s.collector → Bounded (log ++ s.insertEndings entries) s'.collector) := by
  induction entries generalizing log s with
  | nil =>
    rw [Timed.insertEndings, List.append_nil]
    exact ⟨paced, id⟩
  | cons e rest ih =>
    obtain ⟨paced, bounded⟩ := paced.write e
    simp only [untilFailure, Timed.insertEndings]
    cases first : s.write e with
    | mk r s₁ =>
      rw [first] at paced bounded
      cases r with
      | error failure => exact ⟨paced, fun _ => bounded⟩
      | ok =>
        dsimp only
        rw [← List.append_assoc]
        obtain ⟨paced, keeps⟩ := ih paced
        exact ⟨paced, fun _ => keeps bounded⟩

theorem flushIfDue (paced : Paced start log s) :
    Paced start (log ++ s.flushIfDueEndings) s.flushIfDue.2 ∧
      (Bounded log s.collector →
        Bounded (log ++ s.flushIfDueEndings) s.flushIfDue.2.collector) := by
  rw [Timed.flushIfDue, Timed.flushIfDueEndings]
  split
  · obtain ⟨paced, bounded⟩ := paced.flush .ticker
    exact ⟨paced, fun _ => bounded⟩
  · rw [List.append_nil]
    exact ⟨paced, id⟩

theorem step (paced : Paced start log s) (op : Operation V) :
    Paced start (log ++ op.endings s) (op.run s) ∧
      (Bounded log s.collector → Bounded (log ++ op.endings s) (op.run s).collector) := by
  cases op with
  | write e =>
    obtain ⟨paced, bounded⟩ := paced.write e
    exact ⟨paced, fun _ => bounded⟩
  | insert entries =>
    -- `insert` counts the request, and else it is its writes
    obtain ⟨paced, keeps⟩ := paced.writes entries
    exact ⟨paced.steady le_rfl rfl rfl rfl, keeps⟩
  | flush trigger =>
    obtain ⟨paced, bounded⟩ := paced.flush trigger
    exact ⟨paced, fun _ => bounded⟩
  | flushIfDue => exact paced.flushIfDue
  | tick =>
    rw [Operation.run, Timed.tick_eq]
    exact paced.flushIfDue
  | pass d =>
    rw [Operation.endings, List.append_nil]
    exact ⟨paced.steady (s.before_pass d).now rfl rfl rfl, id⟩

theorem run (paced : Paced start log s) (ops : List (Operation V)) :
    Paced start (log ++ endings s ops) (TraceTally.run s ops) ∧
      (Bounded log s.collector →
        Bounded (log ++ endings s ops) (TraceTally.run s ops).collector) := by
  induction ops generalizing log s with
  | nil =>
    rw [endings, List.append_nil]
    exact ⟨paced, id⟩
  | cons op ops ih =>
    obtain ⟨paced, keeps⟩ := paced.step op
    obtain ⟨paced, keeps'⟩ := ih paced
    rw [endings, ← List.append_assoc]
    exact ⟨paced, fun bounded => keeps' (keeps bounded)⟩

end Paced

omit [EventStore σ V] [Add V] in
/-- Time does not run backwards, so that the interval can be measured from either end. -/
theorem Collector.isDue_iff {c : Collector σ V} {now : Instant} (le_now : c.lastExport ≤ now) :
    c.isDue now = true ↔ c.lastExport + c.policy.interval ≤ now := by
  have le_now : c.lastExport.nanos ≤ now.nanos := le_now
  rw [isDue, decide_eq_true_eq]
  change _ ↔ c.lastExport.nanos + c.policy.interval.nanos ≤ now.nanos
  omega

omit [EventStore σ V] [Add V] in
theorem Collector.trigger?_eq (c : Collector σ V) {now : Instant} (le_now : c.lastExport ≤ now) :
    c.trigger? now = if c.policy.capacity < c.totals.size then some .size
      else if c.lastExport + c.policy.interval ≤ now then some .interval else none := by
  simp only [trigger?, isDue_iff le_now]

/-- In every run, over every store: a write flushes once if the buffer then holds more keys than its
capacity or the interval has passed, and else not at all; a flush that is only made if due asks for
the interval alone. The last export is the end of the last flush that succeeded, whether or not there
was anything to flush, and more keys than the capacity are there only under `requeue` after a flush
that failed. -/
theorem flushed_when_full_or_due (policy : BufferPolicy) (store : σ) (clock : Clock)
    (ops : List (Operation V)) :
    let start : Timed σ V := ⟨clock, .start policy store clock.now⟩
    let s := run start ops
    let log := endings start ops
    (∀ e, let merged : Timed σ V := { s with collector := s.collector.mergeEntry e }
      let flushed (t : Trigger) :=
        (((merged.flush t).1.map fun _ => (), (merged.flush t).2), [merged.ending t])
      (s.write e, s.writeEndings e) =
        if policy.capacity < merged.collector.totals.size then flushed .size
        else if s.collector.lastExport + policy.interval ≤ s.clock.now then flushed .interval
        else ((.ok (), merged), [])) ∧
    (s.flushIfDue, s.flushIfDueEndings) =
      (if s.collector.lastExport + policy.interval ≤ s.clock.now then
        (((s.flush .ticker).1.map some, (s.flush .ticker).2), [s.ending .ticker])
      else ((.ok none, s), [])) ∧
    s.collector.lastExport ≤ s.clock.now ∧
    s.collector.lastExport = Ending.lastOk clock.now log ∧
    (∀ more, s.collector.lastExport ≤ (run s more).collector.lastExport) ∧
    (policy.capacity < s.collector.totals.size → policy.retry.onExhausted = .requeue ∧
      ∃ e, log.getLast? = some e ∧ ∃ failure, e.answer = .error failure) ∧
    ∀ t status, s.collector.metrics.flushes t status = log.countP (·.countsAs t status) := by
  intro start s log
  have empty : Bounded [] start.collector := fun beyond => absurd beyond (Nat.not_lt_zero _)
  obtain ⟨paced, keeps⟩ := (Paced.refl (s := start) le_rfl).run ops
  have bounded := keeps empty
  rw [List.nil_append] at paced bounded
  have same : s.collector.policy = policy := paced.policy
  have due : s.collector.isDue s.clock.now = true ↔
      s.collector.lastExport + policy.interval ≤ s.clock.now := by
    rw [← same]
    exact Collector.isDue_iff paced.le_now
  refine ⟨?_, ?_, paced.le_now, paced.exported, ?_, ?_, ?_⟩
  · intro e merged flushed
    have decided : Collector.trigger? s.clock.now (s.collector.mergeEntry e) =
        if policy.capacity < merged.collector.totals.size then some .size
        else if s.collector.lastExport + policy.interval ≤ s.clock.now then some .interval
        else none := by
      rw [← same]
      exact merged.collector.trigger?_eq paced.le_now
    simp only [Timed.write, Timed.writeEndings, decided]
    by_cases beyond : policy.capacity < merged.collector.totals.size
    · simp only [beyond, if_true]
      rfl
    · simp only [beyond, if_false]
      by_cases passed : s.collector.lastExport + policy.interval ≤ s.clock.now
      · simp only [passed, if_true]
        rfl
      · simp only [passed, if_false]
        rfl
  · simp only [Timed.flushIfDue, Timed.flushIfDueEndings, due]
    split
    · rfl
    · rfl
  · exact fun more => ((Paced.refl paced.le_now).run more).1.later
  · rw [Bounded, same] at bounded
    exact bounded
  · intro t status
    rw [paced.counted]
    exact Nat.zero_add _

/-- The first flush succeeds after a wait, the second one fails and puts both keys back. -/
theorem flushed_when_full_or_due_requeued :
    let policy : BufferPolicy := ⟨1, .ofSeconds 60, .ofSeconds 3600, ⟨2, .ofMillis 100, .requeue⟩⟩
    let clock : Clock := ⟨.ofSeconds 5, fun _ => 0⟩
    let plan : FaultPoint → FaultPlan := fun point =>
      if point = .write then some (.storeUnavailable "down") :: none ::
        List.replicate 2 (some (.storeWriteFailed "full"))
      else []
    let store : FallibleMemory Nat := { inner := {}, plan }
    let entry : Entry Nat := ⟨"o", "t", [⟨"a", 1, "u"⟩, ⟨"b", 2, "u"⟩]⟩
    let ops : List (Operation Nat) := [.write entry, .pass (.ofSeconds 7), .write entry]
    let start : Timed (FallibleMemory Nat) Nat := ⟨clock, .start policy store clock.now⟩
    let s := run start ops
    policy.capacity < s.collector.totals.size ∧ policy.retry.onExhausted = .requeue ∧
      (∃ e, (endings start ops).getLast? = some e ∧ ∃ failure, e.answer = .error failure) ∧
      s.collector.lastExport = .ofMillis 5100 ∧ s.collector.metrics.flushes .size .error = 1 := by
  intro policy clock plan store entry ops start s
  have beyond : policy.capacity < s.collector.totals.size := by decide +kernel
  obtain ⟨-, -, -, exported, -, bounded, counted⟩ := flushed_when_full_or_due policy store clock ops
  obtain ⟨requeue, failed⟩ := bounded beyond
  refine ⟨beyond, requeue, failed, exported.trans ?_, (counted .size .error).trans ?_⟩
  · decide +kernel
  · decide +kernel

end TraceTally
