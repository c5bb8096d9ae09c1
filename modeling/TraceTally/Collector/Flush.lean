import TraceTally.Collector.Basic

/-!
# Flushing the buffer

A flush takes all totals out of the buffer, makes one record per key and submits them as one batch,
again and again as the retry policy says. It is a machine of small steps: `beginFlush` takes the
totals and makes the records, `attempt` submits them once, and each says whether the flush is
finished or has to wait. `finish` runs the machine to its end, time passing only in the waits.
-/

namespace TraceTally

variable {σ V : Type} [EventStore σ V]

/-- A flush that holds the buffer: what it took, and the records it submits. -/
structure Flight (V : Type) where
  trigger : Trigger
  taken : Totals V
  records : List (Record V)
  loop : Retry.Loop

/-- What a step of a flush leads to. -/
inductive Progress (V : Type) where
  | finished (result : Except Failure Nat)
  /-- An attempt is to be made now. -/
  | ready (f : Flight V)
  /-- An attempt is to be made after a wait. -/
  | waiting (d : Duration) (f : Flight V)

/-- One record per pair, dated now; the first identifier that cannot be made ends it. -/
def buildBatch (today : Int) (lifetime : Duration) :
    List (Key × V) → σ → Except Failure (List (Record V)) × σ
  | [], s => (.ok [], s)
  | (key, value) :: rest, s =>
    match EventStore.newRowId s with
    | (.error e, s) => (.error e, s)
    | (.ok id, s) =>
      match buildBatch today lifetime rest s with
      | (.error e, s) => (.error e, s)
      | (.ok records, s) =>
        (.ok (⟨id, key, value, today, Duration.expiry today lifetime⟩ :: records), s)

namespace Collector

/-- Submits a batch once. An empty batch does not reach the store. -/
def submit (today : Int) (records : List (Record V)) (c : Collector σ V) :
    Except Failure Unit × Collector σ V :=
  if records.isEmpty then (.ok (), c)
  else
    match EventStore.writeBatch today records c.store with
    | (.error e, store) => (.error e, { c with store })
    | (.ok (), store) =>
      (.ok (), ({ c with store }).count fun m =>
        { m with flushRows := m.flushRows + records.length })

/-- A flush that wrote its records is an export; one that failed drops what it took or puts it
back, as the policy says. -/
def conclude [Add V] (now : Instant) (trigger : Trigger) (taken : Totals V)
    (result : Except Failure Unit) (c : Collector σ V) : Except Failure Nat × Collector σ V :=
  match result with
  | .ok () =>
    (.ok taken.size, ({ c with lastExport := now }).count (·.countFlush trigger .ok))
  | .error e =>
    let c := c.count (·.countFlush trigger .error)
    match c.policy.retry.onExhausted with
    | .discard =>
      (.error e, c.count fun m => { m with flushDiscarded := m.flushDiscarded + taken.size })
    | .requeue => (.error e, c.setTotals (c.totals.absorb taken))

def beginFlush [Add V] (clock : Clock) (trigger : Trigger) (c : Collector σ V) :
    Progress V × Collector σ V :=
  let taken := c.totals
  let c := c.setTotals .empty
  if taken.isEmpty then (.finished (.ok 0), { c with lastExport := clock.now })
  else
    match buildBatch clock.today c.policy.lifetime taken.entries c.store with
    | (.error e, store) =>
      let (r, c) := ({ c with store }).conclude clock.now trigger taken (.error e)
      (.finished r, c)
    | (.ok records, store) =>
      (.ready ⟨trigger, taken, records, Retry.start c.policy.retry⟩, { c with store })

def attempt [Add V] (clock : Clock) (f : Flight V) (c : Collector σ V) :
    Progress V × Collector σ V :=
  let (r, c) := c.submit clock.today f.records
  match Retry.next Failure.isTransient f.loop r with
  | .done r =>
    let (r, c) := c.conclude clock.now f.trigger f.taken r
    (.finished r, c)
  | .wait d loop => (.waiting d { f with loop }, c)

theorem left_of_attempt_waiting [Add V] {clock : Clock} {f f' : Flight V} {c c' : Collector σ V}
    {d : Duration} (h : c.attempt clock f = (.waiting d f', c')) : f'.loop.left < f.loop.left := by
  simp only [attempt] at h
  split at h
  · simp at h
  · rename_i hn
    simp only [Prod.mk.injEq, Progress.waiting.injEq] at h
    rw [← h.1.2]
    exact Retry.left_of_next_wait hn

theorem attempt_ne_ready [Add V] {clock : Clock} {f f' : Flight V} {c c' : Collector σ V} :
    c.attempt clock f ≠ (.ready f', c') := by
  simp only [attempt]
  split <;> simp

end Collector

namespace Timed

/-- Runs a flush to its end; time passes in the waits between attempts. -/
def finish [Add V] (f : Flight V) (s : Timed σ V) : Except Failure Nat × Timed σ V :=
  match h : s.collector.attempt s.clock f with
  | (.finished r, c) => (r, { s with collector := c })
  | (.waiting d f', c) =>
    have := Collector.left_of_attempt_waiting h
    finish f' (({ s with collector := c } : Timed σ V).pass d)
  | (.ready _, _) => absurd h Collector.attempt_ne_ready
termination_by f.loop.left

theorem finish_of_finished [Add V] {f : Flight V} {s : Timed σ V} {r : Except Failure Nat}
    {c : Collector σ V} (h : s.collector.attempt s.clock f = (.finished r, c)) :
    s.finish f = (r, { s with collector := c }) := by
  rw [finish.eq_def]
  split <;> simp_all

theorem finish_of_waiting [Add V] {f f' : Flight V} {s : Timed σ V} {d : Duration}
    {c : Collector σ V} (h : s.collector.attempt s.clock f = (.waiting d f', c)) :
    s.finish f = (({ s with collector := c } : Timed σ V).pass d).finish f' := by
  rw [finish.eq_def]
  split <;> simp_all

/-- Carries a flush on from wherever it stands. -/
def resume [Add V] (p : Progress V) (s : Timed σ V) : Except Failure Nat × Timed σ V :=
  match p with
  | .finished r => (r, s)
  | .ready f => s.finish f
  | .waiting d f => (s.pass d).finish f

/-- Flushes whatever is buffered; the answer is the number of rows written. -/
def flush [Add V] (trigger : Trigger) (s : Timed σ V) : Except Failure Nat × Timed σ V :=
  let (p, c) := s.collector.beginFlush s.clock trigger
  ({ s with collector := c } : Timed σ V).resume p

/-- Flushes only if the interval has passed; otherwise there is no answer. -/
def flushIfDue [Add V] (s : Timed σ V) : Except Failure (Option Nat) × Timed σ V :=
  if s.collector.isDue s.clock.now then
    let (r, s) := s.flush .ticker
    (r.map some, s)
  else (.ok none, s)

end Timed

end TraceTally
