import TraceTally.Collector.Audit
import TraceTally.Collector.Metrics
import TraceTally.Retry
import TraceTally.Store.Basic
import TraceTally.Totals

/-!
# The collector

Totals that wait in the buffer, the store behind it, the counters and the audit trail. The buffer is
guarded by one lock: each operation below runs while it holds the lock.

Two clocks are read. The monotonic one measures intervals and waits. The wall clock dates records;
it is a function of the monotonic one, of which nothing is assumed.
-/

namespace TraceTally

abbrev Instant := Duration

structure Clock where
  now : Instant
  wall : Instant → Int

namespace Clock

def today (c : Clock) : Int := c.wall c.now

def pass (c : Clock) (d : Duration) : Clock := { c with now := c.now + d }

end Clock

/-- When the buffer is flushed, how long records live, and what a failed flush does. -/
structure BufferPolicy where
  /-- The buffer is flushed when it holds more keys than this. -/
  capacity : Nat
  interval : Duration
  lifetime : Duration
  retry : RetryPolicy
  deriving Repr

structure Collector (σ V : Type) where
  policy : BufferPolicy
  store : σ
  totals : Totals V
  /-- When the last successful flush ended. -/
  lastExport : Instant
  metrics : Metrics := {}
  audit : List AuditEvent := []

namespace Collector

variable {σ V : Type}

def start (policy : BufferPolicy) (store : σ) (now : Instant) : Collector σ V :=
  { policy, store, totals := ⟨[], .nil⟩, lastExport := now }

def count (c : Collector σ V) (f : Metrics → Metrics) : Collector σ V :=
  { c with metrics := f c.metrics }

def log (c : Collector σ V) (e : AuditEvent) : Collector σ V := { c with audit := c.audit ++ [e] }

/-- Replaces the buffered totals and shows their number. -/
def setTotals (c : Collector σ V) (t : Totals V) : Collector σ V :=
  { c with totals := t, metrics := { c.metrics with bufferKeys := t.size } }

/-- Whether the flush interval has passed since the last export. -/
def isDue (c : Collector σ V) (now : Instant) : Bool :=
  c.policy.interval.nanos ≤ now.nanos - c.lastExport.nanos

end Collector

/-- A collector together with the clock it reads. -/
structure Timed (σ V : Type) where
  clock : Clock
  collector : Collector σ V

def Timed.pass {σ V : Type} (s : Timed σ V) (d : Duration) : Timed σ V :=
  { s with clock := s.clock.pass d }

end TraceTally
