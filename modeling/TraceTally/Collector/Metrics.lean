import TraceTally.Text.Digits

/-!
# Counters of the collector

What the collector counts, and its text exposition: families in the order of their names, labelled
counters only once they have been touched, in the order of their label values.
-/

namespace TraceTally

/-- What caused a flush. -/
inductive Trigger where
  /-- The buffer grew past its capacity. -/
  | size
  /-- A write came after the interval had passed. -/
  | interval
  /-- The background ticker found the interval passed. -/
  | ticker
  /-- Somebody asked for it. -/
  | manual
  deriving DecidableEq, Repr

def Trigger.name : Trigger → String
  | .size => "size"
  | .interval => "interval"
  | .ticker => "ticker"
  | .manual => "manual"

/-- In the order of their names. -/
def Trigger.all : List Trigger := [.interval, .manual, .size, .ticker]

inductive Status where
  | ok
  | error
  deriving DecidableEq, Repr

def Status.name : Status → String
  | .ok => "ok"
  | .error => "error"

def Status.of {ε α : Type} : Except ε α → Status
  | .ok _ => .ok
  | .error _ => .error

/-- In the order of their names. -/
def Status.all : List Status := [.error, .ok]

/-- Counters are exact whole numbers; a counter that is a double is as exact up to 2 ^ 53. -/
structure Metrics where
  inserts : Status → Nat := fun _ => 0
  eventsIngested : Nat := 0
  bufferKeys : Nat := 0
  flushes : Trigger → Status → Nat := fun _ _ => 0
  flushRows : Nat := 0
  flushDiscarded : Nat := 0
  queries : Status → Nat := fun _ => 0
  deletedRows : Nat := 0

namespace Metrics

def countInsert (m : Metrics) (s : Status) : Metrics :=
  { m with inserts := fun s' => if s' = s then m.inserts s' + 1 else m.inserts s' }

def countQuery (m : Metrics) (s : Status) : Metrics :=
  { m with queries := fun s' => if s' = s then m.queries s' + 1 else m.queries s' }

def countFlush (m : Metrics) (t : Trigger) (s : Status) : Metrics :=
  { m with flushes := fun t' s' =>
      if t' = t ∧ s' = s then m.flushes t' s' + 1 else m.flushes t' s' }

inductive Kind where
  | counter
  | gauge

def Kind.name : Kind → String
  | .counter => "counter"
  | .gauge => "gauge"

/-- One labelled or plain value of a family. -/
structure Sample where
  labels : List (String × String)
  count : Nat

structure Family where
  name : String
  help : String
  kind : Kind
  samples : List Sample

def Family.single (name help : String) (kind : Kind) (count : Nat) : Family :=
  ⟨name, help, kind, [⟨[], count⟩]⟩

/-- A family of counters by status, of which the touched ones show. -/
def Family.byStatus (name help : String) (count : Status → Nat) : Family :=
  ⟨name, help, .counter,
    (Status.all.filter fun s => count s ≠ 0).map fun s => ⟨[("status", s.name)], count s⟩⟩

/-- Ordered by name. -/
def families (m : Metrics) : List Family :=
  [.single "spanstat_buffer_keys" "Distinct aggregation keys currently buffered" .gauge m.bufferKeys,
   .single "spanstat_deleted_rows_total" "Stored rows deleted" .counter m.deletedRows,
   .single "spanstat_events_ingested_total" "Raw events merged into the write-back buffer" .counter
     m.eventsIngested,
   .single "spanstat_flush_discarded_total" "Aggregates dropped after a failed flush" .counter
     m.flushDiscarded,
   .single "spanstat_flush_rows_total" "Aggregate rows written to the store" .counter m.flushRows,
   ⟨"spanstat_flush_total", "Flush attempts by trigger and outcome", .counter,
     Status.all.flatMap fun s => (Trigger.all.filter fun t => m.flushes t s ≠ 0).map fun t =>
       ⟨[("status", s.name), ("trigger", t.name)], m.flushes t s⟩⟩,
   .byStatus "spanstat_insert_total" "Total InsertEvents calls" m.inserts,
   .byStatus "spanstat_query_total" "Total Query calls" m.queries]

def Sample.line (family : String) (s : Sample) : String :=
  let labels := ",".intercalate (s.labels.map fun (k, v) => k ++ "=\"" ++ v ++ "\"")
  let braces := if s.labels.isEmpty then "" else "\x7b" ++ labels ++ "\x7d"
  family ++ braces ++ " " ++ String.ofList (Text.digits s.count)

/-- Nothing for a family without samples. -/
def Family.lines (f : Family) : List String :=
  if f.samples.isEmpty then []
  else ("# HELP " ++ f.name ++ " " ++ f.help) :: ("# TYPE " ++ f.name ++ " " ++ f.kind.name) ::
    f.samples.map (Sample.line f.name)

def lines (m : Metrics) : List String := m.families.flatMap Family.lines

/-- The exposition: every line ends in a line feed. -/
def expose (m : Metrics) : String := String.join (m.lines.map (· ++ "\n"))

end Metrics

end TraceTally
