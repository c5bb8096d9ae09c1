import TraceTally.Store.Memory

/-!
# A store that fails on plan

Wraps a store. For each kind of call a plan says what the next calls do: pass, or fail with a given
failure; after the plan's end all calls pass. A batch can fail in two ways: before anything of it is
stored, and after all of it is, when only the answer is lost. A journal keeps the submitted batches.
-/

namespace TraceTally

/-- The kinds of call that can fail. -/
inductive FaultPoint where
  /-- A batch write, before anything is stored. -/
  | write
  /-- A batch write, after the batch was stored. -/
  | acknowledge
  | scan
  | delete
  | newId
  | ping
  deriving DecidableEq, Repr

/-- What the next calls of one kind do. -/
abbrev FaultPlan := List (Option Failure)

/-- The next `after` calls pass, then `times` calls fail. -/
def FaultPlan.delayed (after times : Nat) (f : Failure) : FaultPlan :=
  List.replicate after none ++ List.replicate times (some f)

/-- A submitted batch, and whether the store took it. -/
structure Submission (V : Type) where
  batch : List (Record V)
  stored : Bool

structure FaultyStore (σ V : Type) where
  inner : σ
  plan : FaultPoint → FaultPlan := fun _ => []
  journal : List (Submission V) := []

namespace FaultyStore

variable {σ V : Type}

def setPlan (s : FaultyStore σ V) (at_ : FaultPoint) (p : FaultPlan) : FaultyStore σ V :=
  { s with plan := fun x => if x = at_ then p else s.plan x }

/-- What the next call of this kind does, which is thereby used up. -/
def consume (at_ : FaultPoint) (s : FaultyStore σ V) : Option Failure × FaultyStore σ V :=
  match s.plan at_ with
  | [] => (none, s)
  | f :: rest => (f, s.setPlan at_ rest)

def record (batch : List (Record V)) (stored : Bool) (s : FaultyStore σ V) : FaultyStore σ V :=
  { s with journal := s.journal ++ [⟨batch, stored⟩] }

/-- Runs a call of the wrapped store unless the plan fails it. -/
def guarded {α : Type} (at_ : FaultPoint) (call : σ → Except Failure α × σ) (s : FaultyStore σ V) :
    Except Failure α × FaultyStore σ V :=
  match s.consume at_ with
  | (some f, s) => (.error f, s)
  | (none, s) => let (r, inner) := call s.inner; (r, { s with inner })

def submit (write : List (Record V) → σ → Except Failure Unit × σ) (records : List (Record V))
    (s : FaultyStore σ V) : Except Failure Unit × FaultyStore σ V :=
  match s.consume .write with
  | (some f, s) => (.error f, s.record records false)
  | (none, s) =>
    match write records s.inner with
    | (.error f, inner) => (.error f, ({ s with inner }).record records false)
    | (.ok (), inner) =>
      match (({ s with inner }).record records true).consume .acknowledge with
      | (some f, s) => (.error f, s)
      | (none, s) => (.ok (), s)

instance [EventStore σ V] : EventStore (FaultyStore σ V) V where
  name := EventStore.name σ
  newRowId s := s.guarded .newId EventStore.newRowId
  writeBatch now records s := s.submit (EventStore.writeBatch now) records
  scan now p s := s.guarded .scan (EventStore.scan now p)
  deleteRow id s := s.guarded .delete (EventStore.deleteRow id)
  ping s := s.guarded .ping EventStore.ping

/-- How many batches were submitted. -/
def submissions (s : FaultyStore σ V) : Nat := s.journal.length

/-- The last batch that was stored, empty before the first. -/
def lastStored (s : FaultyStore σ V) : List (Record V) :=
  match s.journal.reverse.find? Submission.stored with
  | some submission => submission.batch
  | none => []

end FaultyStore

end TraceTally
