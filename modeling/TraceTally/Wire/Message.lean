import TraceTally.Binary64.Basic
import TraceTally.Event
import TraceTally.Selection
import TraceTally.Wire.Field

/-!
# Messages

A format says which fields a value is written as, in the order of their numbers, and how a field that
is read changes a value. A field that equals its default is not written, and `-0` counts as the
default of numbers; an optional text is written whenever it is given. Of a repeated field the last one
wins, elements of lists are collected, and unknown fields change nothing. A known field whose value
has another shape, or a text that is not UTF-8, spoils the message.
-/

namespace TraceTally.Wire

open Text (Bytes)

structure Format (α : Type) where
  empty : α
  fields : α → List Field
  /-- The value after one more field; `limit` is how deep messages and groups within it may nest. -/
  merge (limit : Nat) : α → Field → Option α

namespace Format

variable {α : Type}

def encode (f : Format α) (a : α) : Bytes := (f.fields a).flatMap Field.write

def read? (f : Format α) (limit : Nat) (bytes : Bytes) : Option α :=
  (readFields? limit bytes).bind fun fields => fields.foldlM (f.merge (limit - 1)) f.empty

/-- How deep messages and groups may nest. -/
def maxDepth : Nat := 100

def decode? (f : Format α) (bytes : Bytes) : Option α := f.read? maxDepth bytes

end Format

def Payload.text? : Payload → Option String
  | .bytes content => (Text.ofUtf8? content).map String.ofList
  | _ => none

def Payload.double? : Payload → Option Binary64
  | .fixed64 n => some ⟨UInt64.ofNat n⟩
  | _ => none

def Payload.count? : Payload → Option UInt64
  | .varint n => some (UInt64.ofNat n)
  | _ => none

def Payload.message? {α : Type} (f : Format α) (limit : Nat) : Payload → Option α
  | .bytes content => f.read? limit content
  | _ => none

def optionalText (number : Nat) (s : Option String) : List Field :=
  match s with
  | none => []
  | some s => [⟨number, .bytes (Text.utf8 s.toList)⟩]

def text (number : Nat) (s : String) : List Field :=
  optionalText number (if s.isEmpty then none else some s)

def double (number : Nat) (x : Binary64) : List Field :=
  if x.isZero then [] else [⟨number, .fixed64 x.bits.toNat⟩]

def count (number : Nat) (n : UInt64) : List Field :=
  if n = 0 then [] else [⟨number, .varint n.toNat⟩]

def messages {α : Type} (f : Format α) (number : Nat) (as : List α) : List Field :=
  as.map fun a => ⟨number, .bytes (f.encode a)⟩

/-- A list as the only content of a message. -/
def listOf {α : Type} (f : Format α) : Format (List α) where
  empty := []
  fields := messages f 1
  merge limit as field :=
    match field.number with
    | 1 => (field.payload.message? f limit).map fun a => as ++ [a]
    | _ => some as

/-- The format of values that are sent as the messages of another: they are made into messages to be
written, and made from the messages that are read. -/
def Format.sentAs {α β : Type} (f : Format α) (toMessage : β → α) (ofMessage : α → β) : Format β where
  empty := ofMessage f.empty
  fields b := f.fields (toMessage b)
  merge limit b field := (f.merge limit (toMessage b) field).map ofMessage

/-- An event as the schema has it. -/
structure EventMessage where
  name : String
  value : Binary64
  unit : String
  deriving DecidableEq, Repr

/-- An entry as the schema has it. -/
structure EntryMessage where
  origin : String
  traceId : String
  events : List EventMessage
  deriving DecidableEq, Repr

namespace EventMessage

def ofEvent (e : Event Binary64) : EventMessage where
  name := e.name
  value := e.value
  unit := e.unit

def toEvent (m : EventMessage) : Event Binary64 where
  name := m.name
  value := m.value
  unit := m.unit

@[simp] theorem toEvent_ofEvent (e : Event Binary64) : (ofEvent e).toEvent = e := rfl

@[simp] theorem ofEvent_toEvent (m : EventMessage) : ofEvent m.toEvent = m := rfl

end EventMessage

namespace EntryMessage

def ofEntry (e : Entry Binary64) : EntryMessage where
  origin := e.origin
  traceId := e.traceId
  events := e.events.map .ofEvent

def toEntry (m : EntryMessage) : Entry Binary64 where
  origin := m.origin
  traceId := m.traceId
  events := m.events.map EventMessage.toEvent

@[simp] theorem toEntry_ofEntry (e : Entry Binary64) : (ofEntry e).toEntry = e := by
  simp [toEntry, ofEntry, Function.comp_def]

@[simp] theorem ofEntry_toEntry (m : EntryMessage) : ofEntry m.toEntry = m := by
  simp [toEntry, ofEntry, Function.comp_def]

end EntryMessage

def eventMessage : Format EventMessage where
  empty := ⟨"", Binary64.zero false, ""⟩
  fields m := text 1 m.name ++ double 2 m.value ++ text 3 m.unit
  merge _ m field :=
    match field.number with
    | 1 => field.payload.text?.map fun name => { m with name }
    | 2 => field.payload.double?.map fun value => { m with value }
    | 3 => field.payload.text?.map fun unit => { m with unit }
    | _ => some m

def entryMessage : Format EntryMessage where
  empty := ⟨"", "", []⟩
  fields m := text 1 m.origin ++ text 2 m.traceId ++ messages eventMessage 3 m.events
  merge limit m field :=
    match field.number with
    | 1 => field.payload.text?.map fun origin => { m with origin }
    | 2 => field.payload.text?.map fun traceId => { m with traceId }
    | 3 => (field.payload.message? eventMessage limit).map fun x => { m with events := m.events ++ [x] }
    | _ => some m

def event : Format (Event Binary64) := eventMessage.sentAs .ofEvent EventMessage.toEvent

def entry : Format (Entry Binary64) := entryMessage.sentAs .ofEntry EntryMessage.toEntry

def insertRequest : Format (List (Entry Binary64)) :=
  (listOf entryMessage).sentAs (List.map .ofEntry) (List.map EntryMessage.toEntry)

def insertResponse : Format Unit where
  empty := ()
  fields _ := []
  merge _ _ _ := some ()

/-- A query and a removal select in the same way. -/
def selection : Format Selection where
  empty := {}
  fields s := optionalText 1 s.traceId ++ optionalText 2 s.origin ++ optionalText 3 s.event
  merge _ s field :=
    match field.number with
    | 1 => field.payload.text?.map fun t => { s with traceId := some t }
    | 2 => field.payload.text?.map fun t => { s with origin := some t }
    | 3 => field.payload.text?.map fun t => { s with event := some t }
    | _ => some s

def queryResponse : Format (List (Event Binary64)) :=
  (listOf eventMessage).sentAs (List.map .ofEvent) (List.map EventMessage.toEvent)

def deleteResponse : Format UInt64 where
  empty := 0
  fields n := count 1 n
  merge _ n field :=
    match field.number with
    | 1 => field.payload.count?
    | _ => some n

example : queryResponse.encode [⟨"n", Binary64.zero true, "u"⟩] = [10, 6, 10, 1, 110, 26, 1, 117] := by
  decide +kernel

end TraceTally.Wire
