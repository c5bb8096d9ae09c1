import TraceTally.Event
import TraceTally.Json.Basic
import TraceTally.Json.Schema

/-!
# Events, entries and filters as JSON

Each is an object with a member per field. The events of an entry may be left out for none, and so may
every field of a filter, where `null` says the same.
-/

namespace TraceTally

open Json (Schema Slot)

def Event.json (e : Event Binary64) : Json :=
  .object [("name", .string e.name), ("value", .number e.value), ("unit", .string e.unit)]

def Entry.json (e : Entry Binary64) : Json :=
  .object [("origin", .string e.origin), ("trace_id", .string e.traceId),
    ("events", .list (e.events.map Event.json))]

def Filter.json (f : Filter) : Json :=
  let member (s : Option String) : Json := s.elim .null .string
  .object [("trace_id", member f.traceId), ("origin", member f.origin),
    ("event_name", member f.eventName)]

/-- A value read by `r` and put into a record. -/
def Json.into {α β : Type} (r : Json.Reader β) (put : β → α) : Json.Reader α := fun c =>
  (r c).map fun (b, c) => (put b, c)

def Event.schema : Schema (Event Binary64) where
  label := "struct Event"
  blank := ⟨"", Binary64.zero false, ""⟩
  slots := [
    { name := "name", read := fun e => Json.into Json.readText fun name => { e with name } },
    { name := "value", read := fun e => Json.into Json.readDouble fun value => { e with value } },
    { name := "unit", read := fun e => Json.into Json.readText fun unit => { e with unit } }]

def Entry.schema : Schema (Entry Binary64) where
  label := "struct Entry"
  blank := ⟨"", "", []⟩
  slots := [
    { name := "origin", read := fun e => Json.into Json.readText fun origin => { e with origin } },
    { name := "trace_id", read := fun e => Json.into Json.readText fun traceId => { e with traceId } },
    { name := "events", optional := true
      read := fun e => Json.into (Json.readList Event.schema.read) fun events => { e with events } }]

def Filter.schema : Schema Filter where
  label := "struct Filter"
  blank := {}
  slots := [
    { name := "trace_id", optional := true
      read := fun f => Json.into (Json.readOptional Json.readText) fun traceId => { f with traceId } },
    { name := "origin", optional := true
      read := fun f => Json.into (Json.readOptional Json.readText) fun origin => { f with origin } },
    { name := "event_name", optional := true
      read := fun f => Json.into (Json.readOptional Json.readText) fun eventName => { f with eventName } }]

def Event.ofJson (text : String) : Except Json.Error (Event Binary64) :=
  Json.readAll Event.schema.read text.toList

def Entry.ofJson (text : String) : Except Json.Error (Entry Binary64) :=
  Json.readAll Entry.schema.read text.toList

def Filter.ofJson (text : String) : Except Json.Error Filter :=
  Json.readAll Filter.schema.read text.toList

/-- The content of a file of entries. -/
def Entry.listOfJson (text : String) : Except Json.Error (List (Entry Binary64)) :=
  Json.readAll (Json.readList Entry.schema.read) text.toList

end TraceTally
