import TraceTally.Proofs.TextOrder
import TraceTally.Proofs.WireGrammar
import TraceTally.Wire.Message

/-!
# What arrives of a message

A message is read as the value it was written for, but for the sign of zeros, which is lost. Fields that
the format does not know may stand anywhere between those of the message: reading passes over them.
-/

namespace TraceTally

/-- A zero arrives without its sign. -/
def Binary64.unsignedZero (x : Binary64) : Binary64 := if x.isZero then Binary64.zero false else x

def Event.unsignedZero (e : Event Binary64) : Event Binary64 := { e with value := e.value.unsignedZero }

def Entry.unsignedZeros (e : Entry Binary64) : Entry Binary64 :=
  { e with events := e.events.map Event.unsignedZero }

namespace Wire

def EventMessage.unsignedZero (m : EventMessage) : EventMessage :=
  { m with value := m.value.unsignedZero }

def EntryMessage.unsignedZeros (m : EntryMessage) : EntryMessage :=
  { m with events := m.events.map EventMessage.unsignedZero }

open Text (Bytes)

variable {α β : Type}

theorem foldlM_append_some {merge : β → Field → Option β} {fs gs : List Field} {b b' b'' : β}
    (first : fs.foldlM merge b = some b') (second : gs.foldlM merge b' = some b'') :
    (fs ++ gs).foldlM merge b = some b'' := by
  rw [List.foldlM_append, first]
  exact second

theorem text?_utf8 (s : String) : Payload.text? (.bytes (Text.utf8 s.toList)) = some s := by
  simp [Payload.text?, Text.ofUtf8?_utf8]

/-- What is not given is not written, so the value must have begun without it. -/
theorem foldlM_optionalText {merge : β → Field → Option β} {number : Nat}
    {put : β → Option String → β}
    (known : ∀ b payload, merge b ⟨number, payload⟩ = payload.text?.map fun t => put b (some t))
    {b : β} (unset : put b none = b) (s : Option String) :
    (optionalText number s).foldlM merge b = some (put b s) := by
  cases s with
  | none => exact congrArg some unset.symm
  | some s => simp [optionalText, known, text?_utf8]

theorem foldlM_text {merge : β → Field → Option β} {number : Nat} {put : β → String → β}
    (known : ∀ b payload, merge b ⟨number, payload⟩ = payload.text?.map (put b)) {b : β}
    (unset : put b "" = b) (s : String) : (text number s).foldlM merge b = some (put b s) := by
  have put_ := @foldlM_optionalText _ merge number (fun b s => s.elim b (put b)) known b rfl
  rw [text, put_]
  split
  · rename_i empty
    rw [String.isEmpty_iff.mp empty, unset]
    rfl
  · rfl

theorem foldlM_double {merge : β → Field → Option β} {number : Nat} {put : β → Binary64 → β}
    (known : ∀ b payload, merge b ⟨number, payload⟩ = payload.double?.map (put b)) {b : β}
    (unset : put b (Binary64.zero false) = b) (x : Binary64) :
    (double number x).foldlM merge b = some (put b x.unsignedZero) := by
  unfold double Binary64.unsignedZero
  split
  · rw [unset]
    rfl
  · simp [known, Payload.double?]

theorem foldlM_count {merge : β → Field → Option β} {number : Nat} {put : β → UInt64 → β}
    (known : ∀ b payload, merge b ⟨number, payload⟩ = payload.count?.map (put b)) {b : β}
    (unset : put b 0 = b) (n : UInt64) : (count number n).foldlM merge b = some (put b n) := by
  unfold count
  split
  · rename_i zero
    rw [zero, unset]
    rfl
  · simp [known, Payload.count?]

/-- Messages within a message are appended to those before them, each as it arrives. -/
theorem foldlM_messages {merge : β → Field → Option β} {number limit : Nat} {f : Format α}
    {put : List α → β} {arrived : α → α}
    (known : ∀ before payload, merge (put before) ⟨number, payload⟩ =
      (payload.message? f limit).map fun a => put (before ++ [a]))
    {as : List α} (read : ∀ a ∈ as, f.read? limit (f.encode a) = some (arrived a))
    (before : List α) :
    (messages f number as).foldlM merge (put before) = some (put (before ++ as.map arrived)) := by
  induction as generalizing before with
  | nil => simp [messages]
  | cons a as ih =>
    rw [List.forall_mem_cons] at read
    have first : merge (put before) ⟨number, .bytes (f.encode a)⟩ =
        some (put (before ++ [arrived a])) := by
      rw [known, Payload.message?, read.1]
      rfl
    have others := ih read.2 (before ++ [arrived a])
    rw [List.append_assoc] at others
    rw [messages, List.map_cons, List.foldlM_cons, first]
    exact others

/-- The numbers of the fields that a format knows: others leave a value as it is. -/
def Format.Knows (f : Format α) (numbers : List Nat) : Prop :=
  ∀ limit a field, field.number ∉ numbers → f.merge limit a field = some a

theorem Format.Knows.foldlM_filter {f : Format α} {numbers : List Nat} (knows : f.Knows numbers)
    (limit : Nat) (fields : List Field) (a : α) :
    (fields.filter fun field => numbers.contains field.number).foldlM (f.merge limit) a =
      fields.foldlM (f.merge limit) a := by
  induction fields generalizing a with
  | nil => rfl
  | cons field fields ih =>
    rw [List.filter_cons]
    split
    · simp only [List.foldlM_cons, ih]
    · rename_i unknown
      rw [List.contains_iff_mem] at unknown
      rw [List.foldlM_cons, knows limit a field unknown, ih]
      rfl

/-- Bytes that carry a value: the fields it is written as in their order, with any fields of other
numbers before, between and behind them. -/
def Format.Carries (f : Format α) (numbers : List Nat) (a : α) (bytes : Bytes) : Prop :=
  ∃ fields, WrittenFields fields bytes ∧
    (fields.filter fun field => numbers.contains field.number) = f.fields a

/-- How values of a format arrive, where messages may nest `depth` deep. -/
structure Format.Delivers (f : Format α) (numbers : List Nat) (depth : Nat) (arrived : α → α) :
    Prop where
  knows : f.Knows numbers
  /-- But for the length of texts and messages every field that is written fits. -/
  written : ∀ a, ∀ field ∈ f.fields a, field.number ∈ numbers ∧
    ((∃ content, field.payload = .bytes content) ∨ field.payload.Fits)
  fold : ∀ limit a, depth ≤ limit → (∀ field ∈ f.fields a, field.Fits) →
    (f.fields a).foldlM (f.merge (limit - 1)) f.empty = some (arrived a)

namespace Format.Delivers

variable {f : Format α} {numbers : List Nat} {depth : Nat} {arrived : α → α}

theorem read?_of_carries (delivers : f.Delivers numbers depth arrived) {limit : Nat}
    (room : 0 < limit) (deep : depth ≤ limit) {a : α} {bytes : Bytes}
    (carries : f.Carries numbers a bytes) : f.read? limit bytes = some (arrived a) := by
  obtain ⟨fields, written, own⟩ := carries
  have fits : ∀ field ∈ f.fields a, field.Fits := fun field mem =>
    written.fits field (List.mem_of_mem_filter (own ▸ mem))
  rw [Format.read?, readFields?_of_written room written, Option.bind_some,
    ← delivers.knows.foldlM_filter, own, delivers.fold limit a deep fits]

/-- A message that is not too long for its length to be written has no such field either. -/
theorem carries_encode (delivers : f.Delivers numbers depth arrived)
    (valid : ∀ number ∈ numbers, 0 < number ∧ number < 2 ^ 29) {a : α}
    (short : (f.encode a).length < 2 ^ 64) : f.Carries numbers a (f.encode a) := by
  refine ⟨f.fields a, writtenFields_write fun field mem => ?_, ?_⟩
  · obtain ⟨known, fits⟩ := delivers.written a field mem
    refine ⟨(valid _ known).1, (valid _ known).2, ?_⟩
    rcases fits with ⟨content, same⟩ | fits
    · obtain ⟨before, behind, around⟩ := List.append_of_mem mem
      have inside : content.length ≤ (f.encode a).length := by
        simp only [Format.encode, around, List.flatMap_append, List.flatMap_cons, Field.write, same,
          List.length_append]
        omega
      rw [same]
      exact Nat.lt_of_le_of_lt inside short
    · exact fits
  · rw [List.filter_eq_self]
    intro field mem
    exact List.contains_iff_mem.mpr (delivers.written a field mem).1

end Format.Delivers

theorem optionalText_written (number : Nat) (s : Option String) : ∀ field ∈ optionalText number s,
    field.number = number ∧ ∃ content, field.payload = .bytes content := by
  cases s <;> simp [optionalText]

theorem double_written (number : Nat) (x : Binary64) : ∀ field ∈ double number x,
    field.number = number ∧ field.payload.Fits := by
  unfold double
  split
  · exact List.forall_mem_nil _
  · exact List.forall_mem_singleton.mpr ⟨rfl, x.bits.toNat_lt⟩

theorem count_written (number : Nat) (n : UInt64) : ∀ field ∈ count number n,
    field.number = number ∧ field.payload.Fits := by
  unfold count
  split
  · exact List.forall_mem_nil _
  · exact List.forall_mem_singleton.mpr ⟨rfl, n.toNat_lt⟩

theorem messages_written (f : Format α) (number : Nat) (as : List α) :
    ∀ field ∈ messages f number as,
      field.number = number ∧ ∃ content, field.payload = .bytes content := by
  intro field mem
  obtain ⟨a, -, rfl⟩ := List.mem_map.mp mem
  exact ⟨rfl, _, rfl⟩

theorem eventMessage_delivers : eventMessage.Delivers [1, 2, 3] 1 EventMessage.unsignedZero where
  knows limit m field unknown := by
    dsimp only [eventMessage]
    split <;> simp_all
  written m field mem := by
    simp only [eventMessage, List.mem_append, text] at mem
    rcases mem with (mem | mem) | mem
    · obtain ⟨number, fits⟩ := optionalText_written _ _ field mem
      exact ⟨by simp [number], .inl fits⟩
    · obtain ⟨number, fits⟩ := double_written _ _ field mem
      exact ⟨by simp [number], .inr fits⟩
    · obtain ⟨number, fits⟩ := optionalText_written _ _ field mem
      exact ⟨by simp [number], .inl fits⟩
  fold limit m _ _ := by
    have name := @foldlM_text _ (eventMessage.merge (limit - 1)) 1 (fun m name => { m with name })
      (fun _ _ => rfl) eventMessage.empty rfl m.name
    have value := @foldlM_double _ (eventMessage.merge (limit - 1)) 2 (fun m value => { m with value })
      (fun _ _ => rfl) { eventMessage.empty with name := m.name } rfl m.value
    have unit := @foldlM_text _ (eventMessage.merge (limit - 1)) 3 (fun m unit => { m with unit })
      (fun _ _ => rfl) { eventMessage.empty with name := m.name, value := m.value.unsignedZero } rfl
      m.unit
    exact foldlM_append_some (foldlM_append_some name value) unit

theorem entryMessage_delivers : entryMessage.Delivers [1, 2, 3] 2 EntryMessage.unsignedZeros where
  knows limit m field unknown := by
    dsimp only [entryMessage]
    split <;> simp_all
  written m field mem := by
    simp only [entryMessage, List.mem_append, text] at mem
    rcases mem with (mem | mem) | mem
    · obtain ⟨number, fits⟩ := optionalText_written _ _ field mem
      exact ⟨by simp [number], .inl fits⟩
    · obtain ⟨number, fits⟩ := optionalText_written _ _ field mem
      exact ⟨by simp [number], .inl fits⟩
    · obtain ⟨number, fits⟩ := messages_written _ _ _ field mem
      exact ⟨by simp [number], .inl fits⟩
  fold limit m deep fits := by
    have read : ∀ x ∈ m.events,
        eventMessage.read? (limit - 1) (eventMessage.encode x) = some x.unsignedZero := by
      intro x mem
      have inEntry := List.mem_append_right (text 1 m.origin ++ text 2 m.traceId)
        (List.mem_map_of_mem (f := fun x => (⟨3, .bytes (eventMessage.encode x)⟩ : Field)) mem)
      exact eventMessage_delivers.read?_of_carries (by omega) (by omega)
        (eventMessage_delivers.carries_encode (by decide) (fits _ inEntry).payload)
    have origin := @foldlM_text _ (entryMessage.merge (limit - 1)) 1 (fun m origin => { m with origin })
      (fun _ _ => rfl) entryMessage.empty rfl m.origin
    have traceId := @foldlM_text _ (entryMessage.merge (limit - 1)) 2 (fun m traceId => { m with traceId })
      (fun _ _ => rfl) { entryMessage.empty with origin := m.origin } rfl m.traceId
    have events := @foldlM_messages _ _ (entryMessage.merge (limit - 1)) 3 (limit - 1) eventMessage
      (fun events => ⟨m.origin, m.traceId, events⟩) EventMessage.unsignedZero (fun _ _ => rfl) m.events
      read []
    exact foldlM_append_some (foldlM_append_some origin traceId) events

theorem listOf_delivers {f : Format α} {numbers : List Nat} {depth : Nat} {arrived : α → α}
    (delivers : f.Delivers numbers depth arrived) (positive : 0 < depth)
    (valid : ∀ number ∈ numbers, 0 < number ∧ number < 2 ^ 29) :
    (listOf f).Delivers [1] (depth + 1) (List.map arrived) where
  knows limit as field unknown := by
    dsimp only [listOf]
    split <;> simp_all
  written as field mem := by
    obtain ⟨number, fits⟩ := messages_written _ _ _ field mem
    exact ⟨by simp [number], .inl fits⟩
  fold limit as deep fits := by
    have read : ∀ a ∈ as, f.read? (limit - 1) (f.encode a) = some (arrived a) := by
      intro a mem
      have inList := List.mem_map_of_mem (f := fun a => (⟨1, .bytes (f.encode a)⟩ : Field)) mem
      exact delivers.read?_of_carries (by omega) (by omega)
        (delivers.carries_encode valid (fits _ inList).payload)
    exact @foldlM_messages _ _ ((listOf f).merge (limit - 1)) 1 (limit - 1) f id arrived
      (fun _ _ => rfl) as read []

theorem selection_delivers : selection.Delivers [1, 2, 3] 1 id where
  knows limit s field unknown := by
    dsimp only [selection]
    split <;> simp_all
  written s field mem := by
    simp only [selection, List.mem_append] at mem
    rcases mem with (mem | mem) | mem <;>
      obtain ⟨number, fits⟩ := optionalText_written _ _ field mem <;>
      exact ⟨by simp [number], .inl fits⟩
  fold limit s _ _ := by
    have traceId := @foldlM_optionalText _ (selection.merge (limit - 1)) 1
      (fun s traceId => { s with traceId }) (fun _ _ => rfl) {} rfl s.traceId
    have origin := @foldlM_optionalText _ (selection.merge (limit - 1)) 2
      (fun s origin => { s with origin }) (fun _ _ => rfl) { traceId := s.traceId } rfl s.origin
    have event := @foldlM_optionalText _ (selection.merge (limit - 1)) 3
      (fun s event => { s with event }) (fun _ _ => rfl)
      { traceId := s.traceId, origin := s.origin } rfl s.event
    exact foldlM_append_some (foldlM_append_some traceId origin) event

theorem deleteResponse_delivers : deleteResponse.Delivers [1] 1 id where
  knows limit n field unknown := by
    dsimp only [deleteResponse]
    split <;> simp_all
  written n field mem := by
    obtain ⟨number, fits⟩ := count_written _ _ field mem
    exact ⟨by simp [number], .inr fits⟩
  fold limit n _ _ := @foldlM_count _ (deleteResponse.merge (limit - 1)) 1 (fun _ n => n)
    (fun _ payload => by cases payload <;> rfl) 0 rfl n

section

variable {f : Format α} {toMessage : β → α} {ofMessage : α → β}

theorem merge_sentAs (limit : Nat) (b : β) (field : Field) :
    (f.sentAs toMessage ofMessage).merge limit b field =
      (f.merge limit (toMessage b) field).map ofMessage := rfl

theorem foldlM_sentAs (whole : ∀ a, toMessage (ofMessage a) = a) (limit : Nat) (fields : List Field)
    (a : α) : fields.foldlM ((f.sentAs toMessage ofMessage).merge limit) (ofMessage a) =
      (fields.foldlM (f.merge limit) a).map ofMessage := by
  induction fields generalizing a with
  | nil => rfl
  | cons field fields ih =>
    rw [List.foldlM_cons, List.foldlM_cons, merge_sentAs, whole]
    cases f.merge limit a field with
    | none => rfl
    | some b => exact ih b

/-- What is read is a message, from which the value is made. -/
theorem decode?_sentAs (whole : ∀ a, toMessage (ofMessage a) = a) (bytes : Bytes) :
    (f.sentAs toMessage ofMessage).decode? bytes = (f.decode? bytes).map ofMessage := by
  rw [Format.decode?, Format.decode?, Format.read?, Format.read?]
  cases readFields? Format.maxDepth bytes with
  | none => rfl
  | some fields => exact foldlM_sentAs whole _ fields f.empty

/-- Values arrive as their messages do, if each is made from its own message. -/
theorem Format.Delivers.sentAs {numbers : List Nat} {depth : Nat} {arrived : α → α}
    (delivers : f.Delivers numbers depth arrived) (toMessage : β → α) (ofMessage : α → β)
    (whole : ∀ a, toMessage (ofMessage a) = a) (back : ∀ b, ofMessage (toMessage b) = b) :
    (f.sentAs toMessage ofMessage).Delivers numbers depth fun b =>
      ofMessage (arrived (toMessage b)) where
  knows limit b field unknown := by
    rw [merge_sentAs, delivers.knows limit _ field unknown, Option.map_some, back]
  written b := delivers.written (toMessage b)
  fold limit b deep fits := by
    have read := delivers.fold limit (toMessage b) deep fits
    exact (foldlM_sentAs whole _ _ f.empty).trans (congrArg (Option.map ofMessage) read)

end

theorem map_toEntry_unsignedZeros (entries : List (Entry Binary64)) :
    ((entries.map EntryMessage.ofEntry).map EntryMessage.unsignedZeros).map EntryMessage.toEntry =
      entries.map Entry.unsignedZeros := by
  simp [EntryMessage.unsignedZeros, EntryMessage.toEntry, EntryMessage.ofEntry, Entry.unsignedZeros,
    EventMessage.unsignedZero, EventMessage.toEvent, EventMessage.ofEvent, Event.unsignedZero,
    Function.comp_def]

theorem map_toEvent_unsignedZero (events : List (Event Binary64)) :
    ((events.map EventMessage.ofEvent).map EventMessage.unsignedZero).map EventMessage.toEvent =
      events.map Event.unsignedZero := by
  simp [EventMessage.unsignedZero, EventMessage.toEvent, EventMessage.ofEvent, Event.unsignedZero,
    Function.comp_def]

/-- Every value of a format arrives: as it is written, and in any bytes that carry it. A message of
2 ^ 64 bytes has parts whose length cannot be written. -/
structure Format.Arrives (f : Format α) (numbers : List Nat) (arrived : α → α) : Prop where
  encoded : ∀ a, (f.encode a).length < 2 ^ 64 → f.decode? (f.encode a) = some (arrived a)
  carried : ∀ a bytes, f.Carries numbers a bytes → f.decode? bytes = some (arrived a)

theorem Format.Delivers.arrives {f : Format α} {numbers : List Nat} {depth : Nat} {arrived : α → α}
    (delivers : f.Delivers numbers depth arrived) (shallow : depth ≤ Format.maxDepth)
    (valid : ∀ number ∈ numbers, 0 < number ∧ number < 2 ^ 29) : f.Arrives numbers arrived where
  encoded _ short := delivers.read?_of_carries (by decide) shallow (delivers.carries_encode valid short)
  carried _ _ carries := delivers.read?_of_carries (by decide) shallow carries

/-- Entries and events arrive bit for bit but for the sign of zeros, a selection arrives as it is with
what is absent, empty and given told apart, and so does every number of rows; fields that a message
does not know change nothing. -/
theorem messages_arrive :
    insertRequest.Arrives [1] (List.map Entry.unsignedZeros) ∧
    queryResponse.Arrives [1] (List.map Event.unsignedZero) ∧
    selection.Arrives [1, 2, 3] id ∧
    deleteResponse.Arrives [1] id := by
  have numbers : ∀ number ∈ [1, 2, 3], 0 < number ∧ number < 2 ^ 29 := by decide
  have one : ∀ number ∈ [1], 0 < number ∧ number < 2 ^ 29 := by decide
  have entries := (listOf_delivers entryMessage_delivers (by decide) numbers).sentAs
    (List.map EntryMessage.ofEntry) (List.map EntryMessage.toEntry) (by simp [Function.comp_def])
    (by simp [Function.comp_def])
  have events := (listOf_delivers eventMessage_delivers (by decide) numbers).sentAs
    (List.map EventMessage.ofEvent) (List.map EventMessage.toEvent) (by simp [Function.comp_def])
    (by simp [Function.comp_def])
  simp only [map_toEntry_unsignedZeros] at entries
  simp only [map_toEvent_unsignedZero] at events
  exact ⟨entries.arrives (by decide) one, events.arrives (by decide) one,
    selection_delivers.arrives (by decide) numbers, deleteResponse_delivers.arrives (by decide) one⟩

/-- A signalling NaN with a payload, a negative zero, and a field from a later version of the format. -/
theorem messages_arrive_laterVersion :
    let nan : Binary64 := ⟨0xFFF0000000000123⟩
    let sent : Entry Binary64 := ⟨"o", "é", [⟨"a", nan, ""⟩, ⟨"", Binary64.zero true, "u"⟩]⟩
    let later : Field := ⟨7, .bytes [1, 2, 3]⟩
    insertRequest.decode? (insertRequest.encode [sent]) =
      some [⟨"o", "é", [⟨"a", nan, ""⟩, ⟨"", Binary64.zero false, "u"⟩]⟩] ∧
    insertRequest.decode? (later.write ++ insertRequest.encode [sent]) =
      insertRequest.decode? (insertRequest.encode [sent]) := by
  intro nan sent later
  have short : (insertRequest.encode [sent]).length < 2 ^ 64 := by decide +kernel
  have arrived : [sent].map Entry.unsignedZeros =
      [⟨"o", "é", [⟨"a", nan, ""⟩, ⟨"", Binary64.zero false, "u"⟩]⟩] := by decide +kernel
  have read := messages_arrive.1.encoded [sent] short
  have fits : ∀ f ∈ later :: insertRequest.fields [sent], f.Fits := by
    refine List.forall_mem_cons.mpr ⟨⟨by decide, by decide, (by decide : 3 < 2 ^ 64)⟩, ?_⟩
    intro f mem
    obtain rfl := List.mem_singleton.mp mem
    exact ⟨by decide, by decide, (by decide +kernel : (entry.encode sent).length < 2 ^ 64)⟩
  have carried := messages_arrive.1.carried [sent] _ ⟨_, writtenFields_write fits, rfl⟩
  rw [arrived] at read
  exact ⟨read, (carried.trans (congrArg some arrived)).trans read.symm⟩

end Wire

end TraceTally
