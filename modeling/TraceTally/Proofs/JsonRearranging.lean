import Mathlib.Data.List.Pairwise
import TraceTally.Json.Record
import TraceTally.Proofs.JsonRecords

/-!
# Members in another order, and members that are no fields

A record whose slots do not touch each other's fields comes out the same whatever the order of its
members, and members that it has no slot for change nothing. A field's value may also have another text
that the field's reader takes for the same.
-/

namespace TraceTally.Json

variable {α β γ : Type}

/-- The reader makes the same of both texts, if it accepts one of them. -/
def Alike (r : Reader β) (v w : List Char) : Prop := ∀ x, outcome r v = .ok x ↔ outcome r w = .ok x

theorem bind_eq_ok_iff {x : Except Cause α} {next : α → Except Cause β} {y : β} :
    (x >>= next) = .ok y ↔ ∃ a, x = .ok a ∧ next a = .ok y := by
  cases x <;> simp [bind, Except.bind]

theorem map_eq_ok_iff {x : Except Cause α} {f : α → β} {y : β} :
    x.map f = .ok y ↔ ∃ a, x = .ok a ∧ f a = y := by
  cases x <;> simp [Except.map]

theorem Yields.into {r : Reader α} {v : List Char} {o : Except Cause α} (yields : Yields r v o)
    (put : α → β) : Yields (into r put) v (o.map put) :=
  fun c b rest blank stops here => (yields c b rest blank stops here).map put

theorem outcome_into (r : Reader α) (put : α → β) (v : List Char) :
    outcome (into r put) v = (outcome r v).map put := by
  rw [outcome, outcome, Json.into]
  cases r ⟨v, {}⟩ <;> rfl

theorem Settles.into {r : Reader α} {v : List Char} (settles : Settles r v) (put : α → β) :
    Settles (into r put) v := Yields.settles (Yields.into settles put)

/-- Reading one field and then another, the record may get the other's value first. -/
def Precedes (t u : Slot α) : Prop :=
  ∀ (a b d : α) (v w : List Char), outcome (t.read a) v = .ok b → outcome (u.read b) w = .ok d →
    ∃ b', outcome (u.read a) w = .ok b' ∧ outcome (t.read b') v = .ok d

/-- Reading either field does not bear on reading the other. -/
def Apart (t u : Slot α) : Prop := Precedes t u ∧ Precedes u t

instance : Std.Symm (@Apart α) := ⟨fun _ _ apart => ⟨apart.2, apart.1⟩⟩

section

variable {t u : Slot α} {r : Reader β} {r' : Reader γ} (put : α → β → α) (put' : α → γ → α)
  (first : ∀ a, t.read a = into r (put a)) (second : ∀ a, u.read a = into r' (put' a))
  (swap : ∀ a x y, put' (put a x) y = put (put' a y) x)

include first second swap

theorem precedes_of_put : Precedes t u := by
  intro a b d v w read read'
  rw [first, outcome_into, map_eq_ok_iff] at read
  rw [second, outcome_into, map_eq_ok_iff] at read'
  obtain ⟨x, value, rfl⟩ := read
  obtain ⟨y, value', rfl⟩ := read'
  refine ⟨put' a y, ?_, ?_⟩
  · rw [second, outcome_into, value']
    rfl
  · rw [first, outcome_into, value, swap]
    rfl

theorem apart_of_put : Apart t u :=
  ⟨precedes_of_put put put' first second swap,
    precedes_of_put put' put second first fun a y x => (swap a x y).symm⟩

end

namespace Schema

variable {s : Schema α} {seen seen' : List String} {a b d : α} {m n : Member}
  {ms ms' : List Member}

/-- What one member does to the fields seen and to the record. -/
inductive Admits (s : Schema α) (m : Member) : List String → α → List String → α → Prop where
  | skipped {seen : List String} {a : α} {name : List Char} (named : StringUnit.decode m.name = .ok name)
      (unknown : s.slot? (String.ofList name) = none) : Admits s m seen a seen a
  | read {seen : List String} {a b : α} {name : List Char} {t : Slot α}
      (named : StringUnit.decode m.name = .ok name) (known : s.slot? (String.ofList name) = some t)
      (fresh : String.ofList name ∉ seen) (value : outcome (t.read a) m.part.value = .ok b) :
      Admits s m seen a (String.ofList name :: seen) b

inductive Fills (s : Schema α) : List String → α → List Member → α → Prop where
  | nil {seen : List String} {a : α} (complete : s.missing? seen = none) : Fills s seen a [] a
  | cons {seen seen' : List String} {a b d : α} {m : Member} {ms : List Member}
      (admits : s.Admits m seen a seen' b) (fills : Fills s seen' b ms d) : Fills s seen a (m :: ms) d

theorem assemble_eq_ok_iff : s.assemble seen a ms = .ok d ↔ s.Fills seen a ms d := by
  constructor
  · intro assembled
    induction ms generalizing seen a with
    | nil =>
      rw [assemble] at assembled
      split at assembled
      · cases assembled
      · cases assembled
        exact .nil ‹_›
    | cons m ms ih =>
      rw [assemble] at assembled
      cases named : StringUnit.decode m.name with
      | error cause =>
        rw [named] at assembled
        cases assembled
      | ok name =>
        simp only [named, bind, Except.bind] at assembled
        cases known : s.slot? (String.ofList name) with
        | none =>
          rw [known] at assembled
          exact .cons (.skipped named known) (ih assembled)
        | some t =>
          simp only [known] at assembled
          split at assembled
          · cases assembled
          · rename_i fresh
            cases value : outcome (t.read a) m.part.value with
            | error cause =>
              rw [value] at assembled
              cases assembled
            | ok b =>
              rw [value] at assembled
              exact .cons (.read named known (by simpa using fresh) value) (ih assembled)
  · intro fills
    induction fills with
    | nil complete => rw [assemble, complete]
    | cons admits _ ih =>
      rw [assemble]
      cases admits with
      | skipped named unknown => simp only [named, bind, Except.bind, unknown, ih]
      | read named known fresh value =>
        simp only [named, bind, Except.bind, known, List.contains_iff_mem, fresh, if_false, value, ih]

def fields (s : Schema α) : List String := s.slots.map Slot.name

def Independent (s : Schema α) : Prop := s.slots.Pairwise Apart

theorem Independent.three {t u w : Slot α} (slots : s.slots = [t, u, w]) (first : Apart t u)
    (second : Apart t w) (third : Apart u w) : s.Independent := by
  rw [Independent, slots]
  simp [first, second, third]

theorem Independent.precedes {t u : Slot α} (independent : s.Independent) (ht : t ∈ s.slots)
    (hu : u ∈ s.slots) (names : t.name ≠ u.name) : Precedes t u :=
  (independent.forall ht hu fun same => names (congrArg Slot.name same)).1

theorem missing?_perm (same : seen.Perm seen') : s.missing? seen = s.missing? seen' := by
  have contains (name : String) : seen.contains name = seen'.contains name := by
    rw [Bool.eq_iff_iff, List.contains_iff_mem, List.contains_iff_mem]
    exact same.mem_iff
  simp only [missing?, contains]

theorem Fills.seen_perm (fills : s.Fills seen a ms d) (same : seen.Perm seen') :
    s.Fills seen' a ms d := by
  induction fills generalizing seen' with
  | nil complete => exact .nil (by rwa [← missing?_perm same])
  | cons admits _ ih =>
    cases admits with
    | skipped named unknown => exact .cons (.skipped named unknown) (ih same)
    | read named known fresh value =>
      exact .cons (.read named known (fun mem => fresh (same.mem_iff.mpr mem)) value) (ih (same.cons _))

theorem name_of_slot? {name : String} {t : Slot α} (known : s.slot? name = some t) : t.name = name := by
  simpa using List.find?_some known

theorem Fills.swap (independent : s.Independent) (fills : s.Fills seen a (m :: n :: ms) d) :
    s.Fills seen a (n :: m :: ms) d := by
  obtain _ | ⟨first, _ | ⟨second, fills⟩⟩ := fills
  cases first with
  | skipped named unknown =>
    cases second with
    | skipped named' unknown' =>
      exact .cons (.skipped named' unknown') (.cons (.skipped named unknown) fills)
    | read named' known' fresh' value' =>
      exact .cons (.read named' known' fresh' value') (.cons (.skipped named unknown) fills)
  | @read _ name t named known fresh value =>
    cases second with
    | skipped named' unknown' =>
      exact .cons (.skipped named' unknown') (.cons (.read named known fresh value) fills)
    | @read _ name' t' named' known' fresh' value' =>
      have apart : String.ofList name ≠ String.ofList name' := by
        intro same
        exact fresh' (same ▸ List.mem_cons_self)
      obtain ⟨b', earlier, later⟩ := independent.precedes (mem_of_slot? known) (mem_of_slot? known')
        (by rwa [name_of_slot? known, name_of_slot? known']) _ _ _ _ _ value value'
      refine .cons (.read named' known' (fun mem => fresh' (List.mem_cons_of_mem _ mem)) earlier) ?_
      refine .cons (.read named known ?_ later) (fills.seen_perm (.swap _ _ _))
      intro mem
      rcases List.mem_cons.mp mem with same | mem
      · exact apart same
      · exact fresh mem

theorem Fills.perm (independent : s.Independent) (same : ms.Perm ms') (fills : s.Fills seen a ms d) :
    s.Fills seen a ms' d := by
  induction same generalizing seen a with
  | nil => exact fills
  | cons m _ ih =>
    cases fills with
    | cons admits fills => exact .cons admits (ih fills)
  | swap m n ms => exact fills.swap independent
  | trans _ _ ih₁ ih₂ => exact ih₂ (ih₁ fills)

theorem fills_unknown {name : List Char} (named : StringUnit.decode m.name = .ok name)
    (unknown : s.slot? (String.ofList name) = none) :
    s.Fills seen a (m :: ms) d ↔ s.Fills seen a ms d := by
  constructor
  · intro fills
    cases fills with
    | cons admits fills =>
      cases admits with
      | skipped => exact fills
      | read named' known =>
        cases named.symm.trans named'
        cases unknown.symm.trans known
  · exact .cons (.skipped named unknown)

theorem Fills.inside {name v : List Char} (named : StringUnit.decode m.name = .ok name)
    (alike : ∀ t, s.slot? (String.ofList name) = some t → ∀ a, Alike (t.read a) m.part.value v)
    (fills : s.Fills seen a (m :: ms) d) :
    s.Fills seen a (m.withValue v :: ms) d := by
  cases fills with
  | cons admits fills =>
    cases admits with
    | skipped named unknown => exact .cons (.skipped named unknown) fills
    | read named' known fresh value =>
      cases named.symm.trans named'
      exact .cons (.read named known fresh ((alike _ known _ _).mp value)) fills

end Schema

structure Member.Valid (m : Member) : Prop extends m.Spaced where
  value : ValueText m.part.value

/-- The members in another order, with more of them that are no fields, and with other texts for some
values of fields. -/
inductive Rearranged (fields : List String) (other : String → List Char → List Char → Prop) :
    List Member → List Member → Prop where
  | order {ms ms' : List Member} (same : ms.Perm ms') : Rearranged fields other ms ms'
  | more {ms : List Member} {m : Member} {name : List Char} (valid : m.Valid)
      (named : StringUnit.decode m.name = .ok name) (unknown : String.ofList name ∉ fields) :
      Rearranged fields other ms (m :: ms)
  | inside {ms : List Member} {m : Member} {name v : List Char}
      (named : StringUnit.decode m.name = .ok name) (alike : other (String.ofList name) m.part.value v) :
      Rearranged fields other (m :: ms) (m.withValue v :: ms)
  | trans {ms ms' ms'' : List Member} (first : Rearranged fields other ms ms')
      (second : Rearranged fields other ms' ms'') : Rearranged fields other ms ms''

namespace Rearranged

variable {fields : List String} {other : String → List Char → List Char → Prop} {ms ms' : List Member}

theorem valid (rearranged : Rearranged fields other ms ms')
    (values : ∀ name v w, other name v w → ValueText w) (valid : ∀ m ∈ ms, m.Valid) :
    ∀ m ∈ ms', m.Valid := by
  induction rearranged with
  | order same => exact fun m mem => valid m (same.mem_iff.mpr mem)
  | more added => exact List.forall_mem_cons.mpr ⟨added, valid⟩
  | inside named alike =>
    obtain ⟨own, others⟩ := List.forall_mem_cons.mp valid
    exact List.forall_mem_cons.mpr ⟨⟨own.withValue _, values _ _ _ alike⟩, others⟩
  | trans _ _ ih₁ ih₂ => exact ih₂ (ih₁ valid)

theorem fills_iff {s : Schema α} (independent : s.Independent)
    (alike : ∀ name t, s.slot? name = some t → ∀ v w, other name v w →
      ∀ a, Alike (t.read a) v w)
    (rearranged : Rearranged s.fields other ms ms') {seen : List String} {a d : α} :
    s.Fills seen a ms d ↔ s.Fills seen a ms' d := by
  induction rearranged generalizing seen a with
  | order same => exact ⟨.perm independent same, .perm independent same.symm⟩
  | more _ named unknown =>
    refine (Schema.fills_unknown named ?_).symm
    rw [Schema.slot?, List.find?_eq_none]
    intro t mem same
    exact unknown (List.mem_map.mpr ⟨t, mem, by simpa using same⟩)
  | @inside _ m _ v named within =>
    constructor
    · exact .inside named fun t known a => alike _ t known _ _ within a
    · exact Schema.Fills.inside (m := m.withValue v) (v := m.part.value) named
        fun t known a x => (alike _ t known _ _ within a x).symm
  | trans _ _ ih₁ ih₂ => exact ih₁.trans ih₂

end Rearranged

namespace Alike

variable {item : Reader α} {v w : List Char}

theorem refl (r : Reader α) (v : List Char) : Alike r v v := fun _ => .rfl

theorem into (alike : Alike item v w) (put : α → β) : Alike (into item put) v w := by
  intro x
  rw [outcome_into, outcome_into, map_eq_ok_iff, map_eq_ok_iff]
  exact exists_congr fun a => and_congr_left' (alike a)

/-- Lists are alike if their elements are. -/
theorem list {blanks : List Char} {changes : List (Part × List Char)} (blank : Blanks blanks)
    (spaced : ∀ x ∈ changes, x.1.Spaced) (values : ∀ x ∈ changes, ValueText x.1.value)
    (values' : ∀ x ∈ changes, ValueText x.2) (settles : ∀ u, ValueText u → Settles item u)
    (each : ∀ x ∈ changes, Alike item x.1.value x.2) :
    Alike (readList item) (listText blanks (changes.map Prod.fst))
      (listText blanks (changes.map fun x => x.1.withValue x.2)) := by
  have read {f : Part × List Char → Part} (spaced : ∀ x ∈ changes, (f x).Spaced)
      (values : ∀ x ∈ changes, ValueText (f x).value) :
      outcome (readList item) (listText blanks (changes.map f)) =
        changes.mapM fun x => outcome item (f x).value := by
    have ends := @readList_list _ item (changes.map f) (List.forall_mem_map.mpr spaced)
      (List.forall_mem_map.mpr values)
      (List.forall_mem_map.mpr fun x mem => settles _ (values x mem)) _ blank
    rw [ends.outcome_eq, List.mapM_map]
    rfl
  intro xs
  rw [read spaced values, read (fun x mem => (spaced x mem).withValue x.2) values']
  clear read spaced values values'
  induction changes generalizing xs with
  | nil => exact .rfl
  | cons x changes ih =>
    obtain ⟨first, others⟩ := List.forall_mem_cons.mp each
    have front : ∀ y, outcome item x.1.value = .ok y ↔ outcome item (x.1.withValue x.2).value = .ok y :=
      first
    simp only [List.mapM_cons, bind_eq_ok_iff, front, ih others]

theorem readAll_iff {b b' a a' : List Char} (alike : Alike item v w) (first : Settles item v)
    (second : Settles item w) (before : Blanks b) (before' : Blanks b') (after : Blanks a)
    (after' : Blanks a') (x : α) :
    readAll item (b ++ (v ++ a)) = .ok x ↔ readAll item (b' ++ (w ++ a')) = .ok x := by
  rw [readAll_ok_iff first before after, readAll_ok_iff second before' after']
  exact alike x

end Alike

theorem ValueText.ofMembers {blanks : List Char} {ms : List Member} (blank : Blanks blanks)
    (valid : ∀ m ∈ ms, m.Valid) : ValueText (objectText blanks ms) :=
  .object blank (fun m mem => (valid m mem).toSpaced) fun m mem => (valid m mem).value

/-- The text of a value, and for an object also a text with its members rearranged. -/
inductive RearrangedText (fields : List String) (other : String → List Char → List Char → Prop) :
    List Char → List Char → Prop where
  | same {v : List Char} (value : ValueText v) : RearrangedText fields other v v
  | object {blanks blanks' : List Char} {ms ms' : List Member} (blank : Blanks blanks)
      (blank' : Blanks blanks') (valid : ∀ m ∈ ms, m.Valid)
      (rearranged : Rearranged fields other ms ms') :
      RearrangedText fields other (objectText blanks ms) (objectText blanks' ms')

namespace RearrangedText

variable {fields : List String} {other : String → List Char → List Char → Prop} {v w : List Char}

theorem value_left (rearranged : RearrangedText fields other v w) : ValueText v := by
  cases rearranged with
  | same value => exact value
  | object blank _ valid _ => exact .ofMembers blank valid

theorem value_right (rearranged : RearrangedText fields other v w)
    (values : ∀ name v w, other name v w → ValueText w) : ValueText w := by
  cases rearranged with
  | same value => exact value
  | object _ blank' valid rearranged => exact .ofMembers blank' (rearranged.valid values valid)

theorem alike {s : Schema α} (independent : s.Independent)
    (settles : ∀ t ∈ s.slots, ∀ a u, ValueText u → Settles (t.read a) u)
    (values : ∀ name v w, other name v w → ValueText w)
    (alike : ∀ name t, s.slot? name = some t → ∀ v w, other name v w → ∀ a, Alike (t.read a) v w)
    (rearranged : RearrangedText s.fields other v w) : Alike s.read v w := by
  have read {blanks : List Char} {ms : List Member} (blank : Blanks blanks) (valid : ∀ m ∈ ms, m.Valid) :
      outcome s.read (objectText blanks ms) = s.assemble [] s.blank ms :=
    (Schema.read_object (fun m mem => (valid m mem).toSpaced) (fun m mem => (valid m mem).value) settles
      blank).outcome_eq
  cases rearranged with
  | same => exact .refl s.read v
  | object blank blank' valid rearranged =>
    intro x
    rw [read blank valid, read blank' (rearranged.valid values valid), Schema.assemble_eq_ok_iff,
      Schema.assemble_eq_ok_iff]
    exact rearranged.fills_iff independent alike

end RearrangedText

end TraceTally.Json
