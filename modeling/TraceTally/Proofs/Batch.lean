import Mathlib.Data.List.Range
import Mathlib.Order.Basic
import TraceTally.Collector.Flush
import TraceTally.Store.Faulty

/-!
# Batches in a fallible memory

The store in memory behind the wrapper that fails on plan. A batch gets identifiers that were never
handed out before, so that writing it appends it, and writing it again leaves one copy. Rows live as
long as a horizon is not passed: expiry is left to the clock, and the statements here are about rows
that do not expire.
-/

namespace TraceTally

variable {V : Type}

instance : Preorder Duration where
  le := (· ≤ ·)
  lt := (· < ·)
  le_refl d := Nat.le_refl d.nanos
  le_trans _ _ _ := Nat.le_trans
  lt_iff_le_not_ge _ _ := Nat.lt_iff_le_and_not_ge

theorem Duration.le_add (d e : Duration) : d ≤ d + e := Nat.le_add_right d.nanos e.nanos

/-- The store in memory, any call of which may fail. -/
abbrev FallibleMemory (V : Type) := FaultyStore (MemoryStore V) V

def Record.pair (r : Record V) : Key × V := (r.key, r.value)

/-- The record outlives every moment up to the horizon. -/
def Record.Outlives (wall : Instant → Int) (horizon : Instant) (r : Record V) : Prop :=
  ∀ t : Instant, t ≤ horizon → wall t < r.expires

/-- A record made up to the horizon outlives it. -/
def Clock.Spares (c : Clock) (lifetime : Duration) (horizon : Instant) : Prop :=
  ∀ t t' : Instant, t ≤ horizon → t' ≤ horizon → c.wall t' < Duration.expiry (c.wall t) lifetime

theorem Clock.spares_of_constant {now : Instant} {today : Int} {lifetime : Duration}
    (h : today < Duration.expiry today lifetime) (horizon : Instant) :
    Clock.Spares ⟨now, fun _ => today⟩ lifetime horizon :=
  fun _ _ _ _ => h

theorem Record.Outlives.isLive {wall : Instant → Int} {horizon t : Instant} {r : Record V}
    (h : r.Outlives wall horizon) (ht : t ≤ horizon) : r.isLive (wall t) = true := by
  simpa [Record.isLive] using h t ht

namespace MemoryStore

def pairs (s : MemoryStore V) : List (Key × V) := s.rows.map Record.pair

/-- The record has an identifier that was handed out. -/
def Issued (s : MemoryStore V) (r : Record V) : Prop := ∃ i < s.minted, s.source i = r.id

/-- A batch none of whose identifiers is in use is appended; a stored one takes its own place. -/
theorem rows_write {now : Int} {records base : List (Record V)} {stored : Bool} {s : MemoryStore V}
    (rows : s.rows = base ++ if stored then records else [])
    (live : ∀ r ∈ base, r.isLive now = true)
    (fresh : ∀ r ∈ base, ∀ new ∈ records, new.id ≠ r.id) :
    (s.write now records).rows = base ++ records := by
  have kept :
      base.filter (fun r => r.isLive now && !records.any fun new => new.id = r.id) = base := by
    apply List.filter_eq_self.mpr
    intro r hr
    simp only [live r hr, Bool.true_and, Bool.not_eq_true', List.any_eq_false, decide_eq_true_eq]
    exact fresh r hr
  have replaced :
      records.filter (fun r => r.isLive now && !records.any fun new => new.id = r.id) = [] := by
    apply List.filter_eq_nil_iff.mpr
    intro r hr
    simp only [Bool.and_eq_true, Bool.not_eq_true', List.any_eq_false, decide_eq_true_eq, not_and,
      not_forall, not_not]
    exact fun _ => ⟨r, hr, rfl⟩
  cases stored <;> simp [write, rows, kept, replaced]

end MemoryStore

namespace FaultyStore

variable {σ : Type}

/-- The plan fails no call of this kind. -/
def Reliable (s : FaultyStore σ V) (point : FaultPoint) : Prop := ∀ f ∈ s.plan point, f = none

@[simp] theorem inner_consume (point : FaultPoint) (s : FaultyStore σ V) :
    (s.consume point).2.inner = s.inner := by
  unfold consume
  split <;> rfl

@[simp] theorem journal_consume (point : FaultPoint) (s : FaultyStore σ V) :
    (s.consume point).2.journal = s.journal := by
  unfold consume
  split <;> rfl

theorem Reliable.consume {s : FaultyStore σ V} {point : FaultPoint} (h : s.Reliable point)
    (used : FaultPoint) : (s.consume used).2.Reliable point := by
  unfold FaultyStore.consume
  split
  · exact h
  · rename_i first rest planned
    intro f hf
    by_cases same : point = used
    · subst same
      apply h f
      rw [planned]
      exact List.mem_cons_of_mem _ (by simpa [setPlan] using hf)
    · exact h f (by simpa [setPlan, same] using hf)

theorem Reliable.passes {s : FaultyStore σ V} {point : FaultPoint} (h : s.Reliable point) :
    (s.consume point).1 = none := by
  unfold FaultyStore.consume
  split
  · rfl
  · rename_i first rest planned
    exact h first (by rw [planned]; exact List.mem_cons_self)

end FaultyStore

namespace FallibleMemory

/-- What is stored, and under which identifiers. Only the plan and the number of identifiers handed
out may differ. -/
structure SameContents (s s' : FallibleMemory V) : Prop where
  rows : s'.inner.rows = s.inner.rows
  source : s'.inner.source = s.inner.source
  minted : s.inner.minted ≤ s'.inner.minted
  journal : s'.journal = s.journal
  reliable : ∀ point, s.Reliable point → s'.Reliable point

theorem SameContents.refl (s : FallibleMemory V) : s.SameContents s :=
  ⟨rfl, rfl, le_rfl, rfl, fun _ h => h⟩

theorem SameContents.trans {s s' s'' : FallibleMemory V} (h : s.SameContents s')
    (h' : s'.SameContents s'') : s.SameContents s'' :=
  ⟨h'.rows.trans h.rows, h'.source.trans h.source, h.minted.trans h'.minted,
    h'.journal.trans h.journal, fun point r => h'.reliable point (h.reliable point r)⟩

/-- A write stores the batch or leaves everything; it succeeds only if it stored, and it fails
only if the plan says so. -/
theorem writeBatch_cases (now : Int) (records : List (Record V)) (s : FallibleMemory V) :
    let w := EventStore.writeBatch now records s
    (∃ e, w.1 = .error e ∧ w.2.inner = s.inner ∧ w.2.journal = s.journal ++ [⟨records, false⟩] ∧
      ¬ s.Reliable .write) ∨
    (w.2.inner = s.inner.write now records ∧ w.2.journal = s.journal ++ [⟨records, true⟩] ∧
      (w.1 = .ok () ∨ (∃ e, w.1 = .error e) ∧ ¬ s.Reliable .acknowledge)) := by
  simp only [EventStore.writeBatch, FaultyStore.submit]
  cases first : s.consume .write with
  | mk fault s₁ =>
    have inner₁ : s₁.inner = s.inner := by simpa [first] using s.inner_consume .write
    have journal₁ : s₁.journal = s.journal := by simpa [first] using s.journal_consume .write
    cases fault with
    | some e =>
      refine .inl ⟨e, rfl, inner₁, by simp [FaultyStore.record, journal₁], ?_⟩
      intro reliable
      simpa [first] using reliable.passes
    | none =>
      right
      cases second : FaultyStore.consume .acknowledge
          ({ s₁ with inner := s₁.inner.write now records }.record records true) with
      | mk fault s₂ =>
        have inner₂ : s₂.inner = s.inner.write now records := by
          have kept := FaultyStore.inner_consume .acknowledge
            ({ s₁ with inner := s₁.inner.write now records }.record records true)
          rw [second] at kept
          rw [kept, ← inner₁]
          rfl
        have journal₂ : s₂.journal = s.journal ++ [⟨records, true⟩] := by
          have kept := FaultyStore.journal_consume .acknowledge
            ({ s₁ with inner := s₁.inner.write now records }.record records true)
          rw [second] at kept
          rw [kept, ← journal₁]
          rfl
        dsimp only
        rw [second]
        cases fault with
        | none => exact ⟨inner₂, journal₂, .inl rfl⟩
        | some e =>
          refine ⟨inner₂, journal₂, .inr ⟨⟨e, rfl⟩, ?_⟩⟩
          intro reliable
          have still : s₁.Reliable .acknowledge := by
            simpa [first] using reliable.consume .write
          have stored : FaultyStore.Reliable
              ({ s₁ with inner := s₁.inner.write now records }.record records true)
              .acknowledge := still
          have passes := stored.passes
          rw [second] at passes
          cases passes

theorem reliable_writeBatch {now : Int} {records : List (Record V)} {s : FallibleMemory V}
    {point : FaultPoint} (h : s.Reliable point) :
    (EventStore.writeBatch now records s).2.Reliable point := by
  simp only [EventStore.writeBatch, FaultyStore.submit]
  have h₁ := h.consume .write
  cases first : s.consume .write with
  | mk fault s₁ =>
    rw [first] at h₁
    cases fault with
    | some e => exact h₁
    | none =>
      have h₂ : ({ s₁ with inner := s₁.inner.write now records }.record records true).Reliable
        point := h₁
      have h₃ := h₂.consume .acknowledge
      dsimp only
      split <;> simp_all

theorem newRowId_cases (s : FallibleMemory V) :
    s.SameContents (EventStore.newRowId s).2 ∧
    ((∃ e, (EventStore.newRowId s).1 = .error e ∧ ¬ s.Reliable .newId) ∨
      (EventStore.newRowId s).1 = .ok (s.inner.source s.inner.minted) ∧
      (EventStore.newRowId s).2.inner.minted = s.inner.minted + 1) := by
  simp only [EventStore.newRowId, FaultyStore.guarded]
  cases first : s.consume .newId with
  | mk fault s₁ =>
    have inner₁ : s₁.inner = s.inner := by simpa [first] using s.inner_consume .newId
    have journal₁ : s₁.journal = s.journal := by simpa [first] using s.journal_consume .newId
    have reliable₁ : ∀ point, s.Reliable point → s₁.Reliable point := fun point h => by
      simpa [first] using h.consume .newId
    cases fault with
    | some e =>
      refine ⟨⟨by rw [inner₁], by rw [inner₁], by rw [inner₁], journal₁, reliable₁⟩,
        .inl ⟨e, rfl, ?_⟩⟩
      intro reliable
      simpa [first] using reliable.passes
    | none =>
      refine ⟨⟨?_, ?_, ?_, journal₁, reliable₁⟩, .inr ⟨?_, ?_⟩⟩ <;>
        simp [MemoryStore.mint, inner₁]

theorem sameContents_scan (today : Int) (p : Predicate) (s : FallibleMemory V) :
    s.SameContents (EventStore.scan today p s).2 := by
  simp only [EventStore.scan, FaultyStore.guarded]
  have inner := s.inner_consume .scan
  have journal := s.journal_consume .scan
  have reliable : ∀ point, s.Reliable point → (s.consume .scan).2.Reliable point :=
    fun point h => h.consume .scan
  cases first : s.consume .scan with
  | mk fault s₁ =>
    rw [first] at inner journal reliable
    cases fault with
    | some e => exact ⟨by rw [inner], by rw [inner], by rw [inner], journal, reliable⟩
    | none => exact ⟨by rw [inner], by rw [inner], by rw [inner], journal, reliable⟩

/-- The records made of the pairs: the next identifiers of the source, in order, and one expiry. -/
structure Made (today : Int) (lifetime : Duration) (pairs : List (Key × V))
    (s s' : FallibleMemory V) (records : List (Record V)) : Prop where
  contents : records.map Record.pair = pairs
  ids : records.map Record.id =
    (List.range' s.inner.minted pairs.length).map s.inner.source
  minted : s'.inner.minted = s.inner.minted + pairs.length
  expires : ∀ r ∈ records, r.expires = Duration.expiry today lifetime

theorem buildBatch_cases (today : Int) (lifetime : Duration) (pairs : List (Key × V))
    (s : FallibleMemory V) :
    s.SameContents (buildBatch today lifetime pairs s).2 ∧
    ((∃ e, (buildBatch today lifetime pairs s).1 = .error e ∧ ¬ s.Reliable .newId) ∨
      ∃ records, (buildBatch today lifetime pairs s).1 = .ok records ∧
        Made today lifetime pairs s (buildBatch today lifetime pairs s).2 records) := by
  induction pairs generalizing s with
  | nil => exact ⟨.refl s, .inr ⟨[], rfl, ⟨rfl, rfl, rfl, by simp⟩⟩⟩
  | cons p rest ih =>
    obtain ⟨key, value⟩ := p
    obtain ⟨same, cases₁⟩ := newRowId_cases s
    simp only [buildBatch]
    cases first : EventStore.newRowId s with
    | mk r s₁ =>
      rw [first] at same cases₁
      rcases cases₁ with ⟨e, rfl, faulty⟩ | ⟨rfl, minted⟩
      · exact ⟨same, .inl ⟨e, rfl, faulty⟩⟩
      · obtain ⟨same', cases₂⟩ := ih s₁
        dsimp only
        cases later : buildBatch today lifetime rest s₁ with
        | mk r s₂ =>
          rw [later] at same' cases₂
          rcases cases₂ with ⟨e, rfl, faulty⟩ | ⟨records, rfl, made⟩
          · exact ⟨same.trans same', .inl ⟨e, rfl, fun h => faulty (same.reliable .newId h)⟩⟩
          · refine ⟨same.trans same', .inr ⟨_, rfl, ⟨?_, ?_, ?_, ?_⟩⟩⟩ <;>
              dsimp only at same minted made
            · simp [Record.pair, ← made.contents]
            · simp only [List.map_cons, made.ids, minted, same.source, List.length_cons,
                List.range'_succ]
            · simp only [made.minted, minted, List.length_cons]
              omega
            · intro r hr
              obtain rfl | hr := List.mem_cons.mp hr
              · rfl
              · exact made.expires r hr

theorem Made.id_mem {today : Int} {lifetime : Duration} {pairs : List (Key × V)}
    {s s' : FallibleMemory V} {records : List (Record V)}
    (made : Made today lifetime pairs s s' records) {r : Record V} (hr : r ∈ records) :
    ∃ i, s.inner.minted ≤ i ∧ i < s'.inner.minted ∧ s.inner.source i = r.id := by
  have present : r.id ∈ (List.range' s.inner.minted pairs.length).map s.inner.source := by
    rw [← made.ids]
    exact List.mem_map_of_mem hr
  obtain ⟨i, hi, source⟩ := List.mem_map.mp present
  rw [List.mem_range'_1] at hi
  exact ⟨i, hi.1, by rw [made.minted]; exact hi.2, source⟩

end FallibleMemory

end TraceTally
