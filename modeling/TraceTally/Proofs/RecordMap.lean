import Mathlib.Data.Finmap
import Mathlib.Data.List.Infix
import Mathlib.Data.Set.Defs
import TraceTally.Store.Memory

/-!
# The store as a map of records

To its callers the store in memory is a finite map from identifiers to records: a batch sets the
record of each of its identifiers, a removal takes one away, a scan gives the live records that
match. The rows are less than that map, because a write forgets what has expired. As the clock is
never set back, no later scan can tell.
-/

namespace TraceTally

variable {σ V : Type}

/-- No two of the records share an identifier. -/
def DistinctIds (records : List (Record V)) : Prop := (records.map Record.id).Nodup

instance (records : List (Record V)) : Decidable (DistinctIds records) :=
  inferInstanceAs (Decidable (List.Nodup _))

namespace DistinctIds

variable {records rows : List (Record V)}

theorem of_sublist (distinct : DistinctIds rows) (sub : records.Sublist rows) :
    DistinctIds records :=
  distinct.sublist (sub.map _)

theorem filter (distinct : DistinctIds rows) (keep : Record V → Bool) :
    DistinctIds (rows.filter keep) :=
  distinct.of_sublist List.filter_sublist

theorem append (distinct : DistinctIds rows) (distinct' : DistinctIds records)
    (apart : ∀ r ∈ rows, ∀ new ∈ records, new.id ≠ r.id) : DistinctIds (rows ++ records) := by
  rw [DistinctIds, List.map_append, List.nodup_append]
  refine ⟨distinct, distinct', ?_⟩
  rintro a ha b hb rfl
  obtain ⟨r, hr, same⟩ := List.mem_map.mp ha
  obtain ⟨new, hnew, same'⟩ := List.mem_map.mp hb
  exact apart r hr new hnew (same'.trans same.symm)

theorem eq_of_id_eq (distinct : DistinctIds rows) {r r' : Record V} (hr : r ∈ rows)
    (hr' : r' ∈ rows) (same : r.id = r'.id) : r = r' :=
  List.inj_on_of_nodup_map distinct hr hr' same

/-- Rows that go by their identifiers are no others, if identifiers are distinct. -/
theorem filter_mem_eq {doomed : List (Record V)} (distinct : DistinctIds rows)
    (sub : doomed.Sublist rows) :
    rows.filter (fun r => r.id ∈ doomed.map Record.id) = doomed := by
  induction sub with
  | slnil => rfl
  | @cons doomed rows r sub ih =>
    obtain ⟨new, distinct⟩ := List.nodup_cons.mp distinct
    have spared : ¬ r.id ∈ doomed.map Record.id := fun mem => new ((sub.map _).subset mem)
    rw [List.filter_cons_of_neg (by simpa using spared), ih distinct]
  | @cons_cons doomed rows r sub ih =>
    obtain ⟨new, distinct⟩ := List.nodup_cons.mp distinct
    rw [List.filter_cons_of_pos (by simp)]
    refine congrArg (r :: ·) ((List.filter_congr fun r' hr' => ?_).trans (ih distinct))
    have other : r'.id ≠ r.id := fun same => new (same ▸ List.mem_map_of_mem hr')
    simp [other]

end DistinctIds

namespace MemoryStore

/-- The row outlasts a write of the batch: it has not expired, and is not replaced. -/
def outlasts (now : Int) (batch : List (Record V)) (r : Record V) : Bool :=
  r.isLive now && !batch.any fun new => new.id = r.id

theorem outlasts_iff {now : Int} {batch : List (Record V)} {r : Record V} :
    outlasts now batch r = true ↔ r.isLive now = true ∧ ∀ new ∈ batch, new.id ≠ r.id := by
  simp [outlasts]

theorem rows_write_eq (now : Int) (batch : List (Record V)) (s : MemoryStore V) :
    (s.write now batch).rows = s.rows.filter (outlasts now batch) ++ batch := rfl

theorem rows_erase (id : RowId) (s : MemoryStore V) :
    (s.erase id).rows = s.rows.filter fun r => r.id ≠ id := rfl

theorem mem_rows_write {now : Int} {batch : List (Record V)} {s : MemoryStore V} {r : Record V} :
    r ∈ (s.write now batch).rows ↔
      (r ∈ s.rows ∧ r.isLive now = true ∧ ∀ new ∈ batch, new.id ≠ r.id) ∨ r ∈ batch := by
  rw [rows_write_eq, List.mem_append, List.mem_filter, outlasts_iff]

theorem distinctIds_write {now : Int} {batch : List (Record V)} {s : MemoryStore V}
    (distinct : DistinctIds s.rows) (once : DistinctIds batch) :
    DistinctIds (s.write now batch).rows := by
  rw [rows_write_eq]
  refine (distinct.filter _).append once ?_
  intro r hr
  exact (outlasts_iff.mp (List.mem_filter.mp hr).2).2

end MemoryStore

/-- A call to a store. Batches and scans are made at a reading of the clock. -/
inductive StoreCall (V : Type) where
  | write (now : Int) (batch : List (Record V))
  | delete (id : RowId)
  | scan (now : Int) (p : Predicate)

namespace StoreCall

def reading? : StoreCall V → Option Int
  | write now _ | scan now _ => some now
  | delete _ => none

def readings (calls : List (StoreCall V)) : List Int := calls.filterMap reading?

/-- The clock is never set back. -/
def Forward (calls : List (StoreCall V)) : Prop := (readings calls).Pairwise (· ≤ ·)

instance (calls : List (StoreCall V)) : Decidable (Forward calls) :=
  inferInstanceAs (Decidable (List.Pairwise _ _))

/-- No batch holds two records of one identifier. What other batches hold does not matter. -/
def DistinctBatches (calls : List (StoreCall V)) : Prop :=
  ∀ now batch, .write now batch ∈ calls → DistinctIds batch

section Run

variable [EventStore σ V]

/-- What the store answers; rows are the answer to a scan only. -/
def perform (s : σ) : StoreCall V → Except Failure (Option (List (ScannedRow V))) × σ
  | write now batch =>
    let (r, s) := EventStore.writeBatch now batch s
    (r.map fun _ => none, s)
  | delete id =>
    let (r, s) := EventStore.deleteRow id s
    (r.map fun _ => none, s)
  | scan now p =>
    let (r, s) := EventStore.scan now p s
    (r.map some, s)

/-- The store after the calls. -/
def after (s : σ) (calls : List (StoreCall V)) : σ :=
  calls.foldl (fun s call => (call.perform s).2) s

def answers (s : σ) : List (StoreCall V) → List (Except Failure (Option (List (ScannedRow V))))
  | [] => []
  | call :: calls => (call.perform s).1 :: answers (call.perform s).2 calls

end Run

end StoreCall

abbrev RecordMap (V : Type) := Finmap fun _ : RowId => Record V

namespace RecordMap

def write (batch : List (Record V)) (m : RecordMap V) : RecordMap V :=
  batch.foldl (fun m r => m.insert r.id r) m

/-- The live records that match. -/
def scan (now : Int) (p : Predicate) (m : RecordMap V) : Set (Record V) :=
  {r | ∃ id, m.lookup id = some r ∧ r.isLive now = true ∧ p.holds r.row = true}

def perform (m : RecordMap V) : StoreCall V → Option (Set (Record V)) × RecordMap V
  | .write _ batch => (none, m.write batch)
  | .delete id => (none, m.erase id)
  | .scan now p => (some (m.scan now p), m)

def answers (m : RecordMap V) : List (StoreCall V) → List (Option (Set (Record V)))
  | [] => []
  | call :: calls => (m.perform call).1 :: answers (m.perform call).2 calls

theorem write_cons (r : Record V) (batch : List (Record V)) (m : RecordMap V) :
    write (r :: batch) m = write batch (m.insert r.id r) := rfl

theorem lookup_write_of_notMem {batch : List (Record V)} {m : RecordMap V} {id : RowId}
    (absent : ∀ r ∈ batch, r.id ≠ id) : (m.write batch).lookup id = m.lookup id := by
  induction batch generalizing m with
  | nil => rfl
  | cons r rest ih =>
    have first : id ≠ r.id := Ne.symm (absent r List.mem_cons_self)
    have later : ∀ r ∈ rest, r.id ≠ id := fun r hr => absent r (List.mem_cons_of_mem _ hr)
    rw [write_cons, ih later, Finmap.lookup_insert_of_ne m first]

theorem lookup_write_of_mem {batch : List (Record V)} {m : RecordMap V} (once : DistinctIds batch)
    {r : Record V} (hr : r ∈ batch) : (m.write batch).lookup r.id = some r := by
  induction batch generalizing m with
  | nil => cases hr
  | cons first rest ih =>
    obtain ⟨new, once⟩ := List.nodup_cons.mp once
    rw [write_cons]
    obtain rfl | hr := List.mem_cons.mp hr
    · rw [lookup_write_of_notMem, Finmap.lookup_insert]
      intro r' hr' same
      exact new (same ▸ List.mem_map_of_mem hr')
    · exact ih once hr

theorem lookup_write_eq_some {batch : List (Record V)} {m : RecordMap V} (once : DistinctIds batch)
    {id : RowId} {r : Record V} (found : (m.write batch).lookup id = some r) :
    (r ∈ batch ∧ r.id = id) ∨ (m.lookup id = some r ∧ ∀ new ∈ batch, new.id ≠ id) := by
  by_cases written : ∃ new ∈ batch, new.id = id
  · obtain ⟨new, hnew, rfl⟩ := written
    rw [lookup_write_of_mem once hnew, Option.some.injEq] at found
    exact .inl ⟨found ▸ hnew, congrArg Record.id found.symm⟩
  · push Not at written
    rw [lookup_write_of_notMem written] at found
    exact .inr ⟨found, written⟩

end RecordMap

/-- The rows are records of the map, each once, and none is missing that had not expired when the
clock was last read. -/
structure Simulates (now : Int) (m : RecordMap V) (rows : List (Record V)) : Prop where
  distinct : DistinctIds rows
  stored : ∀ r ∈ rows, m.lookup r.id = some r
  kept : ∀ id r, m.lookup id = some r → r.id = id ∧ (r.isLive now = true → r ∈ rows)

/-- The rows are those of the records, each once. -/
structure Lists (rows : List (ScannedRow V)) (records : Set (Record V)) : Prop where
  once : (rows.map ScannedRow.id).Nodup
  mem_iff : ∀ row, row ∈ rows ↔ ∃ r ∈ records, r.scanned = row

/-- Every call succeeds, and a scan is answered by the rows of the records it asks for. -/
inductive Answers :
    Except Failure (Option (List (ScannedRow V))) → Option (Set (Record V)) → Prop where
  | done : Answers (.ok none) none
  | rows {rows : List (ScannedRow V)} {records : Set (Record V)} (lists : Lists rows records) :
    Answers (.ok (some rows)) (some records)

theorem Record.isLive_of_le {r : Record V} {now now' : Int} (live : r.isLive now' = true)
    (le : now ≤ now') : r.isLive now = true := by
  rw [isLive, decide_eq_true_eq] at live ⊢
  exact Int.lt_of_le_of_lt le live

namespace Simulates

variable {now now' : Int} {m : RecordMap V} {s : MemoryStore V}

theorem empty (now : Int) : Simulates now (∅ : RecordMap V) [] where
  distinct := List.nodup_nil
  stored := nofun
  kept id r found := by simp at found

theorem of_le {rows : List (Record V)} (sim : Simulates now m rows) (le : now ≤ now') :
    Simulates now' m rows where
  distinct := sim.distinct
  stored := sim.stored
  kept id r found :=
    ⟨(sim.kept id r found).1, fun live => (sim.kept id r found).2 (Record.isLive_of_le live le)⟩

theorem write {batch : List (Record V)} (sim : Simulates now m s.rows) (le : now ≤ now')
    (once : DistinctIds batch) : Simulates now' (m.write batch) (s.write now' batch).rows where
  distinct := MemoryStore.distinctIds_write sim.distinct once
  stored r hr := by
    rcases MemoryStore.mem_rows_write.mp hr with ⟨old, -, unused⟩ | new
    · rw [RecordMap.lookup_write_of_notMem unused]
      exact sim.stored r old
    · exact RecordMap.lookup_write_of_mem once new
  kept id r found := by
    rcases RecordMap.lookup_write_eq_some once found with ⟨new, same⟩ | ⟨found, unused⟩
    · exact ⟨same, fun _ => MemoryStore.mem_rows_write.mpr (.inr new)⟩
    · obtain ⟨rfl, old⟩ := sim.kept id r found
      refine ⟨rfl, fun live => MemoryStore.mem_rows_write.mpr (.inl ⟨?_, live, unused⟩)⟩
      exact old (Record.isLive_of_le live le)

theorem erase (sim : Simulates now m s.rows) (id : RowId) :
    Simulates now (Finmap.erase id m) (s.erase id).rows where
  distinct := sim.distinct.filter _
  stored r hr := by
    obtain ⟨old, other⟩ := List.mem_filter.mp hr
    rw [Finmap.lookup_erase_ne (by simpa using other)]
    exact sim.stored r old
  kept id' r found := by
    have other : id' ≠ id := by
      rintro rfl
      simp at found
    rw [Finmap.lookup_erase_ne other] at found
    obtain ⟨rfl, old⟩ := sim.kept id' r found
    exact ⟨rfl, fun live => List.mem_filter.mpr ⟨old live, by simpa using other⟩⟩

/-- What has not expired by a later scan is there. -/
theorem scan (sim : Simulates now m s.rows) (le : now ≤ now') (p : Predicate) :
    Lists (s.select now' p) (m.scan now' p) where
  once := by
    rw [MemoryStore.select, List.map_map]
    exact sim.distinct.filter _
  mem_iff row := by
    simp only [MemoryStore.select, List.mem_map, List.mem_filter, Bool.and_eq_true]
    constructor
    · rintro ⟨r, ⟨hr, live, holds⟩, rfl⟩
      exact ⟨r, ⟨r.id, sim.stored r hr, live, holds⟩, rfl⟩
    · rintro ⟨r, ⟨id, found, live, holds⟩, rfl⟩
      exact ⟨r, ⟨(sim.kept id r found).2 (Record.isLive_of_le live le), live, holds⟩, rfl⟩

end Simulates

namespace StoreCall

/-- The clock does not go back behind `now`, nor from a call to a later one. -/
def ForwardFrom (now : Int) (calls : List (StoreCall V)) : Prop :=
  (now :: readings calls).Pairwise (· ≤ ·)

/-- The last reading of the clock once the call is made. -/
def moment (now : Int) (call : StoreCall V) : Int := call.reading?.getD now

theorem ForwardFrom.of_cons {now : Int} {call : StoreCall V} {calls : List (StoreCall V)}
    (forward : ForwardFrom now (call :: calls)) :
    now ≤ call.moment now ∧ ForwardFrom (call.moment now) calls := by
  cases call with
  | write t batch =>
    obtain ⟨later, rest⟩ := List.pairwise_cons.mp forward
    exact ⟨later t List.mem_cons_self, rest⟩
  | delete id => exact ⟨Int.le_refl now, forward⟩
  | scan t p =>
    obtain ⟨later, rest⟩ := List.pairwise_cons.mp forward
    exact ⟨later t List.mem_cons_self, rest⟩

theorem Forward.exists_from {calls : List (StoreCall V)} (forward : Forward calls) :
    ∃ now, ForwardFrom now calls := by
  cases read : readings calls with
  | nil => exact ⟨0, by simp [ForwardFrom, read]⟩
  | cons t rest =>
    have ordered := forward
    rw [Forward, read] at ordered
    refine ⟨t, List.pairwise_cons.mpr ⟨?_, forward⟩⟩
    intro t' ht'
    rw [read] at ht'
    obtain rfl | ht' := List.mem_cons.mp ht'
    · exact Int.le_refl t'
    · exact (List.pairwise_cons.mp ordered).1 t' ht'

theorem Forward.of_append {before calls : List (StoreCall V)}
    (forward : Forward (before ++ calls)) : Forward calls := by
  rw [Forward, readings, List.filterMap_append] at forward
  exact (List.pairwise_append.mp forward).2.1

section Memory

variable {now : Int} {m : RecordMap V} {s s' : MemoryStore V} {calls : List (StoreCall V)}

/-- A call is answered as the map answers it, and leaves rows of the map behind. -/
theorem perform_simulates (sim : Simulates now m s.rows) (call : StoreCall V)
    (later : now ≤ call.moment now) (once : ∀ t batch, call = .write t batch → DistinctIds batch) :
    Answers (call.perform s).1 (m.perform call).1 ∧
      Simulates (call.moment now) (m.perform call).2 (call.perform s).2.rows := by
  cases call with
  | write t batch => exact ⟨.done, sim.write later (once t batch rfl)⟩
  | delete id => exact ⟨.done, sim.erase id⟩
  | scan t p => exact ⟨.rows (sim.scan later p), sim.of_le later⟩

theorem answers_simulate (sim : Simulates now m s.rows) (forward : ForwardFrom now calls)
    (distinct : DistinctBatches calls) :
    List.Forall₂ Answers (answers s calls) (m.answers calls) := by
  induction calls generalizing now m s with
  | nil => exact .nil
  | cons call calls ih =>
    obtain ⟨later, forward⟩ := forward.of_cons
    have once : ∀ t batch, call = .write t batch → DistinctIds batch := by
      rintro t batch rfl
      exact distinct t batch List.mem_cons_self
    obtain ⟨answered, sim⟩ := perform_simulates sim call later once
    exact .cons answered
      (ih sim forward fun t batch hc => distinct t batch (List.mem_cons_of_mem _ hc))

theorem distinctIds_after (distinct : DistinctIds s.rows) (once : DistinctBatches calls) :
    DistinctIds (after s calls).rows := by
  induction calls generalizing s with
  | nil => exact distinct
  | cons call calls ih =>
    refine ih ?_ fun t batch hc => once t batch (List.mem_cons_of_mem _ hc)
    cases call with
    | write t batch =>
      exact MemoryStore.distinctIds_write distinct (once t batch List.mem_cons_self)
    | delete id => exact distinct.filter _
    | scan t p => exact distinct

/-- The stores differ only in rows that had expired by `now`. -/
def SameLive (now : Int) (s s' : MemoryStore V) : Prop :=
  s.rows.filter (·.isLive now) = s'.rows.filter (·.isLive now)

/-- A choice among live rows falls on the same rows of both stores at any later time. -/
theorem SameLive.filter_eq (same : SameLive now s s') (choice : Record V → Bool)
    (live : ∀ r, choice r = true → r.isLive now = true) :
    s.rows.filter choice = s'.rows.filter choice := by
  have among : ∀ rows : List (Record V),
      rows.filter choice = (rows.filter (·.isLive now)).filter choice := by
    intro rows
    rw [List.filter_filter]
    refine List.filter_congr fun r _ => ?_
    cases chosen : choice r with
    | false => rfl
    | true => rw [live r chosen, Bool.and_self]
  rw [among, among s'.rows, same]

theorem SameLive.perform (same : SameLive now s s') (call : StoreCall V)
    (later : now ≤ call.moment now) :
    (call.perform s).1 = (call.perform s').1 ∧
      SameLive (call.moment now) (call.perform s).2 (call.perform s').2 := by
  cases call with
  | write t batch =>
    have kept := same.filter_eq (MemoryStore.outlasts t batch) fun r outlasts =>
      Record.isLive_of_le (MemoryStore.outlasts_iff.mp outlasts).1 later
    refine ⟨rfl, ?_⟩
    change List.filter _ (s.write t batch).rows = List.filter _ (s'.write t batch).rows
    rw [MemoryStore.rows_write_eq, MemoryStore.rows_write_eq, kept]
  | delete id =>
    refine ⟨rfl, ?_⟩
    change List.filter _ (s.erase id).rows = List.filter _ (s'.erase id).rows
    rw [MemoryStore.rows_erase, MemoryStore.rows_erase, List.filter_filter, List.filter_filter]
    exact same.filter_eq _ fun r kept => (Bool.and_eq_true_iff.mp kept).1
  | scan t p =>
    have chosen := same.filter_eq (fun r => r.isLive t && p.holds r.row)
      fun r chosen => Record.isLive_of_le (Bool.and_eq_true_iff.mp chosen).1 later
    have live := same.filter_eq (·.isLive t) fun r live => Record.isLive_of_le live later
    refine ⟨?_, live⟩
    change Except.ok (some (s.select t p)) = Except.ok (some (s'.select t p))
    rw [MemoryStore.select, MemoryStore.select, chosen]

theorem SameLive.answers (same : SameLive now s s') (forward : ForwardFrom now calls) :
    answers s calls = answers s' calls := by
  induction calls generalizing now s s' with
  | nil => rfl
  | cons call calls ih =>
    obtain ⟨later, forward⟩ := forward.of_cons
    obtain ⟨answered, same⟩ := same.perform call later
    rw [StoreCall.answers, StoreCall.answers, answered, ih same forward]

/-- A batch that is written again at once leaves what a single write of it leaves. -/
theorem write_twice {now' : Int} (batch : List (Record V)) (le : now ≤ now') :
    (s.write now batch).write now' batch = s.write now' batch := by
  have replaced : batch.filter (MemoryStore.outlasts now' batch) = [] := by
    refine List.filter_eq_nil_iff.mpr fun r hr outlasts => ?_
    exact (MemoryStore.outlasts_iff.mp outlasts).2 r hr rfl
  have kept : (s.rows.filter (MemoryStore.outlasts now batch)).filter
      (MemoryStore.outlasts now' batch) = s.rows.filter (MemoryStore.outlasts now' batch) := by
    rw [List.filter_filter]
    refine List.filter_congr fun r _ => ?_
    cases outlasts : MemoryStore.outlasts now' batch r with
    | false => rfl
    | true =>
      obtain ⟨live, unused⟩ := MemoryStore.outlasts_iff.mp outlasts
      exact MemoryStore.outlasts_iff.mpr ⟨Record.isLive_of_le live le, unused⟩
  have rows : ((s.write now batch).write now' batch).rows = (s.write now' batch).rows := by
    rw [MemoryStore.rows_write_eq, MemoryStore.rows_write_eq, MemoryStore.rows_write_eq,
      List.filter_append, kept, replaced, List.append_nil]
  exact congrArg (fun rows => { s with rows }) rows

/-- Writing at once or a little later differs only in rows that have expired meanwhile. -/
theorem sameLive_write {now' : Int} (batch : List (Record V)) (le : now ≤ now') :
    SameLive now' (s.write now batch) (s.write now' batch) := by
  have kept : (s.rows.filter (MemoryStore.outlasts now batch)).filter (·.isLive now') =
      (s.rows.filter (MemoryStore.outlasts now' batch)).filter (·.isLive now') := by
    rw [List.filter_filter, List.filter_filter]
    refine List.filter_congr fun r _ => ?_
    cases live : r.isLive now' with
    | false => rfl
    | true => simp [MemoryStore.outlasts, live, Record.isLive_of_le live le]
  simp only [SameLive, MemoryStore.rows_write_eq, List.filter_append, kept]

/-- The store answers any calls as a map from identifiers to records would: a scan gives the rows
of the live records that match, each once. No two rows ever share an identifier. And a batch
that is submitted twice in a row shows in no later answer as such. -/
theorem answers_refine_map (source : Nat → RowId) (calls : List (StoreCall V))
    (forward : Forward calls) (distinct : DistinctBatches calls) :
    let fresh : MemoryStore V := { source }
    List.Forall₂ Answers (answers fresh calls) (RecordMap.answers ∅ calls) ∧
    (∀ made, made <+: calls → DistinctIds (after fresh made).rows) ∧
    ∀ before now now' batch later,
      calls = before ++ .write now batch :: .write now' batch :: later →
      let twice := answers (after fresh (before ++ [.write now batch, .write now' batch])) later
      twice = answers (after fresh (before ++ [.write now batch])) later ∧
        twice = answers (after fresh (before ++ [.write now' batch])) later := by
  intro fresh
  refine ⟨?_, ?_, ?_⟩
  · obtain ⟨now, forward⟩ := forward.exists_from
    exact answers_simulate (s := fresh) (.empty now) forward distinct
  · rintro made ⟨rest, rfl⟩
    exact distinctIds_after (s := fresh) List.nodup_nil fun t batch hc =>
      distinct t batch (List.mem_append_left _ hc)
  · rintro before now now' batch later rfl
    have onwards : ForwardFrom now (.write now' batch :: later) := forward.of_append
    obtain ⟨le, onwards⟩ := onwards.of_cons
    have written : ∀ writes, after fresh (before ++ writes) = after (after fresh before) writes :=
      fun writes => List.foldl_append
    simp only [written]
    set s := after fresh before
    have twice : after s [.write now batch, .write now' batch] = s.write now' batch :=
      write_twice batch le
    rw [twice]
    exact ⟨((sameLive_write batch le).answers onwards).symm, rfl⟩

/-- A record is written again with another value, twice; one expires, one is removed and one has
expired before it is written. -/
def rewritten : List (StoreCall Nat) :=
  let key : Key := ⟨"o", "t", "a", "u"⟩
  [.write 0 [⟨1, key, 2, 0, 9⟩, ⟨2, key, 3, 0, 4⟩, ⟨3, key, 4, 0, 9⟩], .delete 3,
    .write 4 [⟨1, key, 5, 1, 9⟩, ⟨4, key, 6, 1, 4⟩],
    .write 5 [⟨1, key, 5, 1, 9⟩, ⟨4, key, 6, 1, 4⟩],
    .scan 5 ⟨[(.event, "a")]⟩]

theorem answers_refine_map_rewritten :
    Forward rewritten ∧ DistinctBatches rewritten ∧
      (∃ rows, (answers ({} : MemoryStore Nat) rewritten).getLast? = some (.ok (some rows)) ∧
        rows = [⟨1, ⟨"o", "t", "a", "u"⟩, 5⟩]) ∧
      List.Forall₂ Answers (answers ({} : MemoryStore Nat) rewritten)
        (RecordMap.answers ∅ rewritten) := by
  have forward : Forward rewritten := by decide
  have distinct : DistinctBatches rewritten := by
    intro now batch hc
    simp only [rewritten, List.mem_cons, StoreCall.write.injEq, reduceCtorEq, List.not_mem_nil,
      or_false, false_or] at hc
    rcases hc with ⟨-, rfl⟩ | ⟨-, rfl⟩ | ⟨-, rfl⟩ <;> decide
  exact ⟨forward, distinct, ⟨_, rfl, by decide⟩,
    (answers_refine_map id rewritten forward distinct).1⟩

end Memory

end StoreCall

end TraceTally
