import TraceTally.Proofs.Occurrences
import TraceTally.Proofs.RecordMap
import TraceTally.Proofs.Unfailing

/-!
# Where a value is

Nothing is assumed of the store's failures, and records may expire. A value whose write got the lock
is then about to be merged, buffered or with the flush in progress; or a failed flush has dropped it;
or it is in a record that the store took. That record is among the rows until it expires, because
no other record ever gets its identifier.
-/

namespace TraceTally

variable {V : Type}

/-- What a flush submits are the records of what it took. No other record that was ever submitted has
one of their identifiers. -/
structure Flight.Prepared (f : Flight V) (s : FallibleMemory V) : Prop where
  contents : f.records.map Record.pair = f.taken.entries
  nonempty : f.records ≠ []
  issued : ∀ r ∈ f.records, s.inner.Issued r
  apart : ∀ p ∈ s.journal, ∀ r ∈ p.batch, r ∈ f.records ∨ ∀ new ∈ f.records, new.id ≠ r.id

namespace FallibleMemory

/-- The journal grows by every batch that is submitted; one that was answered was stored. -/
theorem writeBatch_submits (now : Int) (records : List (Record V)) (s : FallibleMemory V) :
    let w := EventStore.writeBatch now records s
    ∃ stored, w.2.journal = s.journal ++ [⟨records, stored⟩] ∧
      w.2.inner = (if stored then s.inner.write now records else s.inner) ∧
      (w.1 = .ok () → stored = true) := by
  rcases writeBatch_cases now records s with ⟨e, failed, inner, journal, -⟩ | ⟨inner, journal, -⟩
  · refine ⟨false, journal, inner, fun ok => ?_⟩
    cases failed.symm.trans ok
  · exact ⟨true, journal, inner, fun _ => rfl⟩

/-- The record is among the rows, or has expired by now. -/
def Keeps (clock : Clock) (s : FallibleMemory V) (r : Record V) : Prop :=
  r ∈ s.inner.rows ∨ ∃ t ≤ clock.now, r.isLive (clock.wall t) = false

/-- No identifier comes twice, and what was stored is kept until it expires. -/
structure Stocked (clock : Clock) (flight? : Option (Flight V)) (s : FallibleMemory V) : Prop where
  injective : Function.Injective s.inner.source
  issued : ∀ p ∈ s.journal, ∀ r ∈ p.batch, s.inner.Issued r
  kept : ∀ p ∈ s.journal, p.stored = true → ∀ r ∈ p.batch, s.Keeps clock r
  prepared : ∀ f, flight? = some f → f.Prepared s

namespace Stocked

variable {clock clock' : Clock} {flight? : Option (Flight V)} {s s' : FallibleMemory V}

theorem of_sameContents (stocked : s.Stocked clock flight?) (same : s.SameContents s')
    (wall : clock'.wall = clock.wall) (now : clock.now ≤ clock'.now) :
    s'.Stocked clock' flight? where
  injective := by rw [same.source]; exact stocked.injective
  issued p hp r hr := same.issued (stocked.issued p (same.journal ▸ hp) r hr)
  kept p hp stored r hr := by
    rcases stocked.kept p (same.journal ▸ hp) stored r hr with present | ⟨t, ht, dead⟩
    · exact .inl (same.rows ▸ present)
    · exact .inr ⟨t, ht.trans now, wall ▸ dead⟩
  prepared f flying := by
    obtain ⟨contents, nonempty, issued, apart⟩ := stocked.prepared f flying
    exact ⟨contents, nonempty, fun r hr => same.issued (issued r hr), same.journal ▸ apart⟩

theorem landed (stocked : s.Stocked clock flight?) : s.Stocked clock none :=
  ⟨stocked.injective, stocked.issued, stocked.kept, nofun⟩

theorem with_loop {f : Flight V} (stocked : s.Stocked clock (some f)) (loop : Retry.Loop) :
    s.Stocked clock (some { f with loop }) := by
  obtain ⟨contents, nonempty, issued, apart⟩ := stocked.prepared f rfl
  refine ⟨stocked.injective, stocked.issued, stocked.kept, ?_⟩
  rintro _ ⟨⟩
  exact ⟨contents, nonempty, issued, apart⟩

/-- New records have identifiers that were never handed out before. -/
theorem named {f : Flight V} {today : Int} {lifetime : Duration} (stocked : s.Stocked clock none)
    (same : s.SameContents s') (made : Made today lifetime f.taken.entries s s' f.records)
    (nonempty : f.taken.entries ≠ []) : s'.Stocked clock (some f) := by
  obtain ⟨injective, issued, kept, -⟩ := stocked.of_sameContents same rfl le_rfl
  refine ⟨injective, issued, kept, ?_⟩
  rintro _ ⟨⟩
  refine ⟨made.contents, ?_, ?_, ?_⟩
  · intro none
    exact nonempty (by rw [← made.contents, none, List.map_nil])
  · intro r hr
    obtain ⟨i, -, hi, source⟩ := made.id_mem hr
    exact ⟨i, hi, by rw [same.source]; exact source⟩
  · intro p hp r hr
    refine .inr fun new hnew used => ?_
    obtain ⟨i, hi, source⟩ := stocked.issued p (same.journal ▸ hp) r hr
    obtain ⟨j, hj, -, source'⟩ := made.id_mem hnew
    have same_index : i = j := stocked.injective (by rw [source, source', used])
    omega

/-- A submitted batch replaces nothing but itself, and drops what has expired. -/
theorem submit {f : Flight V} (stocked : s.Stocked clock (some f)) :
    (EventStore.writeBatch clock.today f.records s).2.Stocked clock (some f) := by
  obtain ⟨injective, issued, kept, prepared⟩ := stocked
  obtain ⟨contents, nonempty, own, apart⟩ := prepared f rfl
  obtain ⟨taken, journal, inner, -⟩ := writeBatch_submits clock.today f.records s
  set s' := (EventStore.writeBatch clock.today f.records s).2
  have source : s'.inner.source = s.inner.source := by rw [inner]; cases taken <;> rfl
  have reissued {r : Record V} (h : s.inner.Issued r) : s'.inner.Issued r := by
    rw [inner]
    cases taken <;> exact h
  have submitted {P : Submission V → Prop} (old : ∀ p ∈ s.journal, P p)
      (new : P ⟨f.records, taken⟩) : ∀ p ∈ s'.journal, P p := by
    rw [journal]
    exact List.forall_mem_append.mpr ⟨old, List.forall_mem_singleton.mpr new⟩
  refine ⟨by rw [source]; exact injective, ?_, ?_, ?_⟩
  · exact submitted (fun p hp r hr => reissued (issued p hp r hr)) fun r hr => reissued (own r hr)
  · cases taken with
    | false =>
      refine submitted (fun p hp stored r hr => ?_) nofun
      exact (kept p hp stored r hr).imp_left fun present => by rwa [inner]
    | true =>
      have rows : s'.inner.rows = (s.inner.write clock.today f.records).rows := by rw [inner]; rfl
      refine submitted (fun p hp stored r hr => ?_) fun _ r hr => .inl ?_
      · rcases kept p hp stored r hr with present | expired
        · by_cases live : r.isLive clock.today = true
          · refine .inl ?_
            rw [rows, MemoryStore.mem_rows_write]
            rcases apart p hp r hr with same | other
            · exact .inr same
            · exact .inl ⟨present, live, other⟩
          · exact .inr ⟨clock.now, le_rfl, Bool.eq_false_iff.mpr live⟩
        · exact .inr expired
      · rw [rows, MemoryStore.mem_rows_write]
        exact .inr hr
  · rintro _ ⟨⟩
    exact ⟨contents, nonempty, fun r hr => reissued (own r hr), submitted apart fun r hr => .inl hr⟩

end Stocked

end FallibleMemory

/-- A call whose flush failed, and what that had taken. -/
structure FailedFlush (V : Type) where
  call : Call V
  failure : Failure
  taken : Totals V

namespace Callers

variable {s s' : Callers V}

section Failing

variable [Add V]

/-- What the flush of the call that has the lock has taken, or is to take when the call has merged. -/
def taken? (s : Callers V) : Option (Totals V) :=
  match s.holder with
  | some (call, .entered) => some (s.merge call).collector.totals
  | some (_, .attempting f) | some (_, .waiting _ f) => some f.taken
  | some (_, .leaving _) | none => none

/-- The flush that fails on the way from one state to the next. -/
def failed? (s s' : Callers V) : Option (FailedFlush V) :=
  match s'.holder with
  | some (call, .leaving (.error e)) => s.taken?.map fun taken => ⟨call, e, taken⟩
  | _ => none

/-- The caller has the failure as its answer, or is about to get it. -/
def Reports (s : Callers V) (r : FailedFlush V) : Prop :=
  (r.call, .error r.failure) ∈ s.returned ∨ s.holder = some (r.call, .leaving (.error r.failure))

theorem StepCase.returned_subset (step : s.StepCase s') : s.returned ⊆ s'.returned := by
  cases step with
  | quiet quiet => rw [quiet.returned]; exact List.Subset.refl _
  | left => exact List.subset_append_left _ _
  | got | decided | began | tried => exact List.Subset.refl _

theorem Reports.step {r : FailedFlush V} (reports : s.Reports r) (step : s.StepCase s') :
    s'.Reports r := by
  rcases reports with returned | leaving
  · exact .inl (step.returned_subset returned)
  · cases step with
    | quiet quiet => exact .inr (quiet.holder.trans leaving)
    | got free => cases free.symm.trans leaving
    | decided held => cases held.symm.trans leaving
    | began held => cases held.symm.trans leaving
    | tried trying => exact absurd leaving (trying.not_leaving _ _)
    | left held =>
      cases held.symm.trans leaving
      exact .inl (List.mem_append_right _ (List.mem_singleton_self _))

theorem reports_of_failed? {r : FailedFlush V} (failed : s.failed? s' = some r) : s'.Reports r := by
  unfold failed? at failed
  split at failed
  · rename_i call e leaving
    obtain ⟨taken, -, rfl⟩ := Option.map_eq_some_iff.mp failed
    exact .inr leaving
  · cases failed

theorem failed?_land {call : Call V} {e : Failure} {c : Collector (FallibleMemory V) V}
    {taken : Totals V} (m : Callers V) (took : s.taken? = some taken) :
    s.failed? (m.land call (.finished (.error e), c)) = some ⟨call, e, taken⟩ := by
  simp only [failed?, land, hold, Stage.of, Except.map, took, Option.map_some]

theorem Trying.taken?_eq {call : Call V} {f : Flight V} (trying : s.Trying call f) :
    s.taken? = some f.taken := by
  rcases trying with held | ⟨wake, held⟩ <;> rw [taken?, held]

end Failing

end Callers

variable {ι : Type}

theorem mem_total_iff {k : Key} {x : ι} {pairs : List (Key × Multiset ι)} :
    x ∈ total k pairs ↔ ∃ p ∈ pairs, p.1 = k ∧ x ∈ p.2 := by
  induction pairs with
  | nil => simp
  | cons p pairs ih =>
    rw [total_cons, Multiset.mem_add, ih]
    by_cases h : p.1 = k <;> simp [h]

namespace Callers

theorem policy_merge [Add V] (call : Call V) (s : Callers V) :
    (s.merge call).collector.policy = s.collector.policy := by
  cases call <;> rfl

/-- What is about to be merged, is buffered or was taken by the flush in progress. -/
def underway (s : Callers V) : List (Key × V) :=
  s.entering ++ s.collector.totals.entries ++ s.flight?.elim [] fun f => f.taken.entries

/-- Where a value under a key is. -/
inductive Located (policy : BufferPolicy) (failed : List (FailedFlush (Multiset ι)))
    (s : Callers (Multiset ι)) (k : Key) (x : ι) : Prop
  | underway (mem : x ∈ total k s.underway)
  | stored {p : Submission (Multiset ι)} {r : Record (Multiset ι)}
      (submitted : p ∈ s.collector.store.journal) (taken : p.stored = true) (hr : r ∈ p.batch)
      (key : r.key = k) (mem : x ∈ r.value)
  | dropped {r : FailedFlush (Multiset ι)} (discard : policy.retry.onExhausted = .discard)
      (hr : r ∈ failed) (mem : x ∈ total k r.taken.entries)

/-- Every value whose write got the lock is located, and a flush that succeeded leaves nothing. -/
structure Traced (policy : BufferPolicy) (failed : List (FailedFlush (Multiset ι)))
    (s : Callers (Multiset ι)) : Prop where
  policy_eq : s.collector.policy = policy
  stocked : s.collector.store.Stocked s.clock s.flight?
  empty : ∀ f, s.flight? = some f → s.collector.totals = .empty
  flushed : s.flushed = true → s.collector.totals = .empty
  asked : ∀ t, s.holder ≠ some (.flush t, .leaving (.ok none))
  located : ∀ k, ∀ x ∈ total k (s.acquired.flatMap Entry.pairs), s.Located policy failed k x
  reported : ∀ r ∈ failed, s.Reports r

variable {policy : BufferPolicy} {failed failed' : List (FailedFlush (Multiset ι))}
  {s s' : Callers (Multiset ι)} {k : Key} {x : ι}

/-- What the store took and what was dropped stays so. -/
theorem Located.next (located : s.Located policy failed k x)
    (journal : s.collector.store.journal ⊆ s'.collector.store.journal) (more : failed ⊆ failed')
    (moves : x ∈ total k s.underway → s'.Located policy failed' k x) :
    s'.Located policy failed' k x := by
  cases located with
  | underway mem => exact moves mem
  | stored submitted taken hr key mem => exact .stored (journal submitted) taken hr key mem
  | dropped discard hr mem => exact .dropped discard (more hr) mem

theorem total_underway_of_entered {call : Call (Multiset ι)}
    (held : s.holder = some (call, .entered)) (k : Key) :
    total k s.underway = total k (s.merge call).collector.totals.entries := by
  have merged : (s.merge call).collector.totals =
      s.collector.totals.mergeAll (call.entries.flatMap Entry.pairs) :=
    Call.totals_merge s.collector call
  have tallies : tally (s.merge call).collector.totals.entries =
      tally (s.collector.totals.entries ++ call.entries.flatMap Entry.pairs) := by
    rw [merged, Totals.tally_mergeAll, tally_append]
  have sum := total_eq_of_tally_eq tallies k
  simp only [underway, entering, flight?, held, Option.elim_none, List.append_nil, total_append]
    at sum ⊢
  rw [sum, add_comm]

theorem underway_of_trying {call : Call (Multiset ι)} {f : Flight (Multiset ι)}
    (trying : s.Trying call f) (empty : s.collector.totals = .empty) :
    s.underway = f.taken.entries := by
  rw [underway, trying.entering_eq, trying.flight?_eq, empty]
  rfl

theorem underway_land (call : Call (Multiset ι)) (p : Progress (Multiset ι))
    (c : Collector (FallibleMemory (Multiset ι)) (Multiset ι)) :
    (s.land call (p, c)).underway =
      c.totals.entries ++ p.flight?.elim [] fun f => f.taken.entries := by
  rw [underway, entering_land, flight?_land, List.nil_append]
  rfl

/-- Where the totals are that a flush had taken: in records that the store took, given up, or with the
flush that goes on. -/
inductive LandCase (policy : BufferPolicy) (taken : Totals V)
    (c : Collector (FallibleMemory V) V) : Progress V → Prop where
  | wrote {n : Nat} (totals : c.totals = .empty) (stored : ∀ q ∈ taken.entries,
      ∃ p ∈ c.store.journal, p.stored = true ∧ ∃ r ∈ p.batch, r.pair = q) :
      LandCase policy taken c (.finished (.ok n))
  | gaveUp {e : Failure} (totals : c.totals = policy.retry.onExhausted.keeps taken) :
      LandCase policy taken c (.finished (.error e))
  | goesOn {p : Progress V} {f : Flight V} (flying : p.flight? = some f) (same : f.taken = taken)
      (totals : c.totals = .empty) : LandCase policy taken c p

/-- What a step of a flush leads to that has taken the totals. -/
structure Lands (policy : BufferPolicy) (clock : Clock) (taken : Totals V)
    (c : Collector (FallibleMemory V) V) (p : Progress V × Collector (FallibleMemory V) V) :
    Prop where
  policy_eq : p.2.policy = policy
  stocked : p.2.store.Stocked clock p.1.flight?
  journal : c.store.journal ⊆ p.2.store.journal
  outcome : LandCase policy taken p.2 p.1

section Landing

variable {policy : BufferPolicy} {c : Collector (FallibleMemory V) V} {clock : Clock}

theorem begin_lands [Add V] (trigger : Trigger) (policy_eq : c.policy = policy)
    (stocked : c.store.Stocked clock none) :
    Lands policy clock c.totals c (c.beginFlush clock trigger) := by
  obtain ⟨same, policy_eq', outcome⟩ := c.beginFlush_named clock trigger
  refine ⟨policy_eq'.trans policy_eq, ?_, same.journal ▸ List.Subset.refl _, ?_⟩
  · generalize (c.beginFlush clock trigger).1 = p at outcome
    cases outcome with
    | nothing => exact stocked.of_sameContents same rfl le_rfl
    | unnamed => exact stocked.of_sameContents same rfl le_rfl
    | named started taken nonempty totals exported made =>
      exact stocked.named same made (taken ▸ nonempty)
  · generalize (c.beginFlush clock trigger).1 = p at outcome
    cases outcome with
    | nothing nothing totals exported => exact .wrote totals (by simp [nothing])
    | unnamed faulty totals exported => exact .gaveUp (policy_eq ▸ totals)
    | named started taken nonempty totals exported made => exact .goesOn rfl taken totals

theorem attempt_lands [Add V] {f : Flight V} (policy_eq : c.policy = policy)
    (stocked : c.store.Stocked clock (some f)) (empty : c.totals = .empty) :
    Lands policy clock f.taken c (c.attempt clock f) := by
  obtain ⟨contents, nonempty, -, -⟩ := stocked.prepared f rfl
  obtain ⟨store, policy_eq', outcome⟩ := Collector.attempt_cases clock nonempty empty
  obtain ⟨landed, journal, -, answered⟩ :=
    FallibleMemory.writeBatch_submits clock.today f.records c.store
  have submitted := stocked.submit
  rw [← store] at journal submitted
  refine ⟨policy_eq'.trans policy_eq, ?_, journal ▸ List.subset_append_left _ _, ?_⟩
  · generalize (c.attempt clock f).1 = p at outcome
    generalize (EventStore.writeBatch clock.today f.records c.store).1 = answer at outcome
    cases outcome with
    | written => exact submitted.landed
    | again => exact submitted.with_loop _
    | gaveUp => exact submitted.landed
  · generalize (c.attempt clock f).1 = p at outcome
    generalize (EventStore.writeBatch clock.today f.records c.store).1 = answer at outcome answered
    cases outcome with
    | written totals exported =>
      refine .wrote totals fun q hq => ⟨⟨f.records, landed⟩, ?_, answered rfl, ?_⟩
      · rw [journal]
        exact List.mem_append_right _ (List.mem_singleton_self _)
      · rw [← contents] at hq
        exact List.mem_map.mp hq
    | again next totals exported => exact .goesOn rfl rfl totals
    | gaveUp next totals exported => exact .gaveUp (policy_eq ▸ totals)

end Landing

/-- A flush that fails puts back what it took, or that is reported as dropped. -/
theorem located_of_failed {call : Call (Multiset ι)} {e : Failure} {taken : Totals (Multiset ι)}
    {c : Collector (FallibleMemory (Multiset ι)) (Multiset ι)}
    (totals : c.totals = policy.retry.onExhausted.keeps taken)
    (report : (⟨call, e, taken⟩ : FailedFlush (Multiset ι)) ∈ failed)
    (mem : x ∈ total k taken.entries) :
    (s.land call (.finished (.error e), c)).Located policy failed k x := by
  cases exhausted : policy.retry.onExhausted with
  | discard => exact .dropped exhausted report mem
  | requeue =>
    rw [exhausted] at totals
    refine .underway ?_
    rw [underway_land, totals]
    simpa [OnExhausted.keeps, Progress.flight?] using mem

namespace Traced

theorem fresh {clock : Clock} {source : Nat → RowId} {plan : FaultPoint → FaultPlan}
    (injective : Function.Injective source) :
    (fresh policy clock source plan : Callers (Multiset ι)).Traced policy [] where
  policy_eq := rfl
  stocked := ⟨injective, nofun, nofun, nofun⟩
  empty := nofun
  flushed := nofun
  asked := nofun
  located _ _ none := absurd none (Multiset.notMem_zero _)
  reported := nofun

theorem reported_step (traced : s.Traced policy failed) (step : s.StepCase s') :
    ∀ r ∈ failed ++ (s.failed? s').toList, s'.Reports r := by
  refine List.forall_mem_append.mpr ⟨fun r hr => (traced.reported r hr).step step, ?_⟩
  intro r hr
  exact reports_of_failed? (Option.mem_toList.mp hr)

/-- The flush of the call that has the lock takes a step. -/
theorem land (traced : s.Traced policy failed) {m : Callers (Multiset ι)}
    {call : Call (Multiset ι)} {taken : Totals (Multiset ι)}
    {p : Progress (Multiset ι) × Collector (FallibleMemory (Multiset ι)) (Multiset ι)}
    (step : s.StepCase (m.land call p)) (acquired : m.acquired = s.acquired)
    (took : s.taken? = some taken) (amount : ∀ k, total k s.underway = total k taken.entries)
    (lands : Lands policy m.clock taken s.collector p) :
    (m.land call p).Traced policy (failed ++ (s.failed? (m.land call p)).toList) := by
  obtain ⟨policy_eq, stocked, journal, outcome⟩ := lands
  obtain ⟨p, c⟩ := p
  refine ⟨policy_eq, ?_, ?_, ?_, ?_, ?_, traced.reported_step step⟩
  · rw [flight?_land]
    exact stocked
  · intro f flying
    rw [flight?_land] at flying
    cases outcome with
    | wrote totals stored => exact totals
    | gaveUp => cases flying
    | goesOn _ _ totals => exact totals
  · intro flushed
    obtain ⟨n, finished⟩ := flushed_land.mp flushed
    cases finished
    cases outcome with
    | wrote totals stored => exact totals
    | goesOn flying => cases flying
  · intro t held
    cases p with
    | finished r => cases r <;> cases held
    | ready f => cases held
    | waiting d f => cases held
  · intro k x hx
    rw [show (m.land call (p, c)).acquired = s.acquired from acquired] at hx
    refine (traced.located k x hx).next journal (List.subset_append_left _ _) fun mem => ?_
    rw [amount] at mem
    cases outcome with
    | wrote totals stored =>
      obtain ⟨q, hq, key, value⟩ := mem_total_iff.mp mem
      obtain ⟨p, submitted, taken, r, hr, rfl⟩ := stored q hq
      exact .stored submitted taken hr key value
    | gaveUp totals =>
      rw [failed?_land m took]
      exact located_of_failed totals (List.mem_append_right _ (List.mem_singleton_self _)) mem
    | goesOn flying same totals =>
      refine .underway ?_
      rw [underway_land, flying, totals, Option.elim_some, same]
      exact mem

/-- A step that makes no flush; a write that gets the lock brings its values. -/
theorem frame (traced : s.Traced policy failed) (step : s.StepCase s')
    (policy_eq : s'.collector.policy = s.collector.policy)
    (stocked : s'.collector.store.Stocked s'.clock s'.flight?)
    (empty : ∀ f, s'.flight? = some f → s'.collector.totals = .empty)
    (flushed : s'.flushed = true → s'.collector.totals = .empty)
    (asked : ∀ t, s'.holder ≠ some (.flush t, .leaving (.ok none)))
    (journal : s'.collector.store.journal = s.collector.store.journal)
    {brought : List (Entry (Multiset ι))} (acquired : s'.acquired = s.acquired ++ brought)
    (moves : ∀ k, total k s'.underway = total k s.underway + total k (brought.flatMap Entry.pairs)) :
    s'.Traced policy (failed ++ (s.failed? s').toList) := by
  refine ⟨policy_eq.trans traced.policy_eq, stocked, empty, flushed, asked, ?_,
    traced.reported_step step⟩
  intro k x hx
  rw [acquired, List.flatMap_append, total_append, Multiset.mem_add] at hx
  rcases hx with old | new
  · refine (traced.located k x old).next (journal ▸ List.Subset.refl _)
      (List.subset_append_left _ _) fun mem => .underway ?_
    rw [moves]
    exact Multiset.mem_add.mpr (.inl mem)
  · refine .underway ?_
    rw [moves]
    exact Multiset.mem_add.mpr (.inr new)

theorem step (traced : s.Traced policy failed) (step : s.StepCase s') :
    s'.Traced policy (failed ++ (s.failed? s').toList) := by
  have stocked := traced.stocked
  cases step with
  | quiet quiet =>
    have same := stocked.of_sameContents quiet.store quiet.before.wall quiet.before.now
    refine traced.frame (.quiet quiet) quiet.policy_eq (quiet.flight?_eq ▸ same) ?_ ?_ ?_
      quiet.store.journal (quiet.acquired.trans (List.append_nil _).symm) fun k => ?_
    · rw [quiet.flight?_eq, quiet.totals]
      exact traced.empty
    · rw [Callers.flushed, quiet.holder, quiet.totals]
      exact traced.flushed
    · rw [quiet.holder]
      exact traced.asked
    · rw [underway, quiet.entering_eq, quiet.flight?_eq, quiet.totals]
      exact (add_zero _).symm
  | @got call queue free =>
    refine traced.frame (.got free) rfl stocked.landed (by rintro f ⟨⟩) (by rintro ⟨⟩) (by simp) rfl
      rfl fun k => ?_
    simp [underway, entering, flight?, free, add_comm, collector]
  | @decided call held undue =>
    have store : (s.merge call).collector.store = s.collector.store := Visible.store_merge call s
    refine traced.frame (.decided held undue) (policy_merge call s) (store ▸ stocked.landed)
      (by rintro f ⟨⟩) (by rintro ⟨⟩) ?_ (congrArg (·.journal) store)
      (List.append_nil _).symm fun k => ?_
    · rintro t ⟨⟩
      cases undue
    · rw [total_underway_of_entered held]
      simp [underway, entering, flight?, hold]
      rfl
  | @began call t held =>
    have idle : s.flight? = none := by rw [flight?, held]
    have lands : Lands policy s.clock (s.merge call).collector.totals (s.merge call).collector
        ((s.merge call).collector.beginFlush s.clock t) := by
      apply begin_lands t ((policy_merge call s).trans traced.policy_eq)
      rw [Visible.store_merge, ← idle]
      exact stocked
    refine traced.land (.began held) rfl (by rw [taken?, held]) (total_underway_of_entered held) ?_
    exact ⟨lands.policy_eq, lands.stocked, Visible.store_merge call s ▸ lands.journal, lands.outcome⟩
  | @tried call f trying =>
    have empty := traced.empty f trying.flight?_eq
    refine traced.land (.tried trying) rfl trying.taken?_eq ?_
      (attempt_lands traced.policy_eq ?_ empty)
    · rw [underway_of_trying trying empty]
      exact fun _ => rfl
    · rw [← trying.flight?_eq]
      exact stocked
  | @left call answer held =>
    refine traced.frame (.left held) rfl stocked.landed (by rintro f ⟨⟩) (by rintro ⟨⟩)
      (by rintro t ⟨⟩) rfl (List.append_nil _).symm fun k => ?_
    simp [underway, entering, flight?, held, collector]

end Traced

end Callers

end TraceTally
