import TraceTally.Proofs.Batch
import TraceTally.Proofs.Sums

/-!
# What a flush does not look at

Two collectors may hold the same totals in another order, under other identifiers, over other rows:
if their plans of failures agree then their flushes go the same way, attempt by attempt, and end
with the same answer.
-/

namespace TraceTally

variable {V : Type}

namespace FaultyStore

variable {σ : Type}

/-- The same calls will fail, and the same submissions were stored. -/
structure Alike (s s' : FaultyStore σ V) : Prop where
  plan : s'.plan = s.plan
  stored : s'.journal.map Submission.stored = s.journal.map Submission.stored

namespace Alike

variable {s s' : FaultyStore σ V}

theorem symm (alike : s.Alike s') : s'.Alike s := ⟨alike.plan.symm, alike.stored.symm⟩

theorem trans {s'' : FaultyStore σ V} (alike : s.Alike s') (alike' : s'.Alike s'') : s.Alike s'' :=
  ⟨alike'.plan.trans alike.plan, alike'.stored.trans alike.stored⟩

theorem consume (alike : s.Alike s') (point : FaultPoint) :
    (s'.consume point).1 = (s.consume point).1 ∧
      (s.consume point).2.Alike (s'.consume point).2 := by
  obtain ⟨plan, stored⟩ := alike
  unfold FaultyStore.consume
  rw [plan]
  cases s.plan point with
  | nil => exact ⟨rfl, plan, stored⟩
  | cons f rest => exact ⟨rfl, by simp [setPlan, plan], stored⟩

theorem with_inner (alike : s.Alike s') (inner inner' : σ) :
    Alike { s with inner } { s' with inner := inner' } :=
  ⟨alike.plan, alike.stored⟩

theorem record (alike : s.Alike s') (batch batch' : List (Record V)) (stored : Bool) :
    (s.record batch stored).Alike (s'.record batch' stored) :=
  ⟨alike.plan, by simp [FaultyStore.record, alike.stored]⟩

end Alike

end FaultyStore

namespace FallibleMemory

variable {s s' : FallibleMemory V}

theorem buildBatch_alike {today : Int} {lifetime : Duration} {pairs pairs' : List (Key × V)}
    (alike : s.Alike s') (length : pairs'.length = pairs.length) :
    (buildBatch today lifetime pairs' s').1.map List.length =
        (buildBatch today lifetime pairs s).1.map List.length ∧
      FaultyStore.Alike (buildBatch today lifetime pairs s).2
        (buildBatch today lifetime pairs' s').2 := by
  induction pairs generalizing pairs' s s' with
  | nil =>
    obtain rfl := List.length_eq_zero_iff.mp length
    exact ⟨rfl, alike⟩
  | cons p rest ih =>
    obtain ⟨p', rest', rfl⟩ := List.exists_cons_of_length_eq_add_one length
    obtain ⟨fault, alike₁⟩ := alike.consume .newId
    simp only [buildBatch, EventStore.newRowId, FaultyStore.guarded]
    cases first : s.consume .newId with
    | mk r s₁ =>
      cases first' : s'.consume .newId with
      | mk r' s₁' =>
        rw [first, first'] at fault alike₁
        obtain rfl : r' = r := fault
        cases r' with
        | some e => exact ⟨rfl, alike₁⟩
        | none =>
          obtain ⟨outcome, alike₂⟩ := ih (alike₁.with_inner s₁.inner.mint.2 s₁'.inner.mint.2)
            (Nat.succ_injective length)
          dsimp only
          split <;> split <;> simp_all [Except.map]

theorem writeBatch_alike (alike : s.Alike s') (now : Int) (records records' : List (Record V)) :
    (EventStore.writeBatch now records' s').1 = (EventStore.writeBatch now records s).1 ∧
      FaultyStore.Alike (EventStore.writeBatch now records s).2
        (EventStore.writeBatch now records' s').2 := by
  obtain ⟨fault, alike₁⟩ := alike.consume .write
  simp only [EventStore.writeBatch, FaultyStore.submit]
  cases first : s.consume .write with
  | mk r s₁ =>
    cases first' : s'.consume .write with
    | mk r' s₁' =>
      rw [first, first'] at fault alike₁
      obtain rfl : r' = r := fault
      cases r' with
      | some e => exact ⟨rfl, alike₁.record _ _ _⟩
      | none =>
        obtain ⟨fault, alike₂⟩ := ((alike₁.with_inner (s₁.inner.write now records)
          (s₁'.inner.write now records')).record records records' true).consume .acknowledge
        dsimp only
        split <;> split <;> simp_all

end FallibleMemory

namespace Totals

variable [Add V]

theorem get?_absorb (t u : Totals V) (k : Key) :
    (t.absorb u).get? k = (u.get? k).toList.foldl addNext (t.get? k) := by
  rw [absorb, get?_mergeAll, valuesAt_entries]

/-- Each key comes once, so the order in which they are put back does not matter. -/
theorem absorb_perm {t t' u u' : Totals V} (perm : t.entries.Perm t'.entries)
    (perm' : u.entries.Perm u'.entries) : (t.absorb u).entries.Perm (t'.absorb u').entries := by
  apply entries_perm_of_get?_eq
  funext k
  rw [get?_absorb, get?_absorb, get?_eq_of_perm perm, get?_eq_of_perm perm']

theorem mergeAll_perm {t t' : Totals V} (perm : t.entries.Perm t'.entries)
    (pairs : List (Key × V)) : (t.mergeAll pairs).entries.Perm (t'.mergeAll pairs).entries := by
  apply entries_perm_of_get?_eq
  funext k
  rw [get?_mergeAll, get?_mergeAll, get?_eq_of_perm perm]

end Totals

/-- Two flushes in progress that differ only in the order of what they took, and in its records. -/
structure Flight.Alike (f f' : Flight V) : Prop where
  trigger : f'.trigger = f.trigger
  loop : f'.loop = f.loop
  taken : f.taken.entries.Perm f'.taken.entries
  length : f'.records.length = f.records.length

inductive Progress.Alike : Progress V → Progress V → Prop where
  | finished (r : Except Failure Nat) : Alike (finished r) (finished r)
  | ready {f f' : Flight V} (flights : f.Alike f') : Alike (ready f) (ready f')
  | waiting (d : Duration) {f f' : Flight V} (flights : f.Alike f') :
      Alike (waiting d f) (waiting d f')

namespace Collector

/-- The same, but for the order of the totals and for what the store's rows are. -/
structure Alike (c c' : Collector (FallibleMemory V) V) : Prop where
  policy : c'.policy = c.policy
  lastExport : c'.lastExport = c.lastExport
  totals : c.totals.entries.Perm c'.totals.entries
  store : c.store.Alike c'.store

namespace Alike

variable {c c' : Collector (FallibleMemory V) V}

theorem symm (alike : c.Alike c') : c'.Alike c :=
  ⟨alike.policy.symm, alike.lastExport.symm, alike.totals.symm, alike.store.symm⟩

theorem trans {c'' : Collector (FallibleMemory V) V} (alike : c.Alike c') (alike' : c'.Alike c'') :
    c.Alike c'' :=
  ⟨alike'.policy.trans alike.policy, alike'.lastExport.trans alike.lastExport,
    alike.totals.trans alike'.totals, alike.store.trans alike'.store⟩

theorem isDue (alike : c.Alike c') (now : Instant) : c'.isDue now = c.isDue now := by
  simp only [Collector.isDue, alike.policy, alike.lastExport]

theorem setTotals (alike : c.Alike c') {t t' : Totals V} (perm : t.entries.Perm t'.entries) :
    (c.setTotals t).Alike (c'.setTotals t') :=
  ⟨alike.policy, alike.lastExport, perm, alike.store⟩

theorem submit (alike : c.Alike c') (today : Int) {records records' : List (Record V)}
    (length : records'.length = records.length) :
    (c'.submit today records').1 = (c.submit today records).1 ∧
      (c.submit today records).2.Alike (c'.submit today records').2 := by
  have empty : records'.isEmpty = records.isEmpty := by
    rw [Bool.eq_iff_iff, List.isEmpty_iff_length_eq_zero, List.isEmpty_iff_length_eq_zero, length]
  simp only [Collector.submit, empty]
  split
  · exact ⟨rfl, alike⟩
  · obtain ⟨answer, stores⟩ := FallibleMemory.writeBatch_alike alike.store today records records'
    cases first : EventStore.writeBatch today records c.store with
    | mk r store =>
      cases first' : EventStore.writeBatch today records' c'.store with
      | mk r' store' =>
        rw [first, first'] at answer stores
        obtain rfl : r' = r := answer
        cases r' with
        | error e => exact ⟨rfl, alike.policy, alike.lastExport, alike.totals, stores⟩
        | ok => exact ⟨rfl, alike.policy, alike.lastExport, alike.totals, stores⟩

variable [Add V]

theorem conclude (alike : c.Alike c') (now : Instant) (trigger : Trigger) {taken taken' : Totals V}
    (perm : taken.entries.Perm taken'.entries) (result : Except Failure Unit) :
    (c'.conclude now trigger taken' result).1 = (c.conclude now trigger taken result).1 ∧
      (c.conclude now trigger taken result).2.Alike (c'.conclude now trigger taken' result).2 := by
  obtain ⟨policy, lastExport, totals, store⟩ := alike
  cases result with
  | ok => exact ⟨congrArg Except.ok perm.length_eq.symm, policy, rfl, totals, store⟩
  | error e =>
    simp only [Collector.conclude, Collector.count, policy]
    cases c.policy.retry.onExhausted with
    | discard => exact ⟨rfl, rfl, lastExport, totals, store⟩
    | requeue => exact ⟨rfl, rfl, lastExport, Totals.absorb_perm totals perm, store⟩

theorem beginFlush (alike : c.Alike c') (clock : Clock) (trigger : Trigger) :
    Progress.Alike (c.beginFlush clock trigger).1 (c'.beginFlush clock trigger).1 ∧
      (c.beginFlush clock trigger).2.Alike (c'.beginFlush clock trigger).2 := by
  have taken := alike.setTotals (.refl (Totals.empty : Totals V).entries)
  have empty : c'.totals.isEmpty = c.totals.isEmpty := alike.totals.isEmpty_eq.symm
  have lifetime : (c'.setTotals .empty).policy.lifetime = (c.setTotals .empty).policy.lifetime :=
    congrArg BufferPolicy.lifetime alike.policy
  simp only [Collector.beginFlush, empty, lifetime]
  split
  · exact ⟨.finished _, taken.policy, rfl, taken.totals, taken.store⟩
  obtain ⟨length, stores⟩ := FallibleMemory.buildBatch_alike taken.store
    alike.totals.length_eq.symm
  cases batch : buildBatch clock.today (c.setTotals .empty).policy.lifetime c.totals.entries
    (c.setTotals .empty).store with
  | mk r store =>
    cases batch' : buildBatch clock.today (c.setTotals .empty).policy.lifetime c'.totals.entries
      (c'.setTotals .empty).store with
    | mk r' store' =>
      rw [batch, batch'] at length stores
      have unflown : Alike { c.setTotals .empty with store }
          { c'.setTotals .empty with store := store' } :=
        ⟨taken.policy, taken.lastExport, taken.totals, stores⟩
      cases r with
      | error e =>
        cases r' with
        | ok => cases length
        | error e' =>
          obtain rfl : e' = e := Except.error.inj length
          obtain ⟨result, concluded⟩ := unflown.conclude clock.now trigger alike.totals (.error e')
          dsimp only
          rw [result]
          exact ⟨.finished _, concluded⟩
      | ok records =>
        cases r' with
        | error => cases length
        | ok records' =>
          exact ⟨.ready ⟨rfl, by rw [taken.policy], alike.totals, Except.ok.inj length⟩, unflown⟩

theorem attempt (alike : c.Alike c') (clock : Clock) {f f' : Flight V} (flights : f.Alike f') :
    Progress.Alike (c.attempt clock f).1 (c'.attempt clock f').1 ∧
      (c.attempt clock f).2.Alike (c'.attempt clock f').2 := by
  obtain ⟨answer, submitted⟩ := alike.submit clock.today flights.length
  simp only [Collector.attempt]
  rw [answer, flights.loop, flights.trigger]
  cases Retry.next Failure.isTransient f.loop (c.submit clock.today f.records).1 with
  | wait d loop =>
    exact ⟨.waiting d ⟨rfl, rfl, flights.taken, flights.length⟩, submitted⟩
  | done r =>
    obtain ⟨result, concluded⟩ := submitted.conclude clock.now f.trigger flights.taken r
    dsimp only
    rw [result]
    exact ⟨.finished _, concluded⟩

end Alike

end Collector

namespace Timed

/-- The same moment, for collectors that are alike. -/
structure Alike (s s' : Timed (FallibleMemory V) V) : Prop where
  clock : s'.clock = s.clock
  collector : s.collector.Alike s'.collector

variable [Add V]

namespace Alike

variable {s s' : Timed (FallibleMemory V) V}

omit [Add V] in
theorem symm (alike : s.Alike s') : s'.Alike s := ⟨alike.clock.symm, alike.collector.symm⟩

omit [Add V] in
theorem trans {s'' : Timed (FallibleMemory V) V} (alike : s.Alike s') (alike' : s'.Alike s'') :
    s.Alike s'' :=
  ⟨alike'.clock.trans alike.clock, alike.collector.trans alike'.collector⟩

omit [Add V] in
theorem pass (alike : s.Alike s') (d : Duration) : (s.pass d).Alike (s'.pass d) :=
  ⟨congrArg (Clock.pass · d) alike.clock, alike.collector⟩

theorem finish (alike : s.Alike s') {f f' : Flight V} (flights : f.Alike f') :
    (s'.finish f').1 = (s.finish f).1 ∧ (s.finish f).2.Alike (s'.finish f').2 := by
  obtain ⟨clock, collectors⟩ := alike
  fun_induction Timed.finish f s generalizing s' f' with
  | case1 f s r c h =>
    obtain ⟨progress, ended⟩ := collectors.attempt s.clock flights
    rw [h] at progress ended
    cases h' : s'.collector.attempt s.clock f' with
    | mk p' c' =>
      rw [h'] at progress ended
      cases progress with
      | finished r =>
        rw [finish_of_finished (clock ▸ h')]
        exact ⟨rfl, clock, ended⟩
  | case2 f s d g c h this ih =>
    obtain ⟨progress, ended⟩ := collectors.attempt s.clock flights
    rw [h] at progress ended
    cases h' : s'.collector.attempt s.clock f' with
    | mk p' c' =>
      rw [h'] at progress ended
      cases progress with
      | waiting d flights' =>
        rw [finish_of_waiting (clock ▸ h')]
        exact ih flights' (congrArg (Clock.pass · d) clock) ended

theorem flush (alike : s.Alike s') (trigger : Trigger) :
    (s'.flush trigger).1 = (s.flush trigger).1 ∧
      (s.flush trigger).2.Alike (s'.flush trigger).2 := by
  obtain ⟨clock, collectors⟩ := alike
  obtain ⟨progress, begun⟩ := collectors.beginFlush s.clock trigger
  simp only [Timed.flush, clock]
  cases h : s.collector.beginFlush s.clock trigger with
  | mk p c =>
    cases h' : s'.collector.beginFlush s.clock trigger with
    | mk p' c' =>
      rw [h, h'] at progress begun
      have alike : Alike { s with collector := c } ⟨s.clock, c'⟩ := ⟨rfl, begun⟩
      cases progress with
      | finished r => exact ⟨rfl, alike⟩
      | ready flights => exact alike.finish flights
      | waiting d flights => exact (alike.pass d).finish flights

end Alike

end Timed

end TraceTally
