import TraceTally.Proofs.Callers
import TraceTally.Proofs.Occurrences

/-!
# Calls that are dropped

A caller may give up, and then its call is dropped where it waits: for the lock, for the store's
answer, or for the next attempt. Nothing of it runs any more; the lock is free again. What a dropped
flush has taken out of the buffer and not stored is gone, and nothing else is.
-/

namespace TraceTally

variable {V : Type}

inductive Drop where
  | queued (i : Nat)
  /-- The call that has the lock, if it waits. `applied` says whether the store takes the batch that
  it was given, although nobody waits for the answer. -/
  | holder (applied : Bool)

/-- What happens next, if callers may give up. -/
inductive Happening (V : Type) where
  | move (m : Move V)
  | drop (d : Drop)

/-- The call has come to an end, and its flush has failed. -/
def Stage.failed : Stage V → Bool
  | leaving (.error _) => true
  | _ => false

namespace Callers

def deliver (f : Flight V) (s : Callers V) : Callers V :=
  s.setCollector { s.collector with store := { s.collector.store with
    inner := s.collector.store.inner.write s.clock.today f.records } }

def drop (s : Callers V) : Drop → Callers V
  | .queued i => { s with queue := s.queue.eraseIdx i }
  | .holder applied =>
    match s.holder with
    | some (_, .attempting f) => { if applied then s.deliver f else s with holder := none }
    | some (_, .waiting _ _) => { s with holder := none }
    | _ => s

/-- What a flush in progress has taken and not stored. -/
def carried (s : Callers V) : List (Key × V) :=
  match s.flight? with
  | some f => s.timed.pending (some f)
  | none => []

/-- What a dropped flush takes with it. -/
def abandonedBy (s : Callers V) : Drop → List (Key × V)
  | .queued _ => []
  | .holder applied =>
    match s.flight? with
    | some f => (s.drop (.holder applied)).timed.pending (some f)
    | none => []

/-- What calls that were answered without failure had merged. -/
def answered (s : Callers V) : List (Key × V) :=
  s.returned.flatMap fun (call, answer) =>
    match answer with
    | .ok _ => call.entries.flatMap Entry.pairs
    | .error _ => []

def Faultless (s : Callers V) : Prop :=
  (∀ p ∈ s.returned, p.2.isOk = true) ∧ ∀ p ∈ s.holder, p.2.failed = false

instance (s : Callers V) : Decidable s.Faultless := inferInstanceAs (Decidable (_ ∧ _))

section Happening

variable [Add V]

def happen (s : Callers V) : Happening V → Callers V
  | .move m => s.step m
  | .drop d => s.drop d

def live (s : Callers V) (happenings : List (Happening V)) : Callers V := happenings.foldl happen s

def abandoned (s : Callers V) : List (Happening V) → List (Key × V)
  | [] => []
  | .move m :: rest => (s.step m).abandoned rest
  | .drop d :: rest => s.abandonedBy d ++ (s.drop d).abandoned rest

end Happening

/-- What a drop can do, and what it takes with it. -/
inductive DropCase (s : Callers V) : Callers V → List (Key × V) → Prop where
  | harmless (queue : List (Call V)) : DropCase s { s with queue } []
  | unsent {call : Call V} {f : Flight V} (trying : s.Trying call f) :
      DropCase s { s with holder := none } (s.timed.pending (some f))
  | delivered {call : Call V} {f : Flight V} (held : s.holder = some (call, .attempting f)) :
      DropCase s { s.deliver f with holder := none } ((s.deliver f).timed.pending (some f))

theorem drop_cases (s : Callers V) (d : Drop) : s.DropCase (s.drop d) (s.abandonedBy d) := by
  cases d with
  | queued i => exact .harmless _
  | holder applied =>
    simp only [drop, abandonedBy, flight?]
    cases held : s.holder with
    | none => exact .harmless s.queue
    | some p =>
      obtain ⟨call, stage⟩ := p
      cases stage with
      | entered => exact .harmless s.queue
      | attempting f =>
        cases applied with
        | false => exact .unsent (.inl held)
        | true => exact .delivered held
      | waiting wake f => exact .unsent (.inr ⟨wake, held⟩)
      | leaving answer => exact .harmless s.queue

variable {s s' : Callers V} {lost : List (Key × V)}

theorem DropCase.before (step : s.DropCase s' lost) : s.timed.Before s'.timed := by
  cases step with
  | harmless => exact .refl _
  | unsent => exact .refl _
  | delivered => exact ⟨rfl, le_rfl⟩

theorem faultless_of_holder {call : Call V} {stage : Stage V}
    (answers : ∀ p ∈ s.returned, p.2.isOk = true) (held : s.holder = some (call, stage))
    (failed : stage.failed = false) : s.Faultless := by
  refine ⟨answers, ?_⟩
  intro p hp
  cases held.symm.trans hp
  exact failed

theorem Trying.faultless {call : Call V} {f : Flight V} (trying : s.Trying call f)
    (answers : ∀ p ∈ s.returned, p.2.isOk = true) : s.Faultless := by
  rcases trying with held | ⟨wake, held⟩
  · exact faultless_of_holder answers held rfl
  · exact faultless_of_holder answers held rfl

theorem DropCase.faultless (step : s.DropCase s' lost) (faultless : s'.Faultless) :
    s.Faultless := by
  have answers := faultless.1
  cases step with
  | harmless => exact faultless
  | unsent trying => exact trying.faultless answers
  | delivered held => exact faultless_of_holder answers held rfl

theorem StepCase.faultless [Add V] (step : s.StepCase s') (faultless : s'.Faultless) :
    s.Faultless := by
  have answers := faultless.1
  cases step with
  | quiet quiet => rwa [Faultless, quiet.returned, quiet.holder] at faultless
  | got free => exact ⟨answers, by simp [free]⟩
  | decided held => exact faultless_of_holder answers held rfl
  | began held => exact faultless_of_holder answers held rfl
  | tried trying => exact trying.faultless answers
  | @left call answer held =>
    obtain ⟨before, last⟩ := List.forall_mem_append.mp answers
    have ok : answer.isOk = true := last _ (List.mem_singleton_self _)
    apply faultless_of_holder before held
    cases answer with
    | ok n => rfl
    | error e => cases ok

def serving (s : Callers V) : List (Entry V) :=
  match s.holder with
  | some (call, _) => call.entries
  | none => []

/-- Calls return in the order in which they got the lock. -/
def InOrder (s : Callers V) : Prop :=
  (s.returned.flatMap (·.1.entries) ++ s.serving).Sublist s.acquired

theorem serving_eq {call : Call V} {stage : Stage V} (held : s.holder = some (call, stage)) :
    s.serving = call.entries := by
  rw [serving, held]

theorem InOrder.of_serving_eq (order : s.InOrder) (returned : s'.returned = s.returned)
    (serving : s'.serving = s.serving) (acquired : s'.acquired = s.acquired) : s'.InOrder := by
  rwa [InOrder, returned, serving, acquired]

theorem InOrder.step [Add V] (order : s.InOrder) (step : s.StepCase s') : s'.InOrder := by
  cases step with
  | quiet quiet =>
    refine order.of_serving_eq quiet.returned ?_ quiet.acquired
    rw [serving, serving, quiet.holder]
  | @got call queue free =>
    have idle : s.serving = [] := by rw [serving, free]
    rw [InOrder, idle, List.append_nil] at order
    exact order.append (List.Sublist.refl _)
  | @decided call held => exact order.of_serving_eq rfl (serving_eq held).symm rfl
  | @began call t held => exact order.of_serving_eq rfl (serving_eq held).symm rfl
  | @tried call f trying =>
    refine order.of_serving_eq rfl ?_ rfl
    rcases trying with held | ⟨wake, held⟩
    · exact (serving_eq held).symm
    · exact (serving_eq held).symm
  | @left call answer held =>
    rw [InOrder, serving_eq held] at order
    simpa [InOrder, serving] using order

theorem InOrder.drop (order : s.InOrder) (step : s.DropCase s' lost) : s'.InOrder := by
  have fewer : (s.returned.flatMap fun (call, _) => call.entries).Sublist s.acquired :=
    (List.sublist_append_left _ _).trans order
  rw [← List.append_nil (s.returned.flatMap _)] at fewer
  cases step with
  | harmless => exact order
  | unsent => exact fewer
  | delivered => exact fewer

section Balance

variable [AddCommMonoid V] {policy : BufferPolicy} {horizon : Instant} {gone : List (Key × V)}

theorem Accounted.drop (accounted : s.Accounted policy horizon gone) (step : s.DropCase s' lost)
    (inTime : s.clock.now ≤ horizon) : s'.Accounted policy horizon (gone ++ lost) := by
  cases step with
  | harmless queue =>
    rw [List.append_nil]
    exact accounted
  | @unsent call f trying =>
    have balanced := accounted.flying trying
    refine Balanced.at_rest balanced.policy_eq balanced.sound balanced.spares ?_
    have empty : s.timed.collector.totals = .empty := (balanced.taken f rfl).1
    simp only [entering, List.append_nil, tally_append, balanced.balance, empty]
    rw [show tally (Totals.empty : Totals V).entries = 0 from rfl]
    abel
  | @delivered call f held =>
    have balanced := accounted.flying (.inl held)
    obtain ⟨empty, base, above⟩ := balanced.taken f rfl
    have written : f.Above s.clock.wall horizon base true
        (s.deliver f).timed.collector.store := above.write inTime rfl
    refine Balanced.at_rest balanced.policy_eq written.sound balanced.spares ?_
    have stored := (Balanced.above_sum written).trans (Balanced.above_sum above).symm
    have left : (s.deliver f).timed.pending (some f) = [] := if_pos written.isStored_eq
    have balance : tally (s.acquired.flatMap Entry.pairs) =
        tally (s.deliver f).timed.collector.store.inner.pairs + tally gone := by
      rw [balanced.balance, Timed.pending]
      cases isStored : f.isStored s.timed.collector.store <;> simp_all
    simp only [entering, List.append_nil, left]
    rw [show (s.deliver f).timed.collector.totals = .empty from empty]
    exact balance.trans (by simp [Totals.empty])

theorem before_live (s : Callers V) (happenings : List (Happening V)) :
    s.timed.Before (s.live happenings).timed := by
  induction happenings generalizing s with
  | nil => exact .refl _
  | cons happening happenings ih =>
    refine Timed.Before.trans ?_ (ih _)
    cases happening with
    | move m => exact (s.step_cases m).before
    | drop d => exact (s.drop_cases d).before

theorem faultless_of_live {happenings : List (Happening V)}
    (faultless : (s.live happenings).Faultless) : s.Faultless := by
  induction happenings generalizing s with
  | nil => exact faultless
  | cons happening happenings ih =>
    have after := ih faultless
    cases happening with
    | move m => exact (s.step_cases m).faultless after
    | drop d => exact (s.drop_cases d).faultless after

/-- What the writes that got the lock have brought is stored, pending, about to be merged, or was
abandoned. -/
theorem Accounted.live {happenings : List (Happening V)}
    (accounted : s.Accounted policy horizon gone) (order : s.InOrder)
    (inTime : (s.live happenings).clock.now ≤ horizon)
    (faultless : (s.live happenings).Faultless) :
    (s.live happenings).Accounted policy horizon (gone ++ s.abandoned happenings) ∧
      (s.live happenings).InOrder := by
  -- A failure stays on record, so that a run without one at its end has none before.
  induction happenings generalizing s gone with
  | nil =>
    rw [abandoned, List.append_nil]
    exact ⟨accounted, order⟩
  | cons happening happenings ih =>
    have now : s.clock.now ≤ horizon := (s.before_live (happening :: happenings)).now.trans inTime
    cases happening with
    | move m =>
      have after : (s.step m).Faultless := faultless_of_live faultless
      have kept : (s.step m).Accounted policy horizon gone := by
        apply accounted.step (s.step_cases m) now
        intro call e failed
        cases after.2 _ failed
      exact ih kept (order.step (s.step_cases m)) inTime faultless
    | drop d =>
      rw [abandoned, ← List.append_assoc]
      exact ih (accounted.drop (s.drop_cases d) now) (order.drop (s.drop_cases d)) inTime faultless

/-- What is pending is buffered, or carried by a flush. -/
theorem Accounted.pending_eq (accounted : s.Accounted policy horizon gone) :
    tally (s.timed.pending s.flight?) = tally (s.collector.totals.entries ++ s.carried) := by
  have taken := accounted.taken
  rw [carried]
  cases flying : s.flight? with
  | none => rw [Timed.pending, List.append_nil]; rfl
  | some f =>
    have empty : s.collector.totals = .empty := (taken f flying).1
    rw [empty]
    rfl

theorem Accounted.total_acquired (accounted : s.Accounted policy horizon gone) (k : Key) :
    total k (s.acquired.flatMap Entry.pairs) =
      (s.collector.totals.get? k).getD 0 + total k s.collector.store.inner.pairs +
        total k s.carried + total k gone + total k s.entering := by
  have balance := accounted.balance
  rw [accounted.pending_eq, ← tally_append, ← tally_append] at balance
  have sum := total_eq_of_tally_eq balance k
  simp only [total_append, Totals.total_entries] at sum
  rw [sum, collector]
  abel

end Balance

theorem answered_sublist (s : Callers V) :
    s.answered.Sublist
      ((s.returned.flatMap fun (call, _) => call.entries).flatMap Entry.pairs) := by
  rw [answered, List.flatMap_assoc]
  apply List.Sublist.flatMap_right
  rintro ⟨call, answer⟩ -
  cases answer with
  | ok n => exact .refl _
  | error e => exact List.nil_sublist _

theorem entering_sublist (s : Callers V) :
    s.entering.Sublist (s.serving.flatMap Entry.pairs) := by
  rw [entering, serving]
  split
  · simp_all
  · exact List.nil_sublist _

/-- What was answered and what is about to be merged are different writes' entries. -/
theorem InOrder.answered_append_entering (order : s.InOrder) :
    (s.answered ++ s.entering).Sublist (s.acquired.flatMap Entry.pairs) := by
  apply (s.answered_sublist.append s.entering_sublist).trans
  rw [← List.flatMap_append]
  exact order.flatMap _

variable {ι : Type}

/-- As long as no flush fails, a value whose write was answered is buffered, stored, or with a flush
in progress, if and only if no dropped flush took it along. -/
theorem survives_iff_not_abandoned (policy : BufferPolicy) (clock : Clock) (source : Nat → RowId)
    (plan : FaultPoint → FaultPlan) (happenings : List (Happening (Multiset ι)))
    (injective : Function.Injective source)
    (spares : clock.Spares policy.lifetime
      ((fresh policy clock source plan).live happenings).clock.now)
    (faultless : ((fresh policy clock source plan).live happenings).Faultless) {events : List ι}
    (labelled : Labelled
      (((fresh policy clock source plan).live happenings).acquired.flatMap Entry.pairs) events) :
    let s := (fresh policy clock source plan).live happenings
    ∀ k, ∀ x ∈ total k s.answered,
      (x ∈ (s.collector.totals.get? k).getD 0 + total k s.collector.store.inner.pairs +
          total k s.carried ↔
        x ∉ total k ((fresh policy clock source plan).abandoned happenings)) := by
  intro s k x hx
  have begins : (fresh policy clock source plan : Callers (Multiset ι)).Accounted policy s.clock.now
      [] := accounted_fresh injective spares
  obtain ⟨accounted, order⟩ := begins.live (.refl _) le_rfl faultless
  have sum := accounted.total_acquired k
  rw [List.nil_append] at sum
  have nodup := labelled.nodup_total k
  have brought := total_le_of_sublist order.answered_append_entering k
  rw [total_append] at brought
  have elsewhere : x ∉ total k s.entering := by
    have apart := Multiset.disjoint_of_nodup_add (Multiset.nodup_of_le brought nodup)
    exact Multiset.disjoint_left.mp apart hx
  have given : x ∈ total k (s.acquired.flatMap Entry.pairs) :=
    Multiset.mem_of_le ((Multiset.le_add_right _ _).trans brought) hx
  rw [sum] at given nodup
  have apart := Multiset.disjoint_of_nodup_add
    (Multiset.nodup_of_le (Multiset.le_add_right _ _) nodup)
  constructor
  · exact Multiset.disjoint_left.mp apart
  · intro kept
    rcases Multiset.mem_add.mp given with given | entering
    · exact (Multiset.mem_add.mp given).resolve_right kept
    · exact absurd entering elsewhere

/-- A failed attempt is made again, and a flush that fails for good puts everything back. -/
def patientPolicy : BufferPolicy :=
  ⟨9, .ofSeconds 60, .ofSeconds 3600, ⟨3, .ofMillis 100, .requeue⟩⟩

/-- A write that is answered, and then a flush that is dropped while the batch is with the store. -/
def droppedFlush (applied : Bool) : List (Happening (Multiset Nat)) :=
  [.move (.call (.write ⟨"o", "t", [⟨"a", {0}, "u"⟩]⟩)), .move (.acquire 0), .move .proceed,
    .move .proceed, .move (.call (.flush .manual)), .move (.acquire 0), .move .proceed,
    .drop (.holder applied)]

/-- If the store does not take the batch, the value of a write that was answered is gone. -/
theorem lost_with_dropped_flush :
    let s := (fresh patientPolicy ⟨⟨0⟩, fun _ => 0⟩ id fun _ => []).live (droppedFlush false)
    let k : Key := ⟨"o", "t", "a", "u"⟩
    s.Faultless ∧ total k s.answered = {0} ∧
      (s.collector.totals.get? k).getD 0 + total k s.collector.store.inner.pairs = 0 := by
  decide +kernel

/-- If the store takes the batch, nothing is lost. -/
theorem survives_when_delivered :
    let s := (fresh patientPolicy ⟨⟨0⟩, fun _ => 0⟩ id fun _ => []).live (droppedFlush true)
    let k : Key := ⟨"o", "t", "a", "u"⟩
    0 ∈ (s.collector.totals.get? k).getD 0 + total k s.collector.store.inner.pairs +
      total k s.carried :=
  (survives_iff_not_abandoned patientPolicy ⟨⟨0⟩, fun _ => 0⟩ id (fun _ => []) (droppedFlush true)
    Function.injective_id (Clock.spares_of_constant (by decide) _) (by decide +kernel)
    ⟨List.nodup_singleton 0, by decide +kernel⟩ ⟨"o", "t", "a", "u"⟩ 0 (by decide +kernel)).mpr
    (by decide +kernel)

end Callers

end TraceTally
