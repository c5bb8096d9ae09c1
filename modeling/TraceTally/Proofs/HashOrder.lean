import TraceTally.Proofs.Answer
import TraceTally.Proofs.Callers
import TraceTally.Proofs.Conservation
import TraceTally.Proofs.Lockstep

/-!
# Runs in any order of the keys

In which order totals are gone through is nobody's choice: when a flush makes its records, when what
it took is put back, and when a query lists its events, it may be any. So a run is a relation here;
the functions that run are one of its cases. Of addition nothing is assumed.
-/

namespace TraceTally

variable {V : Type} [Add V]

inductive Turn (V : Type) where
  | call (c : Call V)
  | pass (d : Duration)

/-- What was merged since the buffer was last emptied, and what each flush carried whose batch was
stored. -/
structure Ledger (V : Type) where
  merged : List (Key × V) := []
  stored : List (List (Key × V)) := []

namespace Ledger

def merge (pairs : List (Key × V)) (l : Ledger V) : Ledger V :=
  { l with merged := l.merged ++ pairs }

def flush (policy : OnExhausted) (r : FlushReport V) (l : Ledger V) : Ledger V where
  merged := if r.failed ∧ policy = .requeue then l.merged else []
  stored := if r.stored then l.stored ++ [l.merged] else l.stored

omit [Add V] in
theorem merge_nil (l : Ledger V) : l.merge [] = l :=
  congrArg (Ledger.mk · _) (List.append_nil _)

/-- One value for each of the flushes that carried the key. -/
def values (l : Ledger V) (k : Key) : List V :=
  l.stored.filterMap fun pairs => leftSum (valuesAt k pairs)

end Ledger

namespace Timed

/-- The same, with the totals in some order. -/
def Reordered (s s' : Timed (FallibleMemory V) V) : Prop :=
  ∃ t : Totals V, s.collector.totals.entries.Perm t.entries ∧
    s' = { s with collector := { s.collector with totals := t } }

def merge (call : Call V) (s : Timed (FallibleMemory V) V) : Timed (FallibleMemory V) V :=
  { s with collector := call.merge s.collector }

end Timed

/-- A turn in which the buffer is gone through in some order to make a batch, and in some order to
put back what was taken. -/
inductive Turned : Timed (FallibleMemory V) V → Ledger V → Turn V → Timed (FallibleMemory V) V →
    Ledger V → Prop where
  | passed (s : Timed (FallibleMemory V) V) (l : Ledger V) (d : Duration) :
      Turned s l (.pass d) (s.pass d) l
  | kept {s : Timed (FallibleMemory V) V} (l : Ledger V) {call : Call V}
      (undue : call.trigger? s.clock.now (s.merge call).collector = none) :
      Turned s l (.call call) (s.merge call) (l.merge (call.entries.flatMap Entry.pairs))
  | flushed {s s₁ s₂ : Timed (FallibleMemory V) V} (l : Ledger V) {call : Call V} {t : Trigger}
      (due : call.trigger? s.clock.now (s.merge call).collector = some t)
      (before : (s.merge call).Reordered s₁) (after : (s₁.flush t).2.Reordered s₂) :
      Turned s l (.call call) s₂
        ((l.merge (call.entries.flatMap Entry.pairs)).flush s.collector.policy.retry.onExhausted
          (s₁.report t))

inductive Runs : Timed (FallibleMemory V) V → Ledger V → List (Turn V) →
    Timed (FallibleMemory V) V → Ledger V → Prop where
  | done (s : Timed (FallibleMemory V) V) (l : Ledger V) : Runs s l [] s l
  | next {s s₁ s₂ : Timed (FallibleMemory V) V} {l l₁ l₂ : Ledger V} {turn : Turn V}
      {turns : List (Turn V)} (first : Turned s l turn s₁ l₁) (rest : Runs s₁ l₁ turns s₂ l₂) :
      Runs s l (turn :: turns) s₂ l₂

def Turn.run (s : Timed (FallibleMemory V) V) : Turn V → Timed (FallibleMemory V) V
  | call c => (c.serve s).2
  | pass d => s.pass d

omit [Add V] in
theorem Timed.Reordered.refl (s : Timed (FallibleMemory V) V) : s.Reordered s :=
  ⟨s.collector.totals, .refl _, rfl⟩

theorem exists_turned (s : Timed (FallibleMemory V) V) (l : Ledger V) (turn : Turn V) :
    ∃ l', Turned s l turn (turn.run s) l' := by
  cases turn with
  | pass d => exact ⟨l, .passed s l d⟩
  | call c =>
    simp only [Turn.run, Call.serve]
    cases due : c.trigger? s.clock.now (c.merge s.collector) with
    | none => exact ⟨_, .kept l due⟩
    | some t => exact ⟨_, .flushed l due (.refl _) (.refl _)⟩

theorem exists_runs (s : Timed (FallibleMemory V) V) (l : Ledger V) (turns : List (Turn V)) :
    ∃ l', Runs s l turns (turns.foldl Turn.run s) l' := by
  induction turns generalizing s l with
  | nil => exact ⟨l, .done s l⟩
  | cons turn turns ih =>
    obtain ⟨l₁, first⟩ := exists_turned s l turn
    obtain ⟨l₂, rest⟩ := ih (turn.run s) l₁
    exact ⟨l₂, .next first rest⟩

variable {s s' s₁ s₁' s₂ s₂' : Timed (FallibleMemory V) V} {l l' l₁ l₁' l₂ l₂' : Ledger V}

namespace Timed

omit [Add V] in
theorem Reordered.alike (reordered : s.Reordered s') : s.Alike s' := by
  obtain ⟨t, perm, rfl⟩ := reordered
  exact ⟨rfl, rfl, rfl, perm, rfl, rfl⟩

theorem Alike.merge (alike : s.Alike s') (call : Call V) :
    (s.merge call).Alike (s'.merge call) := by
  obtain ⟨clock, policy, lastExport, totals, store⟩ := alike
  refine ⟨clock, ?_⟩
  cases call with
  | write e => exact ⟨policy, lastExport, Totals.mergeAll_perm totals _, store⟩
  | flush t => exact ⟨policy, lastExport, totals, store⟩
  | flushIfDue => exact ⟨policy, lastExport, totals, store⟩

theorem Alike.report (alike : s.Alike s') (t : Trigger) :
    (s'.report t).failed = (s.report t).failed ∧ (s'.report t).stored = (s.report t).stored := by
  obtain ⟨answer, flushed⟩ := alike.flush t
  have stored : ∀ s : Timed (FallibleMemory V) V, (s.report t).stored =
      (((s.flush t).2.collector.store.journal.map Submission.stored).drop
        (s.collector.store.journal.map Submission.stored).length).any id := by
    intro s
    rw [← List.map_drop, List.any_map, List.length_map]
    rfl
  constructor
  · exact congrArg (fun answer => (⟨.empty, answer, false⟩ : FlushReport V).failed) answer
  · rw [stored, stored, flushed.collector.store.stored, alike.collector.store.stored]

end Timed

omit [Add V] in
theorem Call.trigger?_alike (alike : s.Alike s') (call : Call V) (now : Instant) :
    call.trigger? now s'.collector = call.trigger? now s.collector := by
  have due := alike.collector.isDue now
  cases call with
  | write e =>
    have size : s'.collector.totals.size = s.collector.totals.size :=
      alike.collector.totals.length_eq.symm
    simp only [trigger?, Collector.trigger?, due, size, alike.collector.policy]
  | flush t => rfl
  | flushIfDue => simp only [trigger?, due]

theorem Turned.alike {turn : Turn V} (turned : Turned s l turn s₁ l₁)
    (turned' : Turned s' l turn s₁' l₁') (alike : s.Alike s') : s₁.Alike s₁' ∧ l₁' = l₁ := by
  have trigger : ∀ call : Call V, call.trigger? s'.clock.now (s'.merge call).collector =
      call.trigger? s.clock.now (s.merge call).collector := by
    intro call
    rw [call.trigger?_alike (alike.merge call), alike.clock]
  cases turned with
  | passed _ d =>
    cases turned' with
    | passed => exact ⟨alike.pass d, rfl⟩
  | @kept _ call undue =>
    cases turned' with
    | kept => exact ⟨alike.merge call, rfl⟩
    | flushed _ due => cases undue.symm.trans ((trigger call).symm.trans due)
  | @flushed r _ _ call t due before after =>
    cases turned' with
    | kept _ undue => cases due.symm.trans ((trigger call).symm.trans undue)
    | @flushed r' _ _ _ t' due' before' after' =>
      obtain rfl : t = t' := Option.some.inj (due.symm.trans ((trigger call).symm.trans due'))
      have taken : r.Alike r' := before.alike.symm.trans ((alike.merge call).trans before'.alike)
      obtain ⟨failed, stored⟩ := taken.report t
      refine ⟨after.alike.symm.trans ((taken.flush t).2.trans after'.alike), ?_⟩
      simp only [Ledger.flush, failed, stored, alike.collector.policy]

theorem Runs.alike {turns : List (Turn V)} (runs : Runs s l turns s₁ l₁)
    (runs' : Runs s' l turns s₁' l₁') (alike : s.Alike s') : s₁.Alike s₁' ∧ l₁' = l₁ := by
  induction runs generalizing s' with
  | done => cases runs' with
    | done => exact ⟨alike, rfl⟩
  | next first rest ih =>
    cases runs' with
    | next first' rest' =>
      obtain ⟨alike, rfl⟩ := first.alike first' alike
      exact ih rest' alike

/-- The ledger says, of each key, what its value in the buffer and its rows add up. -/
structure Ledger.Explains (policy : BufferPolicy) (horizon : Instant) (l : Ledger V)
    (s : Timed (FallibleMemory V) V) : Prop where
  policy_eq : s.collector.policy = policy
  sound : s.collector.store.Sound s.clock.wall horizon
  spares : s.clock.Spares policy.lifetime horizon
  buffered : ∀ k, s.collector.totals.get? k = leftSum (valuesAt k l.merged)
  rows : ∀ k, valuesAt k s.collector.store.inner.pairs = l.values k

namespace Ledger.Explains

variable {policy : BufferPolicy} {horizon : Instant}

theorem pass (explains : l.Explains policy horizon s) (d : Duration) :
    l.Explains policy horizon (s.pass d) :=
  ⟨explains.policy_eq, explains.sound, explains.spares, explains.buffered, explains.rows⟩

theorem reorder (explains : l.Explains policy horizon s) (reordered : s.Reordered s') :
    l.Explains policy horizon s' := by
  obtain ⟨t, perm, rfl⟩ := reordered
  refine ⟨explains.policy_eq, explains.sound, explains.spares, ?_, explains.rows⟩
  intro k
  rw [← explains.buffered, Totals.get?_eq_of_perm perm]

theorem merge (explains : l.Explains policy horizon s) (call : Call V) :
    (l.merge (call.entries.flatMap Entry.pairs)).Explains policy horizon (s.merge call) := by
  cases call with
  | write e =>
    refine ⟨explains.policy_eq, explains.sound, explains.spares, ?_, explains.rows⟩
    intro k
    have merged : (s.merge (.write e)).collector.totals = s.collector.totals.mergeAll e.pairs := rfl
    rw [merged, Totals.get?_mergeAll, explains.buffered, Ledger.merge, valuesAt_append, leftSum,
      leftSum, List.foldl_append, Call.entries, List.flatMap_singleton]
  | flush t =>
    rw [Call.entries, List.flatMap_nil, merge_nil]
    exact explains
  | flushIfDue =>
    rw [Call.entries, List.flatMap_nil, merge_nil]
    exact explains

theorem flush (explains : l.Explains policy horizon s) {t : Trigger}
    (late : (s.flush t).2.clock.now ≤ horizon) :
    (l.flush policy.retry.onExhausted (s.report t)).Explains policy horizon (s.flush t).2 := by
  have wall := (s.before_flush t).wall
  obtain ⟨batch, landed, flushed⟩ := Timed.flush_outcome late explains.sound
    (by rw [explains.policy_eq]; exact explains.spares)
  have stored := Accounts.stored_report flushed
  refine ⟨flushed.policy.trans explains.policy_eq, ?_, ?_, ?_, ?_⟩
  · rw [wall]
    exact flushed.sound
  · intro t t'
    rw [wall]
    exact explains.spares t t'
  · intro k
    rcases flushed.ending with ⟨answer, -, totals, -⟩ | ⟨e, answer, totals, -⟩
    · have failed : (s.report t).failed = false := by
        simp [FlushReport.failed, Timed.report, answer]
      simp only [totals, Ledger.flush, failed, Bool.false_eq_true, false_and, if_false]
      rfl
    · have failed : (s.report t).failed = true := by
        simp [FlushReport.failed, Timed.report, answer]
      simp only [totals, Ledger.flush, failed, true_and, explains.policy_eq]
      cases policy.retry.onExhausted with
      | discard => rfl
      | requeue => exact explains.buffered k
  · intro k
    rw [MemoryStore.pairs, flushed.rows, List.map_append, valuesAt_append]
    have before : valuesAt k (s.collector.store.inner.rows.map Record.pair) = l.values k :=
      explains.rows k
    rw [before]
    cases some_ : landed.any id with
    | false => simp [Ledger.values, Ledger.flush, stored, some_]
    | true =>
      have attempts : landed ≠ [] := by rintro rfl; cases some_
      simp only [if_true, flushed.contents attempts, Totals.valuesAt_entries, explains.buffered,
        Ledger.values, Ledger.flush, stored, some_, List.filterMap_append]
      cases sum : leftSum (valuesAt k l.merged) <;> simp [sum]

theorem turned {turn : Turn V} (explains : l.Explains policy horizon s)
    (turned : Turned s l turn s₁ l₁) (late : s₁.clock.now ≤ horizon) :
    l₁.Explains policy horizon s₁ := by
  cases turned with
  | passed _ d => exact explains.pass d
  | @kept _ call undue => exact explains.merge call
  | flushed _ _ before after =>
    have taken := (explains.merge _).reorder before
    have clock := after.alike.clock
    rw [explains.policy_eq]
    apply Ledger.Explains.reorder _ after
    apply taken.flush
    rwa [← clock]

end Ledger.Explains

omit [Add V] in
theorem Timed.Reordered.before (reordered : s.Reordered s') : s.Before s' := by
  obtain ⟨t, -, rfl⟩ := reordered
  exact ⟨rfl, le_rfl⟩

theorem Turned.before {turn : Turn V} (turned : Turned s l turn s₁ l₁) : s.Before s₁ := by
  cases turned with
  | passed _ d => exact s.before_pass d
  | @kept _ call undue => exact ⟨rfl, le_rfl⟩
  | @flushed _ _ _ call t _ before after =>
    have merged : s.Before (s.merge call) := ⟨rfl, le_rfl⟩
    exact ((merged.trans before.before).trans (Timed.before_flush t _)).trans after.before

theorem Runs.before {turns : List (Turn V)} (runs : Runs s l turns s₁ l₁) : s.Before s₁ := by
  induction runs with
  | done => exact .refl _
  | next first _ ih => exact first.before.trans ih

theorem Ledger.Explains.runs {policy : BufferPolicy} {horizon : Instant} {turns : List (Turn V)}
    (explains : l.Explains policy horizon s) (runs : Runs s l turns s₁ l₁)
    (late : s₁.clock.now ≤ horizon) : l₁.Explains policy horizon s₁ := by
  induction runs with
  | done => exact explains
  | next first rest ih => exact ih (explains.turned first (rest.before.now.trans late)) late

theorem Ledger.explains_fresh {policy : BufferPolicy} {horizon : Instant} {clock : Clock}
    {source : Nat → RowId} {plan : FaultPoint → FaultPlan} (injective : Function.Injective source)
    (spares : clock.Spares policy.lifetime horizon) :
    (Ledger.mk [] [] : Ledger V).Explains policy horizon (.fresh policy clock source plan) :=
  ⟨rfl, Timed.sound_fresh injective horizon, spares, fun _ => rfl, fun _ => rfl⟩

omit [Add V] in
/-- With origin and trace given, all that counts for a name and a unit are the rows of one key. -/
theorem Filter.contributions_of_pinned {f : Filter} {o t : String} (origin : f.origin = some o)
    (trace : f.traceId = some t) {now : Int} {s : MemoryStore V}
    (live : ∀ r ∈ s.rows, r.isLive now = true) (name unit : String) :
    f.contributions now name unit s.rows =
      if ∀ e ∈ f.eventName, name = e then valuesAt ⟨o, t, name, unit⟩ s.pairs else [] := by
  have selects : ∀ r ∈ s.rows, (r.isLive now = true ∧ f.Selects r.key ∧ r.key.name = name ∧
      r.key.unit = unit) ↔ (∀ e ∈ f.eventName, name = e) ∧ r.key = ⟨o, t, name, unit⟩ := by
    intro r hr
    obtain ⟨_, ⟨origin', traceId', name', unit'⟩, _, _, _⟩ := r
    simp only [live _ hr, Selects, origin, trace, Option.mem_some_iff, forall_eq', Key.mk.injEq,
      true_and]
    constructor
    · rintro ⟨⟨rfl, rfl, named⟩, rfl, rfl⟩
      exact ⟨named, rfl, rfl, rfl, rfl⟩
    · rintro ⟨named, rfl, rfl, rfl, rfl⟩
      exact ⟨⟨rfl, rfl, named⟩, rfl, rfl⟩
  rw [contributions]
  split
  · rename_i named
    rw [valuesAt, MemoryStore.pairs, List.filter_map, List.map_map]
    refine congrArg (List.map Record.value) (List.filter_congr fun r hr => ?_)
    exact decide_eq_decide.mpr ((selects r hr).trans (and_iff_right named))
  · rename_i named
    rw [List.map_eq_nil_iff, List.filter_eq_nil_iff]
    intro r hr
    rw [decide_eq_true_eq, selects r hr]
    exact fun selected => named selected.1

/-- Whatever fails, and in whatever orders totals are gone through, runs of the same calls answer a
query for one origin and one trace alike: each event is the sum, in the order of the flushes, of one
value for each flush that carried its key and whose batch was stored, and this value is the sum of
what was merged under the key, in the order in which it came. -/
theorem Runs.query_independent_of_order (policy : BufferPolicy) (clock : Clock)
    (source : Nat → RowId) (plan : FaultPoint → FaultPlan) (turns : List (Turn V))
    (runs : Runs (.fresh policy clock source plan) ⟨[], []⟩ turns s l)
    (runs' : Runs (.fresh policy clock source plan) ⟨[], []⟩ turns s' l')
    (injective : Function.Injective source) (spares : clock.Spares policy.lifetime s.clock.now)
    (f : Filter) {o t : String} (origin : f.origin = some o) (trace : f.traceId = some t)
    (arrange arrange' : Totals V → List (Key × V)) (some_ : ∀ t, (arrange t).Perm t.entries)
    (other : ∀ t, (arrange' t).Perm t.entries) :
    let answer := (queryBy arrange s.clock.today f s.collector.store).1
    answer = (queryBy arrange' s'.clock.today f s'.collector.store).1 ∧
    ∀ events, answer = .ok events → ∀ name unit value, ⟨name, value, unit⟩ ∈ events ↔
      (∀ e ∈ f.eventName, name = e) ∧ leftSum (l.values ⟨o, t, name, unit⟩) = some value := by
  intro answer
  obtain ⟨alike, rfl⟩ := runs.alike runs' (Timed.Reordered.refl _).alike
  have explains := (Ledger.explains_fresh injective spares).runs runs le_rfl
  have explains' := (Ledger.explains_fresh injective spares).runs runs'
    (by rw [alike.clock])
  have counted : ∀ {s : Timed (FallibleMemory V) V} {horizon : Instant},
      l'.Explains policy horizon s → s.clock.now ≤ horizon → ∀ name unit,
      f.contributions s.clock.today name unit s.collector.store.inner.rows =
        if ∀ e ∈ f.eventName, name = e then l'.values ⟨o, t, name, unit⟩ else [] := by
    intro s horizon explains inTime name unit
    have live : ∀ r ∈ s.collector.store.inner.rows, r.isLive s.clock.today = true :=
      fun r hr => (explains.sound.outlives r hr).isLive inTime
    rw [Filter.contributions_of_pinned origin trace live, explains.rows]
  cases validity : f.toPredicate with
  | error e =>
    have failed : answer = .error e := by simp only [answer, queryBy_of_error validity]
    refine ⟨by rw [failed, queryBy_of_error validity], ?_⟩
    intro events answered
    cases failed.symm.trans answered
  | ok p =>
    have same := (alike.collector.store.consume .scan).1
    simp only [answer, queryBy_of_ok validity, same]
    cases (s.collector.store.consume .scan).1 with
    | some e => exact ⟨rfl, fun _ => nofun⟩
    | none =>
      have isAnswer := f.isAnswer_sortedEvents validity s.clock.today s.collector.store.inner
        (some_ _)
      have isAnswer' := f.isAnswer_sortedEvents validity s'.clock.today s'.collector.store.inner
        (other _)
      refine ⟨congrArg Except.ok (isAnswer.unique isAnswer' ?_), ?_⟩
      · intro name unit
        rw [counted explains le_rfl, counted explains' (by rw [alike.clock])]
      · rintro _ ⟨⟩ name unit value
        rw [isAnswer.sums, counted explains le_rfl]
        split
        · rename_i named
          exact ⟨fun sum => ⟨named, sum⟩, And.right⟩
        · rename_i named
          exact ⟨nofun, fun sum => absurd sum.1 named⟩

/-- Sums that are written down and not worked out, so that the order of the additions shows. -/
inductive Written where
  | value (n : Nat)
  | plus (a b : Written)
  deriving DecidableEq

instance : Add Written := ⟨.plus⟩

/-- The first flush is stored, but its answer is lost, so that all it took is put back. -/
def lostAnswer : Timed (FallibleMemory Written) Written :=
  .fresh ⟨9, .ofSeconds 60, .ofSeconds 3600, ⟨1, .ofMillis 100, .requeue⟩⟩ ⟨⟨0⟩, fun _ => 0⟩ id
    fun point => if point = .acknowledge then [some (.storeUnavailable "lost")] else []

def twoFlushes : List (Turn Written) :=
  [.call (.write ⟨"o", "t", [⟨"a", .value 1, "u"⟩, ⟨"b", .value 2, "u"⟩]⟩), .call (.flush .manual),
    .call (.write ⟨"o", "t", [⟨"a", .value 3, "u"⟩]⟩), .call (.flush .manual)]

theorem Runs.query_independent_of_order_lostAnswer :
    let f : Filter := { origin := some "o", traceId := some "t" }
    ∃ (s s' : Timed (FallibleMemory Written) Written) (l l' : Ledger Written),
      Runs lostAnswer ⟨[], []⟩ twoFlushes s l ∧ Runs lostAnswer ⟨[], []⟩ twoFlushes s' l' ∧
      s.collector.store.inner.pairs ≠ s'.collector.store.inner.pairs ∧
      (query s.clock.today f s.collector.store).1 =
        (queryBy (·.entries.reverse) s'.clock.today f s'.collector.store).1 ∧
      leftSum (l.values ⟨"o", "t", "a", "u"⟩) =
        some (.value 1 + (.value 1 + .value 3)) := by
  intro f
  let flipped : Totals Written :=
    ⟨[(⟨"o", "t", "b", "u"⟩, .value 2), (⟨"o", "t", "a", "u"⟩, .value 1)], by decide⟩
  have runs : Runs lostAnswer ⟨[], []⟩ twoFlushes _ _ :=
    .next (.kept _ rfl) <| .next (.flushed _ rfl (.refl _) (.refl _)) <|
      .next (.kept _ (by decide +kernel)) <| .next (.flushed _ rfl (.refl _) (.refl _)) (.done _ _)
  have runs' : Runs lostAnswer ⟨[], []⟩ twoFlushes _ _ :=
    .next (.kept _ rfl) <| .next (.flushed _ rfl ⟨flipped, by decide, rfl⟩ (.refl _)) <|
      .next (.kept _ (by decide +kernel)) <| .next (.flushed _ rfl (.refl _) (.refl _)) (.done _ _)
  obtain ⟨same, -⟩ := Runs.query_independent_of_order _ _ _ _ _ runs runs' Function.injective_id
    (Clock.spares_of_constant (by decide) _) f rfl rfl Totals.entries (·.entries.reverse)
    (fun _ => .refl _) (fun _ => List.reverse_perm _)
  rw [queryBy_entries] at same
  exact ⟨_, _, _, _, runs, runs', by decide +kernel, same, by decide +kernel⟩

end TraceTally
