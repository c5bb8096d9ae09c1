import TraceTally.Proofs.Batch
import TraceTally.Proofs.Tally

/-!
# What a flush does

What each step of a flush can lead to is said once: first for any store, then for a fallible memory,
whose rows during a flush are the rows there were before and, once an attempt stored it, the flush's
batch after them. A whole flush is a run of such steps. However it ends, it has added its batch once
or not at all, and the buffer is empty or what it was.
-/

namespace TraceTally

variable {σ V : Type}

/-- What a failed flush leaves of the totals that it took. -/
def OnExhausted.keeps (policy : OnExhausted) (taken : Totals V) : Totals V :=
  match policy with
  | .discard => .empty
  | .requeue => taken

namespace Collector

variable [Add V]

@[simp] theorem policy_conclude (now : Instant) (trigger : Trigger) (taken : Totals V)
    (result : Except Failure Unit) (c : Collector σ V) :
    (c.conclude now trigger taken result).2.policy = c.policy := by
  unfold conclude
  split
  · rfl
  · dsimp only
    split <;> rfl

@[simp] theorem store_conclude (now : Instant) (trigger : Trigger) (taken : Totals V)
    (result : Except Failure Unit) (c : Collector σ V) :
    (c.conclude now trigger taken result).2.store = c.store := by
  unfold conclude
  split
  · rfl
  · dsimp only
    split <;> rfl

theorem conclude_error {now : Instant} {trigger : Trigger} {taken : Totals V} {e : Failure}
    {c : Collector σ V} (empty : c.totals = .empty) :
    (c.conclude now trigger taken (.error e)).1 = .error e ∧
    (c.conclude now trigger taken (.error e)).2.totals = c.policy.retry.onExhausted.keeps taken ∧
    (c.conclude now trigger taken (.error e)).2.lastExport = c.lastExport := by
  cases policy : c.policy.retry.onExhausted with
  | discard => simp [conclude, count, policy, empty, OnExhausted.keeps]
  | requeue =>
    simp [conclude, count, setTotals, policy, empty, OnExhausted.keeps, Totals.absorb_empty]

variable [EventStore σ V]

theorem beginFlush_of_error {clock : Clock} {c : Collector σ V} {store : σ} {e : Failure}
    (trigger : Trigger) (nonempty : c.totals.entries ≠ [])
    (batch : buildBatch clock.today c.policy.lifetime c.totals.entries c.store =
      (.error e, store)) :
    ∃ c', c.beginFlush clock trigger = (.finished (.error e), c') ∧ c'.store = store ∧
      c'.policy = c.policy ∧ c'.totals = c.policy.retry.onExhausted.keeps c.totals ∧
      c'.lastExport = c.lastExport := by
  have some_ : c.totals.entries.isEmpty = false := by simpa using nonempty
  set taken : Collector σ V := ({ c with store } : Collector σ V).setTotals .empty with taken_eq
  obtain ⟨answer, totals, exported⟩ :=
    @conclude_error σ V _ clock.now trigger c.totals e taken rfl
  refine ⟨(taken.conclude clock.now trigger c.totals (.error e)).2, ?_, by simp [taken_eq, setTotals],
    by simp [taken_eq, setTotals], totals, exported⟩
  rw [← answer]
  simp only [beginFlush, Totals.isEmpty, some_, Bool.false_eq_true, if_false, setTotals, batch,
    taken_eq]

theorem beginFlush_of_ok {clock : Clock} {c : Collector σ V} {store : σ}
    {records : List (Record V)} (trigger : Trigger) (nonempty : c.totals.entries ≠ [])
    (batch : buildBatch clock.today c.policy.lifetime c.totals.entries c.store =
      (.ok records, store)) :
    c.beginFlush clock trigger =
      (.ready ⟨trigger, c.totals, records, Retry.start c.policy.retry⟩,
        ({ c with store } : Collector σ V).setTotals .empty) := by
  have some_ : c.totals.entries.isEmpty = false := by simpa using nonempty
  simp only [beginFlush, Totals.isEmpty, some_, Bool.false_eq_true, if_false, setTotals, batch]

/-- What an attempt leads to, by the store's answer: the flush is over when its batch is written, or
when a failure is not to be tried again. -/
inductive AttemptCase (clock : Clock) (f : Flight V) (c c' : Collector σ V) :
    Except Failure Unit → Progress V → Prop where
  | written (totals : c'.totals = .empty) (exported : c'.lastExport = clock.now) :
      AttemptCase clock f c c' (.ok ()) (.finished (.ok f.taken.size))
  | again {e : Failure} {d : Duration} {loop : Retry.Loop}
      (next : Retry.next Failure.isTransient f.loop (.error e : Except Failure Unit) = .wait d loop)
      (totals : c'.totals = .empty) (exported : c'.lastExport = c.lastExport) :
      AttemptCase clock f c c' (.error e) (.waiting d { f with loop })
  | gaveUp {e : Failure}
      (next : Retry.next Failure.isTransient f.loop (.error e : Except Failure Unit) =
        .done (.error e))
      (totals : c'.totals = c.policy.retry.onExhausted.keeps f.taken)
      (exported : c'.lastExport = c.lastExport) :
      AttemptCase clock f c c' (.error e) (.finished (.error e))

omit [Add V] [EventStore σ V] in
theorem AttemptCase.of_ok {clock : Clock} {f : Flight V} {c c' : Collector σ V} {p : Progress V}
    (outcome : AttemptCase clock f c c' (.ok ()) p) : p = .finished (.ok f.taken.size) := by
  cases outcome
  rfl

omit [EventStore σ V] in
theorem next_error (loop : Retry.Loop) (e : Failure) :
    (∃ d loop', Retry.next Failure.isTransient loop (.error e : Except Failure Unit) =
      .wait d loop') ∨
    Retry.next Failure.isTransient loop (.error e : Except Failure Unit) = .done (.error e) := by
  unfold Retry.next
  cases loop.left with
  | zero => exact .inr rfl
  | succ left =>
    by_cases transient : e.isTransient = true
    · exact .inl ⟨_, _, by simp only [transient, if_true]; rfl⟩
    · exact .inr (by simp only [transient]; rfl)

theorem attempt_cases (clock : Clock) {f : Flight V} {c : Collector σ V}
    (nonempty : f.records ≠ []) (empty : c.totals = .empty) :
    let w := EventStore.writeBatch clock.today f.records c.store
    (c.attempt clock f).2.store = w.2 ∧ (c.attempt clock f).2.policy = c.policy ∧
      AttemptCase clock f c (c.attempt clock f).2 w.1 (c.attempt clock f).1 := by
  have submitted : f.records.isEmpty = false := by simpa using nonempty
  simp only [attempt, submit, submitted, Bool.false_eq_true, if_false]
  cases EventStore.writeBatch clock.today f.records c.store with
  | mk r store =>
    cases r with
    | ok =>
      refine ⟨rfl, rfl, ?_⟩
      exact .written empty rfl
    | error e =>
      dsimp only
      rcases next_error f.loop e with ⟨d, loop, next⟩ | next
      · simp only [next]
        exact ⟨trivial, trivial, .again next empty rfl⟩
      · simp only [next]
        obtain ⟨answer, totals, exported⟩ :=
          @conclude_error σ V _ clock.now f.trigger f.taken e { c with store } empty
        rw [answer]
        exact ⟨by simp, by simp, .gaveUp next totals exported⟩

end Collector

namespace FallibleMemory

/-- No identifier comes twice, every row has one that was handed out, and no row expires before the
horizon. -/
structure Sound (wall : Instant → Int) (horizon : Instant) (s : FallibleMemory V) : Prop where
  injective : Function.Injective s.inner.source
  issued : ∀ r ∈ s.inner.rows, s.inner.Issued r
  outlives : ∀ r ∈ s.inner.rows, r.Outlives wall horizon

theorem SameContents.issued {s s' : FallibleMemory V} (same : s.SameContents s') {r : Record V}
    (h : s.inner.Issued r) : s'.inner.Issued r := by
  obtain ⟨i, hi, source⟩ := h
  exact ⟨i, lt_of_lt_of_le hi same.minted, by rw [same.source]; exact source⟩

theorem Sound.of_sameContents {wall : Instant → Int} {horizon : Instant} {s s' : FallibleMemory V}
    (sound : s.Sound wall horizon) (same : s.SameContents s') : s'.Sound wall horizon where
  injective := by rw [same.source]; exact sound.injective
  issued r hr := same.issued (sound.issued r (by rwa [same.rows] at hr))
  outlives r hr := sound.outlives r (by rwa [same.rows] at hr)

end FallibleMemory

/-- The store during a flush: the rows `base`, and after them the flush's batch once it is stored.
The batch can be written again at any moment up to the horizon. -/
structure Flight.Above (f : Flight V) (wall : Instant → Int) (horizon : Instant)
    (base : List (Record V)) (stored : Bool) (s : FallibleMemory V) : Prop where
  rows : s.inner.rows = base ++ if stored then f.records else []
  contents : f.records.map Record.pair = f.taken.entries
  nonempty : f.records ≠ []
  fresh : ∀ r ∈ base, ∀ new ∈ f.records, new.id ≠ r.id
  injective : Function.Injective s.inner.source
  issued : ∀ r ∈ base ++ f.records, s.inner.Issued r
  outlives : ∀ r ∈ base ++ f.records, r.Outlives wall horizon

namespace Flight.Above

variable {f : Flight V} {wall : Instant → Int} {horizon : Instant} {base : List (Record V)}
  {stored : Bool} {s s' : FallibleMemory V}

theorem sound (above : f.Above wall horizon base stored s) : s.Sound wall horizon where
  injective := above.injective
  issued r hr := by
    apply above.issued r
    rw [above.rows] at hr
    cases stored <;> simp_all
  outlives r hr := by
    apply above.outlives r
    rw [above.rows] at hr
    cases stored <;> simp_all

/-- New records go on top of what is stored. -/
theorem of_made {today : Int} {lifetime : Duration} (sound : s.Sound wall horizon)
    (same : s.SameContents s')
    (made : FallibleMemory.Made today lifetime f.taken.entries s s' f.records)
    (nonempty : f.taken.entries ≠ [])
    (outlives : ∀ t : Instant, t ≤ horizon → wall t < Duration.expiry today lifetime) :
    f.Above wall horizon s.inner.rows false s' where
  rows := by simp [same.rows]
  contents := made.contents
  nonempty none := nonempty (by rw [← made.contents, none, List.map_nil])
  fresh r hr new hnew used := by
    obtain ⟨i, hi, source⟩ := sound.issued r hr
    obtain ⟨j, hj, -, source'⟩ := made.id_mem hnew
    have same_index : i = j := sound.injective (by rw [source, source', used])
    omega
  injective := by rw [same.source]; exact sound.injective
  issued r hr := by
    rcases List.mem_append.mp hr with hr | hr
    · exact same.issued (sound.issued r hr)
    · obtain ⟨i, -, hi, source⟩ := made.id_mem hr
      exact ⟨i, hi, by rw [same.source]; exact source⟩
  outlives r hr := by
    rcases List.mem_append.mp hr with hr | hr
    · exact sound.outlives r hr
    · intro t ht
      rw [made.expires r hr]
      exact outlives t ht

/-- A write that reaches the store leaves one copy of the batch, whether or not it was there. -/
theorem write (above : f.Above wall horizon base stored s) {t : Instant} (ht : t ≤ horizon)
    (written : s'.inner = s.inner.write (wall t) f.records) :
    f.Above wall horizon base true s' where
  rows := by
    rw [written, if_pos rfl]
    apply MemoryStore.rows_write above.rows _ above.fresh
    intro r hr
    exact (above.outlives r (List.mem_append_left _ hr)).isLive ht
  contents := above.contents
  nonempty := above.nonempty
  fresh := above.fresh
  injective := by rw [written]; exact above.injective
  issued := by rw [written]; exact above.issued
  outlives := above.outlives

theorem of_inner_eq (above : f.Above wall horizon base stored s) (same : s'.inner = s.inner) :
    f.Above wall horizon base stored s' where
  rows := by rw [same]; exact above.rows
  contents := above.contents
  nonempty := above.nonempty
  fresh := above.fresh
  injective := by rw [same]; exact above.injective
  issued := by rw [same]; exact above.issued
  outlives := above.outlives

theorem of_sameContents (above : f.Above wall horizon base stored s) (same : s.SameContents s') :
    f.Above wall horizon base stored s' where
  rows := by rw [same.rows]; exact above.rows
  contents := above.contents
  nonempty := above.nonempty
  fresh := above.fresh
  injective := by rw [same.source]; exact above.injective
  issued r hr := same.issued (above.issued r hr)
  outlives := above.outlives

theorem with_loop (above : f.Above wall horizon base stored s) (loop : Retry.Loop) :
    ({ f with loop } : Flight V).Above wall horizon base stored s :=
  ⟨above.rows, above.contents, above.nonempty, above.fresh, above.injective, above.issued,
    above.outlives⟩

end Flight.Above

namespace Timed

/-- The moments that a state has behind it have passed for the other, on the same wall clock. -/
structure Before (s s' : Timed σ V) : Prop where
  wall : s'.clock.wall = s.clock.wall
  now : s.clock.now ≤ s'.clock.now

theorem Before.refl (s : Timed σ V) : s.Before s := ⟨rfl, le_rfl⟩

theorem Before.trans {s s' s'' : Timed σ V} (h : s.Before s') (h' : s'.Before s'') : s.Before s'' :=
  ⟨h'.wall.trans h.wall, h.now.trans h'.now⟩

theorem before_pass (d : Duration) (s : Timed σ V) : s.Before (s.pass d) :=
  ⟨rfl, Duration.le_add _ _⟩

/-- A collector that has just started on an empty store, with the identifiers that are to be handed
out and the plan of failures. -/
def fresh (policy : BufferPolicy) (clock : Clock) (source : Nat → RowId)
    (plan : FaultPoint → FaultPlan) : Timed (FallibleMemory V) V :=
  ⟨clock, .start policy { inner := { source }, plan } clock.now⟩

theorem sound_fresh {policy : BufferPolicy} {clock : Clock} {source : Nat → RowId}
    {plan : FaultPoint → FaultPlan} (injective : Function.Injective source) (horizon : Instant) :
    (fresh policy clock source plan : Timed (FallibleMemory V) V).collector.store.Sound clock.wall
      horizon :=
  ⟨injective, fun _ hr => absurd hr List.not_mem_nil, fun _ hr => absurd hr List.not_mem_nil⟩

end Timed

variable [Add V]

namespace Collector

/-- What the beginning of a flush leads to: there is nothing to do, or an identifier cannot be made,
or the batch is ready. -/
inductive BeginCase (clock : Clock) (horizon : Instant) (trigger : Trigger)
    (c c' : Collector (FallibleMemory V) V) : Progress V → Prop where
  | nothing (nothing : c.totals.entries = []) (totals : c'.totals = .empty)
      (exported : c'.lastExport = clock.now) :
      BeginCase clock horizon trigger c c' (.finished (.ok 0))
  | unnamed {e : Failure} (faulty : ¬ c.store.Reliable .newId)
      (totals : c'.totals = c.policy.retry.onExhausted.keeps c.totals)
      (exported : c'.lastExport = c.lastExport) :
      BeginCase clock horizon trigger c c' (.finished (.error e))
  | batched {f : Flight V} (started : f.trigger = trigger ∧ f.loop = Retry.start c.policy.retry)
      (taken : f.taken = c.totals) (totals : c'.totals = .empty)
      (exported : c'.lastExport = c.lastExport)
      (above : f.Above clock.wall horizon c.store.inner.rows false c'.store) :
      BeginCase clock horizon trigger c c' (.ready f)

/-- What the beginning of a flush leads to, however long records live. -/
inductive NamedCase (clock : Clock) (trigger : Trigger) (c c' : Collector (FallibleMemory V) V) :
    Progress V → Prop where
  | nothing (nothing : c.totals.entries = []) (totals : c'.totals = .empty)
      (exported : c'.lastExport = clock.now) : NamedCase clock trigger c c' (.finished (.ok 0))
  | unnamed {e : Failure} (faulty : ¬ c.store.Reliable .newId)
      (totals : c'.totals = c.policy.retry.onExhausted.keeps c.totals)
      (exported : c'.lastExport = c.lastExport) : NamedCase clock trigger c c' (.finished (.error e))
  | named {f : Flight V} (started : f.trigger = trigger ∧ f.loop = Retry.start c.policy.retry)
      (taken : f.taken = c.totals) (nonempty : c.totals.entries ≠ []) (totals : c'.totals = .empty)
      (exported : c'.lastExport = c.lastExport)
      (made : FallibleMemory.Made clock.today c.policy.lifetime f.taken.entries c.store c'.store
        f.records) : NamedCase clock trigger c c' (.ready f)

theorem beginFlush_named (clock : Clock) (trigger : Trigger) (c : Collector (FallibleMemory V) V) :
    let b := c.beginFlush clock trigger
    c.store.SameContents b.2.store ∧ b.2.policy = c.policy ∧ NamedCase clock trigger c b.2 b.1 := by
  by_cases nothing : c.totals.entries = []
  · simp only [beginFlush, Totals.isEmpty, nothing, List.isEmpty_nil, if_true]
    exact ⟨.refl _, rfl, .nothing nothing rfl rfl⟩
  · have built := FallibleMemory.buildBatch_cases clock.today c.policy.lifetime c.totals.entries
      c.store
    cases batch : buildBatch clock.today c.policy.lifetime c.totals.entries c.store with
    | mk r store =>
      rw [batch] at built
      obtain ⟨same, ⟨e, rfl, faulty⟩ | ⟨records, rfl, made⟩⟩ := built
      · obtain ⟨c', begun, store_eq, policy, totals, exported⟩ :=
          beginFlush_of_error trigger nothing batch
        rw [begun]
        exact ⟨store_eq ▸ same, policy, .unnamed faulty totals exported⟩
      · rw [beginFlush_of_ok trigger nothing batch]
        exact ⟨same, rfl, .named ⟨rfl, rfl⟩ rfl nothing rfl rfl made⟩

omit [Add V] in
theorem NamedCase.spared {clock : Clock} {trigger : Trigger} {horizon : Instant}
    {c c' : Collector (FallibleMemory V) V} {p : Progress V}
    (outcome : NamedCase clock trigger c c' p) (sound : c.store.Sound clock.wall horizon)
    (same : c.store.SameContents c'.store) (spares : clock.Spares c.policy.lifetime horizon)
    (inTime : clock.now ≤ horizon) : BeginCase clock horizon trigger c c' p := by
  cases outcome with
  | nothing nothing totals exported => exact .nothing nothing totals exported
  | unnamed faulty totals exported => exact .unnamed faulty totals exported
  | named started taken nonempty totals exported made =>
    refine .batched started taken totals exported (.of_made sound same made (taken ▸ nonempty) ?_)
    exact fun t ht => spares clock.now t inTime ht

theorem beginFlush_cases {clock : Clock} (trigger : Trigger) {horizon : Instant}
    {c : Collector (FallibleMemory V) V} (sound : c.store.Sound clock.wall horizon)
    (spares : clock.Spares c.policy.lifetime horizon) (inTime : clock.now ≤ horizon) :
    let b := c.beginFlush clock trigger
    c.store.SameContents b.2.store ∧ b.2.policy = c.policy ∧
      BeginCase clock horizon trigger c b.2 b.1 := by
  obtain ⟨same, policy, outcome⟩ := beginFlush_named clock trigger c
  exact ⟨same, policy, outcome.spared sound same spares inTime⟩

/-- What an attempt leads to, and whether it stored the batch. -/
structure Attempted (clock : Clock) (f : Flight V) (horizon : Instant) (base : List (Record V))
    (stored : Bool) (c c' : Collector (FallibleMemory V) V) (p : Progress V) (landed : Bool)
    (answer : Except Failure Unit) : Prop where
  outcome : AttemptCase clock f c c' answer p
  above : f.Above clock.wall horizon base (stored || landed) c'.store
  journal : c'.store.journal = c.store.journal ++ [⟨f.records, landed⟩]
  policy : c'.policy = c.policy
  wrote : answer = .ok () → landed = true
  answered : landed = true → c.store.Reliable .acknowledge → answer = .ok ()
  written : c.store.Reliable .write → landed = true
  reliable : ∀ point, c.store.Reliable point → c'.store.Reliable point

theorem attempt_above {clock : Clock} {f : Flight V} {horizon : Instant} {base : List (Record V)}
    {stored : Bool} {c : Collector (FallibleMemory V) V}
    (above : f.Above clock.wall horizon base stored c.store) (empty : c.totals = .empty)
    (inTime : clock.now ≤ horizon) :
    let a := c.attempt clock f
    ∃ landed answer, Attempted clock f horizon base stored c a.2 a.1 landed answer := by
  obtain ⟨store, policy, outcome⟩ := attempt_cases clock above.nonempty empty
  have reliable : ∀ point, c.store.Reliable point →
      (c.attempt clock f).2.store.Reliable point := by
    intro point h
    rw [store]
    exact FallibleMemory.reliable_writeBatch h
  rcases FallibleMemory.writeBatch_cases clock.today f.records c.store with
    ⟨e, failed, inner, journal, faulty⟩ | ⟨inner, journal, answered⟩
  · rw [failed] at outcome
    refine ⟨false, _, outcome, ?_, ?_, policy, nofun, nofun, ?_, reliable⟩
    · rw [Bool.or_false]
      exact above.of_inner_eq (by rw [store, inner])
    · rw [store, journal]
    · intro h
      exact absurd h faulty
  · refine ⟨true, _, outcome, ?_, ?_, policy, fun _ => rfl, ?_, fun _ => rfl, reliable⟩
    · rw [Bool.or_true]
      exact above.write inTime (by rw [store]; exact inner)
    · rw [store, journal]
    · intro _ h
      rcases answered with done | ⟨-, faulty⟩
      · exact done
      · exact absurd h faulty

end Collector

namespace Timed

theorem before_finish [EventStore σ V] (f : Flight V) (s : Timed σ V) :
    s.Before (s.finish f).2 := by
  fun_induction Timed.finish f s with
  | case1 => exact ⟨rfl, le_rfl⟩
  | case2 f s d f' c h this ih =>
    have begun : s.Before { s with collector := c } := ⟨rfl, le_rfl⟩
    exact (begun.trans (before_pass d _)).trans ih

theorem before_flush [EventStore σ V] (trigger : Trigger) (s : Timed σ V) :
    s.Before (s.flush trigger).2 := by
  simp only [flush]
  cases s.collector.beginFlush s.clock trigger with
  | mk p c =>
    have begun : s.Before { s with collector := c } := ⟨rfl, le_rfl⟩
    cases p with
    | finished r => exact begun
    | ready f => exact begun.trans (before_finish f _)
    | waiting d f => exact (begun.trans (before_pass d _)).trans (before_finish f _)

/-- A flush that is carried to its end attempts its batch some times, storing it or not. If it
answers that the batch is written then it stored it; if not then the policy says what is kept. -/
theorem finish_outcome {f : Flight V} {horizon : Instant} {base : List (Record V)} {stored : Bool}
    {s : Timed (FallibleMemory V) V} (late : (s.finish f).2.clock.now ≤ horizon)
    (above : f.Above s.clock.wall horizon base stored s.collector.store)
    (empty : s.collector.totals = .empty) :
    let s' := (s.finish f).2
    ∃ landed : List Bool,
      f.Above s.clock.wall horizon base (stored || landed.any id) s'.collector.store ∧
      s'.collector.store.journal = s.collector.store.journal ++ landed.map (⟨f.records, ·⟩) ∧
      s'.collector.policy = s.collector.policy ∧
      (((s.finish f).1 = .ok f.taken.size ∧ landed.any id = true ∧
          s'.collector.totals = .empty ∧ s'.collector.lastExport = s'.clock.now) ∨
        ∃ e, (s.finish f).1 = .error e ∧
          s'.collector.totals = s.collector.policy.retry.onExhausted.keeps f.taken ∧
          s'.collector.lastExport = s.collector.lastExport) := by
  fun_induction Timed.finish f s generalizing stored with
  | case1 f s r c h =>
    have inTime : s.clock.now ≤ horizon := late
    obtain ⟨landed, answer, attempted⟩ := Collector.attempt_above above empty inTime
    rw [h] at attempted
    refine ⟨[landed], by simpa using attempted.above, attempted.journal, attempted.policy, ?_⟩
    have wrote := attempted.wrote
    cases attempted.outcome with
    | written totals exported => exact .inl ⟨rfl, by simpa using wrote rfl, totals, exported⟩
    | gaveUp next totals exported => exact .inr ⟨_, rfl, totals, exported⟩
  | case2 f s d f' c h this ih =>
    have inTime : s.clock.now ≤ horizon :=
      (Duration.le_add s.clock.now d).trans ((before_finish f' _).now.trans late)
    obtain ⟨landed, answer, attempted⟩ := Collector.attempt_above above empty inTime
    rw [h] at attempted
    have policy : c.policy = s.collector.policy := attempted.policy
    have journal : c.store.journal = s.collector.store.journal ++ [⟨f.records, landed⟩] :=
      attempted.journal
    have above' := attempted.above
    cases attempted.outcome with
    | @again e d loop next totals exported =>
      dsimp only at above' totals exported
      obtain ⟨later, above'', journal', policy', ending⟩ :=
        ih late (above'.with_loop loop) totals
      refine ⟨landed :: later, ?_, ?_, policy'.trans policy, ?_⟩
      · have all : (stored || (landed :: later).any id) = (stored || landed || later.any id) := by
          simp [Bool.or_assoc]
        rw [all]
        exact above''.with_loop f.loop
      · rw [journal']
        simp [pass, journal]
      · rcases ending with ⟨answer, stored', totals', exported'⟩ | ⟨e, answer, totals', exported'⟩
        · exact .inl ⟨answer, by simp [stored'], totals', exported'⟩
        · exact .inr ⟨e, answer, by rw [totals']; simp [pass, policy], exported'.trans exported⟩

/-- A flush from one state to another: the batch it made, and which of its attempts stored it. -/
structure Flushed (horizon : Instant) (s s' : Timed (FallibleMemory V) V)
    (answer : Except Failure Nat) (batch : List (Record V)) (landed : List Bool) : Prop where
  sound : s'.collector.store.Sound s.clock.wall horizon
  rows : s'.collector.store.inner.rows =
    s.collector.store.inner.rows ++ if landed.any id then batch else []
  contents : landed ≠ [] → batch.map Record.pair = s.collector.totals.entries
  nonempty : landed ≠ [] → s.collector.totals.entries ≠ []
  journal : s'.collector.store.journal = s.collector.store.journal ++ landed.map (⟨batch, ·⟩)
  policy : s'.collector.policy = s.collector.policy
  ending : (answer = .ok s.collector.totals.size ∧
      (landed.any id = true ∨ s.collector.totals.entries = []) ∧
      s'.collector.totals = .empty ∧ s'.collector.lastExport = s'.clock.now) ∨
    ∃ e, answer = .error e ∧
      s'.collector.totals =
        s.collector.policy.retry.onExhausted.keeps s.collector.totals ∧
      s'.collector.lastExport = s.collector.lastExport

theorem flush_outcome {trigger : Trigger} {horizon : Instant} {s : Timed (FallibleMemory V) V}
    (late : (s.flush trigger).2.clock.now ≤ horizon)
    (sound : s.collector.store.Sound s.clock.wall horizon)
    (spares : s.clock.Spares s.collector.policy.lifetime horizon) :
    ∃ batch landed, Flushed horizon s (s.flush trigger).2 (s.flush trigger).1 batch landed := by
  have inTime : s.clock.now ≤ horizon := (before_flush trigger s).now.trans late
  obtain ⟨same, policy, began⟩ := Collector.beginFlush_cases trigger sound spares inTime
  simp only [flush] at late ⊢
  cases begun : s.collector.beginFlush s.clock trigger with
  | mk p c =>
    rw [begun] at same policy began late
    dsimp only at same policy began late
    cases began with
    | nothing nothing totals exported =>
      refine ⟨[], [], ⟨sound.of_sameContents same, ?_, nofun, nofun, ?_, policy,
        .inl ⟨?_, .inr nothing, totals, exported⟩⟩⟩
      · simp [resume, same.rows]
      · simp [resume, same.journal]
      · simp [resume, Totals.size, nothing]
    | @unnamed e faulty totals exported =>
      refine ⟨[], [], ⟨sound.of_sameContents same, ?_, nofun, nofun, ?_, policy,
        .inr ⟨e, rfl, totals, exported⟩⟩⟩
      · simp [resume, same.rows]
      · simp [resume, same.journal]
    | @batched f _ taken totals exported above =>
      obtain ⟨landed, above', journal, policy', ending⟩ := finish_outcome late above totals
      rw [Bool.false_or] at above'
      refine ⟨f.records, landed, ⟨above'.sound, above'.rows, ?_, ?_, ?_, policy'.trans policy, ?_⟩⟩
      · intro _
        rw [above.contents, taken]
      · intro _ none
        have no_records : f.records.map Record.pair = [] := by rw [above.contents, taken, none]
        exact above.nonempty (List.map_eq_nil_iff.mp no_records)
      · rw [← same.journal]
        exact journal
      · rcases ending with ⟨answer, stored, totals', exported'⟩ | ⟨e, answer, totals', exported'⟩
        · exact .inl ⟨by rw [← taken]; exact answer, .inl stored, totals', exported'⟩
        · refine .inr ⟨e, answer, ?_, exported'.trans exported⟩
          rw [← taken, ← policy]
          exact totals'

end Timed

end TraceTally
