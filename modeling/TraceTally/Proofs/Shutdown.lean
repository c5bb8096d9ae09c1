import TraceTally.Proofs.Unfailing

/-!
# Shutting down

The handlers of inserts and the ticker take turns at the lock of the buffer. The signal stops the
ticker, which then flushes once more; the server stops when no handler is left; whoever started
both waits for them and exits. Nothing puts the last flush after the last write.
-/

namespace TraceTally

variable {V : Type}

/-- An insert in the hands of its handler: the entries it had the lock for, and those still to be
written. -/
structure Insert (V : Type) where
  sent : List (Entry V) := []
  rest : List (Entry V)
  answer : Option (Except Failure Unit) := none
  deriving DecidableEq

/-- What has returned from a write; after a failure nothing more is written. -/
def Insert.returned (answer : Except Failure (Option Nat)) (r : Insert V) : Insert V :=
  match answer with
  | .ok _ => r
  | .error e => { r with answer := some (.error e) }

inductive TickerStage where
  | selecting
  /-- It has called, for its last flush or for one that may be due, and has not returned. -/
  | calling (last : Bool)
  | ended
  deriving DecidableEq

def TickerStage.call (last : Bool) : Call V := if last then .flush .manual else .flushIfDue

inductive Task where
  | insert (i : Nat)
  | ticker
  deriving DecidableEq

inductive Phase where
  | serving
  /-- No handler is left, and the ticker is awaited. -/
  | awaiting
  | exited
  deriving DecidableEq

structure Aggregator (V : Type) where
  callers : Callers V
  inserts : List (Insert V) := []
  ticker : TickerStage := .selecting
  /-- Whose call has the lock. -/
  owner : Option Task := none
  cancelled : Bool := false
  phase : Phase := .serving
  /-- How many writes had got the lock when a flush last succeeded. -/
  visible : Nat := 0
  /-- How many writes had got the lock when the ticker's last flush returned. -/
  final : Nat := 0

namespace Aggregator

inductive Action (V : Type) where
  | request (entries : List (Entry V))
  | signal
  /-- A handler gets the lock for its next entry. -/
  | write (i : Nat)
  | respond (i : Nat)
  | tick
  | notice
  /-- The ticker gets the lock. -/
  | lock
  /-- The call that has the lock takes its next step. -/
  | proceed
  | pass (d : Duration)
  | drained
  | exit

def start (policy : BufferPolicy) (clock : Clock) (source : Nat → RowId) : Aggregator V :=
  { callers := .fresh policy clock source fun _ => [] }

/-- The call returns to its task. -/
def release (answer : Except Failure (Option Nat)) (a : Aggregator V) : Aggregator V :=
  match a.owner, a.ticker with
  | some (.insert i), _ =>
    { a with owner := none, inserts := a.inserts.modify i (Insert.returned answer) }
  | some .ticker, .calling true =>
    { a with owner := none, ticker := .ended, final := a.callers.acquired.length }
  | some .ticker, _ => { a with owner := none, ticker := .selecting }
  | none, _ => a

variable [Add V]

def advance (m : Move V) (a : Aggregator V) : Aggregator V :=
  let callers := a.callers.step m
  { a with
    callers
    visible := if callers.flushed then callers.acquired.length else a.visible }

/-- A task calls and gets the lock at once. -/
def seize (call : Call V) (task : Task) (a : Aggregator V) : Aggregator V :=
  { (a.advance (.call call)).advance (.acquire a.callers.queue.length) with owner := some task }

def proceed (a : Aggregator V) : Aggregator V :=
  match a.callers.holder with
  | some (_, .leaving answer) => (a.advance .proceed).release answer
  | _ => a.advance .proceed

def step (a : Aggregator V) (action : Action V) : Aggregator V :=
  if a.phase = .exited then a
  else match action with
    | .request entries =>
      if a.cancelled then a else { a with inserts := a.inserts ++ [{ rest := entries }] }
    | .signal => { a with cancelled := true }
    | .write i =>
      match a.owner, a.inserts[i]? with
      | none, some ⟨sent, e :: rest, none⟩ =>
        { a.seize (.write e) (.insert i) with inserts := a.inserts.set i ⟨sent ++ [e], rest, none⟩ }
      | _, _ => a
    | .respond i =>
      match a.inserts[i]? with
      | some ⟨sent, [], none⟩ =>
        if a.owner = some (.insert i) then a
        else { a with inserts := a.inserts.set i ⟨sent, [], some (.ok ())⟩ }
      | _ => a
    | .tick => if a.ticker = .selecting then { a with ticker := .calling false } else a
    | .notice =>
      if a.ticker = .selecting ∧ a.cancelled then { a with ticker := .calling true } else a
    | .lock =>
      match a.owner, a.ticker with
      | none, .calling last => a.seize (TickerStage.call last) .ticker
      | _, _ => a
    | .proceed => a.proceed
    | .pass d => a.advance (.pass d)
    | .drained =>
      if a.phase = .serving ∧ a.cancelled ∧ ∀ r ∈ a.inserts, r.answer.isSome then
        { a with phase := .awaiting }
      else a
    | .exit => if a.phase = .awaiting ∧ a.ticker = .ended then { a with phase := .exited } else a

def run (a : Aggregator V) (actions : List (Action V)) : Aggregator V := actions.foldl step a

end Aggregator

/-- Something is appended to what one element has. -/
theorem flatMap_set_perm {α β : Type} {f : α → List β} {l : List α} {i : Nat} {a b : α}
    {more : List β} (found : l[i]? = some a) (grown : f b = f a ++ more) :
    (l.flatMap f ++ more).Perm ((l.set i b).flatMap f) := by
  induction l generalizing i with
  | nil => cases found
  | cons c l ih =>
    cases i with
    | zero =>
      obtain rfl : c = a := Option.some.inj found
      rw [List.set_cons_zero, List.flatMap_cons, List.flatMap_cons, grown, List.append_assoc,
        List.append_assoc]
      exact List.perm_append_comm.append_left _
    | succ i =>
      rw [List.set_cons_succ, List.flatMap_cons, List.flatMap_cons, List.append_assoc]
      exact (ih found).append_left _

namespace Callers

variable [Add V] {s : Callers V}

/-- The call that has the lock. -/
def call? (s : Callers V) : Option (Call V) := s.holder.map Prod.fst

omit [Add V] in
theorem call?_eq_none_iff : s.call? = none ↔ s.holder = none := Option.map_eq_none_iff

/-- A call that finds the lock free gets it. -/
theorem step_seize (free : s.holder = none) (call : Call V) :
    (s.step (.call call)).step (.acquire s.queue.length) =
      { s with holder := some (call, .entered), acquired := s.acquired ++ call.entries } := by
  have last : (s.queue ++ [call])[s.queue.length]? = some call := by simp
  have others : (s.queue ++ [call]).eraseIdx s.queue.length = s.queue := by
    rw [List.eraseIdx_append_of_length_le le_rfl, Nat.sub_self, List.eraseIdx_zero, List.tail_cons,
      List.append_nil]
  simp only [step, free, last, others]

theorem acquired_proceed (s : Callers V) : s.proceed.acquired = s.acquired := by
  unfold proceed
  split
  · rfl
  · unfold enter
    dsimp only
    split <;> rfl
  · rfl
  · split <;> rfl
  · rfl

/-- The call that has the lock keeps it until it leaves. -/
theorem proceed_keeps (s : Callers V) :
    (∃ call answer, s.holder = some (call, .leaving answer) ∧ s.proceed.holder = none) ∨
      (∀ call answer, s.holder ≠ some (call, .leaving answer)) ∧ s.proceed.call? = s.call? := by
  unfold call?
  cases held : s.holder with
  | none => exact .inr ⟨by rintro _ _ ⟨⟩, by simp only [proceed, held]⟩
  | some holder =>
    obtain ⟨call, stage⟩ := holder
    cases stage with
    | entered =>
      refine .inr ⟨by rintro _ _ ⟨⟩, ?_⟩
      simp only [proceed, held, enter]
      split <;> rfl
    | attempting f => exact .inr ⟨by rintro _ _ ⟨⟩, by simp only [proceed, held]; rfl⟩
    | waiting wake f =>
      refine .inr ⟨by rintro _ _ ⟨⟩, ?_⟩
      simp only [proceed, held]
      split
      · rfl
      · rw [held]
    | leaving answer => exact .inl ⟨call, answer, rfl, by simp only [proceed, held]⟩

end Callers

namespace Aggregator

variable [AddCommMonoid V]

/-- Whoever has the lock is in a call. -/
def Owned (a : Aggregator V) : Prop :=
  match a.owner with
  | none => a.callers.call? = none
  | some (.insert i) =>
    (∃ r, a.inserts[i]? = some r ∧ r.answer = none) ∧ ∃ call, a.callers.call? = some call
  | some .ticker =>
    ∃ last, a.ticker = .calling last ∧ a.callers.call? = some (TickerStage.call last)

namespace Owned

variable {a : Aggregator V}

omit [AddCommMonoid V] in
theorem free (owned : a.Owned) (task : a.owner = none) : a.callers.holder = none := by
  rw [Owned, task] at owned
  exact Callers.call?_eq_none_iff.mp owned

omit [AddCommMonoid V] in
theorem of_inserts {inserts : List (Insert V)} (owned : a.Owned)
    (kept : ∀ i r, a.owner = some (.insert i) → a.inserts[i]? = some r → inserts[i]? = some r) :
    { a with inserts }.Owned := by
  unfold Owned at owned ⊢
  split at owned
  · rename_i task
    simp only [task]
    exact owned
  · rename_i i task
    obtain ⟨⟨r, found, unanswered⟩, held⟩ := owned
    simp only [task]
    exact ⟨⟨r, kept i r task found, unanswered⟩, held⟩
  · rename_i task
    simp only [task]
    exact owned

omit [AddCommMonoid V] in
/-- While the ticker has not called, its stage is nobody else's concern. -/
theorem of_selecting (owned : a.Owned) (selecting : a.ticker = .selecting) (stage : TickerStage) :
    { a with ticker := stage }.Owned := by
  unfold Owned at owned ⊢
  split at owned
  · rename_i task
    simp only [task]
    exact owned
  · rename_i i task
    simp only [task]
    exact owned
  · obtain ⟨last, calling, -⟩ := owned
    cases selecting.symm.trans calling

omit [AddCommMonoid V] in
theorem of_call {callers : Callers V} {visible : Nat} (owned : a.Owned)
    (same : callers.call? = a.callers.call?) : { a with callers, visible }.Owned := by
  unfold Owned at owned ⊢
  rwa [same]

end Owned

theorem seize_eq {a : Aggregator V} (free : a.callers.holder = none) (call : Call V) (task : Task) :
    a.seize call task = { a with
      callers := { a.callers with
        holder := some (call, .entered), acquired := a.callers.acquired ++ call.entries }
      owner := some task } := by
  have idle : (a.callers.step (.call call)).flushed = false := by
    simp only [Callers.flushed, Callers.step, free]
  simp only [seize, Aggregator.advance, idle, Bool.false_eq_true, if_false,
    Callers.step_seize free]
  rfl

/-- What holds until the exit: every write was one of an insert's, inserts are answered when all is
written, and the ticker's last flush stored what had been written before it. -/
structure Orderly (policy : BufferPolicy) (horizon : Instant) (a : Aggregator V) : Prop where
  unfailing : Callers.Unfailing policy horizon a.visible a.callers
  sent : a.callers.acquired.Perm (a.inserts.flatMap Insert.sent)
  answered : ∀ r ∈ a.inserts, r.answer ≠ none → r.answer = some (.ok ()) ∧ r.rest = []
  owned : a.Owned
  final : a.ticker = .ended → a.final ≤ a.visible
  served : a.phase ≠ .serving → a.cancelled = true ∧ ∀ r ∈ a.inserts, r.answer ≠ none
  ended : a.phase = .exited → a.ticker = .ended

namespace Orderly

variable {policy : BufferPolicy} {horizon : Instant} {a : Aggregator V}

theorem start {clock : Clock} {source : Nat → RowId} (injective : Function.Injective source)
    (spares : clock.Spares policy.lifetime horizon) :
    Orderly policy horizon (start policy clock source : Aggregator V) where
  unfailing := by
    have reliable : ∀ point, FaultyStore.Reliable (V := V)
        (Callers.fresh policy clock source fun _ => [] : Callers V).collector.store point :=
      fun _ => nofun
    exact ⟨⟨Callers.accounted_fresh injective spares, ⟨reliable _, nofun⟩,
      fun _ => ⟨reliable _, reliable _⟩, le_rfl, rfl, nofun⟩, reliable, nofun, rfl⟩
  sent := .refl _
  answered := nofun
  owned := rfl
  final := nofun
  served := nofun
  ended := nofun

theorem advance (orderly : Orderly policy horizon a) (m : TraceTally.Move V)
    (inTime : a.callers.clock.now ≤ horizon) :
    Callers.Unfailing policy horizon (a.advance m).visible (a.advance m).callers :=
  orderly.unfailing.step (a.callers.step_cases m) inTime

theorem unfailing_seize (orderly : Orderly policy horizon a) (free : a.callers.holder = none)
    (inTime : a.callers.clock.now ≤ horizon) (call : Call V) :
    Callers.Unfailing policy horizon a.visible { a.callers with
      holder := some (call, .entered), acquired := a.callers.acquired ++ call.entries } :=
  orderly.unfailing.step (.got free) inTime

/-- The number of visible writes never falls. -/
theorem le_visible_advance (orderly : Orderly policy horizon a) (m : TraceTally.Move V) :
    a.visible ≤ (a.advance m).visible := by
  simp only [Aggregator.advance]
  split
  · exact orderly.unfailing.visible.le.trans
      (a.callers.step_cases m).acquired_extends.length_le
  · exact le_rfl

/-- A call that leaves has succeeded; the ticker's last flush has stored everything. -/
theorem release (orderly : Orderly policy horizon a) (inTime : a.callers.clock.now ≤ horizon)
    {call : Call V} {answer : Except Failure (Option Nat)}
    (held : a.callers.holder = some (call, .leaving answer))
    (free : (a.advance .proceed).callers.holder = none) :
    Orderly policy horizon ((a.advance .proceed).release answer) := by
  have unfailing := orderly.advance .proceed inTime
  have acquired : (a.advance .proceed).callers.acquired = a.callers.acquired :=
    a.callers.acquired_proceed
  have sent : (a.advance .proceed).callers.acquired.Perm (a.inserts.flatMap Insert.sent) :=
    acquired ▸ orderly.sent
  have visible := orderly.le_visible_advance .proceed
  have succeeded := orderly.unfailing.succeeding call answer held
  have idle := Callers.call?_eq_none_iff.mpr free
  have owned := orderly.owned
  unfold Owned at owned
  split at owned
  · cases (Callers.call?_eq_none_iff.mp owned).symm.trans held
  · rename_i i task
    have task' : (a.advance .proceed).owner = some (.insert i) := task
    have unchanged : Insert.returned answer = (id : Insert V → Insert V) := by
      rcases succeeded with ⟨n, rfl⟩ | ⟨rfl, -⟩ <;> rfl
    simp only [Aggregator.release, task', unchanged, List.modify_id]
    exact ⟨unfailing, sent, orderly.answered, idle,
      fun stopped => (orderly.final stopped).trans visible, orderly.served, orderly.ended⟩
  · rename_i task
    obtain ⟨last, calling, called⟩ := owned
    have task' : (a.advance .proceed).owner = some .ticker := task
    have calling' : (a.advance .proceed).ticker = .calling last := calling
    have running : a.phase ≠ .exited := fun exited => by
      cases calling.symm.trans (orderly.ended exited)
    cases last with
    | false =>
      simp only [Aggregator.release, task', calling']
      exact ⟨unfailing, sent, orderly.answered, idle, nofun, orderly.served,
        fun exited => absurd exited running⟩
    | true =>
      simp only [Aggregator.release, task', calling']
      refine ⟨unfailing, sent, orderly.answered, idle, fun _ => ?_, orderly.served, fun _ => rfl⟩
      have flushed : a.callers.flushed = true := by
        rw [Callers.call?, held] at called
        obtain rfl : call = .flush .manual := Option.some.inj called
        rcases succeeded with ⟨n, rfl⟩ | ⟨-, other⟩
        · simp only [Callers.flushed, held]
        · exact absurd rfl (other .manual)
      have all := orderly.unfailing.visible.latest flushed
      dsimp only
      rw [acquired, ← all]
      exact visible

theorem proceed (orderly : Orderly policy horizon a) (inTime : a.callers.clock.now ≤ horizon) :
    Orderly policy horizon a.proceed := by
  have unfailing := orderly.advance .proceed inTime
  have acquired : (a.advance .proceed).callers.acquired = a.callers.acquired :=
    a.callers.acquired_proceed
  have sent : (a.advance .proceed).callers.acquired.Perm (a.inserts.flatMap Insert.sent) :=
    acquired ▸ orderly.sent
  have final : a.ticker = .ended → a.final ≤ (a.advance .proceed).visible :=
    fun stopped => (orderly.final stopped).trans (orderly.le_visible_advance .proceed)
  have owned := orderly.owned
  rcases a.callers.proceed_keeps with ⟨call, answer, held, free⟩ | ⟨staying, same⟩
  · have released : a.proceed = (a.advance .proceed).release answer := by
      simp only [Aggregator.proceed, held]
    rw [released]
    exact orderly.release inTime held free
  · have kept : a.proceed = a.advance .proceed := by
      unfold Aggregator.proceed
      split
      · exact absurd ‹_› (staying _ _)
      · rfl
    rw [kept]
    exact ⟨unfailing, sent, orderly.answered, owned.of_call same, final, orderly.served,
      orderly.ended⟩

/-! An insert is sent, written piece by piece, and answered. -/

theorem request (orderly : Orderly policy horizon a) (accepting : ¬ a.cancelled = true)
    (entries : List (Entry V)) :
    Orderly policy horizon { a with inserts := a.inserts ++ [{ rest := entries }] } := by
  obtain ⟨unfailing, sent, answered, owned, final, served, ended⟩ := orderly
  refine ⟨unfailing, ?_, ?_, ?_, final, ?_, ended⟩
  · simpa using sent
  · intro r hr replied
    rcases List.mem_append.mp hr with hr | hr
    · exact answered r hr replied
    · rw [List.mem_singleton.mp hr] at replied
      exact absurd rfl replied
  · apply owned.of_inserts
    intro i r _ found
    rw [List.getElem?_append_left (List.getElem?_eq_some_iff.mp found).1]
    exact found
  · intro left
    exact absurd (served left).1 accepting

theorem write (orderly : Orderly policy horizon a) (inTime : a.callers.clock.now ≤ horizon)
    {i : Nat} {sent : List (Entry V)} {e : Entry V} {rest : List (Entry V)}
    (free : a.owner = none) (waiting : a.inserts[i]? = some ⟨sent, e :: rest, none⟩) :
    Orderly policy horizon { a.seize (.write e) (.insert i) with
      inserts := a.inserts.set i ⟨sent ++ [e], rest, none⟩ } := by
  have idle := orderly.owned.free free
  rw [seize_eq idle]
  refine ⟨orderly.unfailing_seize idle inTime _, ?_, ?_, ?_, orderly.final, ?_, orderly.ended⟩
  · exact (orderly.sent.append_right [e]).trans (flatMap_set_perm (f := Insert.sent) waiting rfl)
  · intro r hr replied
    rcases List.mem_or_eq_of_mem_set hr with hr | rfl
    · exact orderly.answered r hr replied
    · exact absurd rfl replied
  · have present := (List.getElem?_eq_some_iff.mp waiting).1
    exact ⟨⟨_, List.getElem?_set_self present, rfl⟩, _, rfl⟩
  · -- The server has not stopped, because this insert has no answer.
    intro left
    exact absurd rfl ((orderly.served left).2 _ (List.mem_of_getElem? waiting))

theorem respond (orderly : Orderly policy horizon a) {i : Nat} {sent : List (Entry V)}
    (waiting : a.inserts[i]? = some ⟨sent, [], none⟩) (other : a.owner ≠ some (.insert i)) :
    Orderly policy horizon
      { a with inserts := a.inserts.set i ⟨sent, [], some (.ok ())⟩ } := by
  refine ⟨orderly.unfailing, ?_, ?_, ?_, orderly.final, ?_, orderly.ended⟩
  · have same := flatMap_set_perm (f := Insert.sent) (b := ⟨sent, [], some (.ok ())⟩)
      waiting (List.append_nil _).symm
    rw [List.append_nil] at same
    exact orderly.sent.trans same
  · intro r hr replied
    rcases List.mem_or_eq_of_mem_set hr with hr | rfl
    · exact orderly.answered r hr replied
    · exact ⟨rfl, rfl⟩
  · apply orderly.owned.of_inserts
    intro j r owns found
    have different : i ≠ j := by
      rintro rfl
      exact other owns
    rwa [List.getElem?_set_ne different]
  · intro left
    refine ⟨(orderly.served left).1, fun r hr => ?_⟩
    rcases List.mem_or_eq_of_mem_set hr with hr | rfl
    · exact (orderly.served left).2 r hr
    · exact Option.some_ne_none _

theorem lock (orderly : Orderly policy horizon a) (inTime : a.callers.clock.now ≤ horizon)
    {last : Bool} (free : a.owner = none) (calling : a.ticker = .calling last) :
    Orderly policy horizon (a.seize (TickerStage.call last) .ticker) := by
  have idle := orderly.owned.free free
  have none_ : (TickerStage.call last : Call V).entries = [] := by cases last <;> rfl
  have unfailing := orderly.unfailing_seize idle inTime (TickerStage.call last)
  rw [seize_eq idle]
  rw [none_, List.append_nil] at unfailing ⊢
  exact ⟨unfailing, orderly.sent, orderly.answered, ⟨last, calling, rfl⟩, orderly.final,
    orderly.served, orderly.ended⟩

/-- The ticker leaves its `select`, which it does not do after the exit. -/
theorem select (orderly : Orderly policy horizon a) (selecting : a.ticker = .selecting)
    (last : Bool) : Orderly policy horizon { a with ticker := .calling last } :=
  ⟨orderly.unfailing, orderly.sent, orderly.answered, orderly.owned.of_selecting selecting _, nofun,
    orderly.served, fun exited => by cases selecting.symm.trans (orderly.ended exited)⟩

theorem step (orderly : Orderly policy horizon a) (action : Action V)
    (inTime : a.callers.clock.now ≤ horizon) : Orderly policy horizon (a.step action) := by
  unfold Aggregator.step
  split
  · exact orderly
  obtain ⟨unfailing, sent, answered, owned, final, served, ended⟩ := id orderly
  cases action with
  | request entries =>
    dsimp only
    split
    · exact orderly
    · exact orderly.request ‹_› entries
  | signal =>
    exact ⟨unfailing, sent, answered, owned, final, fun left => ⟨rfl, (served left).2⟩, ended⟩
  | write i =>
    dsimp only
    split
    · exact orderly.write inTime ‹_› ‹_›
    · exact orderly
  | respond i =>
    dsimp only
    split
    · split
      · exact orderly
      · exact orderly.respond ‹_› ‹_›
    · exact orderly
  | tick =>
    dsimp only
    split
    · exact orderly.select ‹_› false
    · exact orderly
  | notice =>
    dsimp only
    split
    · rename_i noticed
      exact orderly.select noticed.1 true
    · exact orderly
  | lock =>
    dsimp only
    split
    · exact orderly.lock inTime ‹_› ‹_›
    · exact orderly
  | proceed => exact orderly.proceed inTime
  | pass d =>
    refine ⟨orderly.advance _ inTime, sent, answered, owned, ?_, served, ended⟩
    exact fun stopped => (final stopped).trans (orderly.le_visible_advance _)
  | drained =>
    dsimp only
    split
    · rename_i drained
      refine ⟨unfailing, sent, answered, owned, final, fun _ => ⟨drained.2.1, ?_⟩, nofun⟩
      intro r hr
      exact Option.isSome_iff_ne_none.mp (drained.2.2 r hr)
    · exact orderly
  | exit =>
    dsimp only
    split
    · rename_i done
      refine ⟨unfailing, sent, answered, owned, final, fun _ => served ?_, fun _ => done.2⟩
      rw [done.1]
      decide
    · exact orderly

end Orderly

section Clock

omit [AddCommMonoid V]

variable [Add V]

theorem before_advance (a : Aggregator V) (m : TraceTally.Move V) :
    a.callers.timed.Before (a.advance m).callers.timed :=
  (a.callers.step_cases m).before

theorem before_seize (a : Aggregator V) (call : Call V) (task : Task) :
    a.callers.timed.Before (a.seize call task).callers.timed :=
  (a.before_advance _).trans ((a.advance _).before_advance _)

theorem before_proceed (a : Aggregator V) : a.callers.timed.Before a.proceed.callers.timed := by
  unfold proceed release
  have advanced := a.before_advance .proceed
  split
  · split <;> exact advanced
  · exact advanced

theorem before_step (a : Aggregator V) (action : Action V) :
    a.callers.timed.Before (a.step action).callers.timed := by
  unfold step
  split
  · exact .refl _
  cases action with
  | request entries => dsimp only; split <;> exact .refl _
  | signal => exact .refl _
  | write i =>
    dsimp only
    split
    · exact a.before_seize _ (.insert i)
    · exact .refl _
  | respond i =>
    dsimp only
    split
    · split <;> exact .refl _
    · exact .refl _
  | tick => dsimp only; split <;> exact .refl _
  | notice => dsimp only; split <;> exact .refl _
  | lock =>
    dsimp only
    split
    · exact a.before_seize _ .ticker
    · exact .refl _
  | proceed => exact a.before_proceed
  | pass d => exact a.before_advance _
  | drained => dsimp only; split <;> exact .refl _
  | exit => dsimp only; split <;> exact .refl _

theorem before_run (a : Aggregator V) (actions : List (Action V)) :
    a.callers.timed.Before (a.run actions).callers.timed := by
  induction actions generalizing a with
  | nil => exact .refl _
  | cons action actions ih => exact (a.before_step action).trans (ih _)

end Clock

theorem Orderly.run {policy : BufferPolicy} {horizon : Instant} {a : Aggregator V}
    (orderly : Orderly policy horizon a) (actions : List (Action V))
    (late : (a.run actions).callers.clock.now ≤ horizon) :
    Orderly policy horizon (a.run actions) := by
  induction actions generalizing a with
  | nil => exact orderly
  | cons action actions ih =>
    have inTime : a.callers.clock.now ≤ horizon := (a.before_run (action :: actions)).now.trans late
    exact ih (orderly.step action inTime) late

theorem Orderly.free_of_exited {policy : BufferPolicy} {horizon : Instant} {a : Aggregator V}
    (orderly : Orderly policy horizon a) (exited : a.phase = .exited) :
    a.callers.holder = none := by
  have owned := orderly.owned
  have served := (orderly.served (by rw [exited]; decide)).2
  unfold Owned at owned
  split at owned
  · exact Callers.call?_eq_none_iff.mp owned
  · obtain ⟨⟨r, found, unanswered⟩, -⟩ := owned
    exact absurd unanswered (served r (List.mem_of_getElem? found))
  · obtain ⟨last, calling, -⟩ := owned
    cases calling.symm.trans (orderly.ended exited)

/-- When the process exits, all inserts are answered, and what they wrote is stored up to the last
flush and still buffered from there on. The ticker's last flush comes before or is that flush; the
buffer is empty just when no write that came after it brought an event. -/
theorem buffer_empty_at_exit_iff (policy : BufferPolicy) (clock : Clock) (source : Nat → RowId)
    (actions : List (Action V)) (injective : Function.Injective source)
    (spares : clock.Spares policy.lifetime
      ((Aggregator.start policy clock source : Aggregator V).run actions).callers.clock.now)
    (exited : ((Aggregator.start policy clock source : Aggregator V).run actions).phase = .exited) :
    let a := (Aggregator.start policy clock source : Aggregator V).run actions
    let stored := (a.callers.acquired.take a.visible).flatMap Entry.pairs
    let late := (a.callers.acquired.drop a.visible).flatMap Entry.pairs
    (∀ r ∈ a.inserts, r.answer = some (.ok ()) ∧ r.rest = []) ∧
      a.callers.acquired.Perm (a.inserts.flatMap Insert.sent) ∧
      (∀ k, total k a.callers.collector.store.inner.pairs = total k stored ∧
        (k ∈ a.callers.collector.store.inner.pairs.map Prod.fst ↔ k ∈ stored.map Prod.fst)) ∧
      a.callers.collector.totals = Totals.empty.mergeAll late ∧
      (a.callers.collector.totals.entries = [] ↔ late = []) ∧
      a.final ≤ a.visible ∧
      (a.final = a.callers.acquired.length → a.callers.collector.totals.entries = []) := by
  intro a stored late
  have orderly : Orderly policy a.callers.clock.now a :=
    (Orderly.start injective spares).run actions le_rfl
  have free := orderly.free_of_exited exited
  have waiting := orderly.unfailing.waiting
  simp only [Callers.waiting, Callers.flight?, Callers.entering, free, Totals.mergeAll_nil]
    at waiting
  have empty : a.callers.collector.totals.entries = [] ↔ late = [] := by
    rw [waiting]
    exact Totals.entries_mergeAll_empty_eq_nil_iff
  have final := orderly.final (orderly.ended exited)
  have rows := orderly.unfailing.visible.rows
  refine ⟨?_, orderly.sent, ?_, waiting, empty, final, ?_⟩
  · intro r hr
    exact orderly.answered r hr ((orderly.served (by rw [exited]; decide)).2 r hr)
  · intro k
    exact ⟨total_eq_of_tally_eq rows k, mem_keys_iff_of_tally_eq rows k⟩
  · intro last
    rw [empty]
    have none_ : a.callers.acquired.drop a.visible = [] := List.drop_eq_nil_of_le (last ▸ final)
    exact congrArg (List.flatMap Entry.pairs) none_

/-- Nothing but the ticker flushes. -/
def roomyPolicy : BufferPolicy := ⟨9, .ofSeconds 60, .ofSeconds 3600, {}⟩

/-- An insert whose write comes before the ticker's last flush. -/
def earlyWrite : List (Action Nat) :=
  [.tick, .lock, .proceed, .proceed, .request [⟨"o", "t", [⟨"a", 3, "u"⟩]⟩], .write 0, .proceed,
    .proceed, .signal, .respond 0, .notice, .lock, .proceed, .drained, .proceed, .proceed, .exit]

theorem buffer_empty_at_exit_earlyWrite :
    let a := (start roomyPolicy ⟨⟨0⟩, fun _ => 0⟩ id).run earlyWrite
    a.phase = .exited ∧ a.callers.collector.totals.entries = [] ∧
      a.inserts.flatMap Insert.sent = [⟨"o", "t", [⟨"a", 3, "u"⟩]⟩] ∧
      total ⟨"o", "t", "a", "u"⟩ a.callers.collector.store.inner.pairs = 3 := by
  intro a
  have exited : a.phase = .exited := by decide +kernel
  obtain ⟨-, -, rows, -, -, -, empty⟩ := buffer_empty_at_exit_iff roomyPolicy
    ⟨⟨0⟩, fun _ => 0⟩ id earlyWrite Function.injective_id (Clock.spares_of_constant (by decide) _)
    exited
  refine ⟨exited, empty (by decide +kernel), by decide +kernel, (rows _).1.trans ?_⟩
  decide +kernel

/-- An insert whose write comes after the ticker's last flush. -/
def lateWrite : List (Action Nat) :=
  [.request [⟨"o", "t", [⟨"a", 3, "u"⟩]⟩], .signal, .notice, .lock, .proceed, .proceed, .write 0,
    .proceed, .proceed, .respond 0, .drained, .exit]

theorem exit_leaves_answered_insert :
    let a := (start roomyPolicy ⟨⟨0⟩, fun _ => 0⟩ id).run lateWrite
    a.phase = .exited ∧
      a.inserts = [⟨[⟨"o", "t", [⟨"a", 3, "u"⟩]⟩], [], some (.ok ())⟩] ∧
      a.callers.collector.store.inner.rows = [] ∧
      a.callers.collector.totals.entries = [(⟨"o", "t", "a", "u"⟩, 3)] := by
  decide +kernel

end Aggregator

end TraceTally
