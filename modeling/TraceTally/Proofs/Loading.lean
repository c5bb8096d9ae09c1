import TraceTally.Proofs.DurationText
import TraceTally.Settings.Load

/-!
# What loaded settings are like

A section is read setting by setting, so what holds of its defaults and is kept by each of its settings
holds of whatever is read. Durations are therefore such as a text can say, the number of attempts has 32
bits, and no rule is broken.
-/

namespace TraceTally.Settings

section

variable {α β : Type}

@[simp] theorem entry_fst (name : String) (read : Tree → Option β) (put : α → β → α) :
    (entry name read put).1 = name := rfl

/-- What a setting puts into a section keeps the property. -/
def Keeps (P : α → Prop) (f : Entry α) : Prop := ∀ t a b, P a → f.2 t a = some b → P b

theorem keeps_entry {P : α → Prop} {name : String} {read : Tree → Option β} {put : α → β → α}
    (each : ∀ {t a v}, P a → read t = some v → P (put a v)) : Keeps P (entry name read put) := by
  intro t a b start set
  obtain ⟨v, value, rfl⟩ := Option.map_eq_some_iff.mp set
  exact each start value

theorem foldlM_keeps {γ : Type} {P : α → Prop} {fs : List γ} {step : α → γ → Option α}
    (each : ∀ f ∈ fs, ∀ a b, P a → step a f = some b → P b) {a b : α} (start : P a)
    (done : fs.foldlM step a = some b) : P b := by
  induction fs generalizing a with
  | nil =>
    cases done
    exact start
  | cons f fs ih =>
    obtain ⟨c, first, later⟩ := Option.bind_eq_some_iff.mp done
    exact ih (fun g hg => each g (List.mem_cons_of_mem f hg))
      (each f List.mem_cons_self a c start first) later

/-- One setting of a section that is given by names. -/
def setting (es : List (String × Tree)) (a : α) (f : Entry α) : Option α :=
  match Entries.get? f.1 es with
  | some t => f.2 t a
  | none => some a

theorem readSection?_table (fields : List (Entry α)) (default : α) (es : List (String × Tree)) :
    readSection? fields default (.table es) = fields.foldlM (setting es) default := rfl

theorem Keeps.setting {P : α → Prop} {f : Entry α} (keeps : Keeps P f)
    {es : List (String × Tree)} {a b : α} (start : P a) (set : setting es a f = some b) : P b := by
  unfold Settings.setting at set
  split at set
  · exact keeps _ _ _ start set
  · cases set
    exact start

theorem readSection?_keeps {P : α → Prop} {fields : List (Entry α)} {default a : α} {t : Tree}
    (start : P default) (keep : ∀ f ∈ fields, Keeps P f)
    (read : readSection? fields default t = some a) : P a := by
  unfold readSection? at read
  split at read
  · exact foldlM_keeps (fun f hf a b => (keep f hf).setting) start read
  · exact foldlM_keeps (fun f hf a b => keep f.1 (List.of_mem_zip hf).1 f.2 a b) start read
  · cases read

/-- What a setting puts into a section leaves the field as it is. -/
def Leaves (field : α → β) (f : Entry α) : Prop := ∀ t a b, f.2 t a = some b → field b = field a

theorem leaves_entry {γ : Type} {field : α → γ} {name : String} {read : Tree → Option β}
    {put : α → β → α} (same : ∀ a v, field (put a v) = field a) :
    Leaves field (entry name read put) := by
  intro t a b set
  obtain ⟨v, _, rfl⟩ := Option.map_eq_some_iff.mp set
  exact same a v

/-- The field that only one setting changes is what is read from that setting. -/
theorem readSection?_sets (field : α → β) {name : String} {read : Tree → Option β}
    {put : α → β → α} {fields : List (Entry α)} (mem : entry name read put ∈ fields)
    (distinct : (fields.map Prod.fst).Nodup) (sets : ∀ a v, field (put a v) = v)
    (other : ∀ f ∈ fields, f.1 ≠ name → Leaves field f)
    {es : List (String × Tree)} {t : Tree} (here : Entries.get? name es = some t)
    {default a : α} (done : readSection? fields default (.table es) = some a) :
    read t = some (field a) := by
  obtain ⟨before, after, rfl⟩ := List.append_of_mem mem
  rw [readSection?_table, List.foldlM_append] at done
  obtain ⟨b, _, done⟩ := Option.bind_eq_some_iff.mp done
  obtain ⟨c, first, later⟩ := Option.bind_eq_some_iff.mp done
  have value : ∃ v, read t = some v ∧ put b v = c := by
    simpa [setting, entry, here] using first
  obtain ⟨v, value, rfl⟩ := value
  have fresh : ∀ f ∈ after, f.1 ≠ name := by
    rw [List.map_append, List.map_cons] at distinct
    have later := (List.nodup_cons.mp (List.nodup_append.mp distinct).2.1).1
    exact fun f hf same => later (List.mem_map.mpr ⟨f, hf, same⟩)
  have kept : field a = field (put b v) :=
    foldlM_keeps (P := fun a => field a = field (put b v))
      (fun f hf _ _ => Keeps.setting fun t a b start set =>
        (other f (by simp [hf]) (fresh f hf) t a b set).trans start) rfl later
  rw [kept, sets, value]

end

theorem sayable_duration {r : Rules} {t : Tree} {d : Duration} (read : r.duration t = some d) :
    d.Sayable := by
  obtain ⟨s, _, read⟩ := Option.bind_eq_some_iff.mp read
  cases value : Duration.ofString? s with
  | error e =>
    rw [value] at read
    cases read
  | ok d' =>
    rw [value] at read
    cases read
    exact Duration.sayable_of_ofString? value

/-- Durations that a text can say, and no more attempts than 32 bits hold. -/
structure Regular (s : Settings) : Prop where
  lifetime : s.recordLifetime.Sayable
  interval : s.flush.interval.Sayable
  initialDelay : s.retry.initialDelay.Sayable
  attempts : s.retry.maxAttempts < 2 ^ 32

theorem regular_flush {t : Tree} {f : FlushSettings} (read : lenient.flush t = some f) :
    f.interval.Sayable := by
  refine readSection?_keeps (P := fun f => f.interval.Sayable) (.seconds (by decide)) ?_ read
  simp only [List.forall_mem_cons]
  exact ⟨keeps_entry fun start _ => start, keeps_entry fun _ value => sayable_duration value,
    fun _ none => absurd none List.not_mem_nil⟩

theorem regular_retry {t : Tree} {p : RetryPolicy} (read : lenient.retry t = some p) :
    p.initialDelay.Sayable ∧ p.maxAttempts < 2 ^ 32 := by
  have small {t : Tree} {n : Nat} (value : lenient.smallCount t = some n) : n < 2 ^ 32 := by
    obtain ⟨m, _, rfl⟩ := Option.map_eq_some_iff.mp value
    exact Nat.mod_lt m (by decide)
  refine readSection?_keeps (P := fun p => p.initialDelay.Sayable ∧ p.maxAttempts < 2 ^ 32)
    ⟨.millis (by decide), by decide⟩ ?_ read
  simp only [List.forall_mem_cons]
  exact ⟨keeps_entry fun start value => ⟨start.1, small value⟩,
    keeps_entry fun start value => ⟨sayable_duration value, start.2⟩,
    keeps_entry fun start _ => start, fun _ none => absurd none List.not_mem_nil⟩

theorem regular_decode {t : Tree} {s : Settings} (read : decode? lenient t = some s) :
    s.Regular := by
  have default : Regular {} :=
    ⟨.seconds (by decide), .seconds (by decide), .millis (by decide), by decide⟩
  refine readSection?_keeps (P := Regular) default ?_ read
  simp only [List.forall_mem_cons]
  exact ⟨keeps_entry fun start _ => { start with }, keeps_entry fun start _ => { start with },
    keeps_entry fun start _ => { start with }, keeps_entry fun start _ => { start with },
    keeps_entry fun start value => { start with lifetime := sayable_duration value },
    keeps_entry fun start value => { start with interval := regular_flush value },
    keeps_entry fun start value =>
      { start with
        initialDelay := (regular_retry value).1
        attempts := (regular_retry value).2 },
    keeps_entry fun start _ => { start with }, fun _ none => absurd none List.not_mem_nil⟩

theorem checked_eq_ok {s s' : Settings} : checked s' = .ok s ↔ s' = s ∧ s'.fault? = none := by
  unfold checked
  cases s'.fault? <;> simp

/-- The settings of an error-free load are those of the layers, and break no rule. -/
theorem loadLayers_eq_ok {file environment : List (String × Tree)} {s : Settings} :
    loadLayers file environment = .ok s ↔
      ∃ t, merge file environment = some t ∧ decode? lenient t = some s ∧ s.fault? = none := by
  unfold loadLayers
  cases merge file environment with
  | none => simp
  | some t =>
    cases decoded : decode? lenient t with
    | none => simp [decoded]
    | some s' =>
      simp only [checked_eq_ok, Option.some.injEq, exists_eq_left', decoded]
      exact ⟨fun ⟨same, fine⟩ => ⟨same, same ▸ fine⟩, fun ⟨same, fine⟩ => ⟨same, same ▸ fine⟩⟩

end TraceTally.Settings
