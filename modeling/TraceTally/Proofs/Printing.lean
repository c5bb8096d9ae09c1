import TraceTally.Proofs.KeyOrder
import TraceTally.Proofs.TomlDocuments

/-!
# Printed settings are read back

The document that settings are printed as is read by the strict rules as the same settings, if they are
such as loading gives them.
-/

namespace TraceTally.Settings

open Entries (get? get?_cons get?_append)
open Toml (Leaf Layout Table)

variable {s : Settings}

/-- The names of sections and settings. -/
def names : List String :=
  ["listen_addr", "admin_addr", "max_message_size", "auth_token", "record_ttl", "flush", "retry",
    "storage", "buffer_size", "interval", "max_attempts", "initial_delay", "on_exhausted", "type",
    "endpoint", "database", "user", "password"]

theorem isBare_of_mem_names {name : String} (known : name ∈ names) : Toml.IsBare name := by
  have all : (names.all fun name =>
      !name.toList.isEmpty && name.toList.all Toml.isBareChar) = true := by decide
  have check := List.all_eq_true.mp all name known
  simp only [Bool.and_eq_true, Bool.not_eq_true', List.isEmpty_eq_false_iff, List.all_eq_true] at check
  exact ⟨check.1, check.2⟩

theorem mem_names_storageEntries (storage : StorageSettings) :
    ∀ e ∈ storageEntries storage, e.1 ∈ names := by
  cases storage with
  | inMemory => simp [storageEntries, names]
  | clickHouse endpoint database user password =>
    cases user <;> cases password <;> simp [storageEntries, given, names]

theorem isBare_layout (s : Settings) : s.layout.IsBare where
  top := by
    have known : ∀ e ∈ s.layout.top, e.1 ∈ names := by
      cases token : s.authToken <;> simp [layout, token, given, names]
    exact fun e he => isBare_of_mem_names (known e he)
  sections := by
    have known : ∀ e ∈ s.layout.sections, e.1 ∈ names ∧ ∀ entry ∈ e.2, entry.1 ∈ names := by
      simp only [layout, List.forall_mem_cons]
      exact ⟨by simp [names], by simp [names], ⟨by simp [names], mem_names_storageEntries _⟩,
        fun _ none => absurd none List.not_mem_nil⟩
    exact fun e he => ⟨isBare_of_mem_names (known e he).1,
      fun entry mem => isBare_of_mem_names ((known e he).2 entry mem)⟩

theorem distinct_layout (s : Settings) : s.layout.Distinct where
  top := by cases token : s.authToken <;> simp [layout, token, given]
  sections := by
    cases storage : s.storage with
    | inMemory => simp [layout, storage, storageEntries]
    | clickHouse endpoint database user password =>
      cases user <;> cases password <;> simp [layout, storage, storageEntries, given]

theorem ofToml_leaf (rule : DateRule) (l : Leaf) : ofToml rule l.value = leaf l := by
  cases l <;> rw [Leaf.value, ofToml, leaf]

theorem tableOfToml_tableOf (rule : DateRule) (es : List (String × Leaf)) :
    tableOfToml rule (Toml.tableOf es) = branch es := by
  simp [tableOfToml_eq_map, Toml.tableOf, branch, ofToml_leaf]

theorem strict_duration {d : Duration} (sayable : d.Sayable) :
    strict.duration (leaf (duration d)) = some d := by
  have read := sayable.ofString?_toText
  simp only [Rules.duration, duration, leaf, strict, strictText, Option.bind_some, read]
  rfl

theorem strictCount_leaf {limit n : Nat} (fits : n ≤ limit) :
    strictCount limit (leaf (.count n)) = some n := by
  simp [leaf, strictCount, fits]

theorem strict_flush {f : FlushSettings} (capacity : f.capacity ≤ Text.maxNat64)
    (interval : f.interval.Sayable) :
    strict.flush (.table (branch [("buffer_size", .count f.capacity),
      ("interval", duration f.interval)])) = some f := by
  have count : strict.count (leaf (.count f.capacity)) = some f.capacity := strictCount_leaf capacity
  simp [Rules.flush, readSection?, branch, entry, get?_cons, count, strict_duration interval]

theorem strict_retry {p : RetryPolicy} (attempts : p.maxAttempts < 2 ^ 32)
    (initialDelay : p.initialDelay.Sayable) :
    strict.retry (.table (branch [("max_attempts", .count p.maxAttempts),
      ("initial_delay", duration p.initialDelay), ("on_exhausted", .text p.onExhausted.name)])) =
        some p := by
  have count : strict.smallCount (leaf (.count p.maxAttempts)) = some p.maxAttempts :=
    strictCount_leaf (Nat.le_pred_of_lt attempts)
  have choice : strict.onExhausted (leaf (.text p.onExhausted.name)) = some p.onExhausted := by
    cases p.onExhausted <;> rfl
  simp [Rules.retry, readSection?, branch, entry, get?_cons, count, strict_duration initialDelay,
    choice]

theorem storage?_branch (storage : StorageSettings) :
    storage? (.table (branch (storageEntries storage))) = some storage := by
  cases storage with
  | inMemory => rfl
  | clickHouse endpoint database user password =>
    cases user <;> cases password <;>
      simp [storage?, storageOfType?, storageEntries, branch, given, get?_cons, leaf, clickHouse?,
        strictText, optionalPlainText]

theorem tableOfToml_table (rule : DateRule) (l : Layout) :
    tableOfToml rule l.table =
      branch l.top ++ l.sections.map fun (name, es) => (name, .table (branch es)) := by
  rw [tableOfToml_eq_map, Layout.table, List.map_append, ← tableOfToml_eq_map, tableOfToml_tableOf]
  simp [ofToml, tableOfToml_tableOf]

/-- Numbers within their bounds, and durations that a text can say. -/
structure Fits (s : Settings) : Prop extends Regular s where
  messageSize : s.maxMessageSize ≤ Text.maxInt64
  capacity : s.flush.capacity ≤ Text.maxInt64

theorem decode?_strict_layout (fits : s.Fits) :
    decode? strict (.table (tableOfToml .asTable s.layout.table)) = some s := by
  have within {n : Nat} (small : n ≤ Text.maxInt64) : n ≤ Text.maxNat64 :=
    Nat.le_trans small (by decide)
  have size : strict.count (leaf (.count s.maxMessageSize)) = some s.maxMessageSize :=
    strictCount_leaf (within fits.messageSize)
  have address (text : String) : strict.text (leaf (.text text)) = some text := rfl
  have token (text : String) : strict.optionalText (leaf (.text text)) = some (some text) := rfl
  have flush := strict_flush (within fits.capacity) fits.interval
  have retry := strict_retry fits.attempts fits.initialDelay
  have storage := storage?_branch s.storage
  have lifetime := strict_duration fits.lifetime
  simp only [branch, List.map_cons, List.map_nil] at flush retry storage
  obtain ⟨listen, admin, messageSize, authToken, recordLifetime, _, _, _⟩ := s
  rw [tableOfToml_table]
  -- A token that is not set has no entry, and keeps its default.
  cases authToken <;>
    simp [decode?, readSection?, layout, branch, entry, get?_cons, given, address, token, size,
      lifetime, flush, retry, storage]

theorem mapM_isSome {α β : Type} {f : α → Option β} {as : List α} {bs : List β}
    (made : as.mapM f = some bs) : ∀ a ∈ as, (f a).isSome := by
  induction as generalizing bs with
  | nil => exact fun _ none => absurd none List.not_mem_nil
  | cons a as ih =>
    obtain ⟨b, others, first, later, rfl⟩ := Toml.mapM_cons_eq_some.mp made
    exact List.forall_mem_cons.mpr ⟨by simp [first], ih later⟩

/-- A document has no number that it cannot hold. -/
theorem count_le_of_write? {k : String} {n : Nat} {es : List (String × Leaf)} {cs : List Char}
    (written : Toml.writeEntries? es = some cs) (mem : (k, .count n) ∈ es) : n ≤ Text.maxInt64 := by
  obtain ⟨pieces, lines, _⟩ := Option.map_eq_some_iff.mp written
  have one := mapM_isSome lines _ mem
  simp only [ Toml.writeEntry?, Option.isSome_map, Leaf.write?] at one
  split at one
  · assumption
  · cases one

theorem fits_of_write? (regular : s.Regular) {text : String} (printed : s.write? = some text) :
    s.Fits where
  toRegular := regular
  messageSize := by
    obtain ⟨cs, written, _⟩ := Option.map_eq_some_iff.mp printed
    obtain ⟨top, pieces, first, _⟩ := Layout.write?_eq_some.mp written
    exact count_le_of_write? (k := "max_message_size") first (by simp [layout])
  capacity := by
    obtain ⟨cs, written, _⟩ := Option.map_eq_some_iff.mp printed
    obtain ⟨top, pieces, _, sections, _⟩ := Layout.write?_eq_some.mp written
    obtain ⟨body, one⟩ := Option.isSome_iff_exists.mp (mapM_isSome sections _ List.mem_cons_self)
    obtain ⟨body, flush, _⟩ := Option.map_eq_some_iff.mp one
    exact count_le_of_write? flush List.mem_cons_self

/-- Settings that were loaded are read back from what they are printed as, and are still in order. -/
theorem printed_reloads {files : String → Option String} {name : Option String}
    {env : List (String × String)} {laid : Option (List (String × Tree))} {text : String}
    (loaded : Loads files name env laid (.ok s)) (printed : s.write? = some text) :
    ofText? text = some s ∧ s.fault? = none := by
  have fits := fits_of_write? loaded.regular printed
  obtain ⟨cs, written, rfl⟩ := Option.map_eq_some_iff.mp printed
  have read := Layout.read?_write? (isBare_layout s) (distinct_layout s) written
  refine ⟨?_, loaded.fault?⟩
  rw [ofText?, String.toList_ofList, read, Option.bind_some, decode?_strict_layout fits]

/-- A token with both kinds of quotes, a line feed and a control code, from a file and a variable. -/
theorem printed_reloads_quotedToken :
    let files (name : String) : Option String :=
      if name = "app.toml" then
        some "auth_token = \"it's\\n\\\"7\\\"\\u0001\"\nstorage.type = 'in_memory'\n"
      else none
    let s : Settings := { authToken := some "it's\n\"7\"\x01", retry := { maxAttempts := 3 } }
    let text := "listen_addr = \"0.0.0.0:50051\"\nadmin_addr = \"0.0.0.0:9090\"\n" ++
      "max_message_size = 16777216\nauth_token = \"\"\"\nit's\n\"7\"\\u0001\"\"\"\n" ++
      "record_ttl = \"604800s\"\n\n[flush]\nbuffer_size = 1000\ninterval = \"10s\"\n\n" ++
      "[retry]\nmax_attempts = 3\ninitial_delay = \"100ms\"\non_exhausted = \"discard\"\n\n" ++
      "[storage]\ntype = \"in_memory\"\n"
    load files (some "app") [("SPANSTAT_RETRY__MAX_ATTEMPTS", "3")] = .ok s ∧
      s.write? = some text ∧ ofText? text = some s ∧ s.fault? = none := by
  intro files s text
  have loaded : load files (some "app") [("SPANSTAT_RETRY__MAX_ATTEMPTS", "3")] = .ok s := by
    decide +kernel
  have printed : s.write? = some text := by decide +kernel
  exact ⟨loaded, printed, printed_reloads (loads_of_load loaded) printed⟩

end TraceTally.Settings
