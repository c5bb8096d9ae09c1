import TraceTally.Proofs.Loading
import TraceTally.Proofs.Sources

/-!
# Settings one by one

Every setting has a path, which is its name or that of a section and its own, and is read from what
stands there by rules of its own. Settings that are decoded from a tree are, one by one, read from
their places in it, or have their defaults where nothing stands. This goes for the settings of a section
unless it is a list, whose values are told apart by their positions. The other way round, a table with
all sections as tables is decoded to whatever settings it gives their values.
-/

namespace TraceTally

open Settings (Tree lenient)

/-- The name that the storage is chosen by. -/
def StorageSettings.type : StorageSettings → String
  | .inMemory => "in_memory"
  | .clickHouse .. => "clickhouse"

/-- What is asked of a server, if there is one. -/
def StorageSettings.ofServer? {α : Type}
    (f : String → String → Option String → Option String → α) : StorageSettings → Option α
  | .inMemory => none
  | .clickHouse endpoint database user password => some (f endpoint database user password)

theorem StorageSettings.ofServer?_eq_some {α : Type}
    {f : String → String → Option String → Option String → α} {storage : StorageSettings} {a : α} :
    storage.ofServer? f = some a ↔ ∃ endpoint database user password,
      storage = .clickHouse endpoint database user password ∧ f endpoint database user password = a := by
  cases storage with
  | inMemory => simp [ofServer?]
  | clickHouse endpoint database user password => simp [ofServer?]

inductive Setting where
  | listenAddress | adminAddress | maxMessageSize | authToken | recordLifetime
  | capacity | interval
  | maxAttempts | initialDelay | onExhausted
  | storageType | endpoint | database | user | password
  deriving DecidableEq, Repr

namespace Setting

def all : List Setting :=
  [.listenAddress, .adminAddress, .maxMessageSize, .authToken, .recordLifetime, .capacity, .interval,
    .maxAttempts, .initialDelay, .onExhausted, .storageType, .endpoint, .database, .user, .password]

theorem mem_all (x : Setting) : x ∈ all := by cases x <;> decide

instance (P : Setting → Prop) [DecidablePred P] : Decidable (∀ x, P x) :=
  decidable_of_iff (∀ x ∈ all, P x) ⟨fun each x => each x x.mem_all, fun each x _ => each x⟩

instance (P : Setting → Prop) [DecidablePred P] : Decidable (∃ x, P x) :=
  decidable_of_iff (∃ x ∈ all, P x) ⟨fun ⟨x, _, h⟩ => ⟨x, h⟩, fun ⟨x, h⟩ => ⟨x, x.mem_all, h⟩⟩

def section? : Setting → Option String
  | .listenAddress | .adminAddress | .maxMessageSize | .authToken | .recordLifetime => none
  | .capacity | .interval => some "flush"
  | .maxAttempts | .initialDelay | .onExhausted => some "retry"
  | .storageType | .endpoint | .database | .user | .password => some "storage"

def name : Setting → String
  | .listenAddress => "listen_addr"
  | .adminAddress => "admin_addr"
  | .maxMessageSize => "max_message_size"
  | .authToken => "auth_token"
  | .recordLifetime => "record_ttl"
  | .capacity => "buffer_size"
  | .interval => "interval"
  | .maxAttempts => "max_attempts"
  | .initialDelay => "initial_delay"
  | .onExhausted => "on_exhausted"
  | .storageType => "type"
  | .endpoint => "endpoint"
  | .database => "database"
  | .user => "user"
  | .password => "password"

def path (x : Setting) : List String := x.section?.toList ++ [x.name]

theorem path_of_section {x : Setting} {sec : String} (within : x.section? = some sec) :
    x.path = [sec, x.name] := by
  rw [path, within]
  rfl

abbrev Value : Setting → Type
  | .listenAddress | .adminAddress | .storageType | .endpoint | .database => String
  | .authToken | .user | .password => Option String
  | .maxMessageSize | .capacity | .maxAttempts => Nat
  | .recordLifetime | .interval | .initialDelay => Duration
  | .onExhausted => OnExhausted

/-- The value that a setting is given by what stands at its path. -/
def read : (x : Setting) → Tree → Option x.Value
  | .listenAddress | .adminAddress => lenient.text
  | .maxMessageSize | .capacity => lenient.count
  | .maxAttempts => lenient.smallCount
  | .authToken => lenient.optionalText
  | .recordLifetime | .interval | .initialDelay => lenient.duration
  | .onExhausted => lenient.onExhausted
  | .storageType | .endpoint | .database => Settings.strictText
  | .user | .password => Settings.optionalPlainText

/-- The value of a setting; storage in memory has none of those of a server. -/
def get (s : Settings) : (x : Setting) → Option x.Value
  | .listenAddress => some s.listenAddress
  | .adminAddress => some s.adminAddress
  | .maxMessageSize => some s.maxMessageSize
  | .authToken => some s.authToken
  | .recordLifetime => some s.recordLifetime
  | .capacity => some s.flush.capacity
  | .interval => some s.flush.interval
  | .maxAttempts => some s.retry.maxAttempts
  | .initialDelay => some s.retry.initialDelay
  | .onExhausted => some s.retry.onExhausted
  | .storageType => some s.storage.type
  | .endpoint => s.storage.ofServer? fun endpoint _ _ _ => endpoint
  | .database => s.storage.ofServer? fun _ database _ _ => database
  | .user => s.storage.ofServer? fun _ _ user _ => user
  | .password => s.storage.ofServer? fun _ _ _ password => password

/-- A server has no default, but needs neither user nor password. -/
def default : (x : Setting) → Option x.Value
  | .user | .password => some none
  | x => get {} x

/-- The value by what is said at the path, and the default if nothing is. -/
def choose (x : Setting) (t : Option Tree) : Option x.Value := t.elim x.default x.read

theorem eq_of_get_storage {s s' : Settings} (type : s.storage.type = s'.storage.type)
    (endpoint : get s .endpoint = get s' .endpoint) (database : get s .database = get s' .database)
    (user : get s .user = get s' .user) (password : get s .password = get s' .password) :
    s.storage = s'.storage := by
  cases first : s.storage <;> cases second : s'.storage <;>
    simp_all [get, StorageSettings.ofServer?, StorageSettings.type]

/-- Settings with the same values, one by one, are the same. -/
theorem eq_of_get {s s' : Settings} (same : ∀ x, get s x = get s' x) : s = s' := by
  have storage : s.storage = s'.storage :=
    eq_of_get_storage (Option.some.inj (same .storageType)) (same .endpoint) (same .database)
      (same .user) (same .password)
  obtain ⟨_, _, _, _, _, ⟨_, _⟩, ⟨_, _, _⟩, _⟩ := s
  obtain ⟨_, _, _, _, _, ⟨_, _⟩, ⟨_, _, _⟩, _⟩ := s'
  cases Option.some.inj (same .listenAddress)
  cases Option.some.inj (same .adminAddress)
  cases Option.some.inj (same .maxMessageSize)
  cases Option.some.inj (same .authToken)
  cases Option.some.inj (same .recordLifetime)
  cases Option.some.inj (same .capacity)
  cases Option.some.inj (same .interval)
  cases Option.some.inj (same .maxAttempts)
  cases Option.some.inj (same .initialDelay)
  cases Option.some.inj (same .onExhausted)
  cases storage
  rfl

end Setting

namespace Settings

open Entries (get?)

section

variable {α β : Type}

/-- A field that only one setting of a section changes is read from that setting, if it is there. -/
theorem elim_of_readSection? (field : α → β) {name : String} {read : Tree → Option β}
    {put : α → β → α} {fields : List (Entry α)} (mem : entry name read put ∈ fields)
    (distinct : (fields.map Prod.fst).Nodup) (sets : ∀ a v, field (put a v) = v)
    (other : ∀ f ∈ fields, f.1 ≠ name → Leaves field f) {es : List (String × Tree)} {default a : α}
    (done : readSection? fields default (.table es) = some a) :
    (get? name es).elim (some (field default)) read = some (field a) := by
  cases here : get? name es with
  | some t => exact readSection?_sets field mem distinct sets other here done
  | none =>
    rw [readSection?_table] at done
    refine congrArg some (foldlM_keeps (P := fun a => field default = field a) ?_ rfl done)
    intro f hf a b kept set
    by_cases same : f.1 = name
    · rw [setting, same, here] at set
      cases set
      exact kept
    · have keeps : Keeps (fun a => field default = field a) f := fun t a b kept put =>
        Eq.trans kept (other f hf same t a b put).symm
      exact keeps.setting kept set

/-- A section is read from its table field by field. -/
theorem readSection?_cons_of {name : String} {read : Tree → Option β} {put : α → β → α}
    {fields : List (Entry α)} {es : List (String × Tree)} {a : α} {d v : β} (kept : put a d = a)
    (value : (get? name es).elim (some d) read = some v) :
    readSection? (entry name read put :: fields) a (.table es) =
      readSection? fields (put a v) (.table es) := by
  rw [readSection?_table, readSection?_table, List.foldlM_cons]
  have step : setting es a (entry name read put) = some (put a v) := by
    unfold setting
    cases here : get? name es with
    | none =>
      rw [here] at value
      cases value
      simp only [entry_fst, here, kept]
    | some t =>
      rw [here] at value
      simp only [entry_fst, here]
      exact congrArg (Option.map (put a)) value
  rw [step]
  rfl

theorem exists_table_of_readSection? {fields : List (Entry α)} {default a : α} {t : Tree}
    (read : readSection? fields default t = some a) (noList : ∀ ts, t ≠ .list ts) :
    ∃ fs, t = .table fs := by
  cases t with
  | table fs => exact ⟨fs, rfl⟩
  | list ts => exact absurd rfl (noList ts)
  | unset | flag | whole | real | text => cases read

/-- A field of a section is read from what stands at its path. -/
theorem elim_within (field : α → β) {fields : List (Entry α)} {default a : α} {sec name : String}
    {read : Tree → Option β} {es : List (String × Tree)}
    (outer : (get? sec es).elim (some default) (readSection? fields default) = some a)
    (noList : ∀ ts, get? sec es ≠ some (.list ts))
    (inner : ∀ {fs}, readSection? fields default (.table fs) = some a →
      (get? name fs).elim (some (field default)) read = some (field a)) :
    (Tree.at? [sec, name] (.table es)).elim (some (field default)) read = some (field a) := by
  rw [Tree.at?, Tree.entries]
  cases there : get? sec es with
  | none =>
    rw [there] at outer
    exact congrArg (fun a => some (field a)) (Option.some.inj outer)
  | some t =>
    rw [there] at outer
    obtain ⟨fs, rfl⟩ := exists_table_of_readSection? outer fun ts list => noList ts (list ▸ there)
    rw [Option.bind_some, Tree.at?_single]
    exact inner outer

end

section

variable {es fs : List (String × Tree)} {s : Settings}

theorem fields_of_flush {f : FlushSettings} (read : lenient.flush (.table fs) = some f) :
    (get? "buffer_size" fs).elim (some 1000) lenient.count = some f.capacity ∧
      (get? "interval" fs).elim (some (.ofSeconds 10)) lenient.duration = some f.interval :=
  ⟨elim_of_readSection? FlushSettings.capacity (.head _) (by decide) (fun _ _ => rfl)
      (by simp [leaves_entry]) read,
    elim_of_readSection? FlushSettings.interval (.tail _ (.head _)) (by decide) (fun _ _ => rfl)
      (by simp [leaves_entry]) read⟩

theorem fields_of_retry {p : RetryPolicy} (read : lenient.retry (.table fs) = some p) :
    (get? "max_attempts" fs).elim (some 1) lenient.smallCount = some p.maxAttempts ∧
      (get? "initial_delay" fs).elim (some (.ofMillis 100)) lenient.duration = some p.initialDelay ∧
      (get? "on_exhausted" fs).elim (some .discard) lenient.onExhausted = some p.onExhausted :=
  ⟨elim_of_readSection? RetryPolicy.maxAttempts (.head _) (by decide) (fun _ _ => rfl)
      (by simp [leaves_entry]) read,
    elim_of_readSection? RetryPolicy.initialDelay (.tail _ (.head _)) (by decide) (fun _ _ => rfl)
      (by simp [leaves_entry]) read,
    elim_of_readSection? RetryPolicy.onExhausted (.tail _ (.tail _ (.head _))) (by decide)
      (fun _ _ => rfl) (by simp [leaves_entry]) read⟩

/-- What stands for each field of settings at the top of a table, if anything does. -/
structure FieldsOf (es : List (String × Tree)) (s : Settings) : Prop where
  listenAddress : (get? "listen_addr" es).elim (Setting.default .listenAddress) lenient.text =
    some s.listenAddress
  adminAddress : (get? "admin_addr" es).elim (Setting.default .adminAddress) lenient.text =
    some s.adminAddress
  maxMessageSize : (get? "max_message_size" es).elim (Setting.default .maxMessageSize) lenient.count =
    some s.maxMessageSize
  authToken : (get? "auth_token" es).elim (Setting.default .authToken) lenient.optionalText =
    some s.authToken
  recordLifetime : (get? "record_ttl" es).elim (Setting.default .recordLifetime) lenient.duration =
    some s.recordLifetime
  flush : (get? "flush" es).elim (some {}) lenient.flush = some s.flush
  retry : (get? "retry" es).elim (some {}) lenient.retry = some s.retry
  storage : (get? "storage" es).elim (some .inMemory) storage? = some s.storage

theorem fields_of_decode? (decoded : decode? lenient (.table es) = some s) : FieldsOf es s where
  listenAddress := elim_of_readSection? Settings.listenAddress (.head _) (by decide)
    (fun _ _ => rfl) (by simp [leaves_entry]) decoded
  adminAddress := elim_of_readSection? Settings.adminAddress (.tail _ (.head _)) (by decide)
    (fun _ _ => rfl) (by simp [leaves_entry]) decoded
  maxMessageSize := elim_of_readSection? Settings.maxMessageSize (.tail _ (.tail _ (.head _)))
    (by decide) (fun _ _ => rfl) (by simp [leaves_entry]) decoded
  authToken := elim_of_readSection? Settings.authToken (.tail _ (.tail _ (.tail _ (.head _))))
    (by decide) (fun _ _ => rfl) (by simp [leaves_entry]) decoded
  recordLifetime := elim_of_readSection? Settings.recordLifetime
    (.tail _ (.tail _ (.tail _ (.tail _ (.head _))))) (by decide) (fun _ _ => rfl)
    (by simp [leaves_entry]) decoded
  flush := elim_of_readSection? Settings.flush
    (.tail _ (.tail _ (.tail _ (.tail _ (.tail _ (.head _)))))) (by decide) (fun _ _ => rfl)
    (by simp [leaves_entry]) decoded
  retry := elim_of_readSection? Settings.retry
    (.tail _ (.tail _ (.tail _ (.tail _ (.tail _ (.tail _ (.head _))))))) (by decide)
    (fun _ _ => rfl) (by simp [leaves_entry]) decoded
  storage := elim_of_readSection? Settings.storage
    (.tail _ (.tail _ (.tail _ (.tail _ (.tail _ (.tail _ (.tail _ (.head _)))))))) (by decide)
    (fun _ _ => rfl) (by simp [leaves_entry]) decoded

theorem decode?_of_fields (fields : FieldsOf es s) : decode? lenient (.table es) = some s :=
  (readSection?_cons_of rfl fields.listenAddress).trans <|
  (readSection?_cons_of rfl fields.adminAddress).trans <|
  (readSection?_cons_of rfl fields.maxMessageSize).trans <|
  (readSection?_cons_of rfl fields.authToken).trans <|
  (readSection?_cons_of rfl fields.recordLifetime).trans <|
  (readSection?_cons_of rfl fields.flush).trans <|
  (readSection?_cons_of rfl fields.retry).trans <|
  (readSection?_cons_of rfl fields.storage).trans rfl

theorem type_of_storage? {storage : StorageSettings} (read : storage? (.table fs) = some storage) :
    get? "type" fs = some (.text storage.type) := by
  obtain ⟨type, here, content⟩ := Option.bind_eq_some_iff.mp read
  rw [here]
  unfold storageOfType? at content
  split at content
  · cases content
    rfl
  · obtain ⟨_, _, content⟩ := Option.bind_eq_some_iff.mp content
    obtain ⟨_, _, content⟩ := Option.bind_eq_some_iff.mp content
    obtain ⟨_, _, content⟩ := Option.bind_eq_some_iff.mp content
    obtain ⟨_, _, content⟩ := Option.bind_eq_some_iff.mp content
    cases content
    rfl
  · cases content

theorem server_of_storage? {endpoint database : String} {user password : Option String}
    (read : storage? (.table fs) = some (.clickHouse endpoint database user password)) :
    (get? "endpoint" fs).bind strictText = some endpoint ∧
      (get? "database" fs).bind strictText = some database ∧
      optionalPlainText ((get? "user" fs).getD .unset) = some user ∧
      optionalPlainText ((get? "password" fs).getD .unset) = some password := by
  obtain ⟨type, _, content⟩ := Option.bind_eq_some_iff.mp read
  unfold storageOfType? at content
  split at content
  · cases content
  · obtain ⟨_, first, content⟩ := Option.bind_eq_some_iff.mp content
    obtain ⟨_, second, content⟩ := Option.bind_eq_some_iff.mp content
    obtain ⟨_, third, content⟩ := Option.bind_eq_some_iff.mp content
    obtain ⟨_, fourth, content⟩ := Option.bind_eq_some_iff.mp content
    cases content
    exact ⟨first, second, third, fourth⟩
  · cases content

theorem storage?_of_fields {storage : StorageSettings}
    (type : get? "type" fs = some (.text storage.type))
    (server : ∀ endpoint database user password,
      storage = .clickHouse endpoint database user password →
        (get? "endpoint" fs).bind strictText = some endpoint ∧
          (get? "database" fs).bind strictText = some database ∧
          optionalPlainText ((get? "user" fs).getD .unset) = some user ∧
          optionalPlainText ((get? "password" fs).getD .unset) = some password) :
    storage? (.table fs) = some storage := by
  rw [storage?, type, Option.bind_some]
  cases storage with
  | inMemory => rfl
  | clickHouse endpoint database user password =>
    obtain ⟨first, second, third, fourth⟩ := server _ _ _ _ rfl
    change clickHouse? (.table fs) = _
    rw [clickHouse?, first, second, third, fourth]
    rfl

end

end Settings

namespace Setting

open Entries (get?)
open Settings (decode? elim_within fields_of_decode? fields_of_flush fields_of_retry optionalPlainText
  readSection?_cons_of server_of_storage? storage? strictText type_of_storage?)

variable {es : List (String × Tree)} {s : Settings}

theorem elim_strictText (t : Option Tree) : t.elim none strictText = t.bind strictText := by
  cases t <;> rfl

theorem elim_optionalPlainText (t : Option Tree) :
    t.elim (some none) optionalPlainText = optionalPlainText (t.getD .unset) := by
  cases t <;> rfl

/-- Settings of the storage that are read from its table. -/
theorem choose_of_storage? {fs : List (String × Tree)}
    (read : storage? (.table fs) = some s.storage) {x : Setting}
    (within : x.section? = some "storage") {v : x.Value} (value : x.get s = some v) :
    x.choose (get? x.name fs) = some v := by
  cases x with
  | listenAddress | adminAddress | maxMessageSize | authToken | recordLifetime | capacity | interval
  | maxAttempts | initialDelay | onExhausted => simp [section?] at within
  | storageType =>
    cases value
    rw [choose, name, type_of_storage? read]
    rfl
  | endpoint =>
    obtain ⟨_, _, _, _, shape, rfl⟩ := StorageSettings.ofServer?_eq_some.mp value
    exact (elim_strictText _).trans (server_of_storage? (shape ▸ read)).1
  | database =>
    obtain ⟨_, _, _, _, shape, rfl⟩ := StorageSettings.ofServer?_eq_some.mp value
    exact (elim_strictText _).trans (server_of_storage? (shape ▸ read)).2.1
  | user =>
    obtain ⟨_, _, _, _, shape, rfl⟩ := StorageSettings.ofServer?_eq_some.mp value
    exact (elim_optionalPlainText _).trans (server_of_storage? (shape ▸ read)).2.2.1
  | password =>
    obtain ⟨_, _, _, _, shape, rfl⟩ := StorageSettings.ofServer?_eq_some.mp value
    exact (elim_optionalPlainText _).trans (server_of_storage? (shape ▸ read)).2.2.2

/-- Storage of which nothing is said is in memory. -/
theorem default_of_inMemory (stored : s.storage = .inMemory) {x : Setting}
    (within : x.section? = some "storage") {v : x.Value} (value : x.get s = some v) :
    x.default = some v := by
  cases x with
  | listenAddress | adminAddress | maxMessageSize | authToken | recordLifetime | capacity | interval
  | maxAttempts | initialDelay | onExhausted => simp [section?] at within
  | storageType =>
    rw [get, stored] at value
    exact value
  | endpoint | database | user | password =>
    rw [get, stored] at value
    cases value

theorem choose_at?_of_storage
    (storage : (get? "storage" es).elim (some .inMemory) storage? = some s.storage)
    (noList : ∀ ts, get? "storage" es ≠ some (.list ts)) {x : Setting}
    (within : x.section? = some "storage") {v : x.Value} (value : x.get s = some v) :
    x.choose ((get? "storage" es).bind (Tree.at? [x.name])) = some v := by
  cases there : get? "storage" es with
  | none =>
    rw [there] at storage
    exact default_of_inMemory (Option.some.inj storage).symm within value
  | some t =>
    rw [there] at storage
    cases t with
    | table fs =>
      rw [Option.bind_some, Tree.at?_single]
      exact choose_of_storage? storage within value
    | list ts => exact absurd there (noList ts)
    | unset | flag | whole | real | text => cases storage

/-- Every setting is decoded from its place. -/
theorem choose_at?_of_decode? (decoded : decode? lenient (.table es) = some s) {x : Setting}
    (noList : ∀ sec ∈ x.section?, ∀ ts, get? sec es ≠ some (.list ts)) {v : x.Value}
    (value : x.get s = some v) : x.choose (Tree.at? x.path (.table es)) = some v := by
  have fields := fields_of_decode? decoded
  cases x with
  | listenAddress =>
    cases value
    exact (congrArg _ (Tree.at?_single "listen_addr" es)).trans fields.listenAddress
  | adminAddress =>
    cases value
    exact (congrArg _ (Tree.at?_single "admin_addr" es)).trans fields.adminAddress
  | maxMessageSize =>
    cases value
    exact (congrArg _ (Tree.at?_single "max_message_size" es)).trans fields.maxMessageSize
  | authToken =>
    cases value
    exact (congrArg _ (Tree.at?_single "auth_token" es)).trans fields.authToken
  | recordLifetime =>
    cases value
    exact (congrArg _ (Tree.at?_single "record_ttl" es)).trans fields.recordLifetime
  | capacity =>
    cases value
    exact elim_within FlushSettings.capacity fields.flush (noList "flush" rfl) fun inner =>
      (fields_of_flush inner).1
  | interval =>
    cases value
    exact elim_within FlushSettings.interval fields.flush (noList "flush" rfl) fun inner =>
      (fields_of_flush inner).2
  | maxAttempts =>
    cases value
    exact elim_within RetryPolicy.maxAttempts fields.retry (noList "retry" rfl) fun inner =>
      (fields_of_retry inner).1
  | initialDelay =>
    cases value
    exact elim_within RetryPolicy.initialDelay fields.retry (noList "retry" rfl) fun inner =>
      (fields_of_retry inner).2.1
  | onExhausted =>
    cases value
    exact elim_within RetryPolicy.onExhausted fields.retry (noList "retry" rfl) fun inner =>
      (fields_of_retry inner).2.2
  | storageType | endpoint | database | user | password =>
    exact choose_at?_of_storage fields.storage (noList "storage" rfl) rfl value

theorem at?_within {sec : String} {fs : List (String × Tree)} (here : get? sec es = some (.table fs))
    (name : String) : Tree.at? [sec, name] (.table es) = get? name fs := by
  rw [Tree.at?, Tree.entries, here, Option.bind_some, Tree.at?_single]

/-- What stands at the places of the settings gives them their values. -/
def Chosen (es : List (String × Tree)) (s : Settings) : Prop :=
  ∀ (x : Setting) v, x.get s = some v → x.choose (Tree.at? x.path (.table es)) = some v

namespace Chosen

variable {fs : List (String × Tree)}

theorem flush (chosen : Chosen es s) (here : get? "flush" es = some (.table fs)) :
    lenient.flush (.table fs) = some s.flush :=
  (readSection?_cons_of rfl (at?_within here "buffer_size" ▸ chosen .capacity _ rfl)).trans <|
  (readSection?_cons_of rfl (at?_within here "interval" ▸ chosen .interval _ rfl)).trans rfl

theorem retry (chosen : Chosen es s) (here : get? "retry" es = some (.table fs)) :
    lenient.retry (.table fs) = some s.retry :=
  (readSection?_cons_of rfl (at?_within here "max_attempts" ▸ chosen .maxAttempts _ rfl)).trans <|
  (readSection?_cons_of rfl (at?_within here "initial_delay" ▸ chosen .initialDelay _ rfl)).trans <|
  (readSection?_cons_of rfl (at?_within here "on_exhausted" ▸ chosen .onExhausted _ rfl)).trans rfl

theorem storage (chosen : Chosen es s) (here : get? "storage" es = some (.table fs))
    (typed : (get? "type" fs).isSome) : storage? (.table fs) = some s.storage := by
  obtain ⟨t, stands⟩ := Option.isSome_iff_exists.mp typed
  have type : (get? "type" fs).elim (some "in_memory") strictText = some s.storage.type :=
    at?_within here "type" ▸ chosen .storageType _ rfl
  rw [stands] at type
  refine Settings.storage?_of_fields ?_ fun endpoint database user password shape => ?_
  · cases t with
    | text name =>
      cases type
      exact stands
    | unset | flag | whole | real | list | table => cases type
  · have value {x : Setting} {v : x.Value} (within : x.section? = some "storage")
        (value : x.get s = some v) : x.choose (get? x.name fs) = some v := by
      exact at?_within here x.name ▸ path_of_section within ▸ chosen x v value
    have server {α : Type} (f : String → String → Option String → Option String → α) :
        s.storage.ofServer? f = some (f endpoint database user password) :=
      StorageSettings.ofServer?_eq_some.mpr ⟨_, _, _, _, shape, rfl⟩
    exact ⟨(elim_strictText _).symm.trans (@value .endpoint _ rfl (server _)),
      (elim_strictText _).symm.trans (@value .database _ rfl (server _)),
      (elim_optionalPlainText _).symm.trans (@value .user _ rfl (server _)),
      (elim_optionalPlainText _).symm.trans (@value .password _ rfl (server _))⟩

end Chosen

/-- Settings are decoded from any table that gives all of them their values. -/
theorem decode?_of_chosen (chosen : Chosen es s)
    (tables : ∀ sec ∈ ["flush", "retry", "storage"], ∃ fs, get? sec es = some (.table fs))
    (typed : (Tree.at? ["storage", "type"] (.table es)).isSome) :
    decode? lenient (.table es) = some s := by
  obtain ⟨flush, flushHere⟩ := tables "flush" (by simp)
  obtain ⟨retry, retryHere⟩ := tables "retry" (by simp)
  obtain ⟨storage, storageHere⟩ := tables "storage" (by simp)
  rw [at?_within storageHere] at typed
  exact Settings.decode?_of_fields
    { listenAddress := (Tree.at?_single "listen_addr" es) ▸ chosen .listenAddress _ rfl
      adminAddress := (Tree.at?_single "admin_addr" es) ▸ chosen .adminAddress _ rfl
      maxMessageSize := (Tree.at?_single "max_message_size" es) ▸ chosen .maxMessageSize _ rfl
      authToken := (Tree.at?_single "auth_token" es) ▸ chosen .authToken _ rfl
      recordLifetime := (Tree.at?_single "record_ttl" es) ▸ chosen .recordLifetime _ rfl
      flush := flushHere ▸ chosen.flush flushHere
      retry := retryHere ▸ chosen.retry retryHere
      storage := storageHere ▸ chosen.storage storageHere typed }

end Setting

end TraceTally
