import Mathlib.Data.List.TakeWhile
import Mathlib.Tactic.SplitIfs
import TraceTally.Proofs.KeyOrder
import TraceTally.Proofs.Printing

/-!
# What a given value is loaded as

The text of a variable is taken for a flag, a whole number or a double where it can be, and a setting
that is a text is then written from that value. It is loaded as it was given only where this gives the
text back. Of a number of attempts 32 bits are loaded.
-/

namespace TraceTally

namespace Binary64

open Text (IsDigit IsNumeral)

theorem isNegative_ofSignMagnitude {m : Nat} (small : m < 2 ^ 63) :
    (ofSignMagnitude true m).isNegative = true := by
  have bits : (ofSignMagnitude true m).bits.toNat = m + 2 ^ 63 := by
    rw [ofSignMagnitude, if_pos rfl, UInt64.toNat_ofNat']
    omega
  rw [isNegative, bits, decide_eq_true_eq]
  omega

theorem isNegative_ofRatio (num den : Nat) : (ofRatio true num den).isNegative = true := by
  have infinite : (infinity true).isNegative = true := isNegative_ofSignMagnitude (by decide)
  have rounded (m : Nat) : (if m < 2047 * 2 ^ 52 then ofSignMagnitude true m
      else infinity true).isNegative = true := by
    split
    · exact isNegative_ofSignMagnitude (by omega)
    · exact infinite
  unfold ofRatio
  split
  · exact isNegative_ofSignMagnitude (by decide)
  · exact rounded _

theorem isNegative_ofDecimal (significand width : Nat) (e : Int) :
    (ofDecimal true significand width e).isNegative = true := by
  unfold ofDecimal
  split
  · exact isNegative_ofSignMagnitude (by decide)
  split
  · exact isNegative_ofSignMagnitude (by decide)
  split
  · exact isNegative_ofSignMagnitude (by decide)
  split <;> exact isNegative_ofRatio ..

theorem splitSign_numeral {cs : List Char} {n : Int} (numeral : IsNumeral cs n) :
    ∃ ds, ds ≠ [] ∧ (∀ c ∈ ds, IsDigit c) ∧ splitSign cs = (decide (cs.head? = some '-'), ds) := by
  cases numeral with
  | plus nonempty all => exact ⟨_, nonempty, all, rfl⟩
  | minus nonempty all => exact ⟨_, nonempty, all, rfl⟩
  | plain nonempty all =>
    obtain ⟨c, ds, rfl⟩ := List.exists_cons_of_ne_nil nonempty
    have digit := all c List.mem_cons_self
    have plus : c ≠ '+' := digit.ne (by decide)
    have minus : c ≠ '-' := digit.ne (by decide)
    refine ⟨_, nonempty, all, ?_⟩
    rw [splitSign] <;> simp_all

/-- A numeral is also read as a double, with its sign. -/
theorem read?_numeral {cs : List Char} {n : Int} (numeral : IsNumeral cs n) :
    ∃ significand width e, read? cs =
      some (ofDecimal (decide (cs.head? = some '-')) significand width e) := by
  obtain ⟨ds, nonempty, all, sign⟩ := splitSign_numeral numeral
  have letters (word : String) (mem : 'n' ∈ word.toList) : lower ds ≠ word := by
    rintro rfl
    rw [lower, String.toList_ofList] at mem
    obtain ⟨c, hc, same⟩ := List.mem_map.mp mem
    rw [(all c hc).toLower] at same
    exact (all c hc).ne (by decide) same
  have digits : ds.takeWhile isDigit = ds := List.takeWhile_eq_self_iff.mpr all
  have rest : ds.dropWhile isDigit = [] := List.dropWhile_eq_nil_iff.mpr all
  rw [read?, sign]
  dsimp only
  split
  · exact absurd ‹_› (letters "inf" (by decide))
  · exact absurd ‹_› (letters "infinity" (by decide))
  · exact absurd ‹_› (letters "nan" (by decide))
  · simp [numeral?, digits, rest, nonempty, Numeral.value]

end Binary64

namespace Settings

open Text (IsDigit IsNumeral intDigits maxInt64)

/-- A word for a flag, in upper or lower case. -/
def IsFlag (t : String) : Prop :=
  String.ofList (t.toList.map Char.toLower) = "true" ∨
    String.ofList (t.toList.map Char.toLower) = "false"

instance (t : String) : Decidable (IsFlag t) := inferInstanceAs (Decidable (_ ∨ _))

theorem not_isFlag_of_numeral {t : String} {n : Int} (numeral : IsNumeral t.toList n) :
    ¬ IsFlag t := by
  have letters (word : String) (mem : 'e' ∈ word.toList) :
      String.ofList (t.toList.map Char.toLower) ≠ word := by
    rintro rfl
    rw [String.toList_ofList] at mem
    obtain ⟨c, hc, same⟩ := List.mem_map.mp mem
    have digits {cs : List Char} (all : ∀ c ∈ cs, IsDigit c) (hc : c ∈ cs) : False := by
      rw [(all c hc).toLower] at same
      exact (all c hc).ne (by decide) same
    generalize t.toList = cs at numeral hc
    cases numeral with
    | plain _ all => exact digits all hc
    | plus _ all | minus _ all =>
      rcases List.mem_cons.mp hc with rfl | hc
      · exact absurd same (by decide)
      · exact digits all hc
  rintro (isTrue | isFalse)
  · exact letters "true" (by decide) isTrue
  · exact letters "false" (by decide) isFalse

theorem variableValue_of_not_flag {t : String} (word : ¬ IsFlag t) :
    variableValue t =
      match Text.readInt maxInt64 t.toList with
      | .ok n => .whole n
      | .error _ =>
        match Binary64.read? t.toList with
        | some x => .real x
        | none => .text t := by
  unfold variableValue
  split
  · exact absurd (.inl ‹_›) word
  · exact absurd (.inr ‹_›) word
  · rfl

/-- Numbers of 64 bits with a sign. -/
def FitsInt64 (n : Int) : Prop := -(2 ^ 63) ≤ n ∧ n < 2 ^ 63

theorem readInt_ok_iff {cs : List Char} {n : Int} :
    Text.readInt maxInt64 cs = .ok n ↔ IsNumeral cs n ∧ FitsInt64 n := by
  rw [Text.readInt_ok_iff, FitsInt64, maxInt64]
  constructor
  · rintro ⟨numeral, least, most⟩
    exact ⟨numeral, by omega, by omega⟩
  · rintro ⟨numeral, least, most⟩
    exact ⟨numeral, by omega, by omega⟩

theorem variableValue_of_numeral {t : String} {n : Int} (numeral : IsNumeral t.toList n)
    (fits : FitsInt64 n) : variableValue t = .whole n := by
  rw [variableValue_of_not_flag (not_isFlag_of_numeral numeral), readInt_ok_iff.mpr ⟨numeral, fits⟩]

theorem variableValue_of_not_whole {t : String} (word : ¬ IsFlag t)
    (other : ∀ n, IsNumeral t.toList n → ¬ FitsInt64 n) :
    variableValue t =
      match Binary64.read? t.toList with
      | some x => .real x
      | none => .text t := by
  rw [variableValue_of_not_flag word]
  split
  · rename_i n read
    obtain ⟨numeral, fits⟩ := readInt_ok_iff.mp read
    exact absurd fits (other n numeral)
  · rfl

/-- The texts that the value they are taken for is written as. -/
inductive Kept : String → Prop
  | flag (b : Bool) : Kept (if b then "true" else "false")
  | whole {n : Int} (fits : FitsInt64 n) : Kept (String.ofList (intDigits n))
  | real {t : String} {x : Binary64} (word : ¬ IsFlag t)
      (other : ∀ n, IsNumeral t.toList n → ¬ FitsInt64 n)
      (read : Binary64.read? t.toList = some x) (written : Binary64.plain x = t) : Kept t
  | text {t : String} (word : ¬ IsFlag t) (number : Binary64.read? t.toList = none) : Kept t

theorem kept_of_lenientText {t : String} (same : lenientText (variableValue t) = some t) :
    Kept t := by
  by_cases word : IsFlag t
  · have flag : ∃ b, variableValue t = .flag b := by
      rcases word with isTrue | isFalse
      · exact ⟨true, by simp [variableValue, isTrue]⟩
      · exact ⟨false, by simp [variableValue, isFalse]⟩
    obtain ⟨b, value⟩ := flag
    rw [value] at same
    cases same
    exact .flag b
  · rw [variableValue_of_not_flag word] at same
    split at same
    · rename_i n read
      cases same
      exact .whole (readInt_ok_iff.mp read).2
    · rename_i error
      have other : ∀ n, IsNumeral t.toList n → ¬ FitsInt64 n := by
        intro n numeral fits
        rw [readInt_ok_iff.mpr ⟨numeral, fits⟩] at error
        cases error
      split at same
      · rename_i x read
        exact .real word other read (Option.some.inj same)
      · exact .text word ‹_›

theorem Kept.lenientText {t : String} (kept : Kept t) : lenientText (variableValue t) = some t := by
  cases kept with
  | flag b => cases b <;> rfl
  | whole fits =>
    rename_i n
    have numeral : IsNumeral (String.ofList (intDigits n)).toList n := by
      rw [String.toList_ofList]
      exact Text.isNumeral_intDigits n
    rw [variableValue_of_numeral numeral fits, Settings.lenientText]
  | real word other read written =>
    rw [variableValue_of_not_whole word other, read, Settings.lenientText, written]
  | text word number =>
    have other : ∀ n, IsNumeral t.toList n → ¬ FitsInt64 n := by
      intro n numeral
      obtain ⟨_, _, _, read⟩ := Binary64.read?_numeral numeral
      rw [number] at read
      cases read
    rw [variableValue_of_not_whole word other, number, Settings.lenientText]

section

variable {es : List (String × Tree)} {s : Settings} {t : Tree}

theorem decode?_listenAddress (read : decode? lenient (.table es) = some s)
    (here : Entries.get? "listen_addr" es = some t) : lenientText t = some s.listenAddress :=
  readSection?_sets (fun s : Settings => s.listenAddress) (.head _) (by decide) (fun _ _ => rfl)
    (by simp [leaves_entry]) here read

theorem decode?_adminAddress (read : decode? lenient (.table es) = some s)
    (here : Entries.get? "admin_addr" es = some t) : lenientText t = some s.adminAddress :=
  readSection?_sets (fun s : Settings => s.adminAddress) (.tail _ (.head _)) (by decide)
    (fun _ _ => rfl) (by simp [leaves_entry]) here read

theorem decode?_authToken (read : decode? lenient (.table es) = some s)
    (here : Entries.get? "auth_token" es = some t) : lenient.optionalText t = some s.authToken :=
  readSection?_sets (fun s : Settings => s.authToken) (.tail _ (.tail _ (.tail _ (.head _))))
    (by decide) (fun _ _ => rfl) (by simp [leaves_entry]) here read

theorem decode?_retry (read : decode? lenient (.table es) = some s)
    (here : Entries.get? "retry" es = some t) : lenient.retry t = some s.retry :=
  readSection?_sets (fun s : Settings => s.retry)
    (.tail _ (.tail _ (.tail _ (.tail _ (.tail _ (.tail _ (.head _))))))) (by decide)
    (fun _ _ => rfl) (by simp [leaves_entry]) here read

theorem retry_maxAttempts {p : RetryPolicy} (read : lenient.retry (.table es) = some p)
    (here : Entries.get? "max_attempts" es = some t) :
    lenient.smallCount t = some p.maxAttempts :=
  readSection?_sets (fun p : RetryPolicy => p.maxAttempts) (.head _) (by decide) (fun _ _ => rfl)
    (by simp [leaves_entry]) here read

/-- The number of attempts is read from what stands at its path. -/
theorem decode?_maxAttempts (read : decode? lenient (.table es) = some s)
    (here : Tree.at? ["retry", "max_attempts"] (.table es) = some t) :
    lenient.smallCount t = some s.retry.maxAttempts := by
  obtain ⟨inner, found, below⟩ := Option.bind_eq_some_iff.mp here
  obtain ⟨t', entry, same⟩ := Option.bind_eq_some_iff.mp below
  cases same
  cases inner with
  | table fs => exact retry_maxAttempts (decode?_retry read found) entry
  | unset | flag | whole | real | text | list => cases entry

end

variable {files : String → Option String} {file : Option String} {env : List (String × String)}
  {laid : Option (List (String × Tree))} {s : Settings}

/-- The text is the value of the only variable for the setting at the path. -/
def GivenByVariable (env : List (String × String)) (p : List String) (t : String) : Prop :=
  ∃ name, pathOf? name = some (p.map .key) ∧ env.filter (fun v => bearsOn p v.1) = [(name, t)]

theorem at?_of_variable {p : List String} {t : String} (given : GivenByVariable env p t)
    (nonempty : p ≠ []) (loaded : Loads files file env laid (.ok s)) :
    ∃ es u, decode? lenient (.table es) = some s ∧ Tree.at? p (.table es) = some u ∧
      (u = variableValue t ∨ u.IsCompound) := by
  obtain ⟨name, target, only⟩ := given
  obtain ⟨_, _, _, es, _, _, _, order, merged, read, _⟩ := loaded.exists_layers
  obtain ⟨base, _, above⟩ := merge_eq_some.mp merged
  rcases settled_of_variable only nonempty target order above with here | ⟨u, here, compound⟩
  · exact ⟨es, _, read, here, .inl rfl⟩
  · exact ⟨es, u, read, here, .inr compound⟩

theorem lenientText_of_variable {k t x : String} (given : GivenByVariable env [k] t)
    (loaded : Loads files file env laid (.ok s))
    (field : ∀ {es u}, decode? lenient (.table es) = some s → Entries.get? k es = some u →
      lenientText u = some x) : lenientText (variableValue t) = some x := by
  obtain ⟨es, u, read, here, rfl | compound⟩ := at?_of_variable given (List.cons_ne_nil _ _) loaded
  · exact field read (by rwa [Tree.at?_single] at here)
  · have text := field read (by rwa [Tree.at?_single] at here)
    rcases compound with ⟨_, rfl⟩ | ⟨_, rfl⟩ <;> cases text

theorem optionalText_variableValue (t : String) :
    lenient.optionalText (variableValue t) = (lenientText (variableValue t)).map some := by
  rcases variableValue_cases t with ⟨_, value⟩ | ⟨_, value⟩ | ⟨_, value⟩ | value <;>
    rw [value] <;> rfl

theorem authToken_of_variable {t : String} (given : GivenByVariable env ["auth_token"] t)
    (loaded : Loads files file env laid (.ok s)) :
    lenientText (variableValue t) = s.authToken := by
  obtain ⟨es, u, read, here, value⟩ := at?_of_variable given (List.cons_ne_nil _ _) loaded
  have token : lenient.optionalText u = some s.authToken :=
    decode?_authToken read (by rwa [Tree.at?_single] at here)
  rcases value with rfl | ⟨_, rfl⟩ | ⟨_, rfl⟩
  · rw [optionalText_variableValue] at token
    obtain ⟨x, text, same⟩ := Option.map_eq_some_iff.mp token
    rw [text, same]
  · cases token
  · cases token

/-- Whole numbers are kept up to the last that 32 bits hold, and no negative one is read. -/
theorem smallCount_whole {n : Int} {m : Nat} (read : lenient.smallCount (.whole n) = some m) :
    (m : Int) = n ↔ n < 2 ^ 32 := by
  obtain ⟨count, positive, rfl⟩ := Option.map_eq_some_iff.mp read
  change (if 0 ≤ n then some n.toNat else none) = some count at positive
  split at positive
  · cases positive
    omega
  · cases positive

theorem maxAttempts_ne_zero (loaded : Loads files file env laid (.ok s)) :
    s.retry.maxAttempts ≠ 0 := by
  intro zero
  have fine := loaded.fault?
  unfold fault? at fine
  rw [if_pos zero] at fine
  split_ifs at fine

/-- A number below 64 bits is taken for a negative double, and that for no attempts. -/
theorem smallCount_low {t : String} {n : Int} (numeral : IsNumeral t.toList n) (low : n < -(2 ^ 63)) :
    lenient.smallCount (variableValue t) = some 0 := by
  have sign : t.toList.head? = some '-' := by
    generalize t.toList = cs at numeral
    cases numeral with
    | minus => rfl
    | plain | plus => omega
  have other : ∀ m, IsNumeral t.toList m → ¬ FitsInt64 m := by
    intro m second fits
    rw [numeral.unique second] at low
    exact absurd fits.1 (by omega)
  obtain ⟨significand, width, e, read⟩ := Binary64.read?_numeral numeral
  have negative := Binary64.isNegative_ofDecimal significand width e
  rw [variableValue_of_not_whole (not_isFlag_of_numeral numeral) other, read]
  simp [lenient, lenientCount, roundToCount, sign, negative]

/-- A number that is given for the attempts: the value of the only variable for them, or what the
document has for them if no variable bears on them. -/
inductive AttemptsGiven (files : String → Option String) (file : Option String)
    (env : List (String × String)) (n : Int) : Prop
  | byVariable {t : String} (given : GivenByVariable env ["retry", "max_attempts"] t)
      (numeral : IsNumeral t.toList n)
  | byDocument {name text : String} {table entries : Toml.Table} (named : file = some name)
      (found : locate files name = some text) (read : Toml.read? text.toList = some table)
      (only : table.filter (fun e => (path e.1).head? = some (.key "retry")) =
        [("retry", .table entries)])
      (attempts : entries.filter (fun e => e.1 = "max_attempts") = [("max_attempts", .whole n)])
      (free : ∀ v ∈ env, bearsOn ["retry", "max_attempts"] v.1 = false)

theorem maxAttempts_of_variable {t : String} {n : Int}
    (given : GivenByVariable env ["retry", "max_attempts"] t) (numeral : IsNumeral t.toList n)
    (loaded : Loads files file env laid (.ok s)) : (s.retry.maxAttempts : Int) = n ↔ n < 2 ^ 32 := by
  obtain ⟨es, u, read, here, value⟩ := at?_of_variable given (List.cons_ne_nil _ _) loaded
  have count := decode?_maxAttempts read here
  rcases value with rfl | ⟨_, rfl⟩ | ⟨_, rfl⟩
  · have attempts := loaded.regular.attempts
    by_cases low : n < -(2 ^ 63)
    · rw [smallCount_low numeral low] at count
      exact absurd (Option.some.inj count).symm (maxAttempts_ne_zero loaded)
    by_cases high : n < 2 ^ 63
    · rw [variableValue_of_numeral numeral ⟨by omega, high⟩] at count
      exact smallCount_whole count
    · omega
  · cases count
  · cases count

theorem filter_tableOfToml (kind : String → Bool) {es : Toml.Table} {k : String} {v : Toml.Value}
    (only : es.filter (fun e => kind e.1) = [(k, v)]) :
    (tableOfToml .asText es).filter (fun e => kind e.1) = [(k, ofToml .asText v)] := by
  rw [tableOfToml_eq_map, List.filter_map]
  exact congrArg (List.map _) only

/-- What reaches a setting in a section begins with the section's name. -/
theorem head?_of_reaches {name k : String} {p : List String}
    (reached : Tree.reaches (path name) (k :: p) = true) : (path name).head? = some (.key k) := by
  obtain ⟨j, q, shape⟩ := exists_path_eq name
  rw [shape, Tree.reaches_key, Bool.and_eq_true, decide_eq_true_eq] at reached
  rw [shape, List.head?_cons, reached.1]

/-- The attempts of a document are laid where they belong, in whatever order its keys are. -/
theorem settled_of_document {n : Int} {table entries : Toml.Table}
    (only : table.filter (fun e => (path e.1).head? = some (.key "retry")) =
      [("retry", .table entries)])
    (attempts : entries.filter (fun e => e.1 = "max_attempts") = [("max_attempts", .whole n)])
    {source : List (String × Tree)}
    (order : Tree.Reordered (.table (tableOfToml .asText table)) (.table source)) {root root' : Tree}
    (done : overlay root source = some root') :
    Settled ["retry", "max_attempts"] (.whole n) root' := by
  let inRetry (name : String) : Bool := (path name).head? = some (.key "retry")
  let isAttempts (name : String) : Bool := name = "max_attempts"
  obtain ⟨_, w, same, single, below⟩ := order.only inRetry (filter_tableOfToml inRetry only)
  cases same
  rw [ofToml] at below
  obtain ⟨fs, v, rfl, inner, leaf⟩ := below.only isAttempts (filter_tableOfToml isAttempts attempts)
  obtain rfl := leaf.eq_of_isLeaf (by rintro es ⟨⟩)
  obtain ⟨before, after, split, -, -, later⟩ := List.filter_eq_cons_iff.mp inner
  have reached : source.filter (fun e => Tree.reaches (path e.1) ["retry", "max_attempts"]) =
      [("retry", .table fs)] := by
    have section_ : ∀ e ∈ source, Tree.reaches (path e.1) ["retry", "max_attempts"] =
        (Tree.reaches (path e.1) ["retry", "max_attempts"] && inRetry e.1) := by
      intro e _
      cases reached : Tree.reaches (path e.1) ["retry", "max_attempts"] with
      | false => rfl
      | true => simp [inRetry, head?_of_reaches reached]
    have itself : Tree.reaches (path "retry") ["retry", "max_attempts"] = true := by decide +kernel
    rw [List.filter_congr section_, ← List.filter_filter, single, List.filter_cons, if_pos itself]
    rfl
  refine settled_of_source reached (fun put => .inl ?_) done
  cases put
  exact Tree.at?_put_table (by rintro es ⟨⟩) split
    (fun e he => by simpa [isAttempts] using List.filter_eq_nil_iff.mp later e he) _

theorem maxAttempts_of_document {name text : String} {table entries : Toml.Table} {n : Int}
    (found : locate files name = some text) (read : Toml.read? text.toList = some table)
    (only : table.filter (fun e => (path e.1).head? = some (.key "retry")) =
      [("retry", .table entries)])
    (attempts : entries.filter (fun e => e.1 = "max_attempts") = [("max_attempts", .whole n)])
    (free : ∀ v ∈ env, bearsOn ["retry", "max_attempts"] v.1 = false)
    (loaded : Loads files (some name) env laid (.ok s)) :
    (s.retry.maxAttempts : Int) = n ↔ n < 2 ^ 32 := by
  obtain ⟨document, source, environment, es, _, layer, order, order', merged, decoded, _⟩ :=
    loaded.exists_layers
  obtain ⟨base, below, above⟩ := merge_eq_some.mp merged
  have settled : Settled ["retry", "max_attempts"] (.whole n) (.table es) := by
    simp only [document?, found, Option.bind_some, ofDocument, read, Option.map_some,
      Option.some.injEq] at layer
    subst layer
    exact (settled_of_document only attempts order below).overlay
      (fun e he => not_reaches_of_ofEnvironment free e (order'.mem_iff.mpr he)) above
  rcases settled with here | ⟨_, here, ⟨_, rfl⟩ | ⟨_, rfl⟩⟩
  · exact smallCount_whole (decode?_maxAttempts decoded here)
  · cases decode?_maxAttempts decoded here
  · cases decode?_maxAttempts decoded here

/-- A text is loaded as it was given exactly if it is kept, and a number of attempts exactly if it has 32
bits, in whatever order the keys of the document and the variables are laid. -/
theorem loaded_as_given_iff (loaded : Loads files file env laid (.ok s)) :
    (∀ t, GivenByVariable env ["auth_token"] t → (s.authToken = some t ↔ Kept t)) ∧
      (∀ t, GivenByVariable env ["listen_addr"] t → (s.listenAddress = t ↔ Kept t)) ∧
      (∀ t, GivenByVariable env ["admin_addr"] t → (s.adminAddress = t ↔ Kept t)) ∧
      ∀ n, AttemptsGiven files file env n → ((s.retry.maxAttempts : Int) = n ↔ n < 2 ^ 32) := by
  have kept (t : String) : lenientText (variableValue t) = some t ↔ Kept t :=
    ⟨kept_of_lenientText, Kept.lenientText⟩
  refine ⟨fun t given => ?_, fun t given => ?_, fun t given => ?_, fun n given => ?_⟩
  · rw [← authToken_of_variable given loaded, kept]
  · rw [← kept, lenientText_of_variable given loaded decode?_listenAddress, Option.some.injEq]
  · rw [← kept, lenientText_of_variable given loaded decode?_adminAddress, Option.some.injEq]
  · cases given with
    | byVariable given numeral => exact maxAttempts_of_variable given numeral loaded
    | byDocument named found read only attempts free =>
      subst named
      exact maxAttempts_of_document found read only attempts free loaded

/-- A token and a number in variables, and a number in a document. -/
theorem loaded_as_given_ingestToken :
    let env := [("SPANSTAT_AUTH_TOKEN", "s3cret"), ("SPANSTAT_RETRY__MAX_ATTEMPTS", "3")]
    let s : Settings := { authToken := some "s3cret", retry := { maxAttempts := 3 } }
    let files := fun name => if name = "app.toml" then some "\n[retry]\nmax_attempts = 7\n" else none
    let s' : Settings := { retry := { maxAttempts := 7 } }
    load (fun _ => none) none env = .ok s ∧ s.authToken = some "s3cret" ∧
      (s.retry.maxAttempts : Int) = 3 ∧
      load files (some "app") [] = .ok s' ∧ (s'.retry.maxAttempts : Int) = 7 := by
  intro env s files s'
  have loaded : load (fun _ => none) none env = .ok s := by decide +kernel
  have token : GivenByVariable env ["auth_token"] "s3cret" :=
    ⟨"SPANSTAT_AUTH_TOKEN", by decide +kernel, by decide +kernel⟩
  have attempts : GivenByVariable env ["retry", "max_attempts"] "3" :=
    ⟨"SPANSTAT_RETRY__MAX_ATTEMPTS", by decide +kernel, by decide +kernel⟩
  have number : Text.readInt maxInt64 "3".toList = .ok 3 := by decide +kernel
  obtain ⟨tokens, -, -, numbers⟩ := loaded_as_given_iff (loads_of_load loaded)
  have loaded' : load files (some "app") [] = .ok s' := by decide +kernel
  let l : Toml.Layout := ⟨[], [("retry", [("max_attempts", .count 7)])]⟩
  have bare : l.IsBare :=
    ⟨by simp [l], by simpa [l] using
      ⟨isBare_of_mem_names (by decide), isBare_of_mem_names (by decide)⟩⟩
  have read : Toml.read? "\n[retry]\nmax_attempts = 7\n".toList = some l.table :=
    Toml.Layout.read?_write? bare ⟨by decide, by simp [l]⟩ (by decide +kernel)
  have document : AttemptsGiven files (some "app") [] 7 :=
    .byDocument rfl (by decide +kernel) read rfl rfl (by simp)
  obtain ⟨-, -, -, numbers'⟩ := loaded_as_given_iff (loads_of_load loaded')
  exact ⟨loaded, (tokens _ token).mpr (.text (by decide) (by decide +kernel)),
    (numbers 3 (.byVariable attempts (readInt_ok_iff.mp number).1)).mpr (by decide), loaded',
    (numbers' 7 document).mpr (by decide)⟩

/-- A token is written as the number that it is taken for, and a number of attempts loses what lies
above its low 32 bits. -/
theorem loaded_not_as_given :
    (∃ s, load (fun _ => none) none [("SPANSTAT_AUTH_TOKEN", "007")] = .ok s ∧
      s.authToken = some "7") ∧
    ∃ s, load (fun _ => none) none [("SPANSTAT_RETRY__MAX_ATTEMPTS", "4294967297")] = .ok s ∧
      s.retry.maxAttempts = 1 :=
  ⟨⟨{ authToken := some "7" }, by decide +kernel, rfl⟩, ⟨{}, by decide +kernel, rfl⟩⟩

end Settings

end TraceTally
