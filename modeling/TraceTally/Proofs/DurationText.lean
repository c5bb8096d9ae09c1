import Mathlib.Data.List.Basic
import TraceTally.Duration
import TraceTally.Proofs.Numerals

/-!
# The text of a duration, read back

A number with a unit behind it is read as so many of the unit. A duration that is written therefore
comes back without what it has below a millisecond, unless the number in its text is too large.
-/

namespace TraceTally

namespace Text

theorem trim_of_no_blank {cs : List Char} (plain : ∀ c ∈ cs, ¬ isBlank c) : trim cs = cs := by
  have start {ds : List Char} (plain : ∀ c ∈ ds, ¬ isBlank c) : ds.dropWhile isBlank = ds := by
    cases ds with
    | nil => rfl
    | cons c ds => rw [List.dropWhile_cons_of_neg (plain c List.mem_cons_self)]
  rw [trim, trimStart, start plain, trimEnd, start, List.reverse_reverse]
  exact fun c hc => plain c (List.mem_reverse.mp hc)

theorem IsDigit.not_blank {c : Char} (digit : IsDigit c) : ¬ isBlank c := by
  have apart : ∀ n ∈ whiteSpace, digitValue? (Char.ofNat n) = none := by decide
  intro blank
  rw [isBlank, List.contains_iff_mem] at blank
  exact digit.ne (apart _ blank) (Char.ofNat_toNat c).symm

end Text

namespace Duration

open Text (digits readNat maxNat64)

variable {d : Duration}

/-- The unit is found where no `m` stands before it: `s` is not taken for the end of `ms`. -/
theorem Scale.find?_append (u : Scale) {front : List Char} {c : Char} (other : c ≠ 'm') :
    Scale.find? (front ++ [c] ++ u.suffix) = some (u, front ++ [c]) := by
  cases u <;>
    simp [Scale.find?, Scale.all, Scale.suffix, Text.dropSuffix?, List.isSuffixOf, List.findSome?,
      List.take_append, List.take_of_length_le, other.symm]

theorem Scale.find?_digits (u : Scale) (n : Nat) :
    Scale.find? (digits n ++ u.suffix) = some (u, digits n) := by
  obtain ⟨front, c, shape⟩ := (List.eq_nil_or_concat' _).resolve_left (Text.digits_ne_nil n)
  have digit : Text.IsDigit c := Text.isDigit_of_mem_digits n c (by simp [shape])
  rw [shape]
  exact u.find?_append (digit.ne (by decide))

theorem read_digits (u : Scale) (n : Nat) :
    read (digits n ++ u.suffix) =
      if n ≤ maxNat64 then .ok (u.times n) else .error .tooLarge := by
  have plain : ∀ c ∈ digits n, ¬ Text.isBlank c := fun c hc =>
    (Text.isDigit_of_mem_digits n c hc).not_blank
  have unit : u.suffix.any Text.isBlank = false := by cases u <;> decide
  have whole : ∀ c ∈ digits n ++ u.suffix, ¬ Text.isBlank c :=
    List.forall_mem_append.mpr ⟨plain, List.any_eq_false.mp unit⟩
  rw [read, Text.trim_of_no_blank whole, Scale.find?_digits]
  dsimp only
  rw [Text.trim_of_no_blank plain, Text.readNat_digits]
  split <;> rfl

theorem ofString?_toText (d : Duration) :
    ofString? d.toText =
      if d.millis % 1000 = 0 then
        if d.seconds ≤ maxNat64 then .ok (ofSeconds d.seconds) else .error .tooLarge
      else if d.millis ≤ maxNat64 then .ok (ofMillis d.millis) else .error .tooLarge := by
  rw [ofString?, toText, String.toList_ofList, write]
  split
  · exact read_digits .second d.seconds
  · exact read_digits .millisecond d.millis

/-- Whole seconds or whole milliseconds, with 64 bits for their number: what a text can say. -/
inductive Sayable : Duration → Prop
  | seconds {n : Nat} (fits : n ≤ maxNat64) : Sayable (ofSeconds n)
  | millis {n : Nat} (fits : n ≤ maxNat64) : Sayable (ofMillis n)

theorem Scale.sayable_times (u : Scale) {n : Nat} (fits : n ≤ maxNat64) : (u.times n).Sayable := by
  have wrapped (n : Nat) : n % 2 ^ 64 ≤ maxNat64 := Nat.le_pred_of_lt (Nat.mod_lt n (by decide))
  cases u with
  | millisecond => exact .millis fits
  | second => exact .seconds fits
  | minute | hour | day => exact .seconds (wrapped _)

theorem sayable_of_ofString? {s : String} (read : ofString? s = .ok d) : d.Sayable := by
  unfold ofString? Duration.read at read
  dsimp only at read
  split at read
  · obtain ⟨n, fits, rfl⟩ := Text.le_of_map_readNat read
    exact Scale.sayable_times _ fits
  · obtain ⟨n, fits, rfl⟩ := Text.le_of_map_readNat read
    exact .seconds fits

theorem ofMillis_thousand (n : Nat) : ofMillis (1000 * n) = ofSeconds n := by
  simp only [ofMillis, ofSeconds, mk.injEq]
  omega

theorem Sayable.ofString?_toText (sayable : d.Sayable) : ofString? d.toText = .ok d := by
  rw [Duration.ofString?_toText]
  cases sayable with
  | seconds fits =>
    rw [seconds_ofSeconds, if_pos fits, if_pos]
    simp [ofSeconds, Duration.millis]
    omega
  | millis fits =>
    rw [millis_ofMillis, if_pos fits]
    split
    · rename_i n whole
      obtain ⟨m, rfl⟩ := Nat.dvd_of_mod_eq_zero whole
      rw [ofMillis_thousand, seconds_ofSeconds, if_pos (by omega)]
    · rfl

theorem exists_ofMillis_eq_ofSeconds_iff {n : Nat} :
    (∃ m, ofMillis n = ofSeconds m) ↔ n % 1000 = 0 := by
  constructor
  · rintro ⟨m, same⟩
    have same : n * 10 ^ 6 = m * 10 ^ 9 := congrArg nanos same
    omega
  · intro whole
    obtain ⟨m, rfl⟩ := Nat.dvd_of_mod_eq_zero whole
    exact ⟨m, ofMillis_thousand m⟩

theorem seconds_eq (d : Duration) : d.seconds = d.millis / 1000 := by
  simp only [seconds, millis, Nat.div_div_eq_div_mul]

/-- What is written of a duration is the duration cut to whole milliseconds. With seconds of 64 bits
it comes back so if what is left are whole seconds or its milliseconds have 64 bits; otherwise the
number is too large to be read. A duration that came from a text comes back as it is. -/
theorem cut_reads_back :
    (∀ d : Duration, d.seconds < 2 ^ 64 →
      let cut := ofMillis d.millis
      ((∃ n, cut = ofSeconds n) ∨ cut.millis < 2 ^ 64 → ofString? d.toText = .ok cut) ∧
      ((∀ n, cut ≠ ofSeconds n) → 2 ^ 64 ≤ cut.millis →
        ofString? d.toText = .error .tooLarge)) ∧
    ∀ (s : String) (d : Duration), ofString? s = .ok d → ofString? d.toText = .ok d := by
  refine ⟨?_, fun s d read => (sayable_of_ofString? read).ofString?_toText⟩
  intro d bound cut
  have fits : d.seconds ≤ maxNat64 := Nat.le_pred_of_lt bound
  rw [millis_ofMillis, ofString?_toText, exists_ofMillis_eq_ofSeconds_iff]
  by_cases whole : d.millis % 1000 = 0
  · have same : ofSeconds d.seconds = cut := by
      rw [seconds_eq, ← ofMillis_thousand, Nat.mul_div_cancel' (Nat.dvd_of_mod_eq_zero whole)]
    rw [if_pos whole, if_pos fits, same]
    refine ⟨fun _ => rfl, fun parts => ?_⟩
    obtain ⟨n, same⟩ := exists_ofMillis_eq_ofSeconds_iff.mpr whole
    exact absurd same (parts n)
  · rw [if_neg whole]
    constructor
    · intro small
      exact if_pos (Nat.le_pred_of_lt (small.resolve_left whole))
    · intro _ large
      exact if_neg (Nat.not_le_of_lt large)

/-- The longest duration of all: cut to milliseconds it has no whole seconds, and too many
milliseconds. Ninety minutes are read from a text. -/
theorem cut_reads_back_longest :
    let longest : Duration := ⟨(2 ^ 64 - 1) * 10 ^ 9 + 999999999⟩
    longest.seconds < 2 ^ 64 ∧ ofString? longest.toText = .error .tooLarge ∧
      ofString? " 90 m " = .ok (ofSeconds 5400) ∧
      ofString? (ofSeconds 5400).toText = .ok (ofSeconds 5400) := by
  intro longest
  have read : ofString? " 90 m " = .ok (ofSeconds 5400) := by decide +kernel
  have bound : longest.seconds < 2 ^ 64 := by decide
  have uneven : ∀ n, ofMillis longest.millis ≠ ofSeconds n := fun n same =>
    absurd (exists_ofMillis_eq_ofSeconds_iff.mp ⟨n, same⟩) (by decide)
  exact ⟨bound, (cut_reads_back.1 longest bound).2 uneven (by decide), read,
    cut_reads_back.2 _ _ read⟩

end Duration

end TraceTally
