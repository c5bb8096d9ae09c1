import Mathlib.Data.List.Forall2
import Mathlib.Order.Bounds.Basic
import Mathlib.Order.MinMax
import TraceTally.Client.EventTable
import TraceTally.Proofs.JsonWriting

/-!
# The columns of the event table

The name column is as wide as the longest name has bytes, and five at least. No text has more
characters than bytes, so every name fits, whatever its characters, and is followed by blanks up to
that width. The values end in the same column as long as they fit their field, and the units begin in
the same column.
-/

namespace TraceTally

namespace Text

theorem length_utf8Char (c : Char) : (utf8Char c).length = c.utf8Size := by
  simp only [utf8Char, Char.utf8Size, UInt32.le_iff_toNat_le]
  change _ = if c.toNat ≤ 0x7F then 1 else if c.toNat ≤ 0x7FF then 2
    else if c.toNat ≤ 0xFFFF then 3 else 4
  split
  · rw [if_pos (by omega), List.length_singleton]
  split
  · rw [if_neg (by omega), if_pos (by omega)]
    rfl
  split
  · rw [if_neg (by omega), if_neg (by omega), if_pos (by omega)]
    rfl
  · rw [if_neg (by omega), if_neg (by omega), if_neg (by omega)]
    rfl

/-- The bytes of a text are those of its UTF-8. -/
theorem byteLength_toList (s : String) : byteLength s.toList = s.utf8ByteSize := by
  have each (cs : List Char) : byteLength cs = (String.ofList cs).utf8ByteSize := by
    induction cs with
    | nil => rfl
    | cons c cs ih =>
      rw [String.ofList_cons, String.utf8ByteSize_append, String.utf8ByteSize_singleton, ← ih,
        ← length_utf8Char]
      exact List.length_append
  rw [each, String.ofList_toList]

theorem length_le_byteLength (cs : List Char) : cs.length ≤ byteLength cs := by
  induction cs with
  | nil => exact Nat.le_refl 0
  | cons c cs ih =>
    have first : 1 ≤ (utf8Char c).length := length_utf8Char c ▸ c.utf8Size_pos
    have whole : byteLength (c :: cs) = (utf8Char c).length + byteLength cs := List.length_append
    rw [List.length_cons, whole]
    omega

/-- A text whose lines end with a line feed is split into them, with nothing behind the last. -/
theorem splitOn_lines {c : Char} {lines : List (List Char)} (plain : ∀ line ∈ lines, c ∉ line) :
    splitOn c (lines.flatMap fun line => line ++ [c]) = lines ++ [[]] := by
  induction lines with
  | nil => rfl
  | cons line lines ih =>
    obtain ⟨first, others⟩ := List.forall_mem_cons.mp plain
    have ordinary : ∀ d ∈ line, d ≠ c := fun d hd same => first (same ▸ hd)
    rw [List.flatMap_cons, List.append_assoc, List.singleton_append, splitOn_append ordinary,
      ih others, List.cons_append]

end Text

namespace EventTable

open Text (byteLength padEnd padStart)

theorem isGreatest_foldl_max {α : Type} (f : α → Nat) (as : List α) (least : Nat) :
    IsGreatest (insert least {n | ∃ a ∈ as, f a = n}) (as.foldl (fun m a => max m (f a)) least) := by
  induction as generalizing least with
  | nil => simp [IsGreatest]
  | cons a as ih =>
    obtain ⟨mem, bound⟩ := ih (max least (f a))
    rw [List.foldl_cons]
    refine ⟨?_, ?_⟩
    · rcases mem with start | ⟨b, hb, same⟩
      · rw [start]
        rcases max_choice least (f a) with left | right
        · exact .inl left
        · exact .inr ⟨a, List.mem_cons_self, right.symm⟩
      · exact .inr ⟨b, List.mem_cons_of_mem a hb, same⟩
    · have start : max least (f a) ≤ as.foldl (fun m a => max m (f a)) (max least (f a)) :=
        bound (.inl rfl)
      rintro n (rfl | ⟨b, hb, rfl⟩)
      · exact le_trans (le_max_left n (f a)) start
      · rcases List.mem_cons.mp hb with rfl | hb
        · exact le_trans (le_max_right least (f b)) start
        · exact bound (.inr ⟨b, hb, rfl⟩)

theorem isGreatest_nameWidth (events : List (Event Binary64)) :
    IsGreatest (insert 5 {n | ∃ e ∈ events, e.name.utf8ByteSize = n}) (nameWidth events) := by
  simp only [← Text.byteLength_toList]
  exact isGreatest_foldl_max (fun e : Event Binary64 => byteLength e.name.toList) events 5

/-- A line of a table whose name column is `width` wide. Names are never cut, and blanks fill the column.
A value of at most fourteen characters ends at `width + 16`, two blanks before the unit; a longer one
is written whole. -/
structure Aligned (width : Nat) (name value unit line : List Char) : Prop where
  name_fits : name.length ≤ width
  name_column : line.take width = name ++ List.replicate (width - name.length) ' '
  value_column : value.length ≤ 14 →
    (line.drop width).take 16 = List.replicate (16 - value.length) ' ' ++ value
  unit_column : value.length ≤ 14 → line.drop (width + 16) = ' ' :: ' ' :: unit
  long_value : 14 ≤ value.length → line.drop width = ' ' :: ' ' :: value ++ ' ' :: ' ' :: unit

theorem length_padEnd {width : Nat} {cs : List Char} (fits : cs.length ≤ width) :
    (padEnd width cs).length = width := by
  rw [padEnd, List.length_append, List.length_replicate]
  omega

theorem length_padStart {width : Nat} {cs : List Char} (fits : cs.length ≤ width) :
    (padStart width cs).length = width := by
  rw [padStart, List.length_append, List.length_replicate]
  omega

theorem aligned_row {width : Nat} {name : List Char} (fits : name.length ≤ width)
    (value unit : List Char) : Aligned width name value unit (row width name value unit) := by
  have names := length_padEnd fits
  have shape : row width name value unit =
      padEnd width name ++ ([' ', ' '] ++ padStart 14 value ++ ' ' :: ' ' :: unit) := by
    simp [row, valueWidth]
  have behind : (row width name value unit).drop width =
      [' ', ' '] ++ padStart 14 value ++ ' ' :: ' ' :: unit := by
    rw [shape, List.drop_left' names]
  have field (short : value.length ≤ 14) : ([' ', ' '] ++ padStart 14 value).length = 16 := by
    rw [List.length_append, length_padStart short]
    rfl
  refine ⟨fits, ?_, fun short => ?_, fun short => ?_, fun long => ?_⟩
  · rw [shape, List.take_left' names, padEnd]
  · have blanks : 2 + (14 - value.length) = 16 - value.length := by omega
    rw [behind, List.take_left' (field short), padStart, ← List.append_assoc, ← blanks,
      ← List.replicate_append_replicate]
    rfl
  · rw [← List.drop_drop, behind, List.drop_left' (field short)]
  · have none : 14 - value.length = 0 := by omega
    rw [behind, padStart, none]
    rfl

theorem name_fits_nameWidth {events : List (Event Binary64)} {e : Event Binary64} (mem : e ∈ events) :
    e.name.toList.length ≤ nameWidth events := by
  have bytes := (isGreatest_nameWidth events).2 (.inr ⟨e, mem, rfl⟩)
  exact le_trans (Text.byteLength_toList e.name ▸ Text.length_le_byteLength e.name.toList) bytes

theorem forall_finite_plain (d : Binary64.Decimal) :
    ∀ c ∈ Binary64.Layout.plain.finite d, Text.IsDigit c ∨ c = '.' := by
  generalize exponent : (if d.significand = 0 then 0
    else d.exponent + (Text.digits d.significand).length - 1 : Int) = p
  have zero : d.significand = 0 → p = 0 := fun none => by rw [← exponent, if_pos none]
  obtain ⟨⟨-, whole⟩, -, fraction⟩ := Json.placePoint_parts zero rfl
  have text : Binary64.Layout.plain.finite d =
      (Binary64.placePoint p (Text.digits d.significand)).1 ++
        if (Binary64.placePoint p (Text.digits d.significand)).2.isEmpty then []
        else '.' :: (Binary64.placePoint p (Text.digits d.significand)).2 := exponent ▸ rfl
  rw [text]
  refine List.forall_mem_append.mpr ⟨fun c hc => .inl (whole c hc), ?_⟩
  split
  · exact nofun
  · exact List.forall_mem_cons.mpr ⟨.inr rfl, fun c hc => .inl (fraction c hc)⟩

theorem not_mem_plain (x : Binary64) : '\n' ∉ (Binary64.plain x).toList := by
  have finite : '\n' ∉ Binary64.Layout.plain.finite x.shortest := fun mem =>
    (forall_finite_plain _ _ mem).elim (fun digit => digit.ne (by decide) rfl) (by decide)
  have infinite : '\n' ∉ Binary64.Layout.plain.infinite.toList := by decide
  rw [Binary64.plain, String.toList_ofList, Binary64.Layout.write]
  split
  · decide
  · refine fun mem => (List.mem_append.mp mem).elim (fun sign => ?_) fun body => ?_
    · split at sign <;> simp at sign
    · split at body
      · exact infinite body
      · exact finite body

theorem not_mem_row {width : Nat} {name value unit : List Char} (inName : '\n' ∉ name)
    (inValue : '\n' ∉ value) (inUnit : '\n' ∉ unit) : '\n' ∉ row width name value unit := by
  simp [row, padEnd, padStart, inName, inValue, inUnit]

/-- The table has a line for the heading and one for each event in their order, and in all of them the
columns are the same: the width of the first is the largest number of bytes of a name, five at least.
If no name and no unit has a line feed, these are the lines of the text. -/
theorem lines_aligned (events : List (Event Binary64)) :
    ∃ width heading rows,
      IsGreatest (insert 5 {n | ∃ e ∈ events, e.name.utf8ByteSize = n}) width ∧
      (write events).toList = (heading :: rows).flatMap (fun line => line ++ ['\n']) ∧
      Aligned width "EVENT".toList "VALUE".toList "UNIT".toList heading ∧
      List.Forall₂ (fun (e : Event Binary64) line =>
        Aligned width e.name.toList (Binary64.plain e.value).toList e.unit.toList line) events rows ∧
      ((∀ e ∈ events, '\n' ∉ e.name.toList ∧ '\n' ∉ e.unit.toList) →
        Text.splitOn '\n' (write events).toList = heading :: rows ++ [[]]) := by
  have heading : nameHeading.length ≤ nameWidth events := (isGreatest_nameWidth events).2 (.inl rfl)
  have text : (write events).toList = (lines events).flatMap fun line => line ++ ['\n'] := by
    rw [write, String.toList_ofList]
  refine ⟨nameWidth events, _, _, isGreatest_nameWidth events, text, aligned_row heading _ _, ?_, ?_⟩
  · rw [List.forall₂_map_right_iff, List.forall₂_same]
    intro e mem
    rw [Binary64.plain, String.toList_ofList]
    exact aligned_row (name_fits_nameWidth mem) _ _
  · intro plain
    rw [text]
    refine Text.splitOn_lines (List.forall_mem_cons.mpr ⟨not_mem_row ?_ ?_ ?_, ?_⟩)
    · decide
    · decide
    · decide
    · intro line mem
      obtain ⟨e, he, rfl⟩ := List.mem_map.mp mem
      have inValue := not_mem_plain e.value
      rw [Binary64.plain, String.toList_ofList] at inValue
      exact not_mem_row (plain e he).1 inValue (plain e he).2

/-- Six characters of eight bytes: the column is eight wide, and the value and the unit stand behind it
as they do in the heading. -/
theorem lines_aligned_umlaut :
    let event : Event Binary64 := ⟨"größte", ⟨0x4029000000000000⟩, "ms"⟩
    ('\n' ∉ event.name.toList ∧ '\n' ∉ event.unit.toList) ∧
      (Binary64.plain event.value).toList.length ≤ 14 ∧
      ∃ heading line, Text.splitOn '\n' (write [event]).toList = [heading, line, []] ∧
        heading.take 24 = "EVENT              VALUE".toList ∧
        line.take 8 = "größte  ".toList ∧ (line.drop 8).take 16 = "            12.5".toList ∧
        line.drop 24 = "  ms".toList := by
  intro event
  have plain : '\n' ∉ event.name.toList ∧ '\n' ∉ event.unit.toList := by decide +kernel
  have short : (Binary64.plain event.value).toList.length ≤ 14 := by decide +kernel
  obtain ⟨width, heading, rows, greatest, -, first, others, split⟩ := lines_aligned [event]
  have bytes : event.name.utf8ByteSize = 8 := by decide +kernel
  have wide : width = 8 := by
    refine greatest.unique ⟨.inr ⟨event, List.mem_singleton.mpr rfl, bytes⟩, ?_⟩
    rintro n (rfl | ⟨e, he, rfl⟩)
    · decide
    · rw [List.mem_singleton.mp he, bytes]
  subst wide
  obtain ⟨line, _, aligned, none, rfl⟩ := List.forall₂_cons_left_iff.mp others
  cases none
  refine ⟨plain, short, heading, line, split (by simpa using plain), ?_, ?_, ?_, ?_⟩
  · rw [show 24 = 8 + 16 from rfl, List.take_add, first.name_column, first.value_column (by decide)]
    decide +kernel
  · rw [aligned.name_column]
    decide +kernel
  · rw [aligned.value_column short]
    decide +kernel
  · rw [aligned.unit_column short]
    decide +kernel

end EventTable

end TraceTally
