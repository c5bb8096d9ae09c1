import Mathlib.Logic.Function.Defs
import TraceTally.Totals

/-!
# The order of texts

Reading undoes writing in UTF-8, so that different texts have different bytes. The order by bytes is
therefore a total order of the texts, and events are ordered by name and unit.
-/

namespace TraceTally.Text

theorem continuation?_ofNat (m : Nat) :
    continuation? (UInt8.ofNat (0x80 + m % 64)) = some (m % 64) := by
  have value : (UInt8.ofNat (0x80 + m % 64)).toNat = 0x80 + m % 64 :=
    UInt8.toNat_ofNat_of_lt' (by change _ < 256; omega)
  have range : (0x80 ≤ 0x80 + m % 64 && 0x80 + m % 64 < 0xC0) = true := by
    simp only [Bool.and_eq_true, decide_eq_true_eq]
    omega
  rw [continuation?, value, if_pos range, Nat.add_sub_cancel_left]

theorem scalar?_toNat {least : Nat} {c : Char} (h : least ≤ c.toNat) :
    scalar? least c.toNat = some c := by
  rw [scalar?, dif_pos ⟨h, c.valid⟩]
  rfl

theorem toNat_lt (c : Char) : c.toNat < 0x110000 := by
  have valid := c.valid
  simp only [UInt32.isValidChar, Nat.isValidChar] at valid
  have : c.toNat = c.val.toNat := rfl
  omega

/-- The first byte says how many follow, and together they give the code point back. -/
theorem ofUtf8?_utf8Char (c : Char) (rest : Bytes) :
    ofUtf8? (utf8Char c ++ rest) = (ofUtf8? rest).map (c :: ·) := by
  have bound := toNat_lt c
  have first : ∀ m, m < 256 → (UInt8.ofNat m).toNat = m := fun m => UInt8.toNat_ofNat_of_lt'
  simp only [utf8Char]
  split
  · rename_i one
    rw [List.singleton_append, ofUtf8?.eq_def]
    simp only [first c.toNat (by omega), one, if_true, Char.ofNat_toNat]
  split
  · rename_i two
    have back : (0xC0 + c.toNat / 2 ^ 6 - 0xC0) * 2 ^ 6 + c.toNat / 2 ^ 0 % 64 = c.toNat := by
      omega
    rw [List.cons_append, List.singleton_append, ofUtf8?, first _ (by omega), if_neg (by omega),
      if_neg (by omega), if_pos (by omega)]
    rw [continuation?_ofNat, Option.bind_eq_bind, Option.bind_some, back,
      scalar?_toNat (by omega)]
    rfl
  split
  · rename_i three
    have back : (0xE0 + c.toNat / 2 ^ 12 - 0xE0) * 2 ^ 12 + c.toNat / 2 ^ 6 % 64 * 2 ^ 6 +
        c.toNat / 2 ^ 0 % 64 = c.toNat := by
      omega
    rw [List.cons_append, List.cons_append, List.singleton_append, ofUtf8?, first _ (by omega),
      if_neg (by omega), if_neg (by omega), if_neg (by omega), if_pos (by omega)]
    dsimp only
    rw [continuation?_ofNat, continuation?_ofNat, Option.bind_eq_bind,
      Option.bind_some, Option.bind_some, back, scalar?_toNat (by omega)]
    rfl
  · have back : (0xF0 + c.toNat / 2 ^ 18 - 0xF0) * 2 ^ 18 + c.toNat / 2 ^ 12 % 64 * 2 ^ 12 +
        c.toNat / 2 ^ 6 % 64 * 2 ^ 6 + c.toNat / 2 ^ 0 % 64 = c.toNat := by
      omega
    rw [List.cons_append, List.cons_append, List.cons_append, List.singleton_append, ofUtf8?,
      first _ (by omega), if_neg (by omega), if_neg (by omega), if_neg (by omega),
      if_neg (by omega), if_pos (by omega)]
    dsimp only
    rw [continuation?_ofNat, continuation?_ofNat, continuation?_ofNat, Option.bind_eq_bind,
      Option.bind_some, Option.bind_some, Option.bind_some, back, scalar?_toNat (by omega)]
    rfl

theorem ofUtf8?_utf8 (cs : List Char) : ofUtf8? (utf8 cs) = some cs := by
  induction cs with
  | nil => rfl
  | cons c cs ih =>
    change ofUtf8? (utf8Char c ++ utf8 cs) = _
    rw [ofUtf8?_utf8Char, ih]
    rfl

theorem utf8_injective : Function.Injective utf8 := by
  intro cs cs' same
  apply Option.some.inj
  rw [← ofUtf8?_utf8 cs, ← ofUtf8?_utf8 cs', same]

theorem byteCompare_eq (a b : Bytes) : byteCompare a b = a.compareLex compare b := by
  induction a generalizing b with
  | nil => cases b <;> rfl
  | cons x a ih =>
    cases b with
    | nil => rfl
    | cons y b =>
      rw [byteCompare, ih, List.compareLex_cons_cons]

theorem compareUtf8_eq (s t : String) :
    compareUtf8 s t = (utf8 s.toList).compareLex compare (utf8 t.toList) :=
  byteCompare_eq _ _

instance : Std.TransCmp compareUtf8 where
  eq_swap {s t} := by
    rw [compareUtf8_eq, compareUtf8_eq]
    exact Std.OrientedCmp.eq_swap
  isLE_trans {s t u} st tu := by
    rw [compareUtf8_eq] at st tu ⊢
    exact Std.TransCmp.isLE_trans st tu

instance : Std.LawfulEqCmp compareUtf8 where
  compare_self {s} := by
    rw [compareUtf8_eq]
    exact Std.ReflCmp.compare_self
  eq_of_compare {s t} same := by
    rw [compareUtf8_eq] at same
    exact String.toList_injective (utf8_injective (Std.LawfulEqCmp.eq_of_compare same))

end TraceTally.Text

namespace TraceTally

variable {V : Type}

instance : Std.TransCmp fun a b : Event V => Text.compareUtf8 a.name b.name where
  eq_swap := Std.OrientedCmp.eq_swap
  isLE_trans := Std.TransCmp.isLE_trans

instance : Std.TransCmp fun a b : Event V => Text.compareUtf8 a.unit b.unit where
  eq_swap := Std.OrientedCmp.eq_swap
  isLE_trans := Std.TransCmp.isLE_trans

instance : Std.TransCmp (Event.compare (V := V)) :=
  inferInstanceAs (Std.TransCmp (compareLex (fun a b : Event V => Text.compareUtf8 a.name b.name)
    fun a b => Text.compareUtf8 a.unit b.unit))

theorem Event.compare_self (a : Event V) : a.compare a = .eq := Std.ReflCmp.compare_self

theorem Event.compare_swap (a b : Event V) : a.compare b = (b.compare a).swap :=
  Std.OrientedCmp.eq_swap

theorem Event.eq_of_compare {a b : Event V} (same : a.compare b = .eq) :
    a.name = b.name ∧ a.unit = b.unit := by
  obtain ⟨name, unit⟩ := Ordering.then_eq_eq.mp same
  exact ⟨Std.LawfulEqCmp.eq_of_compare name, Std.LawfulEqCmp.eq_of_compare unit⟩

end TraceTally
