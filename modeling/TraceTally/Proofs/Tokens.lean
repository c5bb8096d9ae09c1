import Mathlib.Data.List.Basic
import TraceTally.Client.Run
import TraceTally.Proofs.TextOrder

/-!
# Which tokens a client can use

A client may send whatever a header can be made of, and beyond ASCII that is every character; the
server reads a header only if it is ASCII. A token that both sides know is therefore accepted exactly
if it is ASCII, and no other token ever is.
-/

namespace TraceTally.Text

def IsAscii (cs : List Char) : Prop := ∀ c ∈ cs, c.toNat < 128

instance (cs : List Char) : Decidable (IsAscii cs) :=
  List.decidableBAll (fun c : Char => c.toNat < 128) cs

theorem utf8Char_lt_iff {c : Char} : (∀ b ∈ utf8Char c, b.toNat < 128) ↔ c.toNat < 128 := by
  have first : ∀ m, m < 256 → (UInt8.ofNat m).toNat = m := fun m => UInt8.toNat_ofNat_of_lt'
  by_cases ascii : c.toNat < 128
  · have one : utf8Char c = [UInt8.ofNat c.toNat] := by simp only [utf8Char, if_pos ascii]
    rw [one, List.forall_mem_singleton, first _ (by omega)]
  · -- A longer form begins with a byte past 191.
    have bound := toNat_lt c
    have long : ∃ b rest, utf8Char c = b :: rest ∧ 128 ≤ b.toNat := by
      simp only [utf8Char, if_neg ascii]
      split
      · exact ⟨_, _, rfl, by rw [first _ (by omega)]; omega⟩
      split
      · exact ⟨_, _, rfl, by rw [first _ (by omega)]; omega⟩
      · exact ⟨_, _, rfl, by rw [first _ (by omega)]; omega⟩
    obtain ⟨b, rest, same, high⟩ := long
    refine iff_of_false (fun low => ?_) ascii
    have := low b (same ▸ List.mem_cons_self)
    omega

theorem utf8_lt_iff {cs : List Char} : (∀ b ∈ utf8 cs, b.toNat < 128) ↔ IsAscii cs := by
  simp only [utf8, List.mem_flatMap, forall_exists_index, and_imp, IsAscii, ← utf8Char_lt_iff]
  exact ⟨fun low c hc b hb => low b c hc hb, fun low b c hc hb => low c hc b hb⟩

end TraceTally.Text

namespace TraceTally.Bearer

open Text (IsAscii)

variable {token expected : String} {header : Text.Bytes}

theorem isTextByte_iff {b : UInt8} (writable : isHeaderByte b = true) :
    isTextByte b = true ↔ b.toNat < 128 := by
  have tab : (9 : UInt8).toNat = 9 := rfl
  have blank : (32 : UInt8).toNat = 32 := rfl
  have del : (127 : UInt8).toNat = 127 := rfl
  simp only [isHeaderByte, isTextByte, Bool.or_eq_true, Bool.and_eq_true, decide_eq_true_eq,
    ne_eq, ← UInt8.toNat_inj, UInt8.le_iff_toNat_le, UInt8.lt_iff_toNat_lt, tab, blank, del]
    at writable ⊢
  omega

/-- A header that was made for a token gives the token back if it is ASCII, and nothing otherwise. -/
theorem token?_of_header? (made : header? token = some header) :
    (IsAscii token.toList → token? header = some (Text.utf8 token.toList)) ∧
      (¬ IsAscii token.toList → token? header = none) := by
  unfold header? at made
  dsimp only at made
  split at made
  · rename_i writable
    obtain rfl := Option.some.inj made
    rw [List.all_eq_true] at writable
    have readable : (scheme ++ Text.utf8 token.toList).all isTextByte = true ↔
        IsAscii token.toList := by
      rw [List.all_eq_true, ← Text.utf8_lt_iff]
      constructor
      · intro all b hb
        have inHeader := List.mem_append_right scheme hb
        exact (isTextByte_iff (writable b inHeader)).mp (all b inHeader)
      · intro low b hb
        rcases List.mem_append.mp hb with inScheme | inToken
        · exact List.all_eq_true.mp (by decide : scheme.all isTextByte = true) b inScheme
        · exact (isTextByte_iff (writable b hb)).mpr (low b inToken)
    have starts : scheme.isPrefixOf (scheme ++ Text.utf8 token.toList) = true :=
      List.isPrefixOf_iff_prefix.mpr (List.prefix_append _ _)
    unfold token?
    constructor
    · intro ascii
      rw [readable.mpr ascii, starts, Bool.and_self, if_pos rfl, List.drop_left]
    · intro other
      rw [Bool.eq_false_iff.mpr (mt readable.mp other), Bool.false_and, if_neg Bool.false_ne_true]
  · cases made

theorem check_of_header? (made : header? token = some header) :
    (IsAscii token.toList →
      check expected (some header) = if token = expected then .accepted else .wrongToken) ∧
      (¬ IsAscii token.toList → check expected (some header) = .malformedHeader) := by
  obtain ⟨readable, unreadable⟩ := token?_of_header? made
  constructor
  · intro ascii
    have same : Text.utf8 token.toList = Text.utf8 expected.toList ↔ token = expected :=
      Text.utf8_injective.eq_iff.trans String.toList_inj
    simp only [check, readable ascii, same]
  · intro other
    simp only [check, unreadable other]

end TraceTally.Bearer

namespace TraceTally.Client

theorem header?_of_header {c : Connection} {token : String} {h : Option Text.Bytes}
    (known : c.token = some token) (made : header c = .ok h) :
    ∃ bytes, h = some bytes ∧ Bearer.header? token = some bytes := by
  unfold header at made
  rw [known] at made
  cases written : Bearer.header? token with
  | none => simp only [written, reduceCtorEq] at made
  | some bytes =>
    simp only [written, Except.ok.injEq] at made
    exact ⟨bytes, made.symm, rfl⟩

/-- A call that a client could make with its token passes a server that expects a token if and only if
it is the same token and ASCII. A token beyond ASCII is malformed to every server. -/
theorem accepted_iff_same_and_ascii {c : Connection} {token expected : String}
    {h : Option Text.Bytes} (known : c.token = some token) (made : header c = .ok h) :
    ((Bearer.intercept (some expected) h).1 = .ok () ↔
      token = expected ∧ Text.IsAscii token.toList) ∧
    (Text.IsAscii token.toList → token ≠ expected → Bearer.intercept (some expected) h =
      (.error ⟨.unauthenticated, "Invalid token"⟩, [.authChecked .wrongToken])) ∧
    (¬ Text.IsAscii token.toList → Bearer.intercept (some expected) h =
      (.error ⟨.unauthenticated, "Expected 'Bearer <token>'"⟩, [.authChecked .malformedHeader])) := by
  obtain ⟨bytes, rfl, written⟩ := header?_of_header known made
  obtain ⟨readable, unreadable⟩ := @Bearer.check_of_header? token expected bytes written
  refine ⟨?_, fun ascii other => ?_, fun other => ?_⟩
  · by_cases ascii : Text.IsAscii token.toList
    · by_cases same : token = expected <;>
        simp [Bearer.intercept, readable ascii, same, Bearer.refusal?]
      exact same ▸ ascii
    · simp [Bearer.intercept, unreadable ascii, ascii, Bearer.refusal?]
  · simp [Bearer.intercept, readable ascii, other, Bearer.refusal?]
  · simp [Bearer.intercept, unreadable other, Bearer.refusal?]

theorem accepted_iff_same_and_ascii_ingestKey :
    let c : Connection := ⟨defaultEndpoint, some "ingest-key"⟩
    ∃ h, header c = .ok h ∧ (Bearer.intercept (some "ingest-key") h).1 = .ok () := by
  intro c
  have made : header c = .ok (Bearer.header? "ingest-key") := by decide +kernel
  have ascii : Text.IsAscii "ingest-key".toList := by decide
  exact ⟨_, made, (accepted_iff_same_and_ascii rfl made).1.mpr ⟨rfl, ascii⟩⟩

/-- One letter with an accent: the client sends the token that the server expects, and is refused. -/
theorem same_token_refused :
    let c : Connection := ⟨defaultEndpoint, some "é"⟩
    ∃ h, header c = .ok h ∧ (Bearer.intercept (some "é") h).1 =
      .error ⟨.unauthenticated, "Expected 'Bearer <token>'"⟩ :=
  ⟨Bearer.header? "é", by decide +kernel⟩

end TraceTally.Client
