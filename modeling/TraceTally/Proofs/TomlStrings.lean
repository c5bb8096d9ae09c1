import Mathlib.Data.List.Basic
import Mathlib.Tactic.SplitIfs
import TraceTally.Proofs.TextOrder
import TraceTally.Toml.Text

/-!
# TOML strings, read back

Every string is read back from what is written for it, in each of the four notations. The notations on
one line need no more than that what follows is no quote. On several lines the reader does not know
whether a quote begins the closing three, so its lemmas are about the quotes that stand right before.
-/

namespace TraceTally.Toml

theorem hexValue?_upperHex {n : Nat} (h : n < 16) : Text.hexValue? (upperHex n) = some n := by
  have all : ∀ n < 16, Text.hexValue? (upperHex n) = some n := by decide
  exact all n h

theorem codePoint?_control {c : Char} (small : c.toNat < 256) (rest : List Char) :
    codePoint? 4 ('0' :: '0' :: upperHex (c.toNat / 16) :: upperHex (c.toNat % 16) :: rest) =
      some (c, rest) := by
  have high := hexValue?_upperHex (n := c.toNat / 16) (by omega)
  have low := hexValue?_upperHex (n := c.toNat % 16) (by omega)
  have zero : Text.hexValue? '0' = some 0 := rfl
  have back : 16 * (c.toNat / 16) + c.toNat % 16 = c.toNat := by omega
  simp [codePoint?, high, low, zero, back, Text.scalar?_toNat]

theorem lt_of_not_plain {c : Char} (special : ¬ isPlain c) : c.toNat < 256 := by
  simp only [isPlain, Bool.or_eq_true, Bool.and_eq_true, decide_eq_true_eq, ne_eq, not_or,
    not_and_or] at special
  omega

/-- Either a character stands for itself, or it is escaped in a way that is understood. -/
theorem escapeChar_cases (c : Char) :
    (escapeChar c = [c] ∧ isPlain c = true ∧ c ≠ '\\') ∨
      ∃ e, escapeChar c = '\\' :: e ∧ ∀ rest, escape? (e ++ rest) = some (c, rest) := by
  unfold escapeChar
  split
  case h_6 =>
    split
    · exact .inl ⟨rfl, ‹_›, ‹_›⟩
    · exact .inr ⟨_, rfl, codePoint?_control (lt_of_not_plain ‹_›)⟩
  all_goals exact .inr ⟨_, rfl, fun _ => rfl⟩

theorem continuation?_of_escape? {cs rest : List Char} {c : Char} (h : escape? cs = some (c, rest)) :
    continuation? cs = none := by
  unfold escape? at h
  split at h
  case h_10 => cases h
  all_goals rfl

theorem basicBody_plain {c : Char} {cs s rest : List Char} (plain : isPlain c = true)
    (quote : c ≠ '"') (slash : c ≠ '\\') (h : basicBody cs = some (s, rest)) :
    basicBody (c :: cs) = some (c :: s, rest) := by
  rw [basicBody.eq_def]
  split <;> simp_all

theorem basicBody_escape {c : Char} {e cs s rest : List Char} (escaped : escape? e = some (c, cs))
    (h : basicBody cs = some (s, rest)) : basicBody ('\\' :: e) = some (c :: s, rest) := by
  rw [basicBody]
  split <;> simp_all

theorem basicBody_escapeChar {c : Char} {cs s rest : List Char} (quote : c ≠ '"')
    (h : basicBody cs = some (s, rest)) : basicBody (escapeChar c ++ cs) = some (c :: s, rest) := by
  rcases escapeChar_cases c with ⟨same, plain, slash⟩ | ⟨e, escaped, understood⟩
  · rw [same]
    exact basicBody_plain plain quote slash h
  · rw [escaped]
    exact basicBody_escape (understood cs) h

theorem basicBody_escapeLine (cs rest : List Char) :
    basicBody (escapeLine cs ++ '"' :: rest) = some (cs, rest) := by
  induction cs using escapeLine.induct with
  | case1 => rw [escapeLine, List.nil_append, basicBody]
  | case2 cs ih => exact basicBody_escape (by rfl) ih
  | case3 cs ih => exact basicBody_escape (by rfl) ih
  | case4 c cs quote feed ih =>
    rw [escapeLine, List.append_assoc]
    · exact basicBody_escapeChar quote ih
    all_goals assumption

theorem literalBody_plain {cs : List Char} (plain : ∀ c ∈ cs, isPlain c = true ∧ c ≠ '\'')
    (rest : List Char) : literalBody (cs ++ '\'' :: rest) = some (cs, rest) := by
  induction cs with
  | nil => rfl
  | cons c cs ih =>
    obtain ⟨printed, quote⟩ := plain c List.mem_cons_self
    have others := ih fun d hd => plain d (List.mem_cons_of_mem _ hd)
    rw [List.cons_append, literalBody, if_pos printed, others]
    · rfl
    · simpa using quote

theorem closing_replicate (q : Char) {run : Nat} (few : run ≤ 2) {rest : List Char}
    (last : rest.head? ≠ some q) :
    closing q (List.replicate run q ++ rest) = (List.replicate run q, rest) := by
  obtain rfl | rfl | rfl : run = 0 ∨ run = 1 ∨ run = 2 := by omega
  all_goals
    cases rest with
    | nil => simp [closing]
    | cons c rest =>
      have other : c ≠ q := by simpa using last
      simp [closing, other]

/-- What the two notations on several lines have in common: three quotes close the string, and a quote
that does not begin three belongs to it. -/
structure ReadsLines (q : Char) (body : Scan (List Char)) : Prop where
  close (rest : List Char) : body (q :: q :: q :: rest) = some (closing q rest)
  quote {cs s rest : List Char} (inside : ∀ more, cs ≠ q :: q :: more)
    (h : body cs = some (s, rest)) : body (q :: cs) = some (q :: s, rest)

namespace ReadsLines

variable {q : Char} {body : Scan (List Char)} (reads : ReadsLines q body) {run : Nat} (few : run ≤ 2)

include reads few

/-- Of the quotes at the end the last three close the string. -/
theorem close_run {rest : List Char} (last : rest.head? ≠ some q) :
    body (List.replicate run q ++ q :: q :: q :: rest) = some (List.replicate run q, rest) := by
  have swap : List.replicate run q ++ q :: q :: q :: rest =
      q :: q :: q :: (List.replicate run q ++ rest) := by
    obtain rfl | rfl | rfl : run = 0 ∨ run = 1 ∨ run = 2 := by omega
    all_goals rfl
  rw [swap, reads.close, closing_replicate q few last]

/-- Quotes before anything else belong to the string. -/
theorem quotes {cs s rest : List Char} (other : cs.head? ≠ some q) (h : body cs = some (s, rest)) :
    body (List.replicate run q ++ cs) = some (List.replicate run q ++ s, rest) := by
  have one : body (q :: cs) = some (q :: s, rest) :=
    reads.quote (by rintro more rfl; exact other rfl) h
  obtain rfl | rfl | rfl : run = 0 ∨ run = 1 ∨ run = 2 := by omega
  · exact h
  · exact one
  · exact reads.quote (by rintro more ⟨⟩; exact other rfl) one

end ReadsLines

theorem replicate_append_cons (q : Char) (run : Nat) (cs : List Char) :
    List.replicate run q ++ q :: cs = List.replicate (run + 1) q ++ cs := by
  rw [List.replicate_succ', List.append_assoc, List.singleton_append]

theorem basicLinesBody_plain {c : Char} {cs s rest : List Char}
    (plain : isPlain c = true ∨ c = '\n') (slash : c ≠ '\\')
    (inside : c = '"' → ∀ more, cs ≠ '"' :: '"' :: more) (h : basicLinesBody cs = some (s, rest)) :
    basicLinesBody (c :: cs) = some (c :: s, rest) := by
  rw [basicLinesBody.eq_def]
  split <;> simp_all

theorem readsLines_basic : ReadsLines '"' basicLinesBody where
  close rest := by rw [basicLinesBody]
  quote inside h := basicLinesBody_plain (.inl rfl) (by decide) (fun _ => inside) h

theorem basicLinesBody_escape {c : Char} {e cs s rest : List Char}
    (escaped : escape? e = some (c, cs)) (h : basicLinesBody cs = some (s, rest)) :
    basicLinesBody ('\\' :: e) = some (c :: s, rest) := by
  have inside := continuation?_of_escape? escaped
  rw [basicLinesBody]
  split
  · simp_all
  · split <;> simp_all

theorem basicLinesBody_escapeLines {run : Nat} (few : run ≤ 2) (cs : List Char) {rest : List Char}
    (last : rest.head? ≠ some '"') :
    basicLinesBody (List.replicate run '"' ++ (escapeLines run cs ++ '"' :: '"' :: '"' :: rest)) =
      some (List.replicate run '"' ++ cs, rest) := by
  induction run, cs using escapeLines.induct with
  | case1 run =>
    rw [escapeLines, List.nil_append, List.append_nil]
    exact readsLines_basic.close_run few last
  | case2 cs ih =>
    rw [escapeLines, if_pos rfl]
    exact readsLines_basic.quotes few (by simp) (basicLinesBody_escape (by rfl) (ih (by decide)))
  | case3 run cs more ih =>
    rw [escapeLines, if_neg more, List.cons_append, replicate_append_cons, replicate_append_cons]
    exact ih (by omega)
  | case4 run cs ih =>
    rw [escapeLines]
    exact readsLines_basic.quotes few (by simp)
      (basicLinesBody_plain (.inr rfl) (by decide) (by simp) (ih (by decide)))
  | case5 run c cs quote feed ih =>
    have read := ih (by decide)
    rw [escapeLines, List.append_assoc]
    · rcases escapeChar_cases c with ⟨same, plain, slash⟩ | ⟨e, escaped, understood⟩
      · rw [same]
        exact readsLines_basic.quotes few (by simpa using quote)
          (basicLinesBody_plain (.inl plain) slash (fun same => absurd same quote) read)
      · rw [escaped]
        exact readsLines_basic.quotes few (by simp)
          (basicLinesBody_escape (understood _) read)
    all_goals assumption

theorem literalLinesBody_plain {c : Char} {cs s rest : List Char}
    (plain : isPlain c = true ∨ c = '\n')
    (inside : c = '\'' → ∀ more, cs ≠ '\'' :: '\'' :: more)
    (h : literalLinesBody cs = some (s, rest)) :
    literalLinesBody (c :: cs) = some (c :: s, rest) := by
  rw [literalLinesBody.eq_def]
  split <;> simp_all

theorem readsLines_literal : ReadsLines '\'' literalLinesBody where
  close rest := by rw [literalLinesBody]
  quote inside h := literalLinesBody_plain (.inl rfl) (fun _ => inside) h

theorem le_longestRun (q : Char) (run : Nat) (cs : List Char) : run ≤ longestRun q run cs := by
  induction cs generalizing run with
  | nil => exact Nat.le_refl run
  | cons c cs ih =>
    rw [longestRun]
    split
    · exact Nat.le_of_succ_le (ih (run + 1))
    · exact Nat.le_max_left ..

/-- No control code but tabs and line feeds. -/
def Printed (cs : List Char) : Prop := ∀ c ∈ cs, isPlain c = true ∨ c = '\n'

instance (cs : List Char) : Decidable (Printed cs) :=
  decidable_of_iff ((cs.all fun c => isPlain c || c == '\n') = true) (by simp [Printed])

theorem Printed.append {cs ds : List Char} (front : Printed cs) (back : Printed ds) :
    Printed (cs ++ ds) := List.forall_mem_append.mpr ⟨front, back⟩

theorem Printed.cons {c : Char} {cs : List Char} (plain : isPlain c = true ∨ c = '\n')
    (rest : Printed cs) : Printed (c :: cs) := List.forall_mem_cons.mpr ⟨plain, rest⟩

theorem literalLinesBody_append {run : Nat} {cs : List Char}
    (plain : Printed cs) (few : longestRun '\'' run cs ≤ 2)
    {rest : List Char} (last : rest.head? ≠ some '\'') :
    literalLinesBody (List.replicate run '\'' ++ (cs ++ '\'' :: '\'' :: '\'' :: rest)) =
      some (List.replicate run '\'' ++ cs, rest) := by
  have start := Nat.le_trans (le_longestRun '\'' run cs) few
  induction cs generalizing run with
  | nil =>
    rw [List.nil_append, List.append_nil]
    exact readsLines_literal.close_run start last
  | cons c cs ih =>
    have printed := plain c List.mem_cons_self
    have others : Printed cs := fun d hd => plain d (List.mem_cons_of_mem _ hd)
    rw [longestRun] at few
    split at few
    · rename_i quote
      rw [quote, List.cons_append, replicate_append_cons, replicate_append_cons]
      exact ih others few (Nat.le_trans (le_longestRun ..) few)
    · rename_i quote
      have read := ih others (Nat.le_trans (Nat.le_max_right ..) few) (Nat.zero_le 2)
      exact readsLines_literal.quotes start (by simpa using quote)
        (literalLinesBody_plain printed (fun same => absurd same quote) read)

section

variable {s : String} {cs rest : List Char}

theorem printed_of_controls (none : (traits cs).controls = false) : Printed cs := by
  intro c hc
  have ordinary := List.any_eq_false.mp none c hc
  by_cases plain : isPlain c = true <;> simp_all

theorem not_mem_of_longestRun {q : Char} (none : longestRun q 0 cs = 0) : q ∉ cs := by
  induction cs with
  | nil => simp
  | cons c cs ih =>
    rw [longestRun] at none
    split at none
    · exact absurd (Nat.le_trans (le_longestRun ..) (Nat.le_of_eq none)) (by decide)
    · rename_i other
      rw [Nat.zero_max] at none
      rw [List.mem_cons, not_or]
      exact ⟨fun same => other same.symm, ih none⟩

theorem notationFor_literal {t : Traits} (h : notationFor t = .literal) :
    t.controls = false ∧ t.singles = 0 ∧ t.lineFeed = false := by
  unfold notationFor at h
  split_ifs at h
  all_goals simp_all

theorem notationFor_literalLines {t : Traits} (h : notationFor t = .literalLines) :
    t.controls = false ∧ t.singles ≤ 2 := by
  unfold notationFor at h
  split_ifs at h
  all_goals simp_all

/-- The break behind the opening quotes is dropped, and only that one. -/
theorem dropBreak_tripled {lineFeed : Bool} (body : List Char)
    (start : lineFeed = false → body.head? ≠ some '\n') :
    dropBreak ((if lineFeed then ['\n'] else []) ++ body) = body := by
  cases lineFeed with
  | true => rfl
  | false =>
    rw [dropBreak.eq_def]
    split <;> simp_all

theorem head_escapeLines {run : Nat} (none : '\n' ∉ cs) (tail : List Char) :
    (escapeLines run cs ++ '"' :: tail).head? ≠ some '\n' := by
  unfold escapeLines
  split
  · simp
  · split <;> simp
  · simp at none
  · rename_i c cs quote feed
    rcases escapeChar_cases c with ⟨same, _, _⟩ | ⟨e, escaped, _⟩
    · simpa [same] using feed
    · simp [escaped]

theorem escapeLine_ne (double : rest.head? ≠ some '"') (more : List Char) :
    escapeLine cs ++ '"' :: rest ≠ '"' :: '"' :: more := by
  unfold escapeLine
  split
  · rintro ⟨⟩
    exact double rfl
  · simp
  · simp
  · rename_i c cs quote feed
    rcases escapeChar_cases c with ⟨same, _, _⟩ | ⟨e, escaped, _⟩
    · rw [same, List.singleton_append, List.cons_append]
      exact fun eq => quote (List.cons.inj eq).1
    · simp [escaped]

theorem text?_line {q : Char} (short : ∀ more, cs ≠ q :: q :: more) :
    text? (q :: cs) = line? (q :: cs) := by
  unfold text?
  split <;> simp_all

theorem tripled_append (q : Char) (lineFeed : Bool) (body rest : List Char) :
    tripled q lineFeed body ++ rest =
      q :: q :: q :: ((if lineFeed then ['\n'] else []) ++ (body ++ q :: q :: q :: rest)) := by
  simp [tripled]

theorem text?_basic (cs : List Char) (double : rest.head? ≠ some '"') :
    text? ('"' :: (escapeLine cs ++ '"' :: rest)) = some (String.ofList cs, rest) := by
  rw [text?_line (escapeLine_ne double), line?, basicBody_escapeLine]
  rfl

theorem text?_literal (plain : ∀ c ∈ cs, isPlain c = true ∧ c ≠ '\'')
    (single : rest.head? ≠ some '\'') :
    text? ('\'' :: (cs ++ '\'' :: rest)) = some (String.ofList cs, rest) := by
  have short (more : List Char) : cs ++ '\'' :: rest ≠ '\'' :: '\'' :: more := by
    cases cs with
    | nil =>
      rintro ⟨⟩
      exact single rfl
    | cons c cs => exact fun eq => (plain c List.mem_cons_self).2 (List.cons.inj eq).1
  rw [text?_line short, line?, literalBody_plain plain]
  rfl

theorem text?_basicLines {lineFeed : Bool} (feed : lineFeed = false → '\n' ∉ cs)
    (double : rest.head? ≠ some '"') :
    text? (tripled '"' lineFeed (escapeLines 0 cs) ++ rest) = some (String.ofList cs, rest) := by
  have read := basicLinesBody_escapeLines (Nat.zero_le 2) cs double
  rw [List.replicate_zero, List.nil_append] at read
  rw [tripled_append, text?, dropBreak_tripled _ fun absent => head_escapeLines (feed absent) _, read]
  rfl

theorem text?_literalLines {lineFeed : Bool} (feed : lineFeed = false → '\n' ∉ cs)
    (plain : Printed cs) (few : longestRun '\'' 0 cs ≤ 2)
    (single : rest.head? ≠ some '\'') :
    text? (tripled '\'' lineFeed cs ++ rest) = some (String.ofList cs, rest) := by
  have start (absent : lineFeed = false) :
      (cs ++ '\'' :: '\'' :: '\'' :: rest).head? ≠ some '\n' := by
    cases cs with
    | nil => simp
    | cons c cs =>
      intro eq
      exact feed absent (by rw [← Option.some.inj eq]; exact List.mem_cons_self)
  have read := literalLinesBody_append plain few single
  rw [List.replicate_zero, List.nil_append] at read
  rw [tripled_append, text?, dropBreak_tripled _ start, read]
  rfl

end

/-- What follows must not be taken for one more quote. -/
theorem text?_writeText (s : String) {rest : List Char} (double : rest.head? ≠ some '"')
    (single : rest.head? ≠ some '\'') : text? (writeText s ++ rest) = some (s, rest) := by
  have feed (absent : (traits s.toList).lineFeed = false) : '\n' ∉ s.toList := by
    simpa [traits] using absent
  have whole : some (s, rest) = some (String.ofList s.toList, rest) := by rw [String.ofList_toList]
  rw [whole, writeText]
  split
  · simpa using text?_basic s.toList double
  · rename_i literal
    obtain ⟨controls, singles, noFeed⟩ := notationFor_literal literal
    have plain : ∀ c ∈ s.toList, isPlain c = true ∧ c ≠ '\'' := fun c hc =>
      ⟨(printed_of_controls controls c hc).resolve_right fun same => feed noFeed (same ▸ hc),
        fun same => not_mem_of_longestRun singles (same ▸ hc)⟩
    simpa using text?_literal plain single
  · exact text?_basicLines feed double
  · rename_i literal
    obtain ⟨controls, singles⟩ := notationFor_literalLines literal
    exact text?_literalLines feed (printed_of_controls controls) singles single

theorem plain_escapeChar (c : Char) : ∀ d ∈ escapeChar c, isPlain d = true := by
  have hex : ∀ n < 16, isPlain (upperHex n) = true := by decide
  unfold escapeChar
  split
  case h_6 =>
    split
    · simpa
    · have small := lt_of_not_plain ‹_›
      have high := hex (c.toNat / 16) (by omega)
      have low := hex (c.toNat % 16) (by omega)
      simp [high, low]
      decide
  all_goals simp; decide

theorem printed_escapeChar (c : Char) : Printed (escapeChar c) := fun d hd =>
  .inl (plain_escapeChar c d hd)

theorem printed_escapeLine (cs : List Char) : Printed (escapeLine cs) := by
  induction cs using escapeLine.induct with
  | case1 => simp [escapeLine, Printed]
  | case2 cs ih | case3 cs ih => exact .cons (.inl rfl) (.cons (.inl rfl) ih)
  | case4 c cs quote feed ih =>
    rw [escapeLine]
    · exact (printed_escapeChar c).append ih
    all_goals assumption

theorem printed_escapeLines (run : Nat) (cs : List Char) : Printed (escapeLines run cs) := by
  induction run, cs using escapeLines.induct with
  | case1 run => simp [escapeLines, Printed]
  | case2 cs ih => exact .cons (.inl rfl) (.cons (.inl rfl) ih)
  | case3 run cs more ih =>
    rw [escapeLines, if_neg more]
    exact .cons (.inl rfl) ih
  | case4 run cs ih => exact .cons (.inr rfl) ih
  | case5 run c cs quote feed ih =>
    rw [escapeLines]
    · exact (printed_escapeChar c).append ih
    all_goals assumption

theorem printed_tripled {q : Char} (quote : isPlain q = true) (lineFeed : Bool) {body : List Char}
    (printed : Printed body) : Printed (tripled q lineFeed body) := by
  have three : Printed [q, q, q] := by simp [Printed, quote]
  have feed : Printed (if lineFeed then ['\n'] else []) := by cases lineFeed <;> simp [Printed]
  exact ((three.append feed).append printed).append three

theorem printed_writeText (s : String) : Printed (writeText s) := by
  rw [writeText]
  split
  · exact .cons (.inl rfl) ((printed_escapeLine _).append (.cons (.inl rfl) (by simp [Printed])))
  · rename_i literal
    have plain := printed_of_controls (notationFor_literal literal).1
    exact .cons (.inl rfl) (plain.append (.cons (.inl rfl) (by simp [Printed])))
  · exact printed_tripled rfl _ (printed_escapeLines 0 _)
  · rename_i literal
    exact printed_tripled rfl _ (printed_of_controls (notationFor_literalLines literal).1)

end TraceTally.Toml
