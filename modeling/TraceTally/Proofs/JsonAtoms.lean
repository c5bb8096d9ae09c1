import TraceTally.Json.Schema
import TraceTally.Proofs.JsonTexts

/-!
# Reading words, strings and numbers
-/

namespace TraceTally.Json

variable {α β : Type}

/-- A reader's answer: a value, with `rest` left of the text, or the cause of an error. -/
inductive Ends (rest : List Char) : Except Cause α → Except Error (α × Cursor) → Prop where
  | ok {a : α} {c : Cursor} (left : c.rest = rest) : Ends rest (.ok a) (.ok (a, c))
  | error {cause : Cause} {p : Position} : Ends rest (.error cause) (.error ⟨cause, p⟩)

namespace Ends

variable {rest rest' : List Char} {o : Except Cause α} {r : Except Error (α × Cursor)}

theorem bind {next : α → Except Cause β} {more : α × Cursor → Except Error (β × Cursor)}
    (ends : Ends rest o r)
    (later : ∀ a c, o = .ok a → c.rest = rest → Ends rest' (next a) (more (a, c))) :
    Ends rest' (o >>= next) (r >>= more) := by
  cases ends with
  | ok left => exact later _ _ rfl left
  | error => exact .error

/-- Something more is passed over behind the value. -/
theorem passing {more : α × Cursor → Except Error (α × Cursor)} (ends : Ends rest o r)
    (later : ∀ a c, c.rest = rest → Ends rest' (.ok a) (more (a, c))) : Ends rest' o (r >>= more) := by
  cases ends with
  | ok left => exact later _ _ left
  | error => exact .error

theorem map (ends : Ends rest o r) (f : α → β) :
    Ends rest (o.map f) (r.map fun (a, c) => (f a, c)) := by
  cases ends with
  | ok left => exact .ok left
  | error => exact .error

theorem exists_ok {a : α} (ends : Ends rest (.ok a) r) : ∃ c, c.rest = rest ∧ r = .ok (a, c) := by
  cases ends with
  | ok left => exact ⟨_, left, rfl⟩

theorem exists_error {cause : Cause} (ends : Ends rest (.error cause) r) :
    ∃ p, r = .error ⟨cause, p⟩ := by
  cases ends with
  | error => exact ⟨_, rfl⟩

end Ends

theorem ident_of {word rest : List Char} {c : Cursor} (here : c.rest = word ++ rest) :
    ∃ c', c'.rest = rest ∧ ident word c = .ok c' := by
  induction word generalizing c with
  | nil => exact ⟨c, here, rfl⟩
  | cons d word ih =>
    obtain ⟨c', left, read⟩ := ih (Cursor.rest_advance here)
    refine ⟨c', left, ?_⟩
    simp only [ident, here, List.cons_append, if_true, read]

namespace StringUnit

variable {purpose : Purpose} {c : Cursor} {rest : List Char}

theorem stringBody_quote (here : c.rest = '"' :: rest) : stringBody purpose c = .ok ([], c.advance) := by
  obtain ⟨_, p⟩ := c
  obtain rfl := here
  rw [stringBody.eq_def]
  rfl

theorem stringBody_plain {d : Char} (valid : (plain d).Valid) (here : c.rest = d :: rest) :
    stringBody purpose c = (stringBody purpose c.advance).map fun (xs, c) => (d :: xs, c) := by
  obtain ⟨quote, backslash, control⟩ := valid
  obtain ⟨_, p⟩ := c
  obtain rfl := here
  rw [stringBody.eq_def]
  simp only [quote, backslash, if_false, Nat.not_lt.mpr control]

theorem stringBody_escape (here : c.rest = '\\' :: rest) {d : Char} {c' : Cursor}
    (read : escape purpose c.advance = .ok (d, c')) :
    stringBody purpose c = (stringBody purpose c').map fun (xs, c) => (d :: xs, c) := by
  obtain ⟨_, p⟩ := c
  obtain rfl := here
  rw [stringBody.eq_def]
  dsimp only
  split
  · contradiction
  · split
    · split
      · rename_i e failed
        cases read.symm.trans failed
      · rename_i x c'' read'
        cases read.symm.trans read'
        rfl
    · contradiction

theorem stringBody_error (here : c.rest = '\\' :: rest) {e : Error}
    (failed : escape purpose c.advance = .error e) : stringBody purpose c = .error e := by
  obtain ⟨_, p⟩ := c
  obtain rfl := here
  rw [stringBody.eq_def]
  dsimp only
  split
  · contradiction
  · split
    · split
      · rename_i e' failed'
        cases failed.symm.trans failed'
        rfl
      · rename_i x c'' read
        cases failed.symm.trans read
    · contradiction

theorem fourDigits_of {digits : List Char} {n : Nat} (four : FourDigits digits n)
    (here : c.rest = digits ++ rest) : ∃ c', c'.rest = rest ∧ fourDigits c = .ok (n, c') := by
  obtain ⟨w, x, y, z, w', x', y', z', rfl, hw, hx, hy, hz, rfl⟩ := four
  refine ⟨⟨rest, c.position.afterBytes 4 c.rest⟩, rfl, ?_⟩
  have here : c.rest = w :: x :: y :: z :: rest := here
  rw [fourDigits, here]
  simp only [hw, hx, hy, hz]

theorem escape_short {letter d : Char} (short : (letter, d) ∈ shortEscapes)
    (here : c.rest = letter :: rest) : escape purpose c = .ok (d, c.advance) := by
  simp only [shortEscapes, List.mem_cons, List.not_mem_nil, or_false, Prod.mk.injEq] at short
  rw [escape, here]
  rcases short with ⟨rfl, rfl⟩ | ⟨rfl, rfl⟩ | ⟨rfl, rfl⟩ | ⟨rfl, rfl⟩ | ⟨rfl, rfl⟩ | ⟨rfl, rfl⟩ |
    ⟨rfl, rfl⟩ | ⟨rfl, rfl⟩ <;> rfl

theorem escape_code (here : c.rest = 'u' :: rest) : escape purpose c = numbered purpose c.advance := by
  rw [escape, here]
  rfl

theorem numbered_of {digits : List Char} {n : Nat} (four : FourDigits digits n)
    (here : c.rest = digits ++ rest) :
    ∃ c', c'.rest = rest ∧ numbered .skip c = .ok (Char.ofNat n, c') ∧
      numbered .keep c = if isTrailing n then c'.failHere .loneSurrogate
        else if isLeading n then trailing n c' else .ok (Char.ofNat n, c') := by
  obtain ⟨c', left, read⟩ := fourDigits_of four here
  refine ⟨c', left, ?_, ?_⟩
  · rw [numbered, read]
    rfl
  · rw [numbered, read]
    rfl

theorem flatMap_code {digits : List Char} {n : Nat} {units : List StringUnit}
    (here : c.rest = (code digits n :: units).flatMap text ++ rest) :
    c.rest = '\\' :: 'u' :: (digits ++ (units.flatMap text ++ rest)) := by
  rw [here, List.flatMap_cons, List.append_assoc]
  rfl

/-- An escape by number, behind its backslash. -/
theorem escape_numbered {digits : List Char} {n : Nat} {units : List StringUnit}
    (four : FourDigits digits n) (here : c.rest = (code digits n :: units).flatMap text ++ rest) :
    ∃ c', c'.rest = units.flatMap text ++ rest ∧ escape .skip c.advance = .ok (Char.ofNat n, c') ∧
      escape .keep c.advance = if isTrailing n then c'.failHere .loneSurrogate
        else if isLeading n then trailing n c' else .ok (Char.ofNat n, c') := by
  have mark := Cursor.rest_advance (flatMap_code here)
  rw [escape_code mark, escape_code mark]
  exact numbered_of four (Cursor.rest_advance mark)

/-- A string that is passed over is held to its grammar alone. -/
theorem stringBody_skip {units : List StringUnit} (valid : ∀ u ∈ units, u.Valid)
    (here : c.rest = units.flatMap text ++ '"' :: rest) :
    ∃ s c', c'.rest = rest ∧ stringBody .skip c = .ok (s, c') := by
  induction units generalizing c with
  | nil => exact ⟨[], _, Cursor.rest_advance here, stringBody_quote here⟩
  | cons u units ih =>
    obtain ⟨first, others⟩ := List.forall_mem_cons.mp valid
    cases u with
    | plain d =>
      obtain ⟨s, c', left, read⟩ := ih others (Cursor.rest_advance here)
      exact ⟨d :: s, c', left, by rw [stringBody_plain first here, read]; rfl⟩
    | short letter d =>
      have letters := Cursor.rest_advance here
      obtain ⟨s, c', left, read⟩ := ih others (Cursor.rest_advance letters)
      refine ⟨d :: s, c', left, ?_⟩
      rw [stringBody_escape here (escape_short first letters), read]
      rfl
    | code digits n =>
      obtain ⟨c₁, left₁, skipped, -⟩ := escape_numbered first here
      obtain ⟨s, c', left, read⟩ := ih others left₁
      refine ⟨Char.ofNat n :: s, c', left, ?_⟩
      rw [stringBody_escape here skipped, read]
      rfl

/-- The second half of a pair is an escape by number. -/
theorem trailing_of {digits : List Char} {m : Nat} {units : List StringUnit} (n : Nat)
    (four : FourDigits digits m) (here : c.rest = (code digits m :: units).flatMap text ++ rest) :
    ∃ c', c'.rest = units.flatMap text ++ rest ∧ trailing n c =
      if isTrailing m then .ok (Char.ofNat (0x10000 + (n - 0xD800) * 0x400 + (m - 0xDC00)), c')
      else c'.failHere .loneSurrogate := by
  have here := flatMap_code here
  have mark := Cursor.rest_advance here
  obtain ⟨c', left, read⟩ := fourDigits_of four (Cursor.rest_advance mark)
  refine ⟨c', left, ?_⟩
  simp only [trailing, here, mark, read]
  rfl

theorem trailing_error {units : List StringUnit} (n : Nat) (valid : ∀ u ∈ units, u.Valid)
    (other : ∀ digits m us, units = code digits m :: us → False)
    (here : c.rest = units.flatMap text ++ '"' :: rest) :
    ∃ p, trailing n c = .error ⟨.unfinishedPair, p⟩ := by
  cases units with
  | nil =>
    rw [trailing, here]
    exact ⟨_, rfl⟩
  | cons u units =>
    have first := valid u List.mem_cons_self
    cases u with
    | plain d =>
      obtain ⟨-, backslash, -⟩ := first
      have here : c.rest = d :: (units.flatMap text ++ '"' :: rest) := here
      rw [trailing, here]
      split
      · contradiction
      · rename_i same
        exact absurd (List.cons.inj same).1 backslash
      · exact ⟨_, rfl⟩
    | short letter d =>
      have here : c.rest = '\\' :: letter :: (units.flatMap text ++ '"' :: rest) := here
      have mark := Cursor.rest_advance here
      have letters : ∀ e ∈ shortEscapes, e.1 ≠ 'u' := by decide
      have notCode : letter ≠ 'u' := letters _ first
      simp only [trailing, here, mark]
      exact ⟨_, rfl⟩
    | code digits m => exact absurd rfl (other digits m units)

theorem decode_loneTrailing {n : Nat} (digits : List Char) (units : List StringUnit)
    (lone : isTrailing n = true) : decode (code digits n :: units) = .error .loneSurrogate := by
  rw [decode.eq_def]
  exact if_pos lone

theorem decode_code {n : Nat} (digits : List Char) (units : List StringUnit)
    (notTrailing : ¬isTrailing n = true) (notLeading : ¬isLeading n = true) :
    decode (code digits n :: units) = (decode units).map (Char.ofNat n :: ·) := by
  rw [decode.eq_def]
  exact (if_neg notTrailing).trans (if_neg notLeading)

theorem stringBody_keep {units : List StringUnit} (valid : ∀ u ∈ units, u.Valid)
    (here : c.rest = units.flatMap text ++ '"' :: rest) :
    Ends rest (decode units) (stringBody .keep c) := by
  induction units using decode.induct generalizing c with
  | case1 =>
    rw [stringBody_quote here]
    exact .ok (Cursor.rest_advance here)
  | case2 d units ih =>
    obtain ⟨first, others⟩ := List.forall_mem_cons.mp valid
    rw [stringBody_plain first here]
    exact (ih others (Cursor.rest_advance here)).map _
  | case3 letter d units ih =>
    obtain ⟨first, others⟩ := List.forall_mem_cons.mp valid
    have letters := Cursor.rest_advance here
    rw [stringBody_escape here (escape_short first letters)]
    exact (ih others (Cursor.rest_advance letters)).map _
  | case4 digits n units lone =>
    obtain ⟨c₁, -, -, read⟩ := escape_numbered (valid _ List.mem_cons_self) here
    rw [if_pos lone] at read
    rw [stringBody_error here read, decode_loneTrailing digits units lone]
    exact .error
  | case5 digits n notTrailing leading digits' m units second ih =>
    obtain ⟨first, others⟩ := List.forall_mem_cons.mp valid
    obtain ⟨next, others⟩ := List.forall_mem_cons.mp others
    obtain ⟨c₁, left₁, -, read⟩ := escape_numbered first here
    obtain ⟨c₂, left₂, pair⟩ := trailing_of n next left₁
    rw [if_neg notTrailing, if_pos leading, pair, if_pos second] at read
    rw [stringBody_escape here read, decode, if_neg notTrailing, if_pos leading, if_pos second]
    exact (ih others left₂).map _
  | case6 digits n notTrailing leading digits' m units second =>
    obtain ⟨first, others⟩ := List.forall_mem_cons.mp valid
    obtain ⟨c₁, left₁, -, read⟩ := escape_numbered first here
    obtain ⟨c₂, left₂, pair⟩ := trailing_of n (others _ List.mem_cons_self) left₁
    rw [if_neg notTrailing, if_pos leading, pair, if_neg second] at read
    rw [stringBody_error here read, decode, if_neg notTrailing, if_pos leading, if_neg second]
    exact .error
  | case7 digits n units notTrailing leading other =>
    obtain ⟨first, others⟩ := List.forall_mem_cons.mp valid
    obtain ⟨c₁, left₁, -, read⟩ := escape_numbered first here
    obtain ⟨p, failed⟩ := trailing_error n others other left₁
    rw [if_neg notTrailing, if_pos leading, failed] at read
    rw [stringBody_error here read, decode, if_neg notTrailing, if_pos leading]
    · exact .error
    · exact other
  | case8 digits n units notTrailing notLeading ih =>
    obtain ⟨first, others⟩ := List.forall_mem_cons.mp valid
    obtain ⟨c₁, left₁, -, read⟩ := escape_numbered first here
    rw [if_neg notTrailing, if_neg notLeading] at read
    rw [stringBody_escape here read, decode_code digits units notTrailing notLeading]
    exact (ih others left₁).map _

theorem skip_quoted {units : List StringUnit} (valid : ∀ u ∈ units, u.Valid)
    (here : c.rest = quoted units ++ rest) :
    ∃ s c', c'.rest = rest ∧ stringBody .skip c.advance = .ok (s, c') := by
  rw [quoted_append] at here
  exact stringBody_skip valid (Cursor.rest_advance here)

theorem keep_quoted {units : List StringUnit} (valid : ∀ u ∈ units, u.Valid)
    (here : c.rest = quoted units ++ rest) :
    Ends rest (decode units) (stringBody .keep c.advance) := by
  rw [quoted_append] at here
  exact stringBody_keep valid (Cursor.rest_advance here)

end StringUnit

section

variable {c : Cursor} {ds rest : List Char} (atEnd : Cause)

/-- No digit stands here. -/
def NoDigit (rest : List Char) : Prop := ∀ d ∈ rest.head?, isDigit d = false

/-- What may stand behind a value is no part of a number. -/
theorem Stops.noNumber (stops : Stops rest) :
    ∀ d ∈ rest.head?, isDigit d = false ∧ d ≠ '.' ∧ d ≠ 'e' ∧ d ≠ 'E' := by
  cases rest with
  | nil => exact fun _ none => by cases none
  | cons d rest =>
    rintro _ ⟨⟩
    rcases stops with blank | rfl | rfl | rfl
    · simp only [Cursor.isBlank, Bool.or_eq_true, decide_eq_true_eq] at blank
      rcases blank with ((rfl | rfl) | rfl) | rfl <;> decide
    all_goals decide

theorem Stops.noDigit (stops : Stops rest) : NoDigit rest := fun d head => (stops.noNumber d head).1

theorem takeDigits_of (digits : Digits ds) (ended : NoDigit rest) (here : c.rest = ds ++ rest) :
    ∃ c', c'.rest = rest ∧ takeDigits c = (ds, c') := by
  have none : rest.takeWhile isDigit = [] := by
    cases rest with
    | nil => rfl
    | cons d rest => exact List.takeWhile_cons_of_neg (by simp [ended d rfl])
  have taken : c.rest.takeWhile isDigit = ds := by
    rw [here, List.takeWhile_append_of_pos digits.2, none, List.append_nil]
  refine ⟨_, ?_, by rw [takeDigits, taken]⟩
  rw [here, List.drop_left]

theorem someDigits_of (digits : Digits ds) (ended : NoDigit rest) (here : c.rest = ds ++ rest) :
    ∃ c', c'.rest = rest ∧ someDigits atEnd c = .ok (ds, c') := by
  obtain ⟨c', left, taken⟩ := takeDigits_of digits ended here
  obtain ⟨nonempty, all⟩ := digits
  obtain ⟨d, t, rfl⟩ := List.exists_cons_of_ne_nil nonempty
  have first : isDigit d = true := all d List.mem_cons_self
  refine ⟨c', left, ?_⟩
  simp only [someDigits, here, List.cons_append, first, if_true, taken]

theorem wholePart_of (digits : Digits ds) (lead : ∀ t, ds = '0' :: t → t = []) (ended : NoDigit rest)
    (here : c.rest = ds ++ rest) : ∃ c', c'.rest = rest ∧ wholePart atEnd c = .ok (ds, c') := by
  obtain ⟨c', left, taken⟩ := takeDigits_of digits ended here
  obtain ⟨nonempty, all⟩ := digits
  obtain ⟨d, t, rfl⟩ := List.exists_cons_of_ne_nil nonempty
  by_cases zero : d = '0'
  · subst zero
    obtain rfl := lead t rfl
    have behind : c.advance.rest = rest := Cursor.rest_advance here
    refine ⟨c.advance, behind, ?_⟩
    rw [wholePart, here]
    cases rest with
    | nil => simp only [List.cons_append, List.nil_append, behind]
    | cons e rest =>
      have other : isDigit e = false := ended e rfl
      simp [behind, other]
  · have first : isDigit d = true := all d List.mem_cons_self
    refine ⟨c', left, ?_⟩
    rw [wholePart, here, ← taken]
    simp [first]

theorem fractionPart_none (other : ∀ d ∈ c.rest.head?, d ≠ '.') :
    fractionPart atEnd c = .ok (none, c) := by
  unfold fractionPart
  split
  · rename_i here
    exact absurd rfl (other '.' (by rw [here]; rfl))
  · rfl

theorem exponentPart_none (other : ∀ d ∈ c.rest.head?, d ≠ 'e' ∧ d ≠ 'E') :
    exponentPart atEnd c = .ok (none, c) := by
  unfold exponentPart
  dsimp only
  split
  · rename_i here
    exact absurd rfl (other 'e' (by rw [here]; rfl)).1
  · rename_i here
    exact absurd rfl (other 'E' (by rw [here]; rfl)).2
  · rfl

theorem exponentSign_of {sign : Option Char} (signs : ∀ s ∈ sign, s = '+' ∨ s = '-') (digits : Digits ds)
    (here : c.rest = sign.toList ++ (ds ++ rest)) :
    ∃ c', c'.rest = ds ++ rest ∧ exponentSign c = (decide (sign = some '-'), c') := by
  cases sign with
  | none =>
    obtain ⟨nonempty, all⟩ := digits
    obtain ⟨d, t, rfl⟩ := List.exists_cons_of_ne_nil nonempty
    have digit : Text.IsDigit d := all d List.mem_cons_self
    have plus : d ≠ '+' := digit.ne (by decide)
    have minus : d ≠ '-' := digit.ne (by decide)
    refine ⟨c, here, ?_⟩
    unfold exponentSign
    simp_all
  | some s =>
    refine ⟨c.advance, Cursor.rest_advance here, ?_⟩
    rw [exponentSign, here]
    rcases signs s rfl with rfl | rfl <;> rfl

theorem exponentPart_of {mark : Char} {sign : Option Char} (marks : mark = 'e' ∨ mark = 'E')
    (signs : ∀ s ∈ sign, s = '+' ∨ s = '-') (digits : Digits ds) (ended : NoDigit rest)
    (here : c.rest = mark :: (sign.toList ++ (ds ++ rest))) :
    ∃ p c', c'.rest = rest ∧ exponentPart atEnd c = .ok (some (decide (sign = some '-'), ds, p), c') := by
  obtain ⟨c₁, left₁, signed⟩ := exponentSign_of signs digits (Cursor.rest_advance here)
  obtain ⟨c', left, taken⟩ := someDigits_of atEnd digits ended left₁
  refine ⟨c₁.position, c', left, ?_⟩
  rw [exponentPart, here]
  rcases marks with rfl | rfl
  · simp only [signed, taken]
    rfl
  · simp only [signed, taken]
    rfl

end

namespace NumberText

variable {n : NumberText} {c : Cursor} {rest : List Char} (atEnd : Cause)

/-- The numeral as it is read, where `p` is the place of the exponent's digits. -/
def numeral (n : NumberText) (p : Position) : Numeral where
  negative := n.negative
  whole := n.whole
  fraction := n.fraction
  exponent := n.exponent.map fun (_, sign, ds) => (sign = some '-', ds, p)

theorem exponentPart_read (valid : n.Valid) (stops : Stops rest)
    (here : c.rest = n.exponentText ++ rest) :
    ∃ p c', c'.rest = rest ∧ exponentPart atEnd c = .ok ((n.numeral p).exponent, c') := by
  cases shape : n.exponent with
  | none =>
    rw [exponentText, shape] at here
    refine ⟨{}, c, here, ?_⟩
    have stop := fun d (head : d ∈ c.rest.head?) => (stops.noNumber d (by rwa [here] at head)).2.2
    rw [numeral, shape, exponentPart_none atEnd stop]
    rfl
  | some parts =>
    obtain ⟨mark, sign, ds⟩ := parts
    obtain ⟨marks, signs, digits⟩ := valid.exponent mark sign ds shape
    have here : c.rest = mark :: (sign.toList ++ (ds ++ rest)) := by
      rw [here, exponentText, shape]
      simp
    obtain ⟨p, c', left, read⟩ := exponentPart_of atEnd marks signs digits stops.noDigit here
    refine ⟨p, c', left, ?_⟩
    rw [numeral, shape, read]
    rfl

/-- Behind the digits of the fraction. -/
theorem exponent_head (valid : n.Valid) (stops : Stops rest) :
    ∀ d ∈ (n.exponentText ++ rest).head?, isDigit d = false ∧ d ≠ '.' := by
  cases shape : n.exponent with
  | none =>
    rw [exponentText, shape]
    exact fun d head => ⟨(stops.noNumber d head).1, (stops.noNumber d head).2.1⟩
  | some parts =>
    obtain ⟨mark, sign, ds⟩ := parts
    obtain ⟨marks, -, -⟩ := valid.exponent mark sign ds shape
    rw [exponentText, shape]
    rintro _ ⟨⟩
    rcases marks with rfl | rfl <;> exact ⟨rfl, by simp⟩

theorem fractionPart_read (valid : n.Valid) (stops : Stops rest)
    (here : c.rest = n.fractionText ++ (n.exponentText ++ rest)) :
    ∃ c', c'.rest = n.exponentText ++ rest ∧ fractionPart atEnd c = .ok (n.fraction, c') := by
  cases shape : n.fraction with
  | none =>
    rw [fractionText, shape] at here
    refine ⟨c, here, fractionPart_none atEnd fun d head => ?_⟩
    exact (exponent_head valid stops d (by rwa [here] at head)).2
  | some ds =>
    rw [fractionText, shape] at here
    have ended : NoDigit (n.exponentText ++ rest) := fun d head => (exponent_head valid stops d head).1
    obtain ⟨c', left, taken⟩ :=
      someDigits_of atEnd (valid.fraction ds shape) ended (Cursor.rest_advance here)
    refine ⟨c', left, ?_⟩
    rw [fractionPart, here]
    exact congrArg (Except.map fun (ds, c) => (some ds, c)) taken

/-- Behind the digits of the whole part. -/
theorem fraction_head (valid : n.Valid) (stops : Stops rest) :
    NoDigit (n.fractionText ++ (n.exponentText ++ rest)) := by
  cases shape : n.fraction with
  | none =>
    rw [fractionText, shape]
    exact fun d head => (exponent_head valid stops d head).1
  | some ds =>
    rw [fractionText, shape]
    rintro _ ⟨⟩
    rfl

theorem numeral_read (valid : n.Valid) (stops : Stops rest) (negative : Bool)
    (here : c.rest = n.body ++ rest) :
    ∃ p c', c'.rest = rest ∧ Json.numeral atEnd negative c = .ok ({ n.numeral p with negative }, c') := by
  rw [body, List.append_assoc, List.append_assoc] at here
  obtain ⟨c₁, left₁, whole⟩ :=
    wholePart_of atEnd valid.whole valid.noLeadingZero (fraction_head valid stops) here
  obtain ⟨c₂, left₂, fraction⟩ := fractionPart_read atEnd valid stops left₁
  obtain ⟨p, c', left, exponent⟩ := exponentPart_read atEnd valid stops left₂
  refine ⟨p, c', left, ?_⟩
  rw [Json.numeral, whole]
  simp only [bind, Except.bind, fraction, exponent]
  rfl

/-- The number, or why it is refused. -/
def value (n : NumberText) : Except Cause Number := ((n.numeral {}).value ⟨[], {}⟩).mapError Error.cause

/-- Where a number stands matters for the place of an error alone. -/
theorem value_anywhere (n : NumberText) (p : Position) (c : Cursor) :
    ((n.numeral p).value c).mapError Error.cause = n.value := by
  have significand : (n.numeral p).significand = (n.numeral {}).significand := rfl
  rw [value, Numeral.value, Numeral.value, significand]
  cases shape : n.exponent with
  | none =>
    simp only [numeral, shape, Option.map_none]
    split
    · rfl
    · split <;> rfl
  | some parts =>
    obtain ⟨mark, sign, ds⟩ := parts
    simp only [numeral, shape, Option.map_some, Numeral.isWhole, Option.isNone_some, Bool.and_false,
      Bool.false_and, Bool.false_eq_true, if_false]
    split
    · split <;> rfl
    · split <;> rfl

theorem readNumber_ends (valid : n.Valid) (stops : Stops rest) (here : c.rest = n.body ++ rest) :
    Ends rest n.value (readNumber n.negative c) := by
  obtain ⟨p, c', left, read⟩ := numeral_read (.unfinished .value) valid stops n.negative here
  have numeral : { n.numeral p with negative := n.negative } = n.numeral p := rfl
  rw [← value_anywhere n p c', readNumber, read, numeral]
  cases number : (n.numeral p).value c' with
  | error e =>
    simp only [bind, Except.bind, number]
    exact .error
  | ok x =>
    simp only [bind, Except.bind, number]
    exact .ok left

theorem skipNumber_of (valid : n.Valid) (stops : Stops rest) (here : c.rest = n.body ++ rest) :
    ∃ c', c'.rest = rest ∧ skipNumber c = .ok c' := by
  obtain ⟨p, c', left, read⟩ := numeral_read .invalidNumber valid stops false here
  exact ⟨c', left, by rw [skipNumber, read]; rfl⟩

end NumberText

end TraceTally.Json
