import TraceTally.Json.Cursor

/-!
# JSON strings

Between double quotes stand characters and escapes. A code point past U+FFFF can be written as two
escapes, a leading and a trailing surrogate, and neither may stand alone. A string that is only passed
over is held to less: its escapes need four digits but no pairs.
-/

namespace TraceTally.Json

/-- The control codes with a letter of their own, the quote and the backslash; other control codes go
by number. -/
def escapeChar (c : Char) : List Char :=
  match c with
  | '"' => ['\\', '"']
  | '\\' => ['\\', '\\']
  | '\x08' => ['\\', 'b']
  | '\x0c' => ['\\', 'f']
  | '\n' => ['\\', 'n']
  | '\r' => ['\\', 'r']
  | '\t' => ['\\', 't']
  | c =>
    if c.toNat < 0x20 then
      ['\\', 'u', '0', '0', Text.hexDigit (c.toNat / 16), Text.hexDigit (c.toNat % 16)]
    else [c]

def writeString (s : String) : List Char := '"' :: s.toList.flatMap escapeChar ++ ['"']

/-- Whether a string is kept or only passed over. -/
inductive Purpose where
  | keep
  | skip
  deriving DecidableEq, Repr

/-- The place `n` bytes behind, by the characters that stand there. -/
def Position.afterBytes (p : Position) : Nat → List Char → Position
  | _, [] => p
  | n, d :: rest =>
    let width := (Text.utf8Char d).length
    if n = 0 then p
    else if n < width then ⟨p.breaks, p.column + n⟩
    else (p.after d width).afterBytes (n - width) rest

/-- Four hexadecimal digits. -/
def fourDigits (c : Cursor) : Except Error (Nat × Cursor) :=
  let fail (_ : Unit) : Except Error (Nat × Cursor) :=
    if Text.byteLength c.rest < 4 then
      .error ⟨.unfinished .string, c.position.afterBytes (Text.byteLength c.rest) c.rest⟩
    else .error ⟨.invalidEscape, c.position.afterBytes 4 c.rest⟩
  match c.rest with
  | w :: x :: y :: z :: rest =>
    match Text.hexValue? w, Text.hexValue? x, Text.hexValue? y, Text.hexValue? z with
    | some w, some x, some y, some z =>
      .ok (((w * 16 + x) * 16 + y) * 16 + z, ⟨rest, c.position.afterBytes 4 c.rest⟩)
    | _, _, _, _ => fail ()
  | _ => fail ()

def isLeading (n : Nat) : Bool := 0xD800 ≤ n && n < 0xDC00

def isTrailing (n : Nat) : Bool := 0xDC00 ≤ n && n < 0xE000

/-- The second escape of a pair whose first was the leading surrogate `n`. -/
def trailing (n : Nat) (c : Cursor) : Except Error (Char × Cursor) :=
  match c.rest with
  | [] => c.failHere (.unfinished .string)
  | '\\' :: _ =>
    let c := c.advance
    match c.rest with
    | [] => c.failHere (.unfinished .string)
    | 'u' :: _ => do
      let (m, c) ← fourDigits c.advance
      if isTrailing m then
        .ok (Char.ofNat (0x10000 + (n - 0xD800) * 0x400 + (m - 0xDC00)), c)
      else c.failHere .loneSurrogate
    | _ :: _ => c.failNext .unfinishedPair
  | _ :: _ => c.failNext .unfinishedPair

/-- A code point by number. A string that is passed over has no use for it. -/
def numbered (purpose : Purpose) (c : Cursor) : Except Error (Char × Cursor) := do
  let (n, c) ← fourDigits c
  match purpose with
  | .skip => .ok (Char.ofNat n, c)
  | .keep =>
    if isTrailing n then c.failHere .loneSurrogate
    else if isLeading n then trailing n c
    else .ok (Char.ofNat n, c)

/-- What follows a backslash. -/
def escape (purpose : Purpose) (c : Cursor) : Except Error (Char × Cursor) :=
  match c.rest with
  | [] => c.failHere (.unfinished .string)
  | '"' :: _ => .ok ('"', c.advance)
  | '\\' :: _ => .ok ('\\', c.advance)
  | '/' :: _ => .ok ('/', c.advance)
  | 'b' :: _ => .ok ('\x08', c.advance)
  | 'f' :: _ => .ok ('\x0c', c.advance)
  | 'n' :: _ => .ok ('\n', c.advance)
  | 'r' :: _ => .ok ('\r', c.advance)
  | 't' :: _ => .ok ('\t', c.advance)
  | 'u' :: _ => numbered purpose c.advance
  | _ :: _ => c.failNext .invalidEscape

theorem fourDigits_length {c c' : Cursor} {n : Nat} (h : fourDigits c = .ok (n, c')) :
    c'.rest.length < c.rest.length := by
  obtain ⟨r, p⟩ := c
  unfold fourDigits at h
  dsimp only at h
  split at h
  · split at h
    · cases h
      simp only [List.length_cons]
      omega
    · split at h <;> cases h
  · split at h <;> cases h

theorem trailing_length {n : Nat} {c c' : Cursor} {d : Char} (h : trailing n c = .ok (d, c')) :
    c'.rest.length < c.rest.length := by
  unfold trailing at h
  split at h
  · cases h
  · rename_i h₁
    have l₁ := Cursor.advance_length h₁
    dsimp only at h
    split at h
    · cases h
    · rename_i h₂
      have l₂ := Cursor.advance_length h₂
      cases hf : fourDigits c.advance.advance with
      | error e => rw [hf] at h; cases h
      | ok v =>
        obtain ⟨m, c₂⟩ := v
        have l₃ := fourDigits_length hf
        rw [hf] at h
        simp only [bind, Except.bind] at h
        split at h
        · rw [← (Prod.mk.inj (Except.ok.inj h)).2]; omega
        · cases h
    · cases h
  · cases h

theorem numbered_length {purpose : Purpose} {c c' : Cursor} {d : Char}
    (h : numbered purpose c = .ok (d, c')) : c'.rest.length < c.rest.length := by
  unfold numbered at h
  cases hf : fourDigits c with
  | error e => rw [hf] at h; cases h
  | ok v =>
    obtain ⟨m, c₂⟩ := v
    have l := fourDigits_length hf
    rw [hf] at h
    simp only [bind, Except.bind] at h
    split at h
    · cases h; exact l
    · split at h
      · cases h
      · split at h
        · exact Nat.lt_trans (trailing_length h) l
        · cases h; exact l

theorem escape_length {purpose : Purpose} {c c' : Cursor} {d : Char}
    (h : escape purpose c = .ok (d, c')) : c'.rest.length < c.rest.length := by
  unfold escape at h
  split at h
  case h_1 => cases h
  case h_10 hr => exact Nat.lt_trans (numbered_length h) (Cursor.advance_length hr)
  case h_11 => cases h
  all_goals
    rename_i hr
    cases h
    exact Cursor.advance_length hr

/-- The characters up to the closing quote. -/
def stringBody (purpose : Purpose) (c : Cursor) : Except Error (List Char × Cursor) :=
  match _hr : c.rest with
  | [] => c.failHere (.unfinished .string)
  | d :: _ =>
    if d = '"' then .ok ([], c.advance)
    else if d = '\\' then
      match _h : escape purpose c.advance with
      | .error e => .error e
      | .ok (x, c') => (stringBody purpose c').map fun (xs, c) => (x :: xs, c)
    else if d.toNat < 0x20 then
      match purpose with
      | .keep => c.failNext .controlCharacter
      | .skip => c.failHere .controlCharacter
    else (stringBody purpose c.advance).map fun (xs, c) => (d :: xs, c)
termination_by c.rest.length
decreasing_by
  · exact Nat.lt_trans (escape_length (by assumption)) (Cursor.advance_length (by assumption))
  · exact Cursor.advance_length (by assumption)

end TraceTally.Json
