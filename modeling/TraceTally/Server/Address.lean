import TraceTally.Text.Bytes
import TraceTally.Text.Digits
import TraceTally.Text.Blank

/-!
# Socket addresses

An address of version 4 with a port, as `1.2.3.4:80`, or of version 6 in brackets, as `[::1]:80`. The
parts of version 4 have no leading zeros. In version 6 two colons stand once at most for a run of zero
groups, the last two groups may be written like version 4, and a scope may follow behind a percent
sign.
-/

namespace TraceTally

structure SocketAddress where
  /-- Four bytes, or eight groups of sixteen bits. -/
  groups : List Nat
  scope : Nat := 0
  port : Nat
  deriving DecidableEq, Repr

namespace SocketAddress

open Text (digitValue? hexValue?)

/-- The digits at the start, at least one and no more than `most`, as a number. -/
def digitsAt? (base : Nat) (value? : Char → Option Nat) (most : Nat) (cs : List Char) :
    Option (Nat × List Char) :=
  let ds := cs.takeWhile fun c => (value? c).isSome
  if ds.isEmpty || most < ds.length then none
  else some (ds.foldl (fun n d => base * n + (value? d).getD 0) 0, cs.drop ds.length)

/-- A number that ends the text. -/
def port? (cs : List Char) : Option Nat :=
  match digitsAt? 10 digitValue? cs.length cs with
  | some (n, []) => if n < 2 ^ 16 then some n else none
  | _ => none

def byte? (cs : List Char) : Option (Nat × List Char) :=
  match digitsAt? 10 digitValue? 3 cs with
  | some (n, rest) =>
    if 255 < n || (cs.head? = some '0' && rest.length + 1 < cs.length) then none else some (n, rest)
  | none => none

/-- The four bytes of version 4. -/
def four? (cs : List Char) : Option (List Nat × List Char) := do
  let (a, cs) ← byte? cs
  let cs ← Text.dropStart? ['.'] cs
  let (b, cs) ← byte? cs
  let cs ← Text.dropStart? ['.'] cs
  let (c, cs) ← byte? cs
  let cs ← Text.dropStart? ['.'] cs
  let (d, cs) ← byte? cs
  some ([a, b, c, d], cs)

def pairs : List Nat → List Nat
  | [a, b, c, d] => [256 * a + b, 256 * c + d]
  | gs => gs

/-- What was read of an address of version 6. -/
structure Groups where
  groups : List Nat := []
  /-- Whether the last two were written like version 4. -/
  mixed : Bool := false
  rest : List Char

/-- Up to `most` groups with colons between them. -/
def groupsAt (first : Bool) : Nat → List Char → Groups
  | 0, cs => { rest := cs }
  | most + 1, cs =>
    match (if first then some cs else Text.dropStart? [':'] cs) with
    | none => { rest := cs }
    | some body =>
      match (if 0 < most then four? body else none) with
      | some (bytes, rest) => { groups := pairs bytes, mixed := true, rest }
      | none =>
        match digitsAt? 16 hexValue? 4 body with
        | none => { rest := cs }
        | some (g, rest) =>
          let more := groupsAt false most rest
          { more with groups := g :: more.groups }

/-- The eight groups of version 6. -/
def eight? (cs : List Char) : Option (List Nat × List Char) :=
  let head := groupsAt true 8 cs
  let n := head.groups.length
  if n = 8 then some (head.groups, head.rest)
  else if head.mixed then none
  else
    (Text.dropStart? [':', ':'] head.rest).map fun rest =>
      let tail := groupsAt true (7 - n) rest
      (head.groups ++ List.replicate (8 - n - tail.groups.length) 0 ++ tail.groups, tail.rest)

/-- The scope behind a percent sign, if there is one. -/
def scope? (cs : List Char) : Option (Nat × List Char) :=
  match cs with
  | '%' :: rest =>
    match digitsAt? 10 digitValue? rest.length rest with
    | some (n, rest) => if n < 2 ^ 32 then some (n, rest) else none
    | none => none
  | cs => some (0, cs)

def read? (s : String) : Option SocketAddress :=
  match s.toList with
  | '[' :: rest => do
    let (groups, rest) ← eight? rest
    let (scope, rest) ← scope? rest
    let rest ← Text.dropStart? [']', ':'] rest
    let port ← port? rest
    some { groups, scope, port }
  | cs => do
    let (groups, rest) ← four? cs
    let rest ← Text.dropStart? [':'] rest
    let port ← port? rest
    some { groups, port }

example : read? "127.0.0.1:80" = some { groups := [127, 0, 0, 1], port := 80 } := by decide +kernel

example : read? "[::1]:80" = some { groups := [0, 0, 0, 0, 0, 0, 0, 1], port := 80 } := by
  decide +kernel

example : read? "127.0.0.1:99999" = none ∧ read? "127.0.0.01:1" = none ∧ read? "localhost:1" = none := by
  decide +kernel

end SocketAddress

end TraceTally
