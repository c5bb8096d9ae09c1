import TraceTally.Text.Blank
import TraceTally.Text.Digits

/-!
# Durations and their text

A duration is a whole number of nanoseconds. Its text is a number with one of the units `ms`, `s`,
`m`, `h`, `d`, or seconds when no unit is given; blanks may surround the text and the number. A
duration is written in seconds when it has no part below a second, else in whole milliseconds.
-/

namespace TraceTally

structure Duration where
  nanos : Nat
  deriving DecidableEq, Inhabited, Repr

namespace Duration

def ofMillis (n : Nat) : Duration := ⟨n * 10 ^ 6⟩

def ofSeconds (n : Nat) : Duration := ⟨n * 10 ^ 9⟩

/-- Whole milliseconds; a rest below one is dropped. -/
def millis (d : Duration) : Nat := d.nanos / 10 ^ 6

/-- Whole seconds; a rest below one is dropped. -/
def seconds (d : Duration) : Nat := d.nanos / 10 ^ 9

def isZero (d : Duration) : Bool := d.nanos = 0

def double (d : Duration) : Duration := ⟨2 * d.nanos⟩

def half (d : Duration) : Duration := ⟨d.nanos / 2⟩

instance : Add Duration := ⟨fun d e => ⟨d.nanos + e.nanos⟩⟩

instance : Min Duration := ⟨fun d e => ⟨min d.nanos e.nanos⟩⟩

instance : Max Duration := ⟨fun d e => ⟨max d.nanos e.nanos⟩⟩

instance : LE Duration := ⟨fun d e => d.nanos ≤ e.nanos⟩

instance : LT Duration := ⟨fun d e => d.nanos < e.nanos⟩

instance (d e : Duration) : Decidable (d ≤ e) := inferInstanceAs (Decidable (d.nanos ≤ e.nanos))

instance (d e : Duration) : Decidable (d < e) := inferInstanceAs (Decidable (d.nanos < e.nanos))

@[simp] theorem millis_ofMillis (n : Nat) : (ofMillis n).millis = n := by simp [ofMillis, millis]

@[simp] theorem seconds_ofSeconds (n : Nat) : (ofSeconds n).seconds = n := by
  simp [ofSeconds, seconds]

/-- The units of the text form. -/
inductive Scale where
  | millisecond
  | second
  | minute
  | hour
  | day
  deriving DecidableEq, Repr

/-- In the order in which they are looked for: `ms` before the units it ends and begins with. -/
def Scale.all : List Scale := [.millisecond, .second, .minute, .hour, .day]

def Scale.suffix : Scale → List Char
  | .millisecond => ['m', 's']
  | .second => ['s']
  | .minute => ['m']
  | .hour => ['h']
  | .day => ['d']

/-- Seconds have 64 bits, and a number of larger units that passes them wraps. -/
def Scale.times : Scale → Nat → Duration
  | .millisecond, n => ofMillis n
  | .second, n => ofSeconds n
  | .minute, n => ofSeconds (n * 60 % 2 ^ 64)
  | .hour, n => ofSeconds (n * 3600 % 2 ^ 64)
  | .day, n => ofSeconds (n * 86400 % 2 ^ 64)

/-- The unit that ends the text, with the text before it. -/
def Scale.find? (cs : List Char) : Option (Scale × List Char) :=
  Scale.all.findSome? fun u => (Text.dropSuffix? u.suffix cs).map fun body => (u, body)

def read (cs : List Char) : Except Text.NumberError Duration :=
  let body := Text.trim cs
  match Scale.find? body with
  | some (u, number) => (Text.readNat Text.maxNat64 (Text.trim number)).map u.times
  | none => (Text.readNat Text.maxNat64 body).map ofSeconds

def write (d : Duration) : List Char :=
  if d.millis % 1000 = 0 then Text.digits d.seconds ++ ['s'] else Text.digits d.millis ++ ['m', 's']

def ofString? (s : String) : Except Text.NumberError Duration := read s.toList

def toText (d : Duration) : String := String.ofList d.write

/-- When a record made at `created` stops being visible: times are signed 64-bit milliseconds, and
neither the lifetime nor the sum passes their largest value. -/
def expiry (created : Int) (lifetime : Duration) : Int :=
  min (created + min lifetime.millis Text.maxInt64) Text.maxInt64

example : (ofString? " 90 m ").toOption = some (ofSeconds 5400) := by decide +kernel

example : (ofMillis 1500).toText = "1500ms" ∧ (ofMillis 2000).toText = "2s" := by decide +kernel

end Duration

end TraceTally
