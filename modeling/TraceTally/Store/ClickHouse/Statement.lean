import TraceTally.Filter.Predicate
import TraceTally.Store.Basic

/-!
# Statements for a ClickHouse server

A statement is a template with marks. A single question mark stands for a value, which is written as a
literal; `?fields` stands for the columns of a row; two question marks stand for one. Values fill the
marks from left to right, and a statement with a mark left over cannot be sent.
-/

namespace TraceTally.ClickHouse

inductive Part where
  | text (cs : List Char)
  | mark
  | fields
  deriving DecidableEq, Repr

inductive Literal where
  | text (s : String)
  | whole (n : Int)
  deriving DecidableEq, Repr

/-- A text between quotes, with a backslash before each quote and each backslash. -/
def quoted (cs : List Char) : List Char :=
  '\'' :: cs.flatMap (fun c => if c = '\'' || c = '\\' then ['\\', c] else [c]) ++ ['\'']

def Literal.write : Literal → List Char
  | .text s => quoted s.toList
  | .whole n => Text.intDigits n

namespace Template

/-- One more character of text in front. -/
def push (c : Char) : List Part → List Part
  | .text cs :: rest => .text (c :: cs) :: rest
  | parts => .text [c] :: parts

def parse : List Char → List Part
  | [] => []
  | '?' :: '?' :: rest => push '?' (parse rest)
  | '?' :: 'f' :: 'i' :: 'e' :: 'l' :: 'd' :: 's' :: rest => .fields :: parse rest
  | '?' :: rest => .mark :: parse rest
  | c :: rest => push c (parse rest)

/-- The statement with its marks filled, if there is a value for each. -/
def fill? (fields : List Char) : List Part → List Literal → Option (List Char)
  | [], _ => some []
  | .text cs :: rest, values => (fill? fields rest values).map (cs ++ ·)
  | .fields :: rest, values => (fill? fields rest values).map (fields ++ ·)
  | .mark :: rest, v :: values => (fill? fields rest values).map (v.write ++ ·)
  | .mark :: _, [] => none

end Template

def table : String := "events"

/-- The columns of a stored row, in their order. -/
def columns : List String :=
  ["id", "trace_id", "origin", "event", "value", "unit", "created_at_ms", "expires_at_ms"]

/-- The columns as identifiers between backticks. -/
def columnList : List Char := Text.join [','] (columns.map fun c => '\x60' :: c.toList ++ ['\x60'])

def createDatabase (database : String) : String := "CREATE DATABASE IF NOT EXISTS " ++ database

/-- Rows that are written twice fall together by their identifier, and rows past their expiry are
dropped by the server in its own time. -/
def createTable : String :=
  "CREATE TABLE IF NOT EXISTS " ++ table ++ " ( id String, trace_id String, origin String, " ++
    "event String, value Float64, unit String, created_at_ms Int64, expires_at_ms Int64 ) " ++
    "ENGINE = ReplacingMergeTree() " ++
    "PARTITION BY toYYYYMM(fromUnixTimestamp64Milli(created_at_ms)) " ++
    "ORDER BY (trace_id, origin, event, id) " ++
    "TTL toDateTime(fromUnixTimestamp64Milli(expires_at_ms)) " ++
    "SETTINGS index_granularity = 8192"

def insertRows : String :=
  "INSERT INTO " ++ table ++ "(" ++ String.ofList columnList ++ ") FORMAT RowBinary"

/-- The condition of a scan: the filter's, and that the row has not expired. -/
def liveCondition (p : Predicate) : String :=
  if p.isEmpty then "WHERE expires_at_ms > ?" else p.condition ++ " AND expires_at_ms > ?"

def scanRows (p : Predicate) : String :=
  "SELECT ?fields FROM " ++ table ++ " FINAL " ++ liveCondition p

/-- The values of a scan's marks. -/
def scanValues (now : Int) (p : Predicate) : List Literal := p.binds.map .text ++ [.whole now]

def deleteRow : String := "DELETE FROM " ++ table ++ " WHERE id = ?"

def probe : String := "SELECT 1"

/-- The text of a statement. -/
def statement? (template : String) (values : List Literal) : Option (List Char) :=
  Template.fill? columnList (Template.parse template.toList) values

end TraceTally.ClickHouse
