import TraceTally.Store.ClickHouse.Rows
import TraceTally.Store.ClickHouse.Statement
import TraceTally.Text.Blank

/-!
# The store in a ClickHouse server

Every operation is one request over HTTP. A statement that only reads goes in the address of a GET, or
in the body of a POST when it is long; any other statement goes in the body of a POST, and rows to
insert in the body of a POST whose address has the statement. How requests travel is a parameter: a
transport answers a request, or says why the server cannot be reached.
-/

namespace TraceTally.ClickHouse

open Text (Bytes)

inductive Method where
  | get
  | post
  deriving DecidableEq, Repr

structure Request where
  method : Method
  /-- Parameters of the address, the statement apart. -/
  parameters : List (String × String)
  statement : String
  rows : Bytes := []
  user : Option String := none
  password : Option String := none
  deriving DecidableEq, Repr

structure Reply where
  status : Nat := 200
  body : Bytes := []
  deriving DecidableEq, Repr

/-- Why a request came to nothing. -/
inductive Fault where
  /-- The server cannot be reached, for a reason that the operating system gives. -/
  | network (reason : String)
  | badResponse (text : String)
  | unboundMark
  | rows (e : RowError)
  deriving DecidableEq, Repr

namespace Fault

/-- A fault and the faults behind it, the outermost first. -/
def chain : Fault → List String
  | .network reason =>
    let tcp := "tcp connect error: " ++ reason
    let connect := "error trying to connect: " ++ tcp
    ["network error: " ++ connect, connect, tcp, reason]
  | .badResponse text => ["bad response: " ++ text]
  | .unboundMark => ["invalid params: unbound query argument"]
  | .rows e => [e.message]

def message (f : Fault) : String := f.chain.headD ""

/-- The whole chain behind what was being done. -/
def describe (f : Fault) (doing : String) : String := ": ".intercalate (doing :: f.chain)

end Fault

structure Account where
  database : Option String := none
  user : Option String := none
  password : Option String := none
  deriving DecidableEq, Repr

structure Server (τ : Type) where
  account : Account
  /-- Answers a request, or says why the server cannot be reached. -/
  send : Request → τ → Except String Reply × τ
  line : τ
  /-- The `n`-th identifier. -/
  source : Nat → RowId := id
  minted : Nat := 0

namespace Server

variable {τ : Type}

/-- What every request but an insertion asks of the server. -/
def options : List (String × String) := [("connect_timeout", "10"), ("receive_timeout", "30")]

/-- Statements that only read and are longer than this go in a body. -/
def longStatement : Nat := 8192

def databaseParameter (a : Account) : List (String × String) :=
  (a.database.map fun d => ("database", d)).toList

def request (a : Account) (reads : Bool) (statement : List Char) : Request :=
  let byBody := !reads || longStatement < Text.byteLength statement
  { method := if byBody then .post else .get
    parameters := databaseParameter a ++ (if byBody && reads then [("readonly", "1")] else []) ++ options
    statement := String.ofList statement, user := a.user, password := a.password }

def insertion (a : Account) (records : List (Record Binary64)) : Request :=
  { method := .post, parameters := databaseParameter a, statement := insertRows
    rows := records.flatMap writeRow, user := a.user, password := a.password }

/-- The content of a reply that is not an error. -/
def content (r : Reply) : Except Fault Bytes :=
  if r.status = 200 then .ok r.body
  else match Text.ofUtf8? r.body with
    | some text => .error (.badResponse (String.ofList (Text.trim text)))
    | none => .error (.badResponse (String.ofList (Text.digits r.status)))

def exchange (r : Request) (s : Server τ) : Except Fault Bytes × Server τ :=
  let (reply, line) := s.send r s.line
  ((reply.mapError .network).bind content, { s with line })

/-- A statement that is not filled is not sent. -/
def perform (reads : Bool) (template : String) (values : List Literal) (ending : String) (s : Server τ) :
    Except Fault Bytes × Server τ :=
  match statement? template values with
  | none => (.error .unboundMark, s)
  | some text => s.exchange (request s.account reads (text ++ ending.toList))

def execute (template : String) (values : List Literal) (s : Server τ) :
    Except Fault Unit × Server τ :=
  let (r, s) := s.perform false template values ""
  (r.map fun _ => (), s)

def scan (now : Int) (p : Predicate) (s : Server τ) :
    Except Fault (List (ScannedRow Binary64)) × Server τ :=
  let (r, s) := s.perform true (scanRows p) (scanValues now p) " FORMAT RowBinary"
  (r.bind fun bytes => (readRows bytes).mapError .rows, s)

/-- Makes database and table where they are missing. What goes wrong is told with all that is behind
it. -/
def prepare (database : String) (s : Server τ) : Except String Unit × Server τ :=
  match s.execute (createDatabase database) [] with
  | (.error f, s) => (.error (f.describe "Create ClickHouse database"), s)
  | (.ok (), s) =>
    let s := { s with account := { s.account with database := some database } }
    match s.execute createTable [] with
    | (.error f, s) => (.error (f.describe "Create ClickHouse table"), s)
    | (.ok (), s) => (.ok (), s)

def unavailable (f : Fault) : Failure := .storeUnavailable f.message

instance : EventStore (Server τ) Binary64 where
  name := "clickhouse"
  newRowId s := (.ok (s.source s.minted), { s with minted := s.minted + 1 })
  writeBatch _ records s :=
    let (r, s) := s.exchange (insertion s.account records)
    ((r.mapError fun f => .storeWriteFailed f.message).map fun _ => (), s)
  scan now p s := let (r, s) := s.scan now p; (r.mapError unavailable, s)
  deleteRow id s :=
    let (r, s) := s.execute deleteRow [.text (String.ofList (writeId id))]
    (r.mapError unavailable, s)
  ping s := let (r, s) := s.execute probe []; (r.mapError unavailable, s)

end Server

end TraceTally.ClickHouse
