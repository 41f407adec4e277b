import Schurfer.Lib.Dict
import Schurfer.Lib.Except
import Schurfer.Lib.Outbox
import Schurfer.Lib.Threads

/-!
# The decision outbox

`write_decision` appends a decision to a Redis stream, and `run_decision_writer` drains it into `app.trade_decisions`.
Any call may fail before or after it took effect, a Lua script stops at its first command that fails, and an `EXEC`
goes on after one. Values that are arrays or objects are left out of a payload; what Python takes for an ISO time and
Postgres for a uuid is a parameter.
-/

namespace Schurfer.Decisions

inductive Scalar
  | null
  | bool (b : Bool)
  | int (n : ℤ)
  | float (value : ℚ) (text : String)
  | str (s : String)
deriving DecidableEq

def Scalar.repr : Scalar → String
  | .null => "None"
  | .bool true => "True"
  | .bool false => "False"
  | .int n => toString n
  | .float _ text => text
  | .str s => "'" ++ s ++ "'"

def Scalar.truthy : Scalar → Bool
  | .null => false
  | .bool b => b
  | .int n => n ≠ 0
  | .float value _ => value ≠ 0
  | .str s => s ≠ ""

def Scalar.number : Scalar → Option ℚ
  | .bool b => some (if b then 1 else 0)
  | .int n => some n
  | .float value _ => some value
  | _ => none

abbrev Object := List (String × Scalar)

def Object.get (d : Object) (key : String) : Scalar := (d.lookup key).getD .null

inductive Text
  | malformed (s : String)
  | notObject (s : String)
  | object (d : Object)
deriving DecidableEq

abbrev Data := Option Text

inductive ParseError
  | valueError (text : String)
  | keyError (key : String)
  | typeError (text : String)
  | attributeError (text : String)
deriving DecidableEq

def ParseError.text : ParseError → String
  | .valueError text => text
  | .keyError key => "'" ++ key ++ "'"
  | .typeError text => text
  | .attributeError text => text

def Object.require (d : Object) (key : String) : Except ParseError Scalar :=
  match d.lookup key with
  | some v => .ok v
  | none => .error (.keyError key)

def validatePositiveId (value : Scalar) (field : String) : Except ParseError Unit :=
  match value with
  | .null => .ok ()
  | .int n => Except.raiseIf (n ≤ 0) (.valueError (field ++ " must be a positive integer or None"))
  | _ => .error (.valueError (field ++ " must be a positive integer or None"))

structure Formats where
  isIso : String → Bool
  uuid : Scalar → Option ℕ

structure Row where
  ts : String
  base : Scalar
  exchange : Scalar
  action : Scalar
  reason : Scalar
  score : Scalar
  pumpPct : Scalar
  decisionId : Scalar
  strategyVersion : Scalar
  features : Scalar
  liquidity : Scalar
  price : Scalar
  pumpEventId : Scalar
  strategyId : Scalar
  tradingMode : Scalar
  side : Scalar

def schemaVersion : ℤ := 2

def supportedSchemaVersions : List ℚ := [1, 2]

def Formats.fromIsoFormat (formats : Formats) : Scalar → Except ParseError String
  | .str s => if formats.isIso s then .ok s else .error (.valueError ("Invalid isoformat string: '" ++ s ++ "'"))
  | _ => .error (.typeError "fromisoformat: argument must be str")

def rowFromObject (formats : Formats) (d : Object) : Except ParseError Row := do
  let version := d.get "schema_version"
  Except.raiseIf (¬ version.number.any (· ∈ supportedSchemaVersions))
    (.valueError ("unsupported schema_version " ++ version.repr))
  let decisionId ← d.require "decision_id"
  Except.raiseIf (decisionId.truthy = false) (.valueError "missing decision_id")
  let pumpEventId := d.get "pump_event_id"
  validatePositiveId pumpEventId "pump_event_id"
  let strategyId := d.get "strategy_id"
  validatePositiveId strategyId "strategy_id"
  let ts ← formats.fromIsoFormat (← d.require "ts")
  let base ← d.require "base"
  let exchange ← d.require "exchange"
  let action ← d.require "action"
  let reason ← d.require "reason"
  return {
    ts, base, exchange, action, reason
    score := d.get "score"
    pumpPct := d.get "pump_pct"
    decisionId
    strategyVersion := d.get "strategy_version"
    features := d.get "features"
    liquidity := d.get "liquidity"
    price := d.get "price"
    pumpEventId, strategyId
    tradingMode := d.get "trading_mode"
    side := d.get "side" }

def rowFromPayload (formats : Formats) : Data → Except ParseError Row
  | none => .error (.typeError "the JSON object must be str, bytes or bytearray, not NoneType")
  | some (.malformed s) => .error (.valueError s)
  | some (.notObject s) => .error (.attributeError s)
  | some (.object d) => rowFromObject formats d

inductive JsonField
  | none
  | notFinite
  | finite (text : String)

def JsonField.toJsonb : JsonField → Scalar
  | .finite text => .str text
  | _ => .null

def ofOption (value : Option String) : Scalar := (value.map Scalar.str).getD .null

structure Decision where
  base : String
  exchange : String
  action : String
  reason : String
  decisionId : String
  score : Scalar := .null
  pumpPct : Scalar := .null
  strategyVersion : Option String := none
  features : JsonField := .none
  liquidity : JsonField := .none
  price : Scalar := .null
  pumpEventId : Scalar := .null
  strategyId : Scalar := .null
  tradingMode : Option String := none
  side : Option String := none
  seenKey : Option String := none
  seenTtl : Option ℕ := none
  now : String

def Decision.payload (d : Decision) : Text := .object
  [("schema_version", .int schemaVersion), ("ts", .str d.now), ("base", .str d.base), ("exchange", .str d.exchange),
   ("action", .str d.action), ("reason", .str d.reason), ("score", d.score), ("pump_pct", d.pumpPct),
   ("decision_id", .str d.decisionId), ("strategy_version", ofOption d.strategyVersion),
   ("features", d.features.toJsonb), ("liquidity", d.liquidity.toJsonb), ("price", d.price),
   ("pump_event_id", d.pumpEventId), ("strategy_id", d.strategyId), ("trading_mode", ofOption d.tradingMode),
   ("side", ofOption d.side)]

structure State where
  stream : Outbox Data
  group : Option Outbox.Group
  dlq : List (Text × String)
  rows : List (ℕ × Row)
  seen : List String

def State.init : State := ⟨.empty, none, [], [], []⟩

inductive Failure
  | value (e : ParseError)
  | redis
  | busyGroup
  | operational
  | database (text : String)

inductive Op
  | xadd (text : Text)
  | xaddSeen (text : Text) (seenKey : String) (seenTtl : Option ℕ)
  | connect
  | xgroupCreate
  | xautoclaim
  | xreadgroup
  | insert (row : Row)
  | ackDel (id : ℕ)
  | toDlq (text : Text) (reason : String) (id : ℕ)

abbrev Ans : Op → Type
  | .xautoclaim => List (ℕ × Data)
  | .xreadgroup => List (ℕ × Data)
  | _ => Unit

inductive Fate
  | done
  | before
  | after
  /-- a script stops after this many commands -/
  | stops (commands : ℕ)
  /-- the commands of an `EXEC` with these numbers fail, and the others take effect -/
  | fails (commands : List ℕ)
deriving DecidableEq

structure Chance where
  fate : Fate := .done
  error : Failure := .redis
  idle : List ℕ := []

def Fate.single {α : Type} (fate : Fate) (error : Failure) (s s' : State) (a : α) : Except Failure α × State :=
  match fate with
  | .done => (.ok a, s')
  | .after => (.error error, s')
  | .before | .stops _ | .fails _ => (.error error, s)

def Fate.script (fate : Fate) (s : State) (commands : List (State → State)) : Except Failure Unit × State :=
  match fate with
  | .done => (.ok (), commands.foldl (fun s command => command s) s)
  | .after => (.error .redis, commands.foldl (fun s command => command s) s)
  | .before | .fails _ => (.error .redis, s)
  | .stops n => (.error .redis, (commands.take n).foldl (fun s command => command s) s)

def Fate.exec (fate : Fate) (s : State) (commands : List (State → State)) : Except Failure Unit × State :=
  match fate with
  | .fails failing =>
    (.error .redis, (commands.zipIdx.filter (·.2 ∉ failing)).foldl (fun s command => command.1 s) s)
  | .stops _ => (.error .redis, s)
  | fate => fate.script s commands

section

variable (s : State)

def State.xadd (data : Data) : State := { s with stream := s.stream.add data }

def State.setSeen (key : String) : State := { s with seen := if key ∈ s.seen then s.seen else s.seen ++ [key] }

def State.park (text : Text) (reason : String) : State := { s with dlq := s.dlq ++ [(text, reason)] }

def State.xack (id : ℕ) : State := { s with group := s.group.map (·.ack id) }

def State.xdel (id : ℕ) : State := { s with stream := s.stream.delete id }

def State.insert (uuid : ℕ) (row : Row) : State :=
  { s with rows := if uuid ∈ s.rows.map Prod.fst then s.rows else s.rows ++ [(uuid, row)] }

end

def readCount : ℕ := 100

def Fate.ofSet (fate : Fate) (seenTtl : Option ℕ) : Fate :=
  if seenTtl.getD 0 = 0 then
    match fate with
    | .done => .stops 1
    | .after => .stops 1
    | .stops n => .stops (min n 1)
    | fate => fate
  else fate

section

variable (s : State) (c : Chance)

def xgroupCreate : Except Failure Unit × State :=
  match s.group with
  | some _ => (.error (if c.fate = .done then .busyGroup else .redis), s)
  | none => c.fate.single .redis s { s with group := some {} } ()

def xautoclaim : Except Failure (List (ℕ × Data)) × State :=
  match s.group with
  | none => (.error .redis, s)
  | some g => c.fate.single .redis s { s with group := some (g.forget s.stream c.idle) }
      (s.stream.idleEntries g c.idle readCount)

def xreadgroup : Except Failure (List (ℕ × Data)) × State :=
  match s.group with
  | none => (.error .redis, s)
  | some g => c.fate.single .redis s { s with group := some (g.deliver (s.stream.newEntries g readCount)) }
      (s.stream.newEntries g readCount)

def insertRow (formats : Formats) (row : Row) : Except Failure Unit × State :=
  match formats.uuid row.decisionId with
  | none => (.error c.error, s)
  | some uuid => c.fate.single c.error s (s.insert uuid row) ()

end

variable (formats : Formats)

def answer (s : State) : (o : Op) → Chance → Except Failure (Ans o) × State
  | .xadd text, c => c.fate.single .redis s (s.xadd (some text)) ()
  | .xaddSeen text seenKey seenTtl, c => (c.fate.ofSet seenTtl).script s [(·.xadd (some text)), (·.setSeen seenKey)]
  | .connect, c => c.fate.single c.error s s ()
  | .xgroupCreate, c => xgroupCreate s c
  | .xautoclaim, c => xautoclaim s c
  | .xreadgroup, c => xreadgroup s c
  | .insert row, c => insertRow s c formats row
  | .ackDel id, c => c.fate.exec s [(·.xack id), (·.xdel id)]
  | .toDlq text reason id, c => c.fate.script s [(·.park text reason), (·.xack id), (·.xdel id)]

inductive Event
  | backlog (data : Data)
  | expire (key : String)

def State.happens (s : State) : Event → State
  | .backlog data => s.xadd data
  | .expire key => { s with seen := s.seen.filter (· ≠ key) }

def world : Threads.World State Failure Op Ans Chance Event where
  answer _ s o c := answer formats s o c
  env := State.happens
  crash _ s := s

abbrev Script := Prog Failure Op Ans

def check (e : Except ParseError Unit) : Script Unit :=
  match e with
  | .ok _ => return ()
  | .error e => throw (Failure.value e)

def writeDecision (d : Decision) : Script Unit := do
  check (Except.raiseIf (d.decisionId = "")
    (.valueError "write_decision requires a non-empty decision_id for idempotency"))
  check (validatePositiveId d.pumpEventId "pump_event_id")
  check (validatePositiveId d.strategyId "strategy_id")
  match d.seenKey with
  | some seenKey => Prog.perform (Op.xaddSeen d.payload seenKey d.seenTtl)
  | none => Prog.perform (Op.xadd d.payload)

def maxAttempts : ℕ := 5

abbrev Attempts := Dict ℕ ℕ

def settle (attempts : Attempts) (id : ℕ) (o : Op) : Script (Attempts × Option Failure) := do
  match ← Prog.attempt o with
  | .error e => return (attempts, some e)
  | .ok _ => return (attempts.erase id, none)

def toDlq (attempts : Attempts) (id : ℕ) (data : Data) (reason : String) : Script (Attempts × Option Failure) :=
  settle attempts id (.toDlq (data.getD (.malformed "")) reason id)

def handle (id : ℕ) (data : Data) (attempts : Attempts) : Script (Attempts × Option Failure) := do
  match rowFromPayload formats data with
  | .error (.attributeError text) => return (attempts, some (.value (.attributeError text)))
  | .error e => toDlq attempts id data ("parse: " ++ e.text)
  | .ok row =>
    match ← Prog.attempt (Op.insert row) with
    | .ok _ => settle attempts id (.ackDel id)
    | .error .operational => return (attempts, some .operational)
    | .error e =>
      let n := (attempts.lookup id).getD 0 + 1
      let counted := attempts.insert id n
      if maxAttempts ≤ n then toDlq counted id data (match e with | .database text => text | _ => "")
      else return (counted, none)

def handleAll : List (ℕ × Data) → Attempts → Script (Attempts × Option Failure)
  | [], attempts => return (attempts, none)
  | (id, data) :: batch, attempts => do
    match ← handle formats id data attempts with
    | (attempts, some e) => return (attempts, some e)
    | (attempts, none) => handleAll batch attempts

def readBatch : Script (List (ℕ × Data)) := do
  let claimed ← Prog.perform Op.xautoclaim
  if claimed ≠ [] then return claimed
  else Prog.perform Op.xreadgroup

/-- The inner loop, for at most `rounds` rounds: the attempts after an exception, and nothing while it runs. -/
def drain : ℕ → Attempts → Script (Option Attempts)
  | 0, _ => return none
  | rounds + 1, attempts => do
    match ← readBatch.outcome with
    | .error _ => return some attempts
    | .ok batch =>
      match ← handleAll formats batch attempts with
      | (attempts, some _) => return some attempts
      | (attempts, none) => drain rounds attempts

def ensureGroup : Script (Option Failure) := do
  match ← Prog.attempt Op.xgroupCreate with
  | .ok _ => return none
  | .error .busyGroup => return none
  | .error e => return some e

def runDecisionWriter : ℕ → Attempts → Script Unit
  | 0, _ => return ()
  | rounds + 1, attempts => do
    match ← Prog.attempt Op.connect with
    | .error _ => runDecisionWriter rounds attempts
    | .ok _ =>
      match ← ensureGroup with
      | some _ => runDecisionWriter rounds attempts
      | none =>
        match ← drain formats rounds attempts with
        | some attempts => runDecisionWriter rounds attempts
        | none => return ()

inductive Task
  | write (d : Decision)
  | writer (rounds : ℕ)

def Task.program : Task → Script Unit
  | .write d => writeDecision d
  | .writer rounds => runDecisionWriter formats rounds ∅

end Schurfer.Decisions
