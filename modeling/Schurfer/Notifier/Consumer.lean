import Schurfer.Lib.Dict
import Schurfer.Lib.Outbox
import Schurfer.Lib.Serial

/-!
# The delivery consumer of the notifier

`StreamConsumer` reads only entries that were never handed out (`>`). How a text is unmarshalled, and the hash of a
payload, are parameters. A batch is sorted as `sort.SliceStable` sorts up to twenty messages, and as it sorts any
number of them that can all be unmarshalled.
-/

namespace Schurfer.Notifier

inductive MetadataValue
  | str (s : String)
  | other

structure Payload where
  text : String
  metadata : List (String × MetadataValue) := []

structure Envelope where
  schemaVersion : ℤ
  notificationId : String
  dedupKey : String
  producer : String
  kind : String
  severity : String
  createdAt : ℤ
  payload : Payload

abbrev Key := String × String

def Envelope.key (env : Envelope) : Key := (env.producer, env.dedupKey)

def Envelope.parseMode (env : Envelope) : String :=
  match env.payload.metadata.lookup "parse_mode" with
  | some (.str s) => s
  | _ => ""

def severityWeight (severity : String) : ℕ :=
  if severity = "critical" then 5
  else if severity = "warning" then 4
  else if severity = "trade" then 3
  else if severity = "research" then 2
  else if severity = "info" then 1
  else 0

structure Codec where
  unmarshal : String → Option Envelope
  payloadHash : Payload → ℕ

abbrev Data := Option String

structure Message where
  id : ℕ
  data : Data
deriving DecidableEq

section

variable (codec : Codec)

def parseEnvelope (data : Data) : Option Envelope := data.bind codec.unmarshal

def before (x y : Message) : Bool :=
  match parseEnvelope codec x.data, parseEnvelope codec y.data with
  | some envX, some envY => severityWeight envY.severity < severityWeight envX.severity
  | _, _ => false

def insertSorted (x : Message) : List Message → List Message
  | [] => [x]
  | y :: sorted => if before codec x y then y :: insertSorted x sorted else x :: y :: sorted

def sortBySeverity (msgs : List Message) : List Message :=
  (msgs.foldl (fun sorted x => insertSorted codec x sorted) []).reverse

end

inductive DeliveryStatus
  | pending | delivered | failed
deriving DecidableEq

structure Delivery where
  status : DeliveryStatus
  attemptCount : ℕ
  payloadHash : ℕ
  lastError : Option String := none

abbrev Deliveries := Dict Key Delivery

inductive Tx
  | closed
  | active (rows : Deliveries)
  | aborted

structure State where
  stream : Outbox Data
  group : Option Outbox.Group
  dlq : List (String × String)
  deliveries : Deliveries
  tx : Tx
  /-- what Telegram was sent, by its key -/
  sent : List Key

inductive Failure
  | redis
  | redisNil
  | busyGroup
  | database
  | rateLimit
  | telegram (text : String)
deriving DecidableEq

inductive Op
  | xgroupCreate
  | xreadgroup
  | begin
  | upsert (env : Envelope) (entryId : ℕ) (hash : ℕ)
  | wait
  | updateAttempt (key : Key) (attemptCount : ℕ)
  | sendMessage (key : Key) (text parseMode : String)
  | markDelivered (key : Key)
  | markFailed (key : Key) (error : String)
  | commit
  | rollback
  | dlqAdd (data : String) (reason : String)
  | xack (id : ℕ)
  | xdel (id : ℕ)

abbrev Ans : Op → Type
  | .xreadgroup => List Message
  | .upsert _ _ _ => Delivery
  | _ => Unit

inductive Fate
  | done | before | after
deriving DecidableEq

structure Chance where
  fate : Fate := .done
  error : String := ""

def Fate.effect {α : Type} (fate : Fate) (failure : Failure) (s s' : State) (a : α) : Except Failure α × State :=
  match fate with
  | .done => (.ok a, s')
  | .before => (.error failure, s)
  | .after => (.error failure, s')

section

variable (s : State) (c : Chance)

def xgroupCreate : Except Failure Unit × State :=
  match s.group with
  | some _ => (.error (if c.fate = .done then .busyGroup else .redis), s)
  | none => c.fate.effect .redis s { s with group := some {} } ()

def xreadgroup : Except Failure (List Message) × State :=
  match s.group with
  | none => (.error .redis, s)
  | some g =>
    let batch := s.stream.newEntries g 50
    if batch = [] then (.error (if c.fate = .done then .redisNil else .redis), s)
    else c.fate.effect .redis s { s with group := some (g.deliver batch) } (batch.map fun e => ⟨e.1, e.2⟩)

def execTx {α : Type} (run : Deliveries → α × Deliveries) : Except Failure α × State :=
  match s.tx with
  | .active rows =>
    match c.fate with
    | .done => (.ok (run rows).1, { s with tx := .active (run rows).2 })
    | _ => (.error .database, { s with tx := .aborted })
  | _ => (.error .database, s)

def upsertRow (key : Key) (hash : ℕ) (rows : Deliveries) : Delivery × Deliveries :=
  match rows.lookup key with
  | some row => (row, rows)
  | none => (⟨.pending, 0, hash, none⟩, AList.insert key ⟨.pending, 0, hash, none⟩ rows)

def updateRow (key : Key) (set : Delivery → Delivery) (rows : Deliveries) : Unit × Deliveries :=
  match rows.lookup key with
  | some row => ((), AList.insert key (set row) rows)
  | none => ((), rows)

def commit : Except Failure Unit × State :=
  match s.tx with
  | .active rows => c.fate.effect .database { s with tx := .closed } { s with deliveries := rows, tx := .closed } ()
  | _ => (.error .database, { s with tx := .closed })

def answer : (o : Op) → Except Failure (Ans o) × State
  | .xgroupCreate => xgroupCreate s c
  | .xreadgroup => xreadgroup s c
  | .begin => c.fate.effect .database s { s with tx := .active s.deliveries } ()
  | .upsert env _ hash => execTx s c (upsertRow env.key hash)
  | .wait => c.fate.effect .rateLimit s s ()
  | .updateAttempt key attemptCount => execTx s c (updateRow key fun row => { row with attemptCount })
  | .sendMessage key _ _ => c.fate.effect (.telegram c.error) s { s with sent := s.sent ++ [key] } ()
  | .markDelivered key => execTx s c (updateRow key fun row => { row with status := .delivered })
  | .markFailed key error =>
    execTx s c (updateRow key fun row => { row with status := .failed, lastError := some error })
  | .commit => commit s c
  | .rollback => c.fate.effect .database { s with tx := .closed } { s with tx := .closed } ()
  | .dlqAdd data reason => c.fate.effect .redis s { s with dlq := s.dlq ++ [(data, reason)] } ()
  | .xack id => c.fate.effect .redis s { s with group := s.group.map (·.ack id) } ()
  | .xdel id => c.fate.effect .redis s { s with stream := s.stream.delete id } ()

end

inductive Event
  | enqueue (data : Data)

def State.happens (s : State) : Event → State
  | .enqueue data => { s with stream := s.stream.add data }

def world : Threads.World State Failure Op Ans Chance Event where
  answer _ s o c := answer s c o
  env := State.happens
  crash _ s := s

abbrev Script := Prog Failure Op Ans

def call (o : Op) : Script (Except Failure (Ans o)) := Prog.attempt o

def maxRetries : ℕ := 3

def ackAndDel (id : ℕ) : Script Unit := do
  let _ ← call (.xack id)
  let _ ← call (.xdel id)

def moveToDLQ (msg : Message) (reason : String) : Script Unit := do
  match ← call (.dlqAdd (msg.data.getD "") reason) with
  | .error _ => return ()
  | .ok _ => ackAndDel msg.id

def Failure.text : Failure → String
  | .telegram text => text
  | _ => ""

def finish (msg : Message) (key : Key) (attemptCount : ℕ) : Except Failure Unit → Script Unit
  | .ok _ => do
    let _ ← call (.markDelivered key)
    let _ ← call .commit
    ackAndDel msg.id
  | .error e => do
    if maxRetries ≤ attemptCount then
      let _ ← call (.markFailed key e.text)
      let _ ← call .commit
      moveToDLQ msg e.text
    else
      let _ ← call .commit

def deliver (msg : Message) (env : Envelope) (attemptCount : ℕ) : Script Unit := do
  match ← call .wait with
  | .error _ => return ()
  | .ok _ =>
    match ← call (.updateAttempt env.key (attemptCount + 1)) with
    | .error _ => return ()
    | .ok _ =>
      let sendErr ← call (.sendMessage env.key env.payload.text env.parseMode)
      finish msg env.key (attemptCount + 1) sendErr

section

variable (codec : Codec)

def handle (msg : Message) (env : Envelope) : Script Unit := do
  let hash := codec.payloadHash env.payload
  match ← call (.upsert env msg.id hash) with
  | .error _ => return ()
  | .ok row =>
    if row.payloadHash ≠ hash then
      let _ ← call .commit
      moveToDLQ msg "mismatched payload hash for same dedup_key"
    else if row.status = .delivered then
      let _ ← call .commit
      ackAndDel msg.id
    else deliver msg env row.attemptCount

def processMessage (msg : Message) : Script Unit := do
  match parseEnvelope codec msg.data with
  | none => moveToDLQ msg "invalid envelope data format"
  | some env =>
    match ← call .begin with
    | .error _ => return ()
    | .ok _ =>
      handle codec msg env
      -- the deferred rollback
      let _ ← call .rollback

def processAll : List Message → Script Unit
  | [] => return ()
  | msg :: msgs => do
    processMessage codec msg
    processAll msgs

inductive Round
  | setupGroup
  | read

def Round.program : Round → Script Unit
  | .setupGroup => do
    let _ ← call .xgroupCreate
  | .read => do
    match ← call .xreadgroup with
    | .error _ => return ()
    | .ok msgs => processAll codec (sortBySeverity codec msgs)

end

end Schurfer.Notifier
