import Schurfer.LateFill.Resolve

/-!
# The attempts, the tasks and the exchange

The exchange answers with orders that are its own at that moment, though perhaps not with all of them, and a terminal
order stays as it is. Every call may raise, and a write that raised may have been made. The surroundings may take any
free lock, rewrite attempts and trades, and create tasks; a task is never deleted.
-/

namespace Schurfer.LateFill

open Orders Threads EmergencyClose

structure AttemptRow where
  id : ℕ
  isEntry : Bool
  clientOrderId : String
  exchange : String
  base : String
  status : AttemptStatus
  orderId : Option String
  requestedAmount : Option ℚ
  filledAmount : Option ℚ
  initialSlPct : Option ℚ
  tradeId : Option ℕ
  taskId : Option ℕ

structure TradeRow where
  exchange : String
  symbol : String
  isOpen : Bool
  paper : Bool

structure TaskRow where
  id : ℕ
  spec : TaskSpec
  status : TaskStatus

def TaskRow.isActive (task : TaskRow) : Bool := task.status.isRunnable || task.status = .manualRequired

inductive Holder
  | thread (i : ℕ)
  | other
deriving DecidableEq

structure State where
  locks : String → Option Holder
  orders : List Order
  attempts : List AttemptRow
  trades : List TradeRow
  tasks : List TaskRow

def isUnresolved : AttemptStatus → Bool
  | .pending | .accepted | .submissionUnknown | .manualRequired => true
  | _ => false

variable (s : State)

def State.openTrade (exchange symbol : String) : Bool :=
  s.trades.any fun t => t.isOpen && t.exchange = exchange && t.symbol = symbol && !t.paper

def State.ownTasks (attemptId : ℕ) : List ℕ :=
  (s.tasks.filter (·.spec.sourceAttemptId = attemptId)).map (·.id)

def State.otherUnresolvedAttempt (exchange base : String) (attemptId : ℕ) : Bool :=
  s.attempts.any fun row => row.exchange = exchange && row.base.toUpper = base.toUpper &&
    row.id ≠ attemptId && isUnresolved row.status &&
    (row.taskId.all fun taskId => taskId ∉ s.ownTasks attemptId)

def State.otherActiveTask (exchange base : String) (attemptId : ℕ) : Bool :=
  s.tasks.any fun task => task.spec.exchange = exchange && task.spec.base = base.toUpper &&
    task.spec.sourceAttemptId ≠ attemptId && task.isActive

def State.readAttempt (attemptId : ℕ) : Option AttemptRead :=
  (s.attempts.find? fun row => row.id = attemptId && row.isEntry).map fun row =>
    ⟨row.status, row.tradeId, row.initialSlPct⟩

def State.hasTask (attemptId : ℕ) : Bool := s.tasks.any (·.spec.sourceAttemptId = attemptId)

def freshId (ids : List ℕ) : ℕ := (ids.max?.getD 0) + 1

def adoptedRows (spec : TaskSpec) (taskId : ℕ) : ℕ → List AdoptedClose → List AttemptRow
  | _, [] => []
  | id, close :: closes =>
    { id := id
      isEntry := false
      clientOrderId := close.clientOrderId
      exchange := spec.exchange
      base := spec.base.toUpper
      status := close.status
      orderId := close.orderId
      requestedAmount := close.requestedAmount
      filledAmount := close.filledAmount
      initialSlPct := none
      tradeId := none
      taskId := some taskId } :: adoptedRows spec taskId (id + 1) closes

def State.conflicts (spec : TaskSpec) (adopted : List AdoptedClose) : Bool :=
  (s.tasks.any fun task => task.isActive && task.spec.exchange = spec.exchange &&
    task.spec.nativeMarketId = spec.nativeMarketId && task.spec.marketType = spec.marketType &&
    task.spec.side = spec.side) ||
  !(s.attempts.map (·.clientOrderId) ++ adopted.map (·.clientOrderId)).Nodup

def State.addTask (spec : TaskSpec) (adopted : List AdoptedClose) : State :=
  let id := freshId (s.tasks.map (·.id))
  { s with
    tasks := s.tasks ++ [⟨id, { spec with base := spec.base.toUpper }, .requested⟩]
    attempts := s.attempts ++ adoptedRows spec id (freshId (s.attempts.map (·.id))) adopted }

def State.createTask (spec : TaskSpec) (adopted : List AdoptedClose) : Except Failure (ℕ × Bool) × State :=
  if isEntryClientOrderId spec.entryClientOrderId = false then
    (.error (.other "emergency close needs a derived-id entry clientOrderId"), s)
  else if spec.ownedQuantity ≤ 0 then
    (.error (.other "emergency close needs a side and a positive owned quantity"), s)
  else
    match s.tasks.find? (·.spec.sourceAttemptId = spec.sourceAttemptId) with
    | some task => (.ok (task.id, false), s)
    | none =>
      if s.conflicts spec adopted then
        (.error (.taskConflict "duplicate key value violates unique constraint"), s)
      else (.ok (freshId (s.tasks.map (·.id)), true), s.addTask spec adopted)

def State.record (attempt : Attempt) (order : Order) : State :=
  let (status, filled, _) := attemptStateFromOrder order
  { s with attempts := s.attempts.map fun row =>
      if row.id = attempt.attemptId then
        { row with
          status := status
          orderId := order.id <|> attempt.orderId <|> row.orderId
          filledAmount := filled <|> row.filledAmount }
      else row }

def recorded (attempt : Attempt) (order : Order) : Attempt :=
  let (status, filled, _) := attemptStateFromOrder order
  { attempt with
    status := status
    orderId := order.id <|> attempt.orderId
    filledAmount := filled }

def State.evolve (orders : List Order) : State :=
  if s.orders.all fun order => !order.isTerminal || order ∈ orders then { s with orders := orders } else s

structure Chance where
  raises : Option Failure := none
  applied : Bool := true
  listed : List Order := []
  exchange : List Order := []
  order : Order := { id := none, clientOrderId := none, status := none, filled := none }
  price : Option ℚ := none
  now : ℚ := 0

def wrote {α : Type} (c : Chance) (s s' : State) (value : Except Failure α) : Except Failure α × State :=
  match c.raises with
  | some e => (.error e, if c.applied then s' else s)
  | none => (value, s')

def answer (i : ℕ) (s : State) : (o : Op) → Chance → Except Failure (Ans o) × State
  | .acquireLock key, c =>
    if s.locks key = none then
      wrote c s { s with locks := Function.update s.locks key (some (.thread i)) } (.ok true)
    else wrote c s s (.ok false)
  | .releaseLock key, c =>
    if s.locks key = some (.thread i) then
      wrote c s { s with locks := Function.update s.locks key none } (.ok ())
    else wrote c s s (.error (.other "order lock lease lost during late_fill"))
  | .readAttempt attemptId, c => wrote c s s (.ok (s.readAttempt attemptId))
  | .readOpenTrade exchange symbol, c => wrote c s s (.ok (s.openTrade exchange symbol))
  | .readOtherUnresolvedAttempt exchange base attemptId, c =>
    wrote c s s (.ok (s.otherUnresolvedAttempt exchange base attemptId))
  | .readOtherActiveTask exchange base attemptId, c =>
    wrote c s s (.ok (s.otherActiveTask exchange base attemptId))
  | .fetchOrders _ _ _, c => wrote c s s (.ok (c.listed.filter (· ∈ s.orders)))
  | .fetchTicker _, c => wrote c s s (.ok c.price)
  | .cancelOrder _ _, c => wrote c s (s.evolve c.exchange) (.ok ())
  | .createStopMarketOrder _ _ _ _ _, c => wrote c s (s.evolve c.exchange) (.ok c.order)
  | .priceToPrecision _ price, c => wrote c s s (.ok (c.price.getD price))
  | .monotonic, c => wrote c s s (.ok c.now)
  | .sleep _, c => wrote c s s (.ok ())
  | .createTask spec adopted, c => wrote c s (s.createTask spec adopted).2 (s.createTask spec adopted).1
  | .record attempt order, c => wrote c s (s.record attempt order) (.ok (recorded attempt order))

inductive Event
  | hold (key : String)
  | free (key : String)
  | exchange (orders : List Order)
  | rows (attempts : List AttemptRow) (trades : List TradeRow)
  | task (spec : TaskSpec) (adopted : List AdoptedClose)
  | taskStatus (id : ℕ) (status : TaskStatus)

def State.happens : Event → State
  | .hold key => if s.locks key = none then { s with locks := Function.update s.locks key (some .other) } else s
  | .free key => if s.locks key = some .other then { s with locks := Function.update s.locks key none } else s
  | .exchange orders => s.evolve orders
  | .rows attempts trades => { s with attempts := attempts, trades := trades }
  | .task spec adopted => (s.createTask spec adopted).2
  | .taskStatus id status =>
    { s with tasks := s.tasks.map fun task => if task.id = id then { task with status := status } else task }

def State.expire (i : ℕ) : State :=
  { s with locks := fun key => if s.locks key = some (.thread i) then none else s.locks key }

def world : World State Failure Op Ans Chance Event where
  answer := answer
  env := State.happens
  crash i s := s.expire i

end Schurfer.LateFill
