import Schurfer.Lib.Threads
import Schurfer.Orders.Listing

/-!
# The emergency close executor

`emergency_close.py`: a pass follows every earlier close of the task before it may send another, and the row of a
close is written before the exchange is called. Logs and alerts are left out.
-/

namespace Schurfer.EmergencyClose

open Orders

inductive TaskStatus
  | requested
  | sending
  | unknown
  | confirmedFlat
  | accounted
  | manualRequired
deriving DecidableEq

def TaskStatus.isRunnable : TaskStatus → Bool
  | .requested | .sending | .unknown => true
  | _ => false

structure Task where
  id : ℕ
  entryClientOrderId : String
  exchange : String
  symbol : String
  side : Side
  tradeId : Option ℕ
  ownedQuantity : ℚ
  ownedRemainder : ℚ
  status : TaskStatus
  rejectedSends : ℕ

structure CloseOrder where
  attemptId : ℕ
  clientOrderId : String
  status : AttemptStatus
  orderId : Option String
  requestedAmount : Option ℚ
  filledAmount : Option ℚ
  createdAt : Time

def CloseOrder.isUnknown (c : CloseOrder) : Bool := c.status = .pending || c.status = .submissionUnknown

def CloseOrder.isActive (c : CloseOrder) : Bool := c.status = .accepted

def CloseOrder.isFilled (c : CloseOrder) : Bool := c.status = .completed || c.status = .partlyFilled

def CloseOrder.isManual (c : CloseOrder) : Bool := c.status = .manualRequired

def closeFilled (closes : List CloseOrder) : ℚ :=
  ((closes.filter (·.isFilled)).map fun c => c.filledAmount.getD 0).sum

def tolerance : ℚ := 1 / 100000000

def same (left right : ℚ) : Bool := |left - right| ≤ tolerance

def closeSide : Side → String
  | .short => "buy"
  | .long => "sell"

structure PositionRow where
  symbol : Option String
  side : Option String
  contracts : Option ℚ
  markPrice : Option ℚ

structure Position where
  contracts : ℚ
  oppositeSide : Bool
  markPrice : Option ℚ

def Position.add (side : Side) (p : Position) (row : PositionRow) : Position :=
  let size := row.contracts.getD 0
  if size ≤ 0 then p
  else if row.side = some side.text then
    { p with contracts := p.contracts + size, markPrice := row.markPrice }
  else { p with oppositeSide := true }

def positionOf (task : Task) (rows : List PositionRow) : Position :=
  (rows.filter (·.symbol = some task.symbol)).foldl (Position.add task.side) ⟨0, false, none⟩

inductive Failure
  | network (text : String)
  | exchange (text : String)
  | other (text : String)

def Failure.text : Failure → String
  | .network text | .exchange text | .other text => text

inductive LinkProblem
  | foreignClose
  | unlinkedClose

def LinkProblem.text : LinkProblem → String
  | .foreignClose => "a close of the trade belongs to another task"
  | .unlinkedClose => "a close of the instrument is linked to no task"

inductive Op
  | claim (owner : String)
  | acquireLock
  | releaseLock
  | linkLateCloses
  | loadCloses
  | fetchOrders (listing : Listing) (trigger : Bool)
  | fetchPositions
  | cancelOrder (id : Option String)
  | amountToPrecision (amount : ℚ)
  | recordCloseIntent (clientOrderId : String) (amount sizeUsd contractSize : ℚ)
  | markClose (attemptId : ℕ) (status : AttemptStatus) (orderId : Option String) (filled : Option ℚ)
      (error : Option String)
  | updateTask (owner : String) (status : TaskStatus) (ownedRemainder : ℚ) (rejectedSends : ℕ)
      (error : Option String) (release : Bool)
  | createMarketOrder (side : String) (amount : ℚ) (clientOrderId : String)
  | now

abbrev Ans : Op → Type
  | .claim _ => Option Task
  | .acquireLock => Bool
  | .releaseLock => Unit
  | .linkLateCloses => Option LinkProblem
  | .loadCloses => List CloseOrder
  | .fetchOrders _ _ => List Order
  | .fetchPositions => List PositionRow
  | .cancelOrder _ => Unit
  | .amountToPrecision _ => ℚ
  | .recordCloseIntent _ _ _ _ => ℕ
  | .markClose _ _ _ _ _ => Unit
  | .updateTask _ _ _ _ _ _ => Unit
  | .createMarketOrder _ _ _ => Order
  | .now => Time

abbrev Program := Prog Failure Op Ans

def call (o : Op) : Program (Ans o) := Prog.perform o

def tryCall (o : Op) : Program (Except Failure (Ans o)) := Prog.attempt o

structure Executor where
  owner : String
  configured : Bool
  has : Listing → Bool
  contractSize : Option ℚ
  unknownDeadline : ℤ
  maxRejectedSends : ℕ
  heldLease : Bool

inductive Outcome
  | claimedElsewhere
  | lockBusy
  | status (status : TaskStatus)

section

variable (ex : Executor)

variable (task : Task)

def set (status : TaskStatus) (error : Option String) (release : Bool) : Program Outcome := do
  call (.updateTask ex.owner status task.ownedRemainder task.rejectedSends error release)
  return .status status

def manual (reason : String) : Program Outcome :=
  set ex task .manualRequired (some reason) true

def list : Program (List Order) :=
  listOrders ex.has (fun capability => .other s!"exchange cannot {capability}")
    fun listing trigger => call (.fetchOrders listing trigger)

def follow (close : CloseOrder) : Program CloseOrder := do
  if close.isUnknown || close.isActive then
    let orders ← list ex
    match findByClientOrderId orders close.clientOrderId with
    | none => return close
    | some order =>
      let (status, filled, error) := attemptStateFromOrder order
      call (.markClose close.attemptId status order.id filled error)
      return { close with
        status := status
        orderId := nonEmpty order.id <|> close.orderId
        filledAmount := filled <|> close.filledAmount }
  else return close

def followAll : List CloseOrder → Program (List CloseOrder)
  | [] => return []
  | close :: closes => do
    let close ← follow ex close
    let rest ← followAll closes
    return close :: rest

def followCloses : Program (List CloseOrder) := do
  let closes ← call .loadCloses
  followAll ex closes

def sendUnknown (attemptId : ℕ) (e : Failure) : Program Outcome := do
  call (.markClose attemptId .submissionUnknown none none (some e.text))
  set ex task .unknown (some e.text) true

def sent (attemptId : ℕ) : Except Failure Order → Program Outcome
  | .error (.exchange text) => do
    call (.markClose attemptId .failed none none (some text))
    let rejected := task.rejectedSends + 1
    let task := { task with rejectedSends := rejected }
    if ex.maxRejectedSends ≤ rejected then manual ex task s!"close rejected {rejected} times: {text}"
    else set ex task .requested (some text) true
  | .error e => sendUnknown ex task attemptId e
  | .ok order => do
    let (status, filled, error) := attemptStateFromOrder order
    -- a terminal status without a fill proves nothing yet: the order is followed
    let (status, error) := if status ≠ .completed then (.accepted, none) else (status, error)
    call (.markClose attemptId status order.id filled error)
    set ex task .sending none true

def send (closes : List CloseOrder) (position : Position) (dec : ℚ → String) : Program Outcome := do
  let amount ← call (.amountToPrecision task.ownedRemainder)
  if amount ≤ 0 then manual ex task s!"remainder {dec task.ownedRemainder} rounds to zero"
  else
    let contractSize := (ex.contractSize.filter (· ≠ 0)).getD 1
    let sizeUsd := amount * contractSize * position.markPrice.getD 0
    match closeClientOrderId task.entryClientOrderId (closes.length + 1) with
    | .error text => throw (.other text)
    | .ok clientOrderId =>
      -- durable before acting: the close row exists before the exchange is called
      let attemptId ← call (.recordCloseIntent clientOrderId amount sizeUsd contractSize)
      let _ ← set ex task .sending none false
      let answer ← tryCall (.createMarketOrder (closeSide task.side) amount clientOrderId)
      sent ex task attemptId answer

def cancelAll : List Order → Program Unit
  | [] => return ()
  | order :: orders => do
    call (.cancelOrder order.id)
    cancelAll orders

def oldest (unknown : List CloseOrder) (now : Time) : Time :=
  ((unknown.map (·.createdAt)).min?).getD now

def decideSend (closes : List CloseOrder) (dec : ℚ → String) : Program Outcome := do
  let orders ← list ex
  let stops := ordersWithPrefix orders (stopPrefix task.entryClientOrderId)
  let stopFilled := ((stops.filter (·.isTerminal)).map (·.filledOrZero)).sum
  let openStops := stops.filter fun order => order.isTerminal = false
  if openStops.any (0 < ·.filledOrZero) then
    -- a triggered stop is still filling
    set ex task .requested none true
  else
    let remainder := max 0 (task.ownedQuantity - closeFilled closes - stopFilled)
    let task := { task with ownedRemainder := remainder }
    let rows ← call .fetchPositions
    let position := positionOf task rows
    if position.oppositeSide then manual ex task "the exchange holds the opposite side"
    else if position.contracts ≤ 0 then
      if openStops ≠ [] then
        cancelAll openStops
        -- flat is confirmed on a later pass, once the cancels show as terminal
        set ex task .requested none true
      else set ex task .confirmedFlat none true
    else if remainder ≤ 0 ∨ same position.contracts remainder = false then
      manual ex task
        s!"exchange position {dec position.contracts} differs from the owned remainder {dec remainder}"
    else send ex task closes position dec

def pass (dec : ℚ → String) : Program Outcome := do
  if ex.configured = false then manual ex task s!"exchange {quoted task.exchange} is not configured"
  else
    let problem ← call .linkLateCloses
    match problem with
    | some problem => manual ex task problem.text
    | none =>
      let closes ← followCloses ex
      if closes.any (·.isManual) then
        manual ex task "a close order is terminal without a filled amount"
      else
        match closes.filter (·.isUnknown) with
        | close :: more =>
          let now ← call .now
          if ex.unknownDeadline < now - oldest (close :: more) now then
            manual ex task s!"close order {close.clientOrderId} not found within the deadline"
          else set ex task .unknown none true
        | [] =>
          if closes.any (·.isActive) then set ex task .sending none true
          else decideSend ex task closes dec

def runPass (dec : ℚ → String) : Program Outcome := do
  let claimed ← call (.claim ex.owner)
  match claimed with
  | none => return .claimedElsewhere
  | some task =>
    if ex.heldLease then pass ex task dec
    else
      let acquired ← call .acquireLock
      if acquired then (pass ex task dec).ensure (call .releaseLock)
      else
        let _ ← set ex task task.status none true
        return .lockBusy

end

end Schurfer.EmergencyClose
