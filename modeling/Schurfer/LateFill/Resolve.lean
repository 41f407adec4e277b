import Schurfer.LateFill.Stops

/-!
# The late fill recovery

`late_fill.py`: an unresolved entry attempt is read again under the order lock, its order settled, and a fill nobody
else may own given to an emergency close task.
-/

namespace Schurfer.LateFill

open Orders

def isCandidateStatus : AttemptStatus → Bool
  | .pending | .accepted | .submissionUnknown => true
  | _ => false

inductive Competitor
  | openTrade
  | otherUnresolvedAttempt
  | otherActiveTask

structure Locked where
  status : AttemptStatus
  tradeId : Option ℕ
  initialSlPct : ℚ
  competitor : Option Competitor

def defaultInitialSlPct : ℚ := 10

def competitorOf (openTrade otherAttempt otherTask : Bool) : Option Competitor :=
  if openTrade then some .openTrade
  else if otherAttempt then some .otherUnresolvedAttempt
  else if otherTask then some .otherActiveTask
  else none

def readLocked (attempt : Attempt) : Program (Option Locked) := do
  let row ← call (.readAttempt attempt.attemptId)
  match row with
  | none => return none
  | some row =>
    let openTrade ← call (.readOpenTrade attempt.identity.exchange attempt.identity.symbol)
    let otherAttempt ←
      call (.readOtherUnresolvedAttempt attempt.identity.exchange attempt.base attempt.attemptId)
    let otherTask ← call (.readOtherActiveTask attempt.identity.exchange attempt.base attempt.attemptId)
    return some
      { status := row.status
        tradeId := row.tradeId
        initialSlPct := row.initialSlPct.getD defaultInitialSlPct
        competitor := competitorOf openTrade otherAttempt otherTask }

def nonZero (price : Option ℚ) : Option ℚ := price.filter (· ≠ 0)

section

variable (has : Has)

def referencePrice (symbol : String) (order : Order) : Program (Option ℚ) :=
  match nonZero order.average <|> nonZero order.price with
  | some price => return some price
  | none => do
    let last ← call (.fetchTicker symbol)
    return nonZero last

def settle (attempt : Attempt) (order : Order) (locked : Locked) : Program (Option (Order × Bool)) := do
  let price ← referencePrice attempt.identity.symbol order
  match price with
  | none => return none
  | some price =>
    let guard ← adoptExisting has
      { symbol := attempt.identity.symbol
        side := attempt.identity.side
        stopSide := EmergencyClose.closeSide attempt.identity.side
        referencePrice := price
        initialSlPct := locked.initialSlPct
        entryClientOrderId := attempt.clientOrderId }
    match guard with
    | none => return none
    | some guard =>
      let settled ← settleActiveEntry has attempt.identity.symbol guard order
      match settled.order with
      | some order => return some (order, false)
      | none => return some (settled.latest, true)

def adoptedClose (order : Order) : AdoptedClose :=
  let (status, filled, _) := attemptStateFromOrder order
  { clientOrderId := order.linkId.getD ""
    status := status
    orderId := order.id
    requestedAmount := order.amount
    filledAmount := filled }

def taskSpec (attempt : Attempt) (ownedQuantity : ℚ) : TaskSpec where
  sourceAttemptId := attempt.attemptId
  entryClientOrderId := attempt.clientOrderId
  exchange := attempt.identity.exchange
  base := attempt.base
  symbol := attempt.identity.symbol
  nativeMarketId := attempt.identity.nativeMarketId
  marketType := attempt.identity.marketType
  side := attempt.identity.side
  ownedQuantity := ownedQuantity

def own (attempt : Attempt) (order : Order) (locked : Locked) : Program Attempt :=
  match attemptStateFromOrder order with
  | (.completed, some filled, _) => do
    if filled ≤ 0 then call (.record attempt order)
    else if locked.competitor ≠ none then call (.record attempt order)
    else
      let orders ← list has attempt.identity.symbol
      let closes := ordersWithPrefix orders (closePrefix attempt.clientOrderId)
      -- the task first: a crash before the record finds the same task again
      let _ ← call (.createTask (taskSpec attempt filled) (closes.map adoptedClose))
      call (.record attempt order)
  | _ => call (.record attempt order)

def resolveFound (attempt : Attempt) (order : Order) (locked : Locked) : Program (Option Attempt) := do
  if order.isTerminal then some <$> own has attempt order locked
  else
    let settled ← settle has attempt order locked
    match settled with
    | none => return none
    | some (order, true) => some <$> call (.record attempt order)
    | some (order, false) => some <$> own has attempt order locked

def resolveLocked (attempt : Attempt) : Program (Option Attempt) := do
  let locked ← readLocked attempt
  match locked with
  | none => return none
  | some locked =>
    if isCandidateStatus locked.status = false ∨ locked.tradeId ≠ none then return none
    else
      let found ← lookUp has attempt.identity.symbol attempt.clientOrderId
      match found with
      | none => return none
      | some order => resolveFound has attempt order locked

def orderLockKey (attempt : Attempt) : String :=
  s!"lock:order:{attempt.identity.exchange}:{attempt.base.toUpper}"

structure Request where
  has : Has
  configured : Bool
  attempt : Attempt

end

def resolve (r : Request) : Program (Option Attempt) := do
  if r.configured then
    let acquired ← call (.acquireLock (orderLockKey r.attempt))
    if acquired then
      ((resolveLocked r.has r.attempt).ensure (call (.releaseLock (orderLockKey r.attempt)))).handle
        fun _ => return none
    else return none
  else return none

end Schurfer.LateFill
