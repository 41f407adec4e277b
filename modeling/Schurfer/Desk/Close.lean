import Schurfer.Desk.Fill

/-!
# Closing a position

`orders.close_position`. The protective stop stays until there is evidence that the position is gone.
-/

namespace Schurfer.Desk

open Orders LateFill

structure CloseRequest where
  exchange : String
  base : String
  symbol : String
  reason : String

def CloseRequest.pair (r : CloseRequest) : Pair := pairOf r.exchange r.base

structure CloseResult where
  closed : Bool
  exitPrice : Option ℚ := none
  orderId : Option String := none

def closeTolerance (amount : ℚ) : ℚ := max (amount * (1 / 1000)) (1 / 10 ^ 12)

def heldAmount (positions : List Position) (symbol : String) (side : Side) : ℚ :=
  ((positions.filter fun p => p.symbol = symbol && p.side = some side && 0 < p.contracts).map
    (·.contracts)).sum

def remainingPositionAmount (exchange symbol : String) (side : Side) : Program (Option ℚ) := do
  let answer ← tryCall (.fetchPositions .residual exchange)
  match answer with
  | .ok positions => return some (heldAmount positions symbol side)
  | .error _ => return none

def trackedTradeId (r : CloseRequest) : Program (Option ℕ) := do
  let raw ← call (.getTradeKey none r.pair)
  match raw with
  | some tradeId => return some tradeId
  | none => call (.findOpenTradeId none r.exchange r.symbol)

def cancelTerminalStop (exchange : String) (pair : Pair) (slOrderId : Option String) (symbol : String) :
    Program Unit :=
  match slOrderId with
  | none => return ()
  | some orderId => do
    let answer ← tryCall (.cancelOrder exchange (some orderId) symbol)
    match answer with
    | .ok _ => call (.deleteStopKey pair)
    | .error _ => return ()

structure CloseWork where
  request : CloseRequest
  positionSide : Side
  amount : ℚ
  slOrderId : Option String
  tradeId : Option ℕ
  clientOrderId : String
  attemptId : Option ℕ

structure CloseVolume where
  filled : Option ℚ
  remaining : Option ℚ

def CloseVolume.terminal (v : CloseVolume) (amount : ℚ) : Bool :=
  match v.remaining with
  | some remaining => remaining ≤ closeTolerance amount
  | none => false

def onAttempt (attemptId : Option ℕ) (update : ℕ → Program Unit) : Program Unit :=
  match attemptId with
  | some id => update id
  | none => return ()

section

variable (setup : Setup) (w : CloseWork)

def handleUnresolvedClose (orderId : String) (v : CloseVolume) (orderTerminal : Option Bool) :
    Program CloseResult := do
  call .revokePnlReadiness
  let tradeId ← call (.getTradeKey (some orderId) w.request.pair)
  let terminal := v.terminal w.amount
  let _ ← call (.createIncident
    { exchange := w.request.exchange
      base := w.request.base.toUpper
      operation := .closing
      orderId
      tradeId
      context :=
        { reason := some w.request.reason
          leg := some ⟨w.amount, v.filled, v.remaining, terminal⟩
          orderTerminal } })
  return { closed := terminal, orderId := some orderId }

def closeVolume (resolution : FillResolution) : Program CloseVolume :=
  match resolution.status, resolution.filledAmount with
  | .unresolved, filled | .confirmed, filled@none => do
    let remaining ← remainingPositionAmount w.request.exchange w.request.symbol w.positionSide
    match remaining with
    | some remaining => return ⟨some (max 0 (w.amount - remaining)), some remaining⟩
    | none => return ⟨filled, none⟩
  | _, filled => return ⟨filled, filled.map fun filled => max 0 (w.amount - filled)⟩

def dropStop : Program Unit := do
  cancelTerminalStop w.request.exchange w.request.pair w.slOrderId w.request.symbol
  call (.exitKeys w.request.pair)

def deferClose (orderId : String) (v : CloseVolume) (orderTerminal : Option Bool) : Program CloseResult := do
  let result ← handleUnresolvedClose w orderId v orderTerminal
  if v.terminal w.amount then
    dropStop w
    return result
  else return result

def recordLeg (orderId : String) (price filled : ℚ) (v : CloseVolume) : Program (Option ℚ) :=
  match w.tradeId with
  | none => return none
  | some tradeId => call (.recordCloseFill
      { tradeId
        exchange := w.request.exchange
        orderId
        fillPrice := price
        filledAmount := filled
        requestedAmount := w.amount
        remainingAmount := max 0 (v.remaining.getD 0)
        terminal := v.terminal w.amount })

def markClose (filled : ℚ) (v : CloseVolume) : Program Unit :=
  onAttempt w.attemptId fun id =>
    match v.terminal w.amount, w.tradeId with
    | true, tradeId => call (.markCompleted id tradeId (some filled))
    | false, some tradeId => do
      let _ ← call (.markPartial id tradeId filled)
      return ()
    | false, none => throw (.other "AssertionError")

def bookClose (order : Order) (price : ℚ) (v : CloseVolume) : Program CloseResult :=
  let orderId := order.id.getD w.clientOrderId
  match positive v.filled with
  -- a price without executed volume is no terminal evidence
  | none => return { closed := false, exitPrice := some price, orderId := order.id }
  | some filled => do
    let aggregate ← recordLeg w orderId price filled v
    match aggregate with
    | none => deferClose w orderId v (order.status.map fun _ => order.isTerminal)
    | some aggregate =>
      markClose w filled v
      if v.terminal w.amount then
        dropStop w
        return { closed := true, exitPrice := some aggregate, orderId := order.id }
      else
        call .revokePnlReadiness
        return { closed := false, exitPrice := some price, orderId := order.id }

def classifyClose (order : Order) (resolution : FillResolution) (v : CloseVolume) : Program CloseResult :=
  if v.terminal w.amount = false ∧ order.isTerminal = false ∧ resolution.status = .partlyFilled then do
    -- a cumulative amount that may still grow is not a leg yet
    call .revokePnlReadiness
    return { closed := false, exitPrice := resolution.price, orderId := order.id }
  else if resolution.status = .unresolved then
    deferClose w (order.id.getD w.clientOrderId)
      ⟨positive v.filled, v.remaining⟩ (order.status.map fun _ => order.isTerminal)
  else
    match resolution.price with
    | none => throw (.other "AssertionError")
    | some price => bookClose w order price v

/-- What `settleClose` does once the order is marked as accepted. -/
def settleFill (order : Order) : Program CloseResult := do
  let resolution ← resolveFillPrice setup w.request.exchange w.request.symbol order (some w.amount)
  if resolution.status = .noFill then
    -- nothing was executed: the position is still open and still protected
    if order.isTerminal then
      onAttempt w.attemptId fun id => call (.markFailed id)
      return { closed := false, orderId := order.id }
    else return { closed := false, orderId := order.id }
  else
    let v ← closeVolume w resolution
    classifyClose w order resolution v

def settleClose (order : Order) : Program CloseResult := do
  match order.id with
  | some orderId => onAttempt w.attemptId fun id => call (.markAccepted id orderId)
  | none => pure ()
  settleFill setup w order

def submitClose : Program CloseResult := do
  let answer ← tryCall (.createMarketOrder
    { exchange := w.request.exchange
      symbol := w.request.symbol
      direction := closeDirection w.positionSide
      amount := w.amount
      clientOrderId := w.clientOrderId
      reduceOnly := true })
  match answer with
  | .ok order => settleClose setup w order
  | .error (.exchange _) | .error (.invalidOrder _) | .error (.duplicateOrderId _) =>
    onAttempt w.attemptId fun id => call (.markFailed id)
    return { closed := false }
  | .error _ =>
    onAttempt w.attemptId fun id => call (.markSubmissionUnknown id)
    return { closed := false }

end

section

variable (setup : Setup) (r : CloseRequest)

def taskActive : Program Bool := do
  let answer ← tryCall (.hasActiveTask r.exchange r.base)
  return answer.toOption.getD false

def closeFound (side : Side) (contracts : ℚ) : Program CloseResult := do
  let sl ← call (.getStopKey .close r.pair)
  let slOrderId := nonEmpty sl
  let amount := setup.amountToPrecision r.exchange r.symbol contracts
  let tradeId ← trackedTradeId r
  let clientOrderId ← call .newClientOrderId
  let attemptId ← call (.createCloseAttempt
    { clientOrderId
      exchange := r.exchange
      base := r.base.toUpper
      symbol := r.symbol
      requestedAmount := amount
      tradeId
      context := ⟨r.reason, side, slOrderId⟩ })
  let w : CloseWork := ⟨r, side, amount, slOrderId, tradeId, clientOrderId, attemptId⟩
  match attemptId with
  | some _ => submitClose setup w
  | none =>
    -- an exit is not blocked by the database, but entries must wait
    call .revokePnlReadiness
    submitClose setup w

def closeLocked : Program CloseResult := do
  if r.exchange ∉ setup.exchanges then return { closed := false }
  else
    let active ← taskActive r
    if active then return { closed := false }
    else
      let positions ← call (.fetchPositions .close r.exchange)
      match positions.find? fun p => p.symbol = r.symbol && 0 < p.contracts with
      | none => return { closed := false }
      | some position =>
        match position.side with
        | none => return { closed := false }
        | some side => closeFound setup r side position.contracts

def closePosition : Program CloseResult := do
  let locked ← call (.acquireLock r.pair)
  if locked then (closeLocked setup r).ensure (call (.releaseLock r.pair))
  else return { closed := false }

end

end Schurfer.Desk
