import Schurfer.Desk.Close

/-!
# The position monitor

`monitor.py`: a tick recovers the close attempts left between the exchange and the database, closes the positions
whose exit rule fires, reconciles the stops of vanished ones, and commits again the closes that wait. The manual close
of `routers/account.py` stands beside it.
-/

namespace Schurfer.Desk

open Orders LateFill

def tryCommitClose (pair : Pair) (tradeId : ℕ) (exitOrderId : Option String) (exitPrice : ℚ) :
    Program Bool := do
  call .revokePnlReadiness
  let committed ← call (.closeTrade tradeId pair.1 exitOrderId exitPrice)
  if committed then
    call (.deletePendingClose pair tradeId)
    return true
  else
    call (.setPendingClose ⟨pair, tradeId, exitOrderId, exitPrice⟩)
    call .revokePnlReadiness
    return false

def commitAndUntrack (pair : Pair) (tradeId : ℕ) (exitOrderId : Option String) (exitPrice : ℚ) :
    Program Unit := do
  let committed ← tryCommitClose pair tradeId exitOrderId exitPrice
  if committed then
    let _ ← call (.deleteTradeKeyIfMatches pair tradeId)
    return ()
  else return ()

structure OpenPosition where
  exchange : String
  position : Position

def OpenPosition.base (p : OpenPosition) : String := baseOf p.position.symbol

def fetchAllPositions (reader : Reader) : List String → Program (List OpenPosition × List String)
  | [] => return ([], [])
  | exchange :: exchanges => do
    let answer ← tryCall (.fetchPositions reader exchange)
    let rest ← fetchAllPositions reader exchanges
    match answer with
    | .ok positions =>
      return (((positions.filter (·.contracts ≠ 0)).map fun p => ⟨exchange, p⟩) ++ rest.1, rest.2)
    | .error _ => return (rest.1, exchange :: rest.2)

section

variable (setup : Setup)

def findListed (a : CloseAttempt) : List Listing → Program (Option Order)
  | [] => return none
  | listing :: listings =>
    if setup.has a.exchange listing then do
      let answer ← tryCall (.fetchOrders a.exchange a.symbol listing false)
      match (answer.toOption.getD []).find? fun order => order.linkId = some a.clientOrderId with
      | some order => return some order
      | none => findListed a listings
    else findListed a listings

def findCloseAttemptOrder (a : CloseAttempt) : Program (Option Order) :=
  match nonEmpty a.orderId with
  | some orderId =>
    if setup.hasFetchOrder a.exchange then do
      let answer ← tryCall (.fetchOrder a.exchange orderId a.symbol)
      match answer with
      | .ok order => return some order
      | .error _ => findListed setup a [.openOrders, .closedOrders]
    else findListed setup a [.openOrders, .closedOrders]
  | none => findListed setup a [.openOrders, .closedOrders]

def finalizeRecoveredClose (a : CloseAttempt) (tradeId : ℕ) (orderId : String) (price : ℚ) : Program Unit := do
  cancelTerminalStop a.exchange (a.exchange, a.base) (nonEmpty a.context.slOrderId) a.symbol
  call (.exitKeys (a.exchange, a.base))
  commitAndUntrack (a.exchange, a.base) tradeId (some orderId) price

def blockedUnready : Program Bool := do
  call .revokePnlReadiness
  return true

def recoverLeg (a : CloseAttempt) (order : Order) (price filled remaining : ℚ) (tradeId : ℕ) : Program Bool :=
  let tolerance := closeTolerance a.requestedAmount
  let terminal : Bool := remaining ≤ tolerance ∧ a.requestedAmount - tolerance ≤ filled
  -- a cumulative amount may still grow until the order itself is terminal
  if terminal = false ∧ order.isTerminal = false then blockedUnready
  else do
    let orderId := order.id.getD a.clientOrderId
    let aggregate ← call (.recordCloseFill
      { tradeId
        exchange := a.exchange
        orderId
        fillPrice := price
        filledAmount := filled
        requestedAmount := a.requestedAmount
        remainingAmount := if terminal then 0 else max remaining (max 0 (a.requestedAmount - filled))
        terminal })
    match aggregate with
    | none => blockedUnready
    | some aggregate =>
      if terminal then
        call (.markCompleted a.id (some tradeId) (some filled))
        finalizeRecoveredClose a tradeId orderId aggregate
        return false
      else
        let recorded ← call (.markPartial a.id tradeId filled)
        call .revokePnlReadiness
        return !recorded

def attemptTradeId (a : CloseAttempt) (order : Order) : Program (Option ℕ) :=
  match a.tradeId with
  | some tradeId => return some tradeId
  | none => call (.findOpenTradeId (some (order.id.getD a.clientOrderId)) a.exchange a.symbol)

def recoverFilled (a : CloseAttempt) (order : Order) (resolution : FillResolution) : Program Bool := do
  let answer ← tryCall (.fetchPositions .recovery a.exchange)
  match answer with
  | .error _ => return true
  | .ok positions =>
    let remaining := heldAmount positions a.symbol a.context.positionSide
    let filled := resolution.filledAmount.getD (max 0 (a.requestedAmount - remaining))
    match resolution.price with
    | none => return true
    | some price =>
      if filled ≤ 0 then return true
      else
        let tradeId ← attemptTradeId a order
        match tradeId with
        | none => blockedUnready
        | some tradeId => recoverLeg a order price filled remaining tradeId

/-- What `recoverSent` does with the order it found. -/
def recoverFound (a : CloseAttempt) (order : Order) : Program Bool := do
  let resolution ← resolveFillPrice setup a.exchange a.symbol order (some a.requestedAmount)
  match resolution.status with
  | .unresolved => return true
  | .noFill =>
    if order.isTerminal then
      call (.markFailed a.id)
      return false
    else return true
  | _ => recoverFilled a order resolution

def recoverSent (a : CloseAttempt) : Program Bool := do
  let found ← findCloseAttemptOrder setup a
  match found with
  | none => return true
  | some order =>
    match order.id, a.orderId with
    | some orderId, none => call (.markAccepted a.id orderId)
    | _, _ => pure ()
    recoverFound setup a order

def recoverOne (a : CloseAttempt) : Program Bool :=
  if a.exchange ∉ setup.exchanges then return true
  else
    match a.status, a.tradeId with
    | .completed, some tradeId => do
      let aggregate ← call (.aggregateCloseFillPrice tradeId)
      match aggregate with
      | none => blockedUnready
      | some price =>
        finalizeRecoveredClose a tradeId ((nonEmpty a.orderId).getD a.clientOrderId) price
        return false
    | _, _ => recoverSent setup a

def recoverAll : List CloseAttempt → Program (List Pair)
  | [] => return []
  | a :: attempts => do
    let blocked ← recoverOne setup a
    let rest ← recoverAll attempts
    return if blocked then (a.exchange, a.base) :: rest else rest

def recoverCloseAttempts : Program (List Pair) := do
  let attempts ← call .loadRecoverableCloseAttempts
  recoverAll setup attempts

def incidentOrderId (orderId : Option String) : Program String :=
  match orderId with
  | some orderId => return orderId
  | none => do
    let id ← call .newClientOrderId
    return "unknown:" ++ id

def journalExit (pair : Pair) (result : CloseResult) (price : ℚ) (reason : String) : Program Unit := do
  let tradeId ← call (.getTradeKey result.orderId pair)
  match tradeId with
  | some tradeId => commitAndUntrack pair tradeId result.orderId price
  | none =>
    call .revokePnlReadiness
    let orderId ← incidentOrderId result.orderId
    let _ ← call (.createIncident
      { exchange := pair.1
        base := pair.2
        operation := .closing
        orderId
        tradeId := none
        context := { reason := some reason } })
    return ()

def checkExit (p : OpenPosition) : Program Unit := do
  let reason ← call (.decideExit p.exchange p.position)
  match reason with
  | none => return ()
  | some reason =>
    let result ← closePosition setup ⟨p.exchange, p.base, p.position.symbol, reason⟩
    if result.closed then
      call (.exitKeys (pairOf p.exchange p.base))
      match result.exitPrice with
      -- the incident worker completes it once the price is confirmed
      | none => return ()
      | some price =>
        journalExit (pairOf p.exchange p.base) result price reason
        call (.exitKeys (pairOf p.exchange p.base))
    else return ()

def checkExits (failed : List String) (blocked : List Pair) : List OpenPosition → Program Unit
  | [] => return ()
  | p :: positions =>
    if p.exchange ∈ failed ∨ (p.exchange, p.base) ∈ blocked then checkExits failed blocked positions
    else do
      (checkExit setup p).handle fun _ => return ()
      checkExits failed blocked positions

def stopReason : String := "exchange_stop_loss_triggered"

def bookStop (pair : Pair) (orderId : String) (price : ℚ) (filled : Option ℚ) :
    Option ℕ → Program (Option ℚ)
  | none => return some price
  | some tradeId => do
    let expected ← call (.remainingTradeAmount tradeId)
    match positive (filled <|> expected) with
    | none => return some price
    | some filled =>
      let requested := expected.getD filled
      let tolerance := closeTolerance requested
      if requested + tolerance < filled then
        call .revokePnlReadiness
        return none
      else
        let terminal : Bool := requested - tolerance ≤ filled
        let aggregate ← call (.recordCloseFill
          { tradeId
            exchange := pair.1
            orderId
            fillPrice := price
            filledAmount := filled
            requestedAmount := requested
            remainingAmount := if terminal then 0 else requested - filled
            terminal })
        match aggregate with
        | some aggregate =>
          if terminal then return some aggregate
          else
            call .revokePnlReadiness
            return none
        | none =>
          call .revokePnlReadiness
          return none

def commitStop (pair : Pair) (orderId : String) (price : ℚ) (filled : Option ℚ) : Program Unit := do
  let tradeId ← call (.getTradeKey (some orderId) pair)
  call (.exitKeys pair)
  let booked ← bookStop pair orderId price filled tradeId
  match booked with
  | none => return ()
  | some exitPrice =>
    call (.deleteStopKey pair)
    call (.exitKeys pair)
    match tradeId with
    | some tradeId => commitAndUntrack pair tradeId (some orderId) exitPrice
    | none => return ()

def reconcileFilled (pair : Pair) (orderId symbol : String) (order : Order) : Program Unit := do
  let resolution ← resolveFillPrice setup pair.1 symbol order none
  match resolution.status with
  | .noFill => return ()
  | .unresolved =>
    call .revokePnlReadiness
    let tradeId ← call (.getTradeKey (some orderId) pair)
    let _ ← call (.createIncident
      { exchange := pair.1
        base := pair.2
        operation := .closing
        orderId
        tradeId
        context := { reason := some stopReason } })
    return ()
  | _ =>
    match resolution.price with
    | none => throw (.other "AssertionError")
    | some price => commitStop pair orderId price resolution.filledAmount

def reconcileOne (pair : Pair) : Program Unit := do
  let raw ← call (.getStopKey .reconcile pair)
  match nonEmpty raw with
  | none => return ()
  | some orderId =>
    if pair.1 ∉ setup.exchanges then return ()
    else
      match resolveExecutionInstrument (setup.markets pair.1) pair.2 with
      | none => return ()
      | some symbol =>
        let order ← call (.fetchOrder pair.1 orderId symbol)
        if order.status ≠ some "closed" then
          cancelTerminalStop pair.1 pair (some orderId) symbol
        else reconcileFilled setup pair orderId symbol order

def reconcileEach (live : List Pair) : List Pair → Program Unit
  | [] => return ()
  | pair :: pairs =>
    if pair ∈ live then reconcileEach live pairs
    else do
      (reconcileOne setup pair).handle fun _ => return ()
      reconcileEach live pairs

def reconcileVanishedPositions (live : List Pair) : Program Unit := do
  let pairs ← call .scanStopKeys
  reconcileEach setup live pairs

def retryOnePendingClose (pair : Pair) (tradeId : ℕ) : Program Unit := do
  let raw ← call (.getPendingClose pair tradeId)
  match raw with
  | none => return ()
  | some pending =>
    let committed ← tryCommitClose pair pending.tradeId pending.exitOrderId pending.exitPrice
    if committed then
      let _ ← call (.deleteTradeKeyIfMatches pair tradeId)
      return ()
    else return ()

def retryEach : List (Pair × ℕ) → Program Unit
  | [] => return ()
  | (pair, tradeId) :: keys => do
    (retryOnePendingClose pair tradeId).handle fun _ => return ()
    retryEach keys

def retryPendingCloses : Program Unit := do
  let keys ← call .scanPendingCloses
  retryEach keys

def livePairs (positions : List OpenPosition) (failed : List String) : List Pair :=
  (positions.filter (·.exchange ∉ failed)).map fun p => (p.exchange, p.base)

def tick : Program Unit := do
  -- a recovery that raises leaves no pair blocked
  let blocked ← (recoverCloseAttempts setup).handle fun _ => return []
  let snapshot ← fetchAllPositions .snapshot setup.exchanges
  checkExits setup snapshot.2 blocked snapshot.1
  (reconcileVanishedPositions setup (livePairs snapshot.1 snapshot.2)).handle fun _ => return ()
  retryPendingCloses.handle fun _ => return ()

def manualClosePosition (exchange base : String) : Program Unit :=
  if exchange ∉ setup.exchanges then return ()
  else
    match resolveExecutionInstrument (setup.markets exchange) base with
    | none => return ()
    | some symbol => do
      let result ← closePosition setup ⟨exchange, base, symbol, "manual"⟩
      if result.closed then
        match result.exitPrice with
        | none => call (.exitKeys (pairOf exchange base))
        | some price =>
          let tradeId ← call (.getTradeKey result.orderId (pairOf exchange base))
          match tradeId with
          | some tradeId => commitAndUntrack (pairOf exchange base) tradeId result.orderId price
          | none => pure ()
          call (.exitKeys (pairOf exchange base))
      else return ()

end

end Schurfer.Desk
