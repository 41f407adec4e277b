import Schurfer.Desk.Monitor

/-!
# Placing an order

`orders.place_order`. An entry whose outcome is unknown is looked up, settled and flattened as `entry_recovery.py`
says; its stops are placed by the same code the late fill recovery uses.
-/

namespace Schurfer.Desk

open Orders LateFill

structure EntryRequest where
  exchange : String
  base : String
  symbol : String
  side : Side
  initialSlPct : ℚ
deriving DecidableEq

def EntryRequest.pair (r : EntryRequest) : Pair := pairOf r.exchange r.base

inductive EntryResult
  | refused
  | unknown
  | flattened
  | unresolved
  | opened (tradeId : Option ℕ)

def venueCall (exchange entryClientOrderId : String) : (o : LateFill.Op) → Program (LateFill.Ans o)
  | .fetchOrders symbol listing trigger => call (.fetchOrders exchange symbol listing trigger)
  | .fetchTicker symbol => call (.fetchTicker exchange symbol)
  | .cancelOrder symbol id => call (.cancelOrder exchange id symbol)
  | .createStopMarketOrder symbol direction amount triggerPrice clientOrderId =>
    call (.createStopMarketOrder
      ⟨exchange, entryClientOrderId, symbol, direction, amount, triggerPrice, clientOrderId⟩)
  | .priceToPrecision symbol price => call (.priceToPrecision exchange symbol price)
  | .monotonic => call .monotonic
  | .sleep seconds => call (.sleep seconds)
  | .acquireLock _ | .releaseLock _ | .readAttempt _ | .readOpenTrade _ _
  | .readOtherUnresolvedAttempt _ _ _ | .readOtherActiveTask _ _ _ | .createTask _ _ | .record _ _ =>
    throw (.other "not a call of the stop placement")

def onVenue {α : Type} (exchange entryClientOrderId : String) (p : LateFill.Program α) : Program α :=
  p.interpret (venueCall exchange entryClientOrderId)

def entryLookupAt : List ℚ := [1, 3, 6, 10]

def findEntryAt (has : Has) (symbol clientOrderId : String) (started : ℚ) :
    List ℚ → LateFill.Program (Option Order)
  | [] => return none
  | due :: looks => do
    let now ← LateFill.call .monotonic
    sleepFor (due - (now - started))
    let found ← lookUp has symbol clientOrderId
    match found with
    | some order => return some order
    | none => findEntryAt has symbol clientOrderId started looks

def findEntry (has : Has) (symbol clientOrderId : String) : LateFill.Program (Option Order) := do
  let started ← LateFill.call .monotonic
  findEntryAt has symbol clientOrderId started entryLookupAt

def completeOpen (pair : Pair) (trade : NewTrade) : Program (Option ℕ) := do
  let tradeId ← call (.openTrade trade)
  match tradeId with
  | some id =>
    let _ ← tryCall (.setTradeKey pair id)
    let _ ← tryCall (.exitKeys pair)
    return tradeId
  | none =>
    let _ ← tryCall (.exitKeys pair)
    return none

section

variable (setup : Setup) (r : EntryRequest)

structure EntryWork where
  clientOrderId : String
  attemptId : ℕ
  amount : ℚ
  price : ℚ

variable (w : EntryWork)

def openIncident (orderId : String) : NewIncident :=
  { exchange := r.exchange
    base := r.base.toUpper
    operation := .opening
    orderId
    tradeId := none
    context := { side := some r.side } }

def handleUnresolvedOpen (orderId : String) : Program Unit := do
  call .revokePnlReadiness
  let _ ← call (.createIncident (openIncident r orderId))
  return ()

def journalOpen (order : Order) (resolution : FillResolution) : Program EntryResult :=
  if resolution.status = .unresolved then do
    let orderId ← incidentOrderId order.id
    handleUnresolvedOpen r orderId
    call (.markCompleted w.attemptId none none)
    return .unresolved
  else
    match resolution.price with
    | none => throw (.other "AssertionError")
    | some price => do
      let tradeId ← completeOpen r.pair ⟨r.exchange, r.symbol, r.side, order.id, price⟩
      call (.markCompleted w.attemptId tradeId resolution.filledAmount)
      match tradeId with
      | some id => return .opened (some id)
      | none =>
        let orderId ← incidentOrderId order.id
        let _ ← call (.createIncident (openIncident r orderId))
        call .revokePnlReadiness
        return .opened none

def flattenEntry : Program EntryResult := do
  call (.flatten r.exchange r.base r.symbol)
  return .flattened

def protectOpen (order : Order) (resolution : FillResolution) : Program EntryResult := do
  let reference := resolution.price.getD w.price
  let amount := (positive resolution.filledAmount).getD w.amount
  let trigger ← onVenue r.exchange w.clientOrderId
    (stopTrigger r.symbol r.side reference r.initialSlPct)
  let stop ← onVenue r.exchange w.clientOrderId
    (placeProtectiveStop (setup.has r.exchange)
      ⟨r.symbol, (closeDirection r.side).text, amount, trigger, w.clientOrderId⟩ 1)
  match stop.order with
  | none => flattenEntry r
  | some slOrder =>
    let _ ← tryCall (.setStopKey r.pair (slOrder.id.getD "None"))
    journalOpen r w order resolution

def continueOpen (order : Order) : Program EntryResult := do
  call (.markAccepted w.attemptId (order.id.getD "None"))
  call (.exitKeys r.pair)
  let resolution ← resolveFillPrice setup r.exchange r.symbol order (some w.amount)
  if resolution.status = .noFill then
    -- no position was opened: there is nothing to protect and nothing to journal
    call (.exitKeys r.pair)
    call (.markFailed w.attemptId)
    return .refused
  else protectOpen setup r w order resolution

def settleFound (found : Order) : Program EntryResult := do
  let guard : FillGuard :=
    { symbol := r.symbol
      side := r.side
      stopSide := (closeDirection r.side).text
      referencePrice := w.price
      initialSlPct := r.initialSlPct
      entryClientOrderId := w.clientOrderId }
  let settled ← onVenue r.exchange w.clientOrderId
    (settleActiveEntry (setup.has r.exchange) r.symbol guard found)
  match settled.order with
  | none =>
    call (.markAccepted w.attemptId (settled.latest.id.getD "None"))
    return .unknown
  | some order =>
    -- a stop placed meanwhile counts even when the order omits its amount
    if 0 < order.filledOrZero ∨ 1 < settled.guard.nextSequence then
      call (.markAccepted w.attemptId (order.id.getD "None"))
      flattenEntry r
    else continueOpen setup r w order

def recoverUnknownEntry : Program EntryResult := do
  call (.markSubmissionUnknown w.attemptId)
  let found ← onVenue r.exchange w.clientOrderId
    (findEntry (setup.has r.exchange) r.symbol w.clientOrderId)
  match found with
  | none => return .unknown
  | some order =>
    if order.isTerminal then continueOpen setup r w order else settleFound setup r w order

def submitEntry : Program EntryResult := do
  let answer ← tryCall (.createMarketOrder
    { exchange := r.exchange
      symbol := r.symbol
      direction := entryDirection r.side
      amount := w.amount
      clientOrderId := w.clientOrderId
      reduceOnly := false })
  match answer with
  | .ok order => continueOpen setup r w order
  | .error (.exchange _) | .error (.invalidOrder _) | .error (.duplicateOrderId _) =>
    call (.markFailed w.attemptId)
    return .refused
  | .error _ => recoverUnknownEntry setup r w

def positionsAdmit (positions : List OpenPosition) (failed : List String) : Bool :=
  r.exchange ∉ failed && positions.all fun p => p.base.toUpper ≠ r.base.toUpper

def placeLocked : Program EntryResult := do
  let snapshot ← fetchAllPositions .entry setup.exchanges
  if positionsAdmit r snapshot.1 snapshot.2 = false then return .refused
  else if r.exchange ∉ setup.exchanges then throw (.other "KeyError")
  else
    let admitted ← call (.admission r.exchange r.symbol)
    match admitted with
    | none => return .refused
    | some (amount, price) =>
      let clientOrderId ← call .newClientOrderId
      let attemptId ← call (.createAttempt ⟨clientOrderId, r.exchange, r.base.toUpper, r.symbol, r.side, amount⟩)
      match attemptId with
      | none => return .refused
      | some attemptId =>
        let pass ← call .finalChecks
        if pass then submitEntry setup r ⟨clientOrderId, attemptId, amount, price⟩
        else
          call (.markFailed attemptId)
          return .refused

def placeOrder : Program EntryResult := do
  let isOpen ← call .gateIsOpen
  if isOpen then
    let locked ← call (.acquireLock r.pair)
    if locked then (placeLocked setup r).ensure (call (.releaseLock r.pair))
    else return .refused
  else return .refused

end

end Schurfer.Desk
