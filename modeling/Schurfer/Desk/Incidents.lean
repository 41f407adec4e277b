import Schurfer.Desk.Entry

/-!
# The incident worker

`incident_worker.py`: an open incident is an order whose fill could not be accounted for when it was placed. The
worker resolves its price again and completes the open or the close it stands for.
-/

namespace Schurfer.Desk

open Orders LateFill

def maxResolutionAttempts : ℕ := 20

def bumpAttemptOrEscalate (n : Incident) : Program Unit :=
  if maxResolutionAttempts ≤ n.attemptCount + 1 then call (.markAttempt n.id .manualRequired)
  else call (.markAttempt n.id .resolving)

structure BookedLeg where
  requested : ℚ
  filled : ℚ
  remaining : ℚ
  terminal : Bool

def bookedLeg (leg : CloseLeg) (resolved : Option ℚ) : Option BookedLeg :=
  match leg.remainingAmount, positive (positive resolved <|> leg.filledAmount) with
  | some remaining, some filled =>
    if leg.terminal = true ∧ filled < leg.requestedAmount - closeTolerance leg.requestedAmount then
      some ⟨leg.requestedAmount, filled, max remaining (leg.requestedAmount - filled), false⟩
    else some ⟨leg.requestedAmount, filled, remaining, leg.terminal⟩
  | _, _ => none

def commitIncident (n : Incident) (tradeId : ℕ) (price : ℚ) : Program Bool := do
  commitAndUntrack (n.exchange, n.base) tradeId (some n.orderId) price
  call (.exitKeys (n.exchange, n.base))
  if n.context.reason = some stopReason then
    call (.deleteStopKey (n.exchange, n.base))
    return true
  else return true

def incidentTradeId (n : Incident) (symbol : String) : Program (Option ℕ) :=
  match n.tradeId with
  | some tradeId => return some tradeId
  | none => call (.findOpenTradeId (some n.orderId) n.exchange symbol)

def completeClose (n : Incident) (symbol : String) (price : ℚ) (resolved : Option ℚ) : Program Bool := do
  let tradeId ← incidentTradeId n symbol
  match tradeId with
  | none => return false
  | some tradeId =>
    match n.context.leg with
    | none => commitIncident n tradeId price
    | some leg =>
      match bookedLeg leg resolved with
      | none => return false
      | some leg =>
        let aggregate ← call (.recordCloseFill
          { tradeId
            exchange := n.exchange
            orderId := n.orderId
            fillPrice := price
            filledAmount := leg.filled
            requestedAmount := leg.requested
            remainingAmount := leg.remaining
            terminal := leg.terminal })
        match aggregate with
        | none => return false
        | some aggregate => if leg.terminal then commitIncident n tradeId aggregate else return true

def completeOpenIncident (n : Incident) (symbol : String) (price : ℚ) (filled : Option ℚ) : Program Bool := do
  let tradeId ← completeOpen (pairOf n.exchange n.base)
    ⟨n.exchange, symbol, n.context.side.getD .short, some n.orderId, price⟩
  match tradeId with
  | none => return false
  | some tradeId => call (.linkCompletedTrade n.exchange n.orderId tradeId filled)

section

variable (setup : Setup)

def completeIncident (n : Incident) (symbol : String) (resolution : FillResolution) (price : ℚ) :
    Program Unit := do
  let completed ← match n.operation with
    | .closing => completeClose n symbol price resolution.filledAmount
    | .opening => completeOpenIncident n symbol price resolution.filledAmount
  if completed then
    let _ ← call (.markResolved n.id)
    return ()
  else bumpAttemptOrEscalate n

def resolveIncident (n : Incident) (symbol : String) : Program Unit := do
  let resolution ← resolveFillPrice setup n.exchange symbol
    { id := some n.orderId, clientOrderId := none, status := none, filled := none }
    (n.context.leg.map (·.requestedAmount))
  match resolution.status with
  | .unresolved | .noFill => bumpAttemptOrEscalate n
  | _ =>
    match resolution.price with
    | none => throw (.other "AssertionError")
    | some price => completeIncident n symbol resolution price

def awaitOrder (n : Incident) (symbol : String) : Program Unit :=
  if n.operation = .closing ∧ n.context.orderTerminal = some false then do
    let answer ← tryCall (.fetchOrder n.exchange n.orderId symbol)
    match answer with
    | .error _ => bumpAttemptOrEscalate n
    | .ok order => if order.isTerminal then resolveIncident setup n symbol else return ()
  else resolveIncident setup n symbol

def processReady (n : Incident) : Program Unit :=
  if n.exchange ∉ setup.exchanges then bumpAttemptOrEscalate n
  else
    match resolveExecutionInstrument (setup.markets n.exchange) n.base with
    | none => bumpAttemptOrEscalate n
    | some symbol => awaitOrder setup n symbol

def processOne (n : Incident) : Program Unit :=
  match n.operation with
  | .opening => processReady setup n
  | .closing => do
    -- the matching open must have its trade first
    let waiting ← call (.hasPendingOpen n.exchange n.base)
    if waiting then return () else processReady setup n

def processAll : List Incident → Program Unit
  | [] => return ()
  | n :: incidents => do
    (processOne setup n).handle fun _ => return ()
    processAll incidents

def incidentTick : Program Unit := do
  let incidents ← call .loadOpenIncidents
  processAll setup incidents

end

inductive Job
  | tick
  | place (r : EntryRequest)
  | close (exchange base : String)
  | incidents
deriving DecidableEq

def main (setup : Setup) : Job → Program Unit
  | .tick => tick setup
  | .place r => do
    let _ ← placeOrder setup r
    return ()
  | .close exchange base => manualClosePosition setup exchange base
  | .incidents => incidentTick setup

end Schurfer.Desk
