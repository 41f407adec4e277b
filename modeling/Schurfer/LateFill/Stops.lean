import Schurfer.EmergencyClose.Executor

/-!
# Settling an entry that is still active

`entry_recovery.py` and `protective_stop.py`: what is left of the entry is cancelled, and every fill seen meanwhile is
kept covered by stops of the entry's own ids. A timeout of a call is one of the ways it raises.
-/

namespace Schurfer.LateFill

open Orders

inductive Failure
  | network (text : String)
  | exchange (text : String)
  | invalidOrder (text : String)
  | duplicateOrderId (text : String)
  | taskConflict (text : String)
  | other (text : String)
deriving DecidableEq

structure Identity where
  exchange : String
  symbol : String
  nativeMarketId : String
  marketType : String
  side : Side

structure Attempt where
  identity : Identity
  attemptId : ℕ
  base : String
  clientOrderId : String
  orderId : Option String
  status : AttemptStatus
  filledAmount : Option ℚ
  tradeId : Option ℕ

structure TaskSpec where
  sourceAttemptId : ℕ
  entryClientOrderId : String
  exchange : String
  base : String
  symbol : String
  nativeMarketId : String
  marketType : String
  side : Side
  ownedQuantity : ℚ

structure AdoptedClose where
  clientOrderId : String
  status : AttemptStatus
  orderId : Option String
  requestedAmount : Option ℚ
  filledAmount : Option ℚ

structure AttemptRead where
  status : AttemptStatus
  tradeId : Option ℕ
  initialSlPct : Option ℚ

inductive Op
  | acquireLock (key : String)
  | releaseLock (key : String)
  | readAttempt (attemptId : ℕ)
  | readOpenTrade (exchange symbol : String)
  | readOtherUnresolvedAttempt (exchange base : String) (attemptId : ℕ)
  | readOtherActiveTask (exchange base : String) (attemptId : ℕ)
  | fetchOrders (symbol : String) (listing : Listing) (trigger : Bool)
  | fetchTicker (symbol : String)
  | cancelOrder (symbol : String) (id : Option String)
  | createStopMarketOrder (symbol side : String) (amount triggerPrice : ℚ) (clientOrderId : String)
  | priceToPrecision (symbol : String) (price : ℚ)
  | monotonic
  | sleep (seconds : ℚ)
  | createTask (spec : TaskSpec) (adopted : List AdoptedClose)
  | record (attempt : Attempt) (order : Order)

abbrev Ans : Op → Type
  | .acquireLock _ => Bool
  | .releaseLock _ => Unit
  | .readAttempt _ => Option AttemptRead
  | .readOpenTrade _ _ => Bool
  | .readOtherUnresolvedAttempt _ _ _ => Bool
  | .readOtherActiveTask _ _ _ => Bool
  | .fetchOrders _ _ _ => List Order
  | .fetchTicker _ => Option ℚ
  | .cancelOrder _ _ => Unit
  | .createStopMarketOrder _ _ _ _ _ => Order
  | .priceToPrecision _ _ => ℚ
  | .monotonic => ℚ
  | .sleep _ => Unit
  | .createTask _ _ => ℕ × Bool
  | .record _ _ => Attempt

abbrev Program := Prog Failure Op Ans

def call (o : Op) : Program (Ans o) := Prog.perform o

def tryCall (o : Op) : Program (Except Failure (Ans o)) := Prog.attempt o

abbrev Has := Listing → Bool

section

variable (has : Has)

def list (symbol : String) : Program (List Order) :=
  listOrders has (fun capability => .other s!"exchange cannot {capability}")
    fun listing trigger => call (.fetchOrders symbol listing trigger)

def lookUp (symbol clientOrderId : String) : Program (Option Order) :=
  (do
    let orders ← list has symbol
    return findByClientOrderId orders clientOrderId).handle fun _ => return none

def entryStops (symbol entryClientOrderId : String) : Program (Option (List Order)) :=
  (do
    let orders ← list has symbol
    return some (ordersWithPrefix orders (stopPrefix entryClientOrderId))).handle fun _ => return none

end

inductive StopState
  | resting
  | filling
  | terminalFill
  | noFill

def StopState.text : StopState → String
  | .resting => "resting"
  | .filling => "filling"
  | .terminalFill => "terminal_fill"
  | .noFill => "no_fill"

def stopState (order : Order) : StopState :=
  if order.isTerminal then
    if 0 < order.filledOrZero then .terminalFill else .noFill
  else if 0 < order.filledOrZero then .filling
  else .resting

structure StopPlacement where
  order : Option Order
  clientOrderId : String
  sequence : ℕ
  requests : ℕ := 0
  errors : List String := []

def StopPlacement.error (p : StopPlacement) : String := p.errors.getLast?.getD "no stop confirmed"

def StopPlacement.failed (p : StopPlacement) (text : String) : StopPlacement :=
  { p with errors := p.errors ++ [text] }

def StopPlacement.nextId (entryClientOrderId : String) (p : StopPlacement) : StopPlacement × Except String Unit :=
  let p := { p with sequence := p.sequence + 1 }
  match stopClientOrderId entryClientOrderId p.sequence with
  | .ok id => ({ p with clientOrderId := id }, .ok ())
  | .error text => (p, .error text)

def StopPlacement.settle (entryClientOrderId : String) (p : StopPlacement) (order : Order) :
    StopPlacement × Except String Bool :=
  match stopState order with
  | .resting => ({ p with order := some order }, .ok true)
  | .noFill =>
    let next := (p.failed s!"stop {p.clientOrderId} ended with no fill").nextId entryClientOrderId
    (next.1, next.2.map fun _ => false)
  | state => (p.failed s!"stop {p.clientOrderId} already {state.text}", .ok true)

structure StopRequest where
  symbol : String
  stopSide : String
  amount : ℚ
  triggerPrice : ℚ
  entryClientOrderId : String

structure Requests where
  placement : StopPlacement
  ended : Bool
  unknown : Bool

def stopRetryDelays : List ℚ := [0, 3 / 2, 9 / 2]

def stopDeadline : ℚ := 10

def remaining (started : ℚ) : Program ℚ := do
  let now ← call .monotonic
  return stopDeadline - (now - started)

def sleepFor (wait : ℚ) : Program Unit := if 0 < wait then call (.sleep wait) else pure ()

def awaitTurn (started delay : ℚ) : Program Bool := do
  let now ← call .monotonic
  let wait := delay - (now - started)
  if 0 < wait then
    let left ← remaining started
    if left ≤ wait then return false
    else
      call (.sleep wait)
      let left ← remaining started
      return 0 < left
  else
    let left ← remaining started
    return 0 < left

def orRaise {α : Type} : Except String α → Program α
  | .ok a => return a
  | .error text => throw (.other text)

section

variable (has : Has) (r : StopRequest)

def requestStop (p : StopPlacement) (resendingUnknown : Bool) : Program Requests := do
  let p := { p with requests := p.requests + 1 }
  let answer ← tryCall (.createStopMarketOrder r.symbol r.stopSide r.amount r.triggerPrice p.clientOrderId)
  match answer with
  | .ok response =>
    match p.settle r.entryClientOrderId response with
    | (p, .ok ended) => return ⟨p, ended, false⟩
    | (p, .error text) => return ⟨p.failed s!"unknown: {text}", false, true⟩
  | .error (.duplicateOrderId text) => return ⟨p.failed s!"duplicate id, outcome unknown: {text}", false, true⟩
  | .error (.invalidOrder text) =>
    -- a duplicate id after an unknown outcome means the first request may have landed
    if resendingUnknown then return ⟨p.failed s!"duplicate id, outcome unknown: {text}", false, true⟩
    else return ⟨p.failed s!"rejected, not retryable: {text}", true, false⟩
  | .error (.network text) => return ⟨p.failed s!"unknown: {text}", false, true⟩
  | .error (.exchange text) =>
    let next := (p.failed s!"rejected: {text}").nextId r.entryClientOrderId
    orRaise next.2
    return ⟨next.1, false, false⟩
  | .error (.taskConflict text) | .error (.other text) => return ⟨p.failed s!"unknown: {text}", false, true⟩

def lookAgain (p : StopPlacement) (unknown : Bool) : Program Requests := do
  if unknown then
    let found ← lookUp has r.symbol p.clientOrderId
    match found with
    | none => return ⟨p, false, true⟩
    | some order =>
      let settled := p.settle r.entryClientOrderId order
      let ended ← orRaise settled.2
      return ⟨settled.1, ended, false⟩
  else return ⟨p, false, false⟩

def requestStops (started : ℚ) : List ℚ → StopPlacement → Bool → Program Requests
  | [], p, unknown => return ⟨p, false, unknown⟩
  | delay :: delays, p, unknown => do
    let inTime ← awaitTurn started delay
    if inTime then
      let looked ← lookAgain has r p unknown
      if looked.ended then return looked
      else
        let sent ← requestStop r looked.placement looked.unknown
        if sent.ended then return sent
        else requestStops started delays sent.placement sent.unknown
    else return ⟨p, false, unknown⟩

def placeProtectiveStop (firstSequence : ℕ) : Program StopPlacement := do
  let started ← call .monotonic
  let id ← orRaise (stopClientOrderId r.entryClientOrderId firstSequence)
  let done ← requestStops has r started stopRetryDelays ⟨none, id, firstSequence, 0, []⟩ false
  if done.unknown then
    -- a stop that was created is never mistaken for none
    let last ← lookAgain has r done.placement true
    return last.placement
  else return done.placement

end

structure FillGuard where
  symbol : String
  side : Side
  stopSide : String
  referencePrice : ℚ
  initialSlPct : ℚ
  entryClientOrderId : String
  nextSequence : ℕ := 1
  placed : List String := []
  seenFilled : ℚ := 0
  failure : Option String := none

def stopNumber (entryClientOrderId clientOrderId : String) : Option ℕ :=
  let digits := clientOrderId.toList.drop (stopPrefix entryClientOrderId).length
  if digits ≠ [] ∧ digits.all (·.isDigit) then some (Nat.ofDigitChars 10 digits 0) else none

def FillGuard.adopt (guard : FillGuard) (stop : Order) : FillGuard :=
  let id := stop.linkId.getD ""
  match stopNumber guard.entryClientOrderId id with
  | none => guard
  | some n => { guard with placed := id :: guard.placed, nextSequence := max guard.nextSequence (n + 1) }

def stopsTotal : List Order → Option (ℚ × ℚ)
  | [] => some (0, 0)
  | stop :: stops => do
    let (filled, protecting) ← stopsTotal stops
    let stopFilled ← stop.filled
    if stop.isTerminal then return (filled + stopFilled, protecting)
    else
      let amount ← stop.amount
      return (filled + stopFilled, protecting + max (amount - stopFilled) 0)

section

variable (has : Has)

variable (guard : FillGuard)

def adoptExisting : Program (Option FillGuard) := do
  let stops ← entryStops has guard.symbol guard.entryClientOrderId
  return stops.map (·.foldl FillGuard.adopt guard)

def stopsView : Program (Option (ℚ × ℚ)) := do
  let stops ← entryStops has guard.symbol guard.entryClientOrderId
  match stops with
  | none => return none
  | some stops =>
    -- a stop placed here but missing from the listing proves nothing
    if guard.placed.any fun id => stops.all fun stop => stop.linkId ≠ some id then return none
    else return stopsTotal stops

def stopTrigger (symbol : String) (side : Side) (referencePrice initialSlPct : ℚ) : Program ℚ :=
  call (.priceToPrecision symbol (match side with
    | .short => referencePrice * (1 + initialSlPct / 100)
    | .long => referencePrice * (1 - initialSlPct / 100)))

def guardView : Program (Option (ℚ × ℚ)) :=
  if 1 < guard.nextSequence then stopsView has guard else return some (0, 0)

/-- What of the fill no stop covers. Without a view of the stops, only the fill beyond the last look is
known to be bare. -/
def gapOf (filled : ℚ) : Option (ℚ × ℚ) → ℚ
  | none => filled - guard.seenFilled
  | some (stopsFilled, protecting) => max (filled - stopsFilled) 0 - protecting

def cover (order : Order) : Program FillGuard := do
  let view ← guardView has guard
  let gap := gapOf guard order.filledOrZero view
  let guard := { guard with seenFilled := max guard.seenFilled order.filledOrZero }
  if 0 < gap ∧ guard.failure = none then
    let reference := (order.average.filter (· ≠ 0)).getD guard.referencePrice
    let trigger ← stopTrigger guard.symbol guard.side reference guard.initialSlPct
    let placement ← placeProtectiveStop has
      ⟨guard.symbol, guard.stopSide, gap, trigger, guard.entryClientOrderId⟩ guard.nextSequence
    let guard := { guard with nextSequence := placement.sequence + 1 }
    match placement.order with
    | none => return { guard with failure := some placement.error }
    | some _ => return { guard with placed := placement.clientOrderId :: guard.placed }
  else return guard

def cancelConfirmAt : List ℚ := [1 / 2, 3 / 2, 3, 5]

structure Settled where
  order : Option Order
  latest : Order
  guard : FillGuard

def confirmCancel (symbol clientOrderId : String) (started : ℚ) : List ℚ → FillGuard → Order → Program Settled
  | [], guard, latest => return ⟨none, latest, guard⟩
  | due :: looks, guard, latest => do
    let now ← call .monotonic
    sleepFor (due - (now - started))
    let found ← lookUp has symbol clientOrderId
    match found with
    | none => confirmCancel symbol clientOrderId started looks guard latest
    | some order =>
      if order.isTerminal then return ⟨some order, order, guard⟩
      else
        let guard ← cover has guard order
        confirmCancel symbol clientOrderId started looks guard order

def settleActiveEntry (symbol : String) (guard : FillGuard) (order : Order) : Program Settled := do
  if order.isTerminal then return ⟨some order, order, guard⟩
  else
    let guard ← cover has guard order
    match order.linkId with
    | none => return ⟨none, order, guard⟩
    | some clientOrderId =>
      -- an order that filled meanwhile can no longer be cancelled; the looks say how it ended
      let _ ← tryCall (.cancelOrder symbol order.id)
      let started ← call .monotonic
      confirmCancel has symbol clientOrderId started cancelConfirmAt guard order

end

end Schurfer.LateFill
