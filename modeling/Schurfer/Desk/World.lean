import Schurfer.Desk.Incidents

/-!
# Exchanges, Redis and the database

Every call is one step, and may fail on its own; a write that failed may have been made, a market order that the
exchange rejected was not. A market order is executed when the exchange takes it; after that only stops fill. What a
reduce-only order or a stop takes away is taken from the oldest entry first. Keys of Redis may be lost at any time.
The order lock is held until it is released or its holder dies.
-/

namespace Schurfer.Desk

open Orders LateFill Threads Function

inductive OrderKind
  | entry (side : Side)
  | close
  | stop (entryClientOrderId : String) (reduces : Side)
deriving DecidableEq

/-- An order as its exchange keeps it. The `left` of an entry is what of its fill is still held. -/
structure VenueOrder where
  exchange : String
  id : String
  clientOrderId : String
  symbol : String
  kind : OrderKind
  amount : ℚ
  executed : ℚ
  left : ℚ := 0
  status : String
deriving DecidableEq

namespace VenueOrder

def pair (o : VenueOrder) : Pair := pairOf o.exchange (baseOf o.symbol)

def isEntry (o : VenueOrder) : Bool :=
  match o.kind with
  | .entry _ => true
  | _ => false

def holds (exchange symbol : String) (side : Side) (o : VenueOrder) : Bool :=
  o.exchange = exchange && o.symbol = symbol && o.kind = .entry side

def holding (exchange symbol : String) (side : Side) (o : VenueOrder) : ℚ :=
  if o.holds exchange symbol side then o.left else 0

def instrument (exchange : String) (o : VenueOrder) : Option (String × Side) :=
  match o.kind with
  | .entry side => if o.exchange = exchange then some (o.symbol, side) else none
  | _ => none

end VenueOrder

def drawFrom (pick : VenueOrder → Bool) : ℚ → List VenueOrder → List VenueOrder
  | _, [] => []
  | x, o :: orders =>
    if pick o then { o with left := o.left - min x o.left } :: drawFrom pick (x - min x o.left) orders
    else o :: drawFrom pick x orders

def Direction.opens : Direction → Side
  | .buy => .long
  | .sell => .short

def Direction.reduces : Direction → Side
  | .buy => .short
  | .sell => .long

def stopReduces (direction : String) : Side := if direction = "sell" then .long else .short

structure AttemptRow where
  id : ℕ
  clientOrderId : String
  exchange : String
  base : String
  symbol : String
  status : AttemptStatus := .pending
  orderId : Option String := none
  requestedAmount : ℚ
  filledAmount : Option ℚ := none
  tradeId : Option ℕ := none
  context : Option CloseContext

structure TradeRow where
  id : ℕ
  exchange : String
  symbol : String
  side : Side
  entryOrderId : Option String
  entryAt : ℤ
  isPaper : Bool
  isOpen : Bool := true
  exitOrderId : Option String := none
  exitPrice : Option ℚ := none

/-- The row `ORDER BY entry_at DESC LIMIT 1` finds. -/
def latest {α : Type} (entryAt : α → ℤ) : List α → Option α
  | [] => none
  | t :: trades =>
    match latest entryAt trades with
    | none => some t
    | some best => if entryAt best ≤ entryAt t then some t else some best

def AttemptRow.recoverable (tradeIsOpen : Option ℕ → Bool) (row : AttemptRow) : Bool :=
  match row.status with
  | .pending | .accepted | .submissionUnknown => true
  | .completed => tradeIsOpen row.tradeId
  | _ => false

/-- What the entry of the trade filled, less the legs that closed of it. -/
def remainingAmountOf (attempts : List AttemptRow) (tradeId : ℕ) (legs : List ℚ) : Option ℚ :=
  (attempts.findSome? fun row =>
    if row.tradeId = some tradeId ∧ row.context = none then row.filledAmount else none).map fun filled =>
      max 0 (filled - legs.sum)

def AttemptRow.toClose (row : AttemptRow) : Option CloseAttempt :=
  row.context.map fun context =>
    { id := row.id
      clientOrderId := row.clientOrderId
      exchange := row.exchange
      base := row.base
      symbol := row.symbol
      status := row.status
      orderId := row.orderId
      requestedAmount := row.requestedAmount
      tradeId := row.tradeId
      context }

def CloseFill.agrees (old new : CloseFill) : Bool :=
  old.tradeId = new.tradeId && old.terminal = new.terminal && isClose old.fillPrice new.fillPrice &&
    isClose old.filledAmount new.filledAmount && isClose old.requestedAmount new.requestedAmount &&
    isClose old.remainingAmount new.remainingAmount

def CloseFill.isValid (f : CloseFill) : Bool :=
  0 < f.fillPrice && 0 < f.filledAmount && 0 < f.requestedAmount && 0 ≤ f.remainingAmount

structure State where
  orders : List VenueOrder := []
  locks : Pair → Option ℕ := fun _ => none
  stopKeys : Pair → Option String := fun _ => none
  tradeKeys : Pair → Option ℕ := fun _ => none
  pending : List PendingClose := []
  attempts : List AttemptRow := []
  trades : List TradeRow := []
  fills : List CloseFill := []
  incidents : List Incident := []
  /-- the client order ids handed out, and to which thread -/
  issued : List (String × ℕ) := []
  /-- how many orders there were when the thread's last snapshot read the exchange; none counts after a
  snapshot that failed -/
  seen : ℕ → String → ℕ := fun _ _ => 0

namespace State

variable (s : State)

def held (exchange symbol : String) (side : Side) : ℚ :=
  (s.orders.map (VenueOrder.holding exchange symbol side)).sum

def positions (exchange : String) : List Position :=
  ((s.orders.filterMap (VenueOrder.instrument exchange)).dedup).map fun (symbol, side) =>
    ⟨symbol, some side, s.held exchange symbol side⟩

def findOrder (exchange orderId : String) : Option VenueOrder :=
  s.orders.find? fun o => o.exchange = exchange && o.id = orderId

def taken (exchange orderId clientOrderId : String) : Bool :=
  s.issued.any (·.1 = orderId) || s.orders.any fun o => o.exchange = exchange &&
    (o.id = orderId || o.clientOrderId = orderId || o.clientOrderId = clientOrderId)

def findOpenTrade (exchange symbol : String) : Option TradeRow :=
  latest (·.entryAt) (s.trades.filter fun t => t.exchange = exchange && t.symbol = symbol && t.isOpen)

def findTrade (tradeId : ℕ) : Option TradeRow := s.trades.find? (·.id = tradeId)

def tradeIsOpen (tradeId : Option ℕ) : Bool := ((tradeId >>= s.findTrade).map (·.isOpen)).getD false

def recoverableCloses : List CloseAttempt :=
  (s.attempts.filter (·.recoverable s.tradeIsOpen)).filterMap AttemptRow.toClose

def aggregatePrice (tradeId : ℕ) : Option ℚ :=
  let fills := s.fills.filter (·.tradeId = tradeId)
  let amount := (fills.map (·.filledAmount)).sum
  if amount = 0 then none else some ((fills.map fun f => f.fillPrice * f.filledAmount).sum / amount)

def remainingAmount (tradeId : ℕ) : Option ℚ :=
  remainingAmountOf s.attempts tradeId ((s.fills.filter (·.tradeId = tradeId)).map (·.filledAmount))

def openIncidents : List Incident := s.incidents.filter fun n => n.status = .pending || n.status = .resolving

def updateAttempt (attemptId : ℕ) (f : AttemptRow → AttemptRow) : State :=
  { s with attempts := s.attempts.map fun row => if row.id = attemptId then f row else row }

def addAttempt (row : ℕ → AttemptRow) : State :=
  { s with attempts := s.attempts ++ [row (s.attempts.length + 1)] }

def clientIdUsed (clientOrderId : String) : Bool := s.attempts.any (·.clientOrderId = clientOrderId)

def tradeOf (exchange : String) (orderId : Option String) : Option TradeRow :=
  orderId >>= fun orderId => s.trades.find? fun t => t.exchange = exchange && t.entryOrderId = some orderId

def openTrade (trade : NewTrade) (entryAt : ℤ) : Option ℕ × State :=
  match s.tradeOf trade.exchange trade.orderId with
  | some row => (if row.symbol = trade.symbol ∧ row.side = trade.side then some row.id else none, s)
  | none =>
    (some (s.trades.length + 1),
      { s with trades := s.trades ++ [⟨s.trades.length + 1, trade.exchange, trade.symbol, trade.side,
          trade.orderId, entryAt, false, true, none, none⟩] })

def recordCloseFill (f : CloseFill) : Option ℚ × State :=
  if f.isValid then
    match s.findTrade f.tradeId, s.fills.find? fun old => old.exchange = f.exchange && old.orderId = f.orderId with
    | none, _ => (none, s)
    | some _, some old => (if old.agrees f then s.aggregatePrice f.tradeId else none, s)
    | some trade, none =>
      if trade.isOpen then
        let s' := { s with fills := s.fills ++ [f] }
        (s'.aggregatePrice f.tradeId, s')
      else (none, s)
  else (none, s)

def closeTrade (tradeId : ℕ) (exitOrderId : Option String) (exitPrice : ℚ) : State :=
  { s with trades := s.trades.map fun t =>
      if t.id = tradeId ∧ t.isOpen = true then
        { t with isOpen := false, exitOrderId, exitPrice := some exitPrice }
      else t }

def incidentOf (exchange orderId : String) : Option Incident :=
  s.incidents.find? fun n => n.exchange = exchange && n.orderId = orderId

def createIncident (n : NewIncident) : Option ℕ × State :=
  match s.incidentOf n.exchange n.orderId with
  | some old => (some old.id, s)
  | none =>
    (some (s.incidents.length + 1),
      { s with incidents := s.incidents ++ [⟨s.incidents.length + 1, n.exchange, n.base, n.operation,
          n.orderId, n.tradeId, .pending, 0, n.context⟩] })

def updateIncident (incidentId : ℕ) (f : Incident → Incident) : State :=
  { s with incidents := s.incidents.map fun n => if n.id = incidentId then f n else n }

end State

structure Report where
  tellsStatus : Bool := true
  filled : Option ℚ := none
  average : Option ℚ := none
  price : Option ℚ := none
  cost : Option ℚ := none

structure Chance where
  failure : Option Failure := none
  lands : Bool := false
  flag : Bool := true
  text : String := ""
  amount : ℚ := 0
  status : String := "closed"
  report : String → Report := fun _ => {}
  hidden : List String := []
  pairs : List Pair := []
  keys : List (Pair × ℕ) := []
  trades : List (ℚ × ℚ) := []
  admitted : Option (ℚ × ℚ) := none
  reason : Option String := none
  time : ℤ := 0

/-- What the exchange shows of an order: of its fill never more than was executed. -/
def VenueOrder.view (c : Chance) (o : VenueOrder) : Order :=
  let report := c.report o.id
  { id := some o.id
    clientOrderId := some o.clientOrderId
    status := if report.tellsStatus then some o.status else none
    filled := report.filled.map (min · o.executed)
    amount := some o.amount
    average := report.average
    price := report.price
    cost := report.cost }

section

variable (s : State) (c : Chance)

def executedOf (limit : ℚ) : ℚ := max 0 (min c.amount limit)

def newEntryOrder (m : MarketOrder) : VenueOrder where
  exchange := m.exchange
  id := c.text
  clientOrderId := m.clientOrderId
  symbol := m.symbol
  kind := .entry m.direction.opens
  amount := m.amount
  executed := executedOf c m.amount
  left := executedOf c m.amount
  status := c.status

def reducedOf (m : MarketOrder) : ℚ :=
  executedOf c (min m.amount (s.held m.exchange m.symbol m.direction.reduces))

def newCloseOrder (m : MarketOrder) : VenueOrder where
  exchange := m.exchange
  id := c.text
  clientOrderId := m.clientOrderId
  symbol := m.symbol
  kind := .close
  amount := m.amount
  executed := reducedOf s c m
  status := c.status

def placeMarket (m : MarketOrder) : State :=
  if s.taken m.exchange c.text m.clientOrderId then s
  else if m.reduceOnly then
    { s with
      orders := drawFrom (VenueOrder.holds m.exchange m.symbol m.direction.reduces) (reducedOf s c m) s.orders ++
        [newCloseOrder s c m] }
  else { s with orders := s.orders ++ [newEntryOrder c m] }

def newStopOrder (stop : StopOrder) : VenueOrder where
  exchange := stop.exchange
  id := c.text
  clientOrderId := stop.clientOrderId
  symbol := stop.symbol
  kind := .stop stop.entryClientOrderId (stopReduces stop.direction)
  amount := stop.amount
  executed := 0
  status := c.status

def placeStop (stop : StopOrder) : State :=
  if s.taken stop.exchange c.text stop.clientOrderId then s
  else { s with orders := s.orders ++ [newStopOrder c stop] }

def isFinal (status : String) : Bool :=
  status = "closed" || status = "canceled" || status = "expired" || status = "rejected"

def cancel (exchange orderId : String) : State :=
  { s with orders := s.orders.map fun o =>
      if o.exchange = exchange ∧ o.id = orderId ∧ isFinal o.status = false then { o with status := "canceled" }
      else o }

def cancellable (exchange orderId : String) : Bool :=
  s.orders.any fun o => o.exchange = exchange && o.id = orderId && !isFinal o.status

def fillStop (exchange orderId : String) (amount : ℚ) (status : String) : State :=
  match s.findOrder exchange orderId with
  | some ⟨_, _, _, symbol, .stop _ side, _, _, _, resting⟩ =>
    if isFinal resting then s
    else
      let x := max 0 (min amount (s.held exchange symbol side))
      { s with orders := (drawFrom (VenueOrder.holds exchange symbol side) x s.orders).map fun o =>
          if o.exchange = exchange ∧ o.id = orderId then { o with executed := o.executed + x, status } else o }
  | _ => s

end

def effect (i : ℕ) (s : State) (c : Chance) : Op → State
  | .acquireLock pair =>
    if s.locks pair = none ∧ c.flag = true then { s with locks := update s.locks pair (some i) } else s
  | .releaseLock pair =>
    if s.locks pair = some i then { s with locks := update s.locks pair none } else s
  | .setStopKey pair orderId => { s with stopKeys := update s.stopKeys pair (some orderId) }
  | .deleteStopKey pair => { s with stopKeys := update s.stopKeys pair none }
  | .setTradeKey pair tradeId => { s with tradeKeys := update s.tradeKeys pair (some tradeId) }
  | .deleteTradeKeyIfMatches pair tradeId =>
    if s.tradeKeys pair = some tradeId then { s with tradeKeys := update s.tradeKeys pair none } else s
  | .setPendingClose p =>
    { s with pending := p :: s.pending.filter fun q => ¬ (q.pair = p.pair ∧ q.tradeId = p.tradeId) }
  | .deletePendingClose pair tradeId =>
    { s with pending := s.pending.filter fun q => ¬ (q.pair = pair ∧ q.tradeId = tradeId) }
  | .fetchPositions .snapshot exchange =>
    { s with seen := update s.seen i (update (s.seen i) exchange s.orders.length) }
  | .createMarketOrder m => placeMarket s c m
  | .createStopMarketOrder stop => placeStop s c stop
  | .cancelOrder exchange orderId _ => (orderId.map (cancel s exchange)).getD s
  | .newClientOrderId =>
    if s.issued.any (·.1 = c.text) || s.orders.any (·.id = c.text) then s
    else { s with issued := s.issued ++ [(c.text, i)] }
  | .createAttempt e =>
    if s.clientIdUsed e.clientOrderId then s
    else s.addAttempt fun id =>
      { id, clientOrderId := e.clientOrderId, exchange := e.exchange, base := e.base, symbol := e.symbol
        requestedAmount := e.requestedAmount, context := none }
  | .createCloseAttempt n =>
    if s.clientIdUsed n.clientOrderId then s
    else s.addAttempt fun id =>
      { id, clientOrderId := n.clientOrderId, exchange := n.exchange, base := n.base, symbol := n.symbol
        requestedAmount := n.requestedAmount, tradeId := n.tradeId, context := some n.context }
  | .markAccepted id orderId =>
    s.updateAttempt id fun row => { row with status := .accepted, orderId := some orderId }
  | .markSubmissionUnknown id => s.updateAttempt id fun row => { row with status := .submissionUnknown }
  | .markFailed id => s.updateAttempt id fun row => { row with status := .failed }
  | .markCompleted id tradeId filled => s.updateAttempt id fun row =>
      { row with status := .completed, tradeId, filledAmount := filled <|> row.filledAmount }
  | .markPartial id tradeId filled => s.updateAttempt id fun row =>
      { row with status := .partlyFilled, tradeId := some tradeId, filledAmount := some filled }
  | .linkCompletedTrade exchange orderId tradeId filled =>
    { s with attempts := s.attempts.map fun row =>
        if row.exchange = exchange ∧ row.orderId = some orderId ∧ row.context = none ∧
            (row.status = .accepted ∨ row.status = .completed ∨ row.status = .submissionUnknown) then
          { row with status := .completed, tradeId := some tradeId, filledAmount := filled <|> row.filledAmount }
        else row }
  | .openTrade trade => (s.openTrade trade c.time).2
  | .recordCloseFill f => (s.recordCloseFill f).2
  | .closeTrade tradeId _ exitOrderId exitPrice => s.closeTrade tradeId exitOrderId exitPrice
  | .createIncident n => (s.createIncident n).2
  | .markAttempt id status => s.updateIncident id fun n => { n with status, attemptCount := n.attemptCount + 1 }
  | .markResolved id => s.updateIncident id fun n => { n with status := .resolved }
  | _ => s

def value (s : State) (c : Chance) : (o : Op) → Except Failure (Ans o)
  | .acquireLock pair => .ok (s.locks pair = none && c.flag)
  | .getStopKey _ pair => .ok (s.stopKeys pair)
  | .scanStopKeys => .ok c.pairs
  | .getTradeKey _ pair => .ok (s.tradeKeys pair)
  | .deleteTradeKeyIfMatches pair tradeId => .ok (s.tradeKeys pair = some tradeId)
  | .getPendingClose pair tradeId => .ok (s.pending.find? fun q => q.pair = pair && q.tradeId = tradeId)
  | .scanPendingCloses => .ok c.keys
  | .fetchPositions _ exchange => .ok (s.positions exchange)
  | .createMarketOrder m =>
    if s.taken m.exchange c.text m.clientOrderId then .error (.duplicateOrderId "duplicate id")
    else if m.reduceOnly then .ok ((newCloseOrder s c m).view c)
    else .ok ((newEntryOrder c m).view c)
  | .createStopMarketOrder stop =>
    if s.taken stop.exchange c.text stop.clientOrderId then .error (.duplicateOrderId "duplicate id")
    else .ok ((newStopOrder c stop).view c)
  | .fetchOrder exchange orderId _ =>
    match s.findOrder exchange orderId with
    | some o => .ok (o.view c)
    | none => .error (.exchange "order not found")
  | .fetchOrders exchange symbol _ _ =>
    .ok ((s.orders.filter fun o => o.exchange = exchange && o.symbol = symbol && !c.hidden.contains o.id).map
      (·.view c))
  | .fetchTrades exchange orderId _ =>
    match s.findOrder exchange orderId with
    | some o =>
      if ((c.trades.filter fun t => 0 < t.1 && 0 < t.2).map Prod.snd).sum ≤ o.executed then .ok c.trades
      else .error (.exchange "order not found")
    | none => .error (.exchange "order not found")
  | .cancelOrder exchange orderId _ =>
    if (orderId.map (cancellable s exchange)).getD false then .ok ()
    else .error (.exchange "order not found")
  | .fetchTicker _ _ => .ok (some c.amount)
  | .priceToPrecision _ _ _ => .ok c.amount
  | .monotonic => .ok c.amount
  | .newClientOrderId =>
    if s.issued.any (·.1 = c.text) || s.orders.any (·.id = c.text) then .error (.other "not a new id")
    else .ok c.text
  | .gateIsOpen => .ok c.flag
  | .admission _ _ => .ok c.admitted
  | .finalChecks => .ok c.flag
  | .decideExit _ _ => .ok c.reason
  | .hasActiveTask _ _ => .ok (!c.flag)
  | .createAttempt e =>
    .ok (if s.clientIdUsed e.clientOrderId then none else some (s.attempts.length + 1))
  | .createCloseAttempt n =>
    .ok (if s.clientIdUsed n.clientOrderId then none else some (s.attempts.length + 1))
  | .markPartial id _ _ => .ok (s.attempts.any (·.id = id))
  | .linkCompletedTrade _ _ _ _ => .ok true
  | .loadRecoverableCloseAttempts => .ok s.recoverableCloses
  | .findOpenTradeId _ exchange symbol => .ok ((s.findOpenTrade exchange symbol).map (·.id))
  | .openTrade trade => .ok (s.openTrade trade c.time).1
  | .recordCloseFill f => .ok (s.recordCloseFill f).1
  | .closeTrade tradeId _ _ _ => .ok (s.findTrade tradeId).isSome
  | .aggregateCloseFillPrice tradeId => .ok (s.aggregatePrice tradeId)
  | .remainingTradeAmount tradeId => .ok (s.remainingAmount tradeId)
  | .createIncident n => .ok (s.createIncident n).1
  | .loadOpenIncidents => .ok s.openIncidents
  | .hasPendingOpen exchange base =>
    .ok (s.openIncidents.any fun n => n.operation = .opening && n.exchange = exchange && n.base = base)
  | .markResolved id => .ok (s.incidents.any (·.id = id))
  | .releaseLock _ | .setStopKey _ _ | .deleteStopKey _ | .setTradeKey _ _ | .setPendingClose _
  | .deletePendingClose _ _ | .exitKeys _ | .revokePnlReadiness | .sleep _ | .flatten _ _ _
  | .markAccepted _ _ | .markSubmissionUnknown _ | .markFailed _ | .markCompleted _ _ _
  | .markAttempt _ _ => .ok ()

def failed (e : Failure) : (o : Op) → Except Failure (Ans o)
  | .createAttempt _ | .createCloseAttempt _ => .ok none
  | .findOpenTradeId _ _ _ | .openTrade _ => .ok none
  | .recordCloseFill _ | .aggregateCloseFillPrice _ | .remainingTradeAmount _ => .ok none
  | .createIncident _ => .ok none
  | .loadRecoverableCloseAttempts => .ok []
  | .loadOpenIncidents => .ok []
  | .markPartial _ _ _ | .linkCompletedTrade _ _ _ _ | .closeTrade _ _ _ _ | .markResolved _ => .ok false
  | .hasPendingOpen _ _ => .ok true
  | .markAccepted _ _ | .markSubmissionUnknown _ | .markFailed _ | .markCompleted _ _ _
  | .markAttempt _ _ => .ok ()
  | _ => .error e

def isRejection : Failure → Bool
  | .exchange _ | .invalidOrder _ | .duplicateOrderId _ => true
  | _ => false

/-- A failed call may have been made all the same; not so a rejected order, a lock not taken, or a
snapshot not read. -/
def mayLand (e : Failure) : Op → Bool
  | .createMarketOrder _ | .createStopMarketOrder _ | .cancelOrder _ _ _ => !isRejection e
  | .acquireLock _ | .newClientOrderId | .fetchPositions _ _ => false
  | _ => true

def missed (i : ℕ) (s : State) : Op → State
  | .fetchPositions .snapshot exchange =>
    { s with seen := update s.seen i (update (s.seen i) exchange 0) }
  | _ => s

def Chance.failureOf (c : Chance) : Op → Option Failure
  | .releaseLock _ => none
  | _ => c.failure

def answer (i : ℕ) (s : State) (o : Op) (c : Chance) : Except Failure (Ans o) × State :=
  match c.failureOf o with
  | none => (value s c o, effect i s c o)
  | some e => (failed e o, if c.lands = true ∧ mayLand e o = true then effect i s c o else missed i s o)

inductive Event
  | fillStop (exchange orderId : String) (amount : ℚ) (status : String)
  | loseStopKey (pair : Pair)
  | loseTradeKey (pair : Pair)
  | openPaper (exchange symbol : String) (side : Side) (entryAt : ℤ)
  | closePaper (tradeId : ℕ)

def env (s : State) : Event → State
  | .fillStop exchange orderId amount status => fillStop s exchange orderId amount status
  | .loseStopKey pair => { s with stopKeys := update s.stopKeys pair none }
  | .loseTradeKey pair => { s with tradeKeys := update s.tradeKeys pair none }
  | .openPaper exchange symbol side entryAt =>
    { s with trades := s.trades ++ [⟨s.trades.length + 1, exchange, symbol, side, none, entryAt, true, true,
        none, none⟩] }
  | .closePaper tradeId =>
    { s with trades := s.trades.map fun t =>
        if t.id = tradeId ∧ t.isPaper = true then { t with isOpen := false } else t }

def crash (i : ℕ) (s : State) : State :=
  { s with locks := fun pair => if s.locks pair = some i then none else s.locks pair }

def world : World State Failure Op Ans Chance Event := ⟨answer, env, crash⟩

@[simp] theorem world_answer : world.answer = answer := rfl

def start : State := {}

def run (setup : Setup) (moves : List (Move Job Chance Event)) : Config State Failure Op Ans Job Unit :=
  Config.run world (main setup) ⟨start, []⟩ moves

end Schurfer.Desk
