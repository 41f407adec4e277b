import Schurfer.EmergencyClose.Executor
import Schurfer.Lib.Serial

/-!
# The task's rows and the exchange

The exchange answers anything, every call may raise, and a write that raised may have been made. Closes written by
others reach the task only through `linkLateCloses`, and never under an id of its own closes but the first.
-/

namespace Schurfer.EmergencyClose

open Orders Threads

def OutsideId (entryClientOrderId id : String) : Prop :=
  startsWith id (closePrefix entryClientOrderId) = true → id = closePrefix entryClientOrderId ++ toString 1

instance (entry id : String) : Decidable (OutsideId entry id) :=
  inferInstanceAs (Decidable (startsWith id (closePrefix entry) = true → id = closePrefix entry ++ toString 1))

structure State where
  task : Task
  claimOwner : Option String
  closes : List CloseOrder

variable (s : State)

def State.ids : List ℕ := s.closes.map (·.attemptId)

structure Chance where
  raises : Option Failure := none
  applied : Bool := true
  claimExpired : Bool := false
  lockFree : Bool := true
  linked : List CloseOrder := []
  problem : Option LinkProblem := none
  orders : List Order := []
  positions : List PositionRow := []
  rounded : ℚ := 0
  order : Order := { id := none, clientOrderId := none, status := none, filled := none }
  now : Time := 0

def wrote {α : Type} (c : Chance) (s s' : State) (value : α) : Except Failure α × State :=
  match c.raises with
  | some e => (.error e, if c.applied then s' else s)
  | none => (.ok value, s')

def readAs {α : Type} (c : Chance) (s : State) (value : α) : Except Failure α × State :=
  match c.raises with
  | some e => (.error e, s)
  | none => (.ok value, s)

def State.link (s : State) : List CloseOrder → State
  | [] => s
  | row :: rows =>
    if row.attemptId ∉ s.ids ∧ OutsideId s.task.entryClientOrderId row.clientOrderId then
      State.link { s with closes := s.closes ++ [row] } rows
    else State.link s rows

def State.freshId : ℕ := (s.ids.max?.getD 0) + 1

def State.addIntent (clientOrderId : String) (amount : ℚ) (createdAt : Time) : State :=
  { s with closes := s.closes ++
      [⟨s.freshId, clientOrderId, .pending, none, some amount, none, createdAt⟩] }

def CloseOrder.mark (status : AttemptStatus) (orderId : Option String) (filled : Option ℚ)
    (close : CloseOrder) : CloseOrder :=
  { close with
    status := status
    orderId := orderId <|> close.orderId
    filledAmount := filled <|> close.filledAmount }

def State.mark (s : State) (attemptId : ℕ) (status : AttemptStatus) (orderId : Option String)
    (filled : Option ℚ) : State :=
  { s with closes := s.closes.map fun close =>
      if close.attemptId = attemptId then close.mark status orderId filled else close }

def State.update (status : TaskStatus) (ownedRemainder : ℚ) (rejectedSends : ℕ) (release : Bool) : State :=
  { s with
    task := { s.task with
      status := status
      ownedRemainder := ownedRemainder
      rejectedSends := rejectedSends }
    claimOwner := if release then none else s.claimOwner }

def State.claimable (owner : String) (expired : Bool) : Bool :=
  s.task.status.isRunnable && (s.claimOwner = none || s.claimOwner = some owner || expired)

def answer : (o : Op) → Chance → Except Failure (Ans o) × State
  | .claim owner, c =>
    if s.claimable owner c.claimExpired then wrote c s { s with claimOwner := some owner } (some s.task)
    else readAs c s none
  | .acquireLock, c => readAs c s c.lockFree
  | .releaseLock, c => readAs c s ()
  | .linkLateCloses, c => wrote c s (if s.task.tradeId = none then s else s.link c.linked) c.problem
  | .loadCloses, c => readAs c s (s.closes.insertionSort (·.attemptId ≤ ·.attemptId))
  | .fetchOrders _ _, c => readAs c s c.orders
  | .fetchPositions, c => readAs c s c.positions
  | .cancelOrder _, c => readAs c s ()
  | .amountToPrecision amount, c => readAs c s (min c.rounded amount)
  | .recordCloseIntent clientOrderId amount _ _, c =>
    wrote c s (s.addIntent clientOrderId amount c.now) s.freshId
  | .markClose attemptId status orderId filled _, c => wrote c s (s.mark attemptId status orderId filled) ()
  | .updateTask owner status ownedRemainder rejectedSends _ release, c =>
    if s.claimOwner = some owner then
      wrote c s (s.update status ownedRemainder rejectedSends release) ()
    else (.error (.other s!"emergency close task {s.task.id} claim was lost"), s)
  | .createMarketOrder _ _ _, c => readAs c s c.order
  | .now, c => readAs c s c.now

inductive Event
  | account (done : Bool)

def State.happens : Event → State
  | .account done =>
    if s.task.status = .confirmedFlat then
      { s with task := { s.task with status := if done then .accounted else .manualRequired } }
    else s

def world : World State Failure Op Ans Chance Event where
  answer _ s o c := answer s o c
  env := State.happens
  crash _ s := s

end Schurfer.EmergencyClose
