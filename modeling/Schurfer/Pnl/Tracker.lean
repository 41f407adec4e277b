import Schurfer.Lib.Threads
import Schurfer.Pnl.Journal

/-!
# The PnL lease

`tracker._tick` and `orders._pnl_admits_entry`: every call may raise, transactions commit between any two calls, and
the lease may expire or be deleted at any time.
-/

namespace Schurfer.Pnl

open Threads

structure PnlLease where
  generation : Option ℤ
  dailyPnl : ℚ

structure Origin where
  journal : Journal
  startOfDay : Time

def Origin.snapshot (o : Origin) : PnlSnapshot := o.journal.pnlSnapshot o.startOfDay

inductive LeaseText
  | encoded (lease : PnlLease) (origin : Option Origin)
  | malformed

def LeaseText.decode : Option LeaseText → Option PnlLease
  | some (.encoded lease _) => some lease
  | _ => none

def pnlLeaseFlag (lease : Option PnlLease) (currentGeneration : Option ℤ) (database : Bool) : Option String :=
  match lease with
  | none => none
  | some lease =>
    if database = false then some "1"
    else match lease.generation, currentGeneration with
      | some generation, some current => if generation = current then some "1" else none
      | _, _ => none

inductive Refusal
  | pnlNotFresh
  | dailyLoss (dailyPnl limit : ℚ)
deriving DecidableEq

inductive RiskCheck
  | ok
  | refused (reason : Refusal)

def RiskCheck.allowed : RiskCheck → Bool
  | .ok => true
  | .refused _ => false

def checkPnlDataAvailable (flag : Option String) : RiskCheck :=
  if flag ≠ some "1" then .refused .pnlNotFresh else .ok

def checkDailyLoss (dailyPnl limit : ℚ) : RiskCheck :=
  if dailyPnl ≤ -|limit| then .refused (.dailyLoss dailyPnl limit) else .ok

inductive Failure
  | raised

inductive Op
  | fetchPositions
  | pnlSnapshot
  | anyPendingCloses
  | deleteLease
  | setDailyPnl (value : ℚ)
  | setLease (lease : PnlLease) (origin : Option Origin)
  | getLease
  | pnlGeneration

abbrev Ans : Op → Type
  | .fetchPositions => List ℚ × List String
  | .pnlSnapshot => Option Origin
  | .anyPendingCloses => Bool
  | .deleteLease => Unit
  | .setDailyPnl _ => Unit
  | .setLease _ _ => Unit
  | .getLease => Option LeaseText
  | .pnlGeneration => Option ℤ

abbrev Program := Prog Failure Op Ans

def call (o : Op) : Program (Ans o) := Prog.perform o

def roundCents (q : ℚ) : ℚ :=
  let scaled := q * 100
  let below := ⌊scaled⌋
  let rest := scaled - below
  let cents : ℤ := if rest < 1 / 2 then below else if 1 / 2 < rest then below + 1
    else if below % 2 = 0 then below else below + 1
  cents / 100

def publish (database : Bool) (snapshot : Option Origin) (unrealized : ℚ) : Program Unit := do
  let realized := (snapshot.map (·.snapshot.realized)).getD 0
  let generation := snapshot.map (·.snapshot.generation)
  let dailyPnl := roundCents (realized + unrealized)
  call (.setDailyPnl dailyPnl)
  call (.setLease ⟨generation, dailyPnl⟩ snapshot)
  if database then
    let pending ← call .anyPendingCloses
    if pending then call .deleteLease
    else
      let current ← call .pnlGeneration
      if current ≠ generation then call .deleteLease

def tick (database : Bool) : Program Unit := do
  let (positions, failed) ← call .fetchPositions
  if failed ≠ [] then call .deleteLease
  else if database = false then publish database none positions.sum
  else
    let snapshot ← call .pnlSnapshot
    match snapshot with
    | none => call .deleteLease
    | some origin =>
      let pending ← call .anyPendingCloses
      if pending then call .deleteLease
      else if origin.snapshot.blocker ≠ none then call .deleteLease
      else publish database (some origin) positions.sum

def leaseAdmits (lease : Option PnlLease) (current : Option ℤ) (database : Bool) (dailyLossLimit : ℚ) : RiskCheck :=
  match checkPnlDataAvailable (pnlLeaseFlag lease current database), lease with
  | .ok, some lease => checkDailyLoss lease.dailyPnl dailyLossLimit
  | ready, _ => ready

def pnlAdmitsEntry (database : Bool) (dailyLossLimit : ℚ) : Program RiskCheck := do
  let text ← call .getLease
  let lease := LeaseText.decode text
  let current ← if database then call .pnlGeneration else pure none
  return leaseAdmits lease current database dailyLossLimit

structure State where
  journal : Journal
  lease : Option LeaseText
  dailyPnl : Option ℚ

structure Chance where
  raises : Bool
  applied : Bool
  readable : Bool
  positions : List ℚ
  failed : List String
  pending : Bool
  startOfDay : Time

def wrote (c : Chance) (s s' : State) : Except Failure Unit × State :=
  if c.raises then (.error .raised, if c.applied then s' else s) else (.ok (), s')

def readAs {α : Type} (c : Chance) (s : State) (value : α) : Except Failure α × State :=
  (if c.raises then .error .raised else .ok value, s)

def answer (s : State) : (o : Op) → Chance → Except Failure (Ans o) × State
  | .fetchPositions, c => readAs c s (c.positions, c.failed)
  | .pnlSnapshot, c =>
    -- a database error is caught and answered with None
    readAs c s (if c.readable then some ⟨s.journal, c.startOfDay⟩ else none)
  | .anyPendingCloses, c => readAs c s c.pending
  | .deleteLease, c => wrote c s { s with lease := none }
  | .setDailyPnl value, c => wrote c s { s with dailyPnl := some value }
  | .setLease lease origin, c => wrote c s { s with lease := some (.encoded lease origin) }
  | .getLease, c => readAs c s s.lease
  | .pnlGeneration, c => readAs c s (if c.readable then some s.journal.generation else none)

inductive Event
  | commit (changes : List RowChange)
  | loseLease
  | garbleLease

def State.happens (s : State) : Event → State
  | .commit changes =>
    match s.journal.applyAll changes with
    | some journal => if journal.PaperClean then { s with journal := journal } else s
    | none => s
  | .loseLease => { s with lease := none }
  | .garbleLease => { s with lease := some .malformed }

def world : World State Failure Op Ans Chance Event where
  answer _ s o c := answer s o c
  env := State.happens
  crash _ s := s

inductive Job
  | tick (database : Bool)
  | check (database : Bool) (dailyLossLimit : ℚ)

def Job.program : Job → Program (Option RiskCheck)
  | .tick database => do
    Pnl.tick database
    return none
  | .check database dailyLossLimit => some <$> pnlAdmitsEntry database dailyLossLimit

end Schurfer.Pnl
