import Schurfer.Lib.GoTime
import Schurfer.Lib.Threads

/-!
# The streaming runtime

A shard puts its trades and lifecycle events on a bounded queue that all shards share. An event that finds the queue
full is dropped, and the shard owes an `Overflow` report, which goes before its next event. Every send of `emit` is an
operation of its own; `Role` says which of the three sends one is.
-/

namespace Schurfer.Streamrt

open GoTime

inductive Side
  | buy
  | sell
deriving DecidableEq

/-- A trade as the parsers deliver it: they refuse one whose time is not after the Unix epoch. -/
structure Trade where
  exchange : String
  symbol : String
  tradeId : String
  side : Side
  price : ℚ
  size : ℚ
  notional : ℚ
  eventAt : ℤ
  receivedAt : ℤ
  seq : ℤ
  eventAt_epoch : unixEpoch < eventAt
deriving DecidableEq

inductive LifecycleKind
  | connected
  | subscribed
  | heartbeat
  | disconnected
  | overflow
deriving DecidableEq

structure Lifecycle where
  kind : LifecycleKind
  shard : ℕ
  sessionId : String := ""
  symbols : List String
  at' : ℤ
  dropped : ℕ := 0
  since : ℤ := 0
  droppedFrom : ℤ := 0
  droppedTo : ℤ := 0
  droppedState : Bool := false
  lastFrameAt : ℤ := 0
  reason : String := ""
deriving DecidableEq

inductive Event
  | trade (t : Trade)
  | lifecycle (l : Lifecycle)
deriving DecidableEq

inductive Role
  | event
  | report (session : String)
  | confirm
deriving DecidableEq

inductive Op
  | now
  | send (role : Role) (e : Event)
  | countDrop (role : Role) (e : Event)

abbrev Op.Ans : Op → Type
  | .now => ℤ
  | .send _ _ => Bool
  | .countDrop _ _ => Unit

abbrev Emitting := Prog Empty Op Op.Ans

def now : Emitting ℤ := Prog.perform Op.now

def send (role : Role) (e : Event) : Emitting Bool := Prog.perform (Op.send role e)

def countDrop (role : Role) (e : Event) : Emitting Unit := Prog.perform (Op.countDrop role e)

structure Shard where
  index : ℕ
  symbols : List String
  owed : ℕ := 0
  owedSince : ℤ := 0
  owedFrom : ℤ := 0
  owedTo : ℤ := 0
  owedState : Bool := false
  subscribedSession : String := ""

def Shard.note (s : Shard) : Event → Shard
  | .trade t =>
    { s with
      owedFrom := if s.owedFrom = 0 ∨ t.eventAt < s.owedFrom then t.eventAt else s.owedFrom
      owedTo := if s.owedTo < t.eventAt then t.eventAt else s.owedTo }
  | .lifecycle l => if l.kind ≠ .heartbeat then { s with owedState := true } else s

def Shard.fresh (s : Shard) (since : ℤ) : Shard :=
  { s with owedSince := since, owedFrom := 0, owedTo := 0, owedState := false }

def Shard.drop (s : Shard) (role : Role) (event : Event) : Emitting Shard := do
  -- the clock is read only for the first drop of a report
  let s ← if s.owed = 0 then s.fresh <$> now else pure s
  countDrop role event
  return { s.note event with owed := s.owed + 1 }

def Shard.overflow (s : Shard) (time : ℤ) : Lifecycle where
  kind := .overflow
  shard := s.index
  symbols := s.symbols
  at' := time
  dropped := s.owed
  since := s.owedSince
  droppedFrom := s.owedFrom
  droppedTo := s.owedTo
  droppedState := s.owedState

def Shard.confirmation (s : Shard) (time : ℤ) : Lifecycle where
  kind := .subscribed
  shard := s.index
  sessionId := s.subscribedSession
  symbols := s.symbols
  at' := time

def Shard.pass (s : Shard) (event : Event) : Emitting Shard := do
  if ← send .event event then return s
  else s.drop .event event

def emit (s : Shard) (event : Event) : Emitting Shard := do
  if 0 < s.owed then
    let time ← now
    -- the report goes first; while it finds no place nothing else passes
    if ← send (.report s.subscribedSession) (.lifecycle (s.overflow time)) then
      let stateLost := s.owedState
      let s := { s with owed := 0 }
      -- the consumer cannot tell whether the lost change was the subscription itself
      if stateLost && s.subscribedSession ≠ "" then
        let time ← now
        let confirm := Event.lifecycle (s.confirmation time)
        if ← send .confirm confirm then s.pass event
        else
          let s ← s.drop .confirm confirm
          s.drop .event event
      else s.pass event
    else s.drop .event event
  else s.pass event

inductive Work
  | session (id : String)
  | emit (e : Event)

def Work.event : Work → Option Event
  | .session _ => none
  | .emit e => some e

def runShard (s : Shard) : List Work → Emitting Shard
  | [] => pure s
  | .session id :: rest => runShard { s with subscribedSession := id } rest
  | .emit e :: rest => do
    let s ← emit s e
    runShard s rest

structure Connection where
  index : ℕ
  symbols : List String
  work : List Work

def Connection.main (c : Connection) : Emitting Shard :=
  runShard { index := c.index, symbols := c.symbols } c.work

structure Consumer (κ X : Type) where
  onEvent : κ → Event → κ
  act : κ → X → κ

structure Runtime (κ : Type) where
  capacity : ℕ
  events : List (ℕ × Event) := []
  taken : List (ℕ × Event) := []
  dropped : ℕ := 0
  consumer : κ

inductive Receive (X : Type)
  | next
  | act (x : X)

variable {κ X : Type}

/-- A send never waits: it succeeds when the queue has a free place. -/
def Runtime.answer (i : ℕ) (r : Runtime κ) : (o : Op) → ℤ → Except Empty o.Ans × Runtime κ
  | .now, time => (.ok time, r)
  | .send _ e, _ =>
    if r.events.length < r.capacity then (.ok true, { r with events := r.events ++ [(i, e)] })
    else (.ok false, r)
  | .countDrop _ _, _ => (.ok (), { r with dropped := r.dropped + 1 })

def Runtime.receive (consumer : Consumer κ X) (r : Runtime κ) : Receive X → Runtime κ
  | .next =>
    match r.events with
    | [] => r
    | (i, e) :: rest =>
      { r with events := rest, taken := r.taken ++ [(i, e)], consumer := consumer.onEvent r.consumer e }
  | .act x => { r with consumer := consumer.act r.consumer x }

def streamWorld (consumer : Consumer κ X) : Threads.World (Runtime κ) Empty Op Op.Ans ℤ (Receive X) :=
  ⟨Runtime.answer, Runtime.receive consumer, fun _ r => r⟩

end Schurfer.Streamrt
