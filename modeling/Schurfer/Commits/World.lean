import Schurfer.Desk.Parts
import Schurfer.Legs.Pinned
import Schurfer.Lib.Ensures

/-!
# The desk on the journal

The jobs of the desk, with the trades and legs of the journal in place of the desk's own. Beside them the emergency
accounting publishes round trips. What the jobs write and nothing here reads is chosen by the surroundings.
-/

namespace Schurfer.Commits

open Desk Orders Threads
open LateFill (Failure)
open Legs (Journal Leg CloseArgs CloseOutcome SetupContext TradeOpen TaskRef RoundTrip closeTradeIn publish)

structure State where
  desk : Desk.State
  journal : Journal

structure Chance extends Desk.Chance where
  fillSource : String := ""
  executedAt : Option Time := none
  executionTimeSource : Option String := none
  notes : String := ""
  now : Time := 0
  sizeUsd : ℚ := 0
  leverage : ℕ := 1
  setupContext : SetupContext := ⟨("", ""), false, false, none, none⟩

section

variable (c : Chance)

def Chance.leg (f : CloseFill) : Leg where
  tradeId := f.tradeId
  exchange := f.exchange
  orderId := f.orderId
  fillPrice := f.fillPrice
  filledAmount := f.filledAmount
  requestedAmount := f.requestedAmount
  remainingAmount := f.remainingAmount
  terminal := f.terminal
  fillSource := c.fillSource
  executedAt := c.executedAt
  executionTimeSource := c.executionTimeSource

def Chance.closing (tradeId : ℕ) (exitOrderId : Option String) (exitPrice : ℚ) : CloseArgs where
  tradeId
  exitOrderId
  exitPrice
  reason := c.notes
  executedAt := c.executedAt
  now := c.now

def Chance.opening (trade : NewTrade) : TradeOpen where
  orderId := trade.orderId
  symbol := trade.symbol
  exchange := trade.exchange
  side := trade.side
  sizeUsd := c.sizeUsd
  leverage := c.leverage
  entryPrice := trade.entryPrice
  setupContext := c.setupContext
  entryAt := c.executedAt.getD c.now

end

section

variable (s : State)

def State.findOpenTradeId (exchange symbol : String) : Option ℕ :=
  (latest (·.entryAt) (s.journal.trades.filter fun t =>
    t.exchange = exchange && t.symbol = symbol && t.status = .open)).map (·.id)

def State.recoverableCloses : List CloseAttempt :=
  (s.desk.attempts.filter (·.recoverable fun tradeId =>
    (tradeId >>= s.journal.lockTradeForLegsIn) = some .open)).filterMap AttemptRow.toClose

end

def committed (t : Legs.Tx CloseOutcome) (j : Journal) : Bool :=
  match t.run j with
  | .ok (out, _) => out.committed
  | .error _ => false

def journalAnswer (s : State) (c : Chance) : (o : Op) → Option (Ans o × Journal)
  | .recordCloseFill f => some (s.journal.recordCloseFillIn (c.leg f))
  | .closeTrade tradeId _ exitOrderId exitPrice =>
    let close := closeTradeIn (s.journal.findTrade tradeId) (c.closing tradeId exitOrderId exitPrice)
    some (committed close s.journal, close.commit s.journal)
  | .openTrade trade => some (s.journal.openTradeIn (c.opening trade))
  | .aggregateCloseFillPrice tradeId => some (s.journal.aggregateCloseFillPriceIn tradeId, s.journal)
  | .remainingTradeAmount tradeId =>
    some (remainingAmountOf s.desk.attempts tradeId ((s.journal.legsOf tradeId).map (·.filledAmount)), s.journal)
  | .findOpenTradeId _ exchange symbol => some (s.findOpenTradeId exchange symbol, s.journal)
  | .loadRecoverableCloseAttempts => some (s.recoverableCloses, s.journal)
  | _ => none

def answer (i : ℕ) (s : State) (o : Op) (c : Chance) : Except Failure (Ans o) × State :=
  match journalAnswer s c o with
  | some (value, journal) =>
    match c.failure with
    | none => (.ok value, { s with journal })
    -- a transaction that is not acknowledged may have been committed
    | some e => (Desk.failed e o, if c.lands then { s with journal } else s)
  | none =>
    let out := Desk.answer i s.desk o c.toChance
    (out.1, { s with desk := out.2 })

inductive Event
  | desk (e : Desk.Event)
  | losePendingClose (pair : Pair) (tradeId : ℕ)
  | openPaper (opening : TradeOpen)
  | closePaper (args : CloseArgs)
  | publish (task : TaskRef) (owner : String) (trip : RoundTrip) (now : Time)

def closePaper (j : Journal) (args : CloseArgs) : Journal :=
  match j.findTrade args.tradeId with
  | some row =>
    if row.accountingVersion = .paperConservativeCostsV1 then (closeTradeIn (some row) args).commit j else j
  | none => j

def env (s : State) : Event → State
  | .desk e => { s with desk := Desk.env s.desk e }
  | .losePendingClose pair tradeId =>
    { s with desk := { s.desk with
        pending := s.desk.pending.filter fun q => ¬ (q.pair = pair ∧ q.tradeId = tradeId) } }
  | .openPaper opening => { s with journal := (s.journal.openTradeIn opening).2 }
  | .closePaper args => { s with journal := closePaper s.journal args }
  | .publish task owner trip now => { s with journal := (publish task owner trip now).commit s.journal }

def crash (i : ℕ) (s : State) : State := { s with desk := Desk.crash i s.desk }

def world : World State Failure Op Ans Chance Event := ⟨answer, env, crash⟩

variable (setup : Setup) (s : State) (moves : List (Move Job Chance Event))

def configAt (n : ℕ) : Config State Failure Op Ans Job Unit :=
  Run.stateAt (Config.step world (Desk.main setup)) ⟨s, []⟩ moves n

def journalAt (n : ℕ) : Journal :=
  (configAt setup s moves n).state.journal

section

variable {s : State} {i : ℕ} {o : Op} {c : Chance} {journal : Journal} {value : Ans o} (setup : Setup)

theorem answer_state (i : ℕ) (s : State) (o : Op) (c : Chance) :
    (∃ value journal, journalAnswer s c o = some (value, journal) ∧
      ((answer i s o c).2 = { s with journal } ∨ (answer i s o c).2 = s)) ∨
      journalAnswer s c o = none ∧ (answer i s o c).2 = { s with desk := (Desk.answer i s.desk o c.toChance).2 } := by
  unfold answer
  split
  · rename_i value journal hown
    refine .inl ⟨value, journal, hown, ?_⟩
    split
    · exact .inl rfl
    · split
      · exact .inl rfl
      · exact .inr rfl
  · rename_i hot
    exact .inr ⟨hot, rfl⟩

theorem journalAnswer_cases (h : journalAnswer s c o = some (value, journal)) :
    (∃ f, o = .recordCloseFill f ∧ journal = (s.journal.recordCloseFillIn (c.leg f)).2) ∨
      (∃ t exchange order price, o = .closeTrade t exchange order price ∧
        journal = (closeTradeIn (s.journal.findTrade t) (c.closing t order price)).commit s.journal) ∨
      (∃ trade, o = .openTrade trade ∧ journal = (s.journal.openTradeIn (c.opening trade)).2) ∨
      journal = s.journal := by
  cases o with
  | recordCloseFill f =>
    have heq : (s.journal.recordCloseFillIn (c.leg f)).2 = journal := congrArg Prod.snd (Option.some.inj h)
    exact .inl ⟨f, rfl, heq.symm⟩
  | closeTrade t exchange order price =>
    have heq : (closeTradeIn (s.journal.findTrade t) (c.closing t order price)).commit s.journal = journal :=
      congrArg Prod.snd (Option.some.inj h)
    exact .inr (.inl ⟨t, exchange, order, price, rfl, heq.symm⟩)
  | openTrade trade =>
    have heq : (s.journal.openTradeIn (c.opening trade)).2 = journal := congrArg Prod.snd (Option.some.inj h)
    exact .inr (.inr (.inl ⟨trade, rfl, heq.symm⟩))
  | aggregateCloseFillPrice | remainingTradeAmount | findOpenTradeId | loadRecoverableCloseAttempts =>
    cases h
    exact .inr (.inr (.inr rfl))
  | _ => cases h

theorem journalAnswer_extends (h : journalAnswer s c o = some (value, journal)) : s.journal.Extends journal := by
  rcases journalAnswer_cases h with ⟨f, -, rfl⟩ | ⟨t, exchange, order, price, -, rfl⟩ | ⟨trade, -, rfl⟩ | rfl
  · exact s.journal.recordCloseFillIn_extends _
  · exact (Legs.closeTradeIn_extends _ _).commit _
  · exact s.journal.openTradeIn_extends _
  · exact .refl _

theorem answer_extends (i : ℕ) (s : State) (o : Op) (c : Chance) : s.journal.Extends (answer i s o c).2.journal := by
  rcases answer_state i s o c with ⟨value, journal, hown, heq | heq⟩ | ⟨-, heq⟩
  · rw [heq]
    exact journalAnswer_extends hown
  · rw [heq]
    exact .refl _
  · rw [heq]
    exact .refl _

theorem closePaper_later (j : Journal) (args : CloseArgs) : j.Later (closePaper j args) := by
  unfold closePaper
  split
  · split
    · exact Legs.closeTradeIn_later _ _ j
    · exact .refl j
  · exact .refl j

theorem env_later (s : State) (e : Event) : s.journal.Later (env s e).journal := by
  cases e with
  | desk | losePendingClose => exact .refl _
  | openPaper opening => exact s.journal.openTradeIn_later opening
  | closePaper args => exact closePaper_later s.journal args
  | publish task owner trip now => exact Legs.publish_later task owner trip now s.journal

theorem step_extends (cfg : Config State Failure Op Ans Job Unit) (m : Move Job Chance Event) :
    cfg.state.journal.Extends (cfg.step world (Desk.main setup) m).state.journal := by
  cases m with
  | start => exact .refl _
  | env e => exact (env_later cfg.state e).grows
  | crash i =>
    simp only [Config.step]
    split <;> exact .refl _
  | call i c =>
    rcases Config.step_call_cases world (Desk.main setup) cfg i c with heq | ⟨a, h, o, k, -, heq⟩
    · rw [heq]
      exact .refl _
    · rw [heq]
      exact answer_extends i cfg.state o c

theorem journalAt_extends (s : State) (moves : List (Move Job Chance Event)) {m n : ℕ}
    (hmn : m ≤ n) : (journalAt setup s moves m).Extends (journalAt setup s moves n) :=
  Run.persists (fun cfg : Config State Failure Op Ans Job Unit => cfg.state.journal)
    (fun _ m _ => step_extends setup _ m) hmn

theorem answer_closes {t : ℕ} (hop : ¬ s.journal.Closed t) (hclosed : (answer i s o c).2.journal.Closed t) :
    ∃ exchange order price, o = .closeTrade t exchange order price ∧ (answer i s o c).2.journal.legs = s.journal.legs ∧
      ∃ row ∈ (answer i s o c).2.journal.trades, row.id = t ∧ row.status = .closed ∧
        row.close.map (·.exitPrice) = some price := by
  rcases answer_state i s o c with ⟨value, journal, hown, heq | heq⟩ | ⟨-, heq⟩
  · rw [heq] at hclosed ⊢
    rcases journalAnswer_cases hown with
      ⟨f, -, rfl⟩ | ⟨t', exchange, order, price, rfl, rfl⟩ | ⟨trade, -, rfl⟩ | rfl
    · obtain ⟨row, hrow, hid, hstatus⟩ := hclosed
      rw [s.journal.recordCloseFillIn_trades] at hrow
      exact absurd ⟨row, hrow, hid, hstatus⟩ hop
    · obtain ⟨htrade, hrow⟩ := Legs.closeTradeIn_closes hop hclosed
      have ht : t = t' := htrade
      subst ht
      refine ⟨exchange, order, price, rfl, ?_, hrow⟩
      rcases (closeTradeIn (s.journal.findTrade t) (c.closing t order price)).commit_cases s.journal with
        hsame | ⟨out, hrun⟩
      · rw [hsame]
      · exact Legs.closeTradeIn_legs hrun
    · exact absurd (Journal.openTradeIn_closed hclosed) hop
    · exact absurd hclosed hop
  · rw [heq] at hclosed
    exact absurd hclosed hop
  · rw [heq] at hclosed
    exact absurd hclosed hop

end

end Schurfer.Commits
