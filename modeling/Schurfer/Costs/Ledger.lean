import Schurfer.Costs.Model
import Schurfer.Lib.Rows
import Schurfer.Lib.Txn

/-!
# Settling the costs of closed trades

The transactions of the cost store (`cost_worker.py`). Workers and operators may be at it at once: a transaction holds
the lock of its trade's row, and the unique index keeps an execution to one trade.
-/

namespace Schurfer.Costs.Store

open List

structure Figures where
  grossPnlUsd : Option ℚ
  grossPnlPct : Option ℚ
  netPnlUsd : Option ℚ
  netPnlPct : Option ℚ
  feesUsd : Option ℚ
  fundingUsd : Option ℚ
  slippageUsd : Option ℚ
  pnlUsd : Option ℚ
  pnlPct : Option ℚ
  outcomeLabel : Option Outcome

structure CostTrade where
  id : ℕ
  exchange : String
  status : TradeStatus
  accountingVersion : AccountingVersion
  accountingStatus : AccountingStatus
  accountingError : Option String
  figures : Figures

structure CostLeg where
  tradeId : ℕ
  exchange : String
  execType : ExecType
  execution : Execution

def CostLeg.key (l : CostLeg) : String × String := (l.exchange, l.execution.execId)

def CostLeg.of (tradeId : ℕ) (exchange : String) (leg : Leg) : CostLeg :=
  { tradeId, exchange, execType := leg.execType, execution := leg.execution }

structure Ledger where
  trades : List CostTrade
  legs : List CostLeg
  trade_ids : (trades.map CostTrade.id).Nodup
  leg_keys : (legs.map CostLeg.key).Nodup

variable {tradeId : ℕ} {t : CostTrade} {l l' : Ledger} {b : Bool}

namespace Ledger

def findTrade (l : Ledger) (tradeId : ℕ) : Option CostTrade := l.trades.find? (·.id = tradeId)

def legsOf (l : Ledger) (tradeId : ℕ) : List CostLeg := l.legs.filter (·.tradeId = tradeId)

def updateTrade (l : Ledger) (tradeId : ℕ) (f : CostTrade → CostTrade) (hf : ∀ t, (f t).id = t.id) : Ledger where
  trades := l.trades.map fun t => if t.id = tradeId then f t else t
  legs := l.legs
  trade_ids := by
    have hids : (CostTrade.id ∘ fun t => if t.id = tradeId then f t else t) = CostTrade.id := by
      funext t
      simp only [Function.comp_apply]
      split
      · exact hf t
      · rfl
    rw [List.map_map, hids]
    exact l.trade_ids
  leg_keys := l.leg_keys

def insertLeg (l : Ledger) (leg : CostLeg) : Except Exn Ledger :=
  if leg.execType ≠ .trade ∧ leg.execType ≠ .funding then .error (.violated "ck_trade_cost_legs_exec_type")
  else if leg.execution.quantity < 0 then .error (.violated "ck_trade_cost_legs_quantity")
  else if h : leg.key ∈ l.legs.map CostLeg.key then .error (.violated "ux_trade_cost_legs_exec")
  else .ok
    { trades := l.trades
      legs := l.legs ++ [leg]
      trade_ids := l.trade_ids
      leg_keys := by
        rw [List.map_append, List.nodup_append]
        refine ⟨l.leg_keys, List.nodup_singleton _, fun k hk k' hk' => ?_⟩
        rw [List.map_singleton, List.mem_singleton] at hk'
        rintro rfl
        exact h (hk' ▸ hk) }

end Ledger

abbrev CostTxn := Txn Exn Ledger

structure Written where
  figures : Figures
  status : AccountingStatus
  error : Option String

def Written.of (w : Written) (t : CostTrade) : CostTrade :=
  { t with figures := w.figures, accountingStatus := w.status, accountingError := w.error }

def figures (gross fees funding entryValue : ℚ) (status : AccountingStatus) (error : Option String) :
    Except Exn Written :=
  if entryValue = 0 then .error (.raised "DivisionByZero")
  else
    let net := gross - fees - funding
    .ok
      { figures :=
          { grossPnlUsd := round4 gross
            grossPnlPct := round4 (gross / entryValue * 100)
            netPnlUsd := round4 net
            netPnlPct := round4 (net / entryValue * 100)
            feesUsd := round4 fees
            fundingUsd := round4 funding
            slippageUsd := none
            pnlUsd := round4 net
            pnlPct := round4 (net / entryValue * 100)
            outcomeLabel := some (.of net) }
        status, error }

def writeFigures (tradeId : ℕ) (written : Written) : CostTxn Unit :=
  modify fun l => l.updateTrade tradeId written.of fun _ => rfl

def CostTrade.isPending (t : CostTrade) : Bool :=
  t.status = .closed && t.accountingVersion = .liveExchangeCostsV1 && t.accountingStatus = .pending

def CostTrade.isSettleable (t : CostTrade) : Bool :=
  t.status = .closed && t.accountingVersion = .liveExchangeCostsV1 &&
    (t.accountingStatus = .pending || t.accountingStatus = .incomplete)

def amounts (result : CostResult) : Except Exn (ℚ × ℚ × ℚ × ℚ) :=
  match result.grossPnlUsd, result.feesUsd, result.fundingUsd, result.entryValue with
  | some gross, some fees, some funding, some entryValue =>
    if entryValue = 0 then .error .assertionError else .ok (gross, fees, funding, entryValue)
  | _, _, _, _ => .error .assertionError

def insertLegs (tradeId : ℕ) (exchange : String) : List Leg → CostTxn Unit
  | [] => pure ()
  | leg :: legs => do
    let l ← get
    let l ← liftM (l.insertLeg (.of tradeId exchange leg))
    set l
    insertLegs tradeId exchange legs

/-- Evidence rows and final figures in one transaction; `read` are the legs `_CLAIMED_ELSEWHERE` saw, which
another transaction may have added to since. -/
def settle (tradeId : ℕ) (read : List CostLeg) (result : CostResult) : CostTxn Bool := do
  let (gross, fees, funding, entryValue) ← liftM (amounts result)
  let l ← get
  match l.findTrade tradeId with
  | none => return false
  | some t =>
    if t.isPending = false then
      return false
    else
      match read.find? fun leg => leg.exchange = t.exchange ∧ leg.tradeId ≠ tradeId ∧
          leg.execution.execId ∈ result.legs.map (·.execution.execId) with
      | some claimed =>
        throw (.raised s!"execution {claimed.execution.execId} is already trade {claimed.tradeId}'s")
      | none =>
        insertLegs tradeId t.exchange result.legs
        let written ← liftM (figures gross fees funding entryValue .complete none)
        writeFigures tradeId written
        return true

def markIncomplete (tradeId : ℕ) (error : String) : CostTxn Bool := do
  let l ← get
  match l.findTrade tradeId with
  | none => return false
  | some t =>
    if t.isPending = false then
      return false
    else
      set (l.updateTrade tradeId
        (fun t => { t with accountingStatus := .incomplete, accountingError := some error }) fun _ => rfl)
      return true

def operatorSettle (tradeId : ℕ) (gross fees funding entryValue : ℚ) (note : String) : CostTxn Bool := do
  let l ← get
  match l.findTrade tradeId with
  | none => return false
  | some t =>
    if t.isSettleable = false then
      return false
    else
      let written ← liftM (figures gross fees funding entryValue .operatorSettled
        (some s!"settled by an operator: {note}"))
      writeFigures tradeId written
      return true

inductive CostStep
  | settle (tradeId : ℕ) (read : List CostLeg) (result : CostResult)
  | markIncomplete (tradeId : ℕ) (error : String)
  | operatorSettle (tradeId : ℕ) (gross fees funding entryValue : ℚ) (note : String)

def costStep (l : Ledger) : CostStep → Ledger
  | .settle tradeId read result => (settle tradeId read result).commit l
  | .markIncomplete tradeId error => (markIncomplete tradeId error).commit l
  | .operatorSettle tradeId gross fees funding entryValue note =>
    (operatorSettle tradeId gross fees funding entryValue note).commit l

abbrev ledgerAt (l : Ledger) (steps : List CostStep) (n : ℕ) : Ledger := Run.stateAt costStep l steps n

inductive CostEdge : AccountingStatus → AccountingStatus → Prop
  | complete : CostEdge .pending .complete
  | incomplete : CostEdge .pending .incomplete
  | operatorSettled : CostEdge .pending .operatorSettled
  | incompleteSettled : CostEdge .incomplete .operatorSettled

def CostTrade.isSettled (t : CostTrade) : Bool :=
  t.accountingStatus = .complete || t.accountingStatus = .operatorSettled

theorem CostTrade.not_settled_of_edge {after : AccountingStatus}
    (h : CostEdge t.accountingStatus after) : t.isSettled = false := by
  unfold isSettled
  generalize t.accountingStatus = before at h
  cases h <;> rfl

structure Ledger.Writes (l l' : Ledger) (t t' : CostTrade) (new : List CostLeg) : Prop where
  mem : t ∈ l.trades
  id : t'.id = t.id
  exchange : t'.exchange = t.exchange
  edge : CostEdge t.accountingStatus t'.accountingStatus
  trades : l'.trades = l.trades.map fun r => if r.id = t.id then t' else r
  legs : l'.legs = l.legs ++ new
  own : ∀ leg ∈ new, leg.tradeId = t.id

namespace Ledger.Writes

variable {t' : CostTrade} {new : List CostLeg}

section

variable (h : l.Writes l' t t' new) {r : CostTrade}

include h

theorem mem_back (hr : r ∈ l'.trades) : r = t' ∨ r ∈ l.trades ∧ r.id ≠ t.id := by
  rw [h.trades] at hr
  obtain ⟨r0, hr0, rfl⟩ := mem_map.1 hr
  by_cases hid : r0.id = t.id
  · exact .inl (if_pos hid)
  · rw [if_neg hid]
    exact .inr ⟨hr0, hid⟩

theorem mem_written : t' ∈ l'.trades := by
  rw [h.trades]
  exact mem_map.2 ⟨t, h.mem, if_pos rfl⟩

theorem mem_forth (hr : r ∈ l.trades) : r = t ∨ r.id ≠ t.id ∧ r ∈ l'.trades := by
  by_cases hid : r.id = t.id
  · exact .inl (inj_on_of_nodup_map l.trade_ids hr h.mem hid)
  · refine .inr ⟨hid, ?_⟩
    rw [h.trades]
    exact mem_map.2 ⟨r, hr, if_neg hid⟩

theorem legsOf_other (hne : tradeId ≠ t.id) : l'.legsOf tradeId = l.legsOf tradeId := by
  have hnn : new.filter (·.tradeId = tradeId) = [] := by
    refine filter_eq_nil_iff.2 fun leg hleg htrade => ?_
    exact hne ((of_decide_eq_true htrade).symm.trans (h.own leg hleg))
  rw [legsOf, h.legs, filter_append, hnn, append_nil]
  rfl

theorem legsOf_written : l'.legsOf t.id = l.legsOf t.id ++ new := by
  have hall : new.filter (·.tradeId = t.id) = new := by
    refine filter_eq_self.2 fun leg hleg => ?_
    exact decide_eq_true (h.own leg hleg)
  rw [legsOf, h.legs, filter_append, hall]
  rfl

end

end Ledger.Writes

/-- One transaction: nothing, or it completes its trade with the legs of its result, or it takes another
edge and writes no leg. -/
inductive Ledger.Extends (l l' : Ledger) : CostStep → Prop
  | none {c : CostStep} (same : l' = l) : Extends l l' c
  | complete {t t' : CostTrade} {read : List CostLeg} {result : CostResult}
      (status : t'.accountingStatus = .complete)
      (writes : l.Writes l' t t' (result.legs.map (.of t.id t.exchange))) :
      Extends l l' (.settle t.id read result)
  | other {c : CostStep} {t t' : CostTrade} (status : t'.accountingStatus ≠ .complete)
      (writes : l.Writes l' t t' []) : Extends l l' c

namespace Ledger

theorem findTrade_some (h : l.findTrade tradeId = some t) : t ∈ l.trades ∧ t.id = tradeId :=
  ⟨mem_of_find?_eq_some h, by simpa using find?_some h⟩

theorem updateTrade_writes {new : List CostLeg} (ht : t ∈ l.trades)
    {f : CostTrade → CostTrade} (hf : ∀ t, (f t).id = t.id) (hexchange : (f t).exchange = t.exchange)
    (hed : CostEdge t.accountingStatus (f t).accountingStatus) (hown : ∀ leg ∈ new, leg.tradeId = t.id)
    (hlg : l'.legs = l.legs ++ new) (htr : l'.trades = l.trades) : l.Writes (l'.updateTrade t.id f hf) t (f t) new := by
  refine ⟨ht, hf t, hexchange, hed, ?_, hlg, hown⟩
  change l'.trades.map _ = _
  rw [htr]
  refine map_congr_left fun r hr => ?_
  by_cases hid : r.id = t.id
  · rw [if_pos hid, if_pos hid, inj_on_of_nodup_map l.trade_ids hr ht hid]
  · rw [if_neg hid, if_neg hid]

end Ledger

theorem CostTrade.isPending_iff (h : ¬ t.isPending = false) : t.accountingStatus = .pending := by
  rw [Bool.not_eq_false] at h
  simp only [isPending, Bool.and_eq_true, decide_eq_true_eq] at h
  exact h.2

theorem CostTrade.isSettleable_edge (h : ¬ t.isSettleable = false) : CostEdge t.accountingStatus .operatorSettled := by
  rw [Bool.not_eq_false] at h
  simp only [isSettleable, Bool.and_eq_true, Bool.or_eq_true, decide_eq_true_eq] at h
  rcases h.2 with h | h
  · rw [h]
    exact .operatorSettled
  · rw [h]
    exact .incompleteSettled

section

open Txn

theorem insertLeg_ok {leg : CostLeg} (h : l.insertLeg leg = .ok l') :
    l'.trades = l.trades ∧ l'.legs = l.legs ++ [leg] := by
  unfold Ledger.insertLeg at h
  split at h
  · cases h
  · split at h
    · cases h
    · split at h
      · cases h
      · cases h
        exact ⟨rfl, rfl⟩

theorem insertLegs_ok {exchange : String} {legs : List Leg} {u : Unit}
    (h : (insertLegs tradeId exchange legs).run l = .ok (u, l')) :
    l'.trades = l.trades ∧ l'.legs = l.legs ++ legs.map (.of tradeId exchange) := by
  induction legs generalizing l with
  | nil =>
    obtain ⟨-, rfl⟩ := pure_ok.1 h
    exact ⟨rfl, (append_nil _).symm⟩
  | cons leg legs ih =>
    unfold insertLegs at h
    rw [get_bind_ok] at h
    obtain ⟨_, hin, h⟩ := lift_bind_ok.1 h
    have hrs := set_bind_ok.1 h
    obtain ⟨htr, hlg⟩ := insertLeg_ok hin
    obtain ⟨htr', hlg'⟩ := ih hrs
    refine ⟨htr'.trans htr, ?_⟩
    rw [hlg', hlg, append_assoc]
    rfl

theorem figures_status {gross fees funding entryValue : ℚ} {status : AccountingStatus} {error : Option String}
    {written : Written} (h : figures gross fees funding entryValue status error = .ok written) :
    written.status = status := by
  unfold figures at h
  split at h
  · cases h
  · cases h
    rfl

theorem settle_extends {read : List CostLeg} {result : CostResult}
    (h : (settle tradeId read result).run l = .ok (b, l')) : l.Extends l' (.settle tradeId read result) := by
  obtain ⟨⟨gross, fees, funding, entryValue⟩, -, h⟩ := lift_bind_ok.1 h
  rw [get_bind_ok] at h
  split at h
  · exact .none (pure_ok.1 h).2.symm
  · rename_i t hfn
    obtain ⟨ht, rfl⟩ := Ledger.findTrade_some hfn
    split at h
    · exact .none (pure_ok.1 h).2.symm
    · rename_i hpending
      split at h
      · exact (throw_ok.1 h).elim
      · rw [bind_ok] at h
        obtain ⟨_, l1, hin, h⟩ := h
        obtain ⟨htr, hlg⟩ := insertLegs_ok hin
        obtain ⟨written, hfg, h⟩ := lift_bind_ok.1 h
        rw [writeFigures, modify_bind_ok] at h
        obtain ⟨-, rfl⟩ := pure_ok.1 h
        have hstatus : (written.of t).accountingStatus = .complete := figures_status hfg
        refine .complete hstatus (Ledger.updateTrade_writes ht _ rfl ?_ ?_ hlg htr)
        · rw [hstatus, CostTrade.isPending_iff hpending]
          exact .complete
        · intro leg hleg
          obtain ⟨_, -, rfl⟩ := mem_map.1 hleg
          rfl

theorem markIncomplete_extends {error : String}
    (h : (markIncomplete tradeId error).run l = .ok (b, l')) : l.Extends l' (.markIncomplete tradeId error) := by
  unfold markIncomplete at h
  rw [get_bind_ok] at h
  split at h
  · exact .none (pure_ok.1 h).2.symm
  · rename_i t hfn
    obtain ⟨ht, rfl⟩ := Ledger.findTrade_some hfn
    split at h
    · exact .none (pure_ok.1 h).2.symm
    · rename_i hpending
      rw [set_bind_ok] at h
      obtain ⟨-, rfl⟩ := pure_ok.1 h
      refine .other (t := t) ?_ (Ledger.updateTrade_writes ht _ rfl ?_ ?_ (append_nil _).symm rfl)
      · simp
      · rw [CostTrade.isPending_iff hpending]
        exact .incomplete
      · simp

theorem operatorSettle_extends {gross fees funding entryValue : ℚ} {note : String}
    (h : (operatorSettle tradeId gross fees funding entryValue note).run l = .ok (b, l')) :
    l.Extends l' (.operatorSettle tradeId gross fees funding entryValue note) := by
  unfold operatorSettle at h
  rw [get_bind_ok] at h
  split at h
  · exact .none (pure_ok.1 h).2.symm
  · rename_i t hfn
    obtain ⟨ht, rfl⟩ := Ledger.findTrade_some hfn
    split at h
    · exact .none (pure_ok.1 h).2.symm
    · rename_i hst
      obtain ⟨written, hfg, h⟩ := lift_bind_ok.1 h
      rw [writeFigures, modify_bind_ok] at h
      obtain ⟨-, rfl⟩ := pure_ok.1 h
      have hstatus : (written.of t).accountingStatus = .operatorSettled := figures_status hfg
      refine .other (t := t) ?_ (Ledger.updateTrade_writes ht _ rfl ?_ ?_ (append_nil _).symm rfl)
      · rw [hstatus]
        simp
      · rw [hstatus]
        exact CostTrade.isSettleable_edge hst
      · simp

end

theorem costStep_extends (l : Ledger) (c : CostStep) : l.Extends (costStep l c) c := by
  cases c with
  | settle tradeId read result =>
    rcases (settle tradeId read result).commit_cases l with hsame | ⟨b, hrun⟩
    · exact .none hsame
    · exact settle_extends hrun
  | markIncomplete tradeId error =>
    rcases (markIncomplete tradeId error).commit_cases l with hsame | ⟨b, hrun⟩
    · exact .none hsame
    · exact markIncomplete_extends hrun
  | operatorSettle tradeId gross fees funding entryValue note =>
    rcases (operatorSettle tradeId gross fees funding entryValue note).commit_cases l with hsame | ⟨b, hrun⟩
    · exact .none hsame
    · exact operatorSettle_extends hrun

section

variable {c : CostStep}

theorem Ledger.Extends.cases_writes (h : l.Extends l' c) :
    l' = l ∨ ∃ t t' new, l.Writes l' t t' new ∧ (t'.accountingStatus ≠ .complete → new = []) := by
  cases h with
  | none same => exact .inl same
  | @complete t t' read result status writes =>
    exact .inr ⟨t, t', _, writes, fun hstatus => absurd status hstatus⟩
  | @other _ t t' status writes => exact .inr ⟨t, t', [], writes, fun _ => rfl⟩

theorem Ledger.Extends.edge (h : l.Extends l' c) (ht : t ∈ l.trades) :
    ∃ t' ∈ l'.trades, t'.id = t.id ∧ (t' = t ∨ CostEdge t.accountingStatus t'.accountingStatus) := by
  rcases h.cases_writes with rfl | ⟨r, r', new, writes, -⟩
  · exact ⟨t, ht, rfl, .inl rfl⟩
  · rcases writes.mem_forth ht with rfl | ⟨-, hmem⟩
    · exact ⟨r', writes.mem_written, writes.id, .inr writes.edge⟩
    · exact ⟨t, hmem, rfl, .inl rfl⟩

def Ledger.KeepsSettled (l l' : Ledger) : Prop :=
  ∀ t ∈ l.trades, t.isSettled = true → t ∈ l'.trades ∧ l'.legsOf t.id = l.legsOf t.id

instance : Std.Refl Ledger.KeepsSettled := ⟨fun _ _ ht _ => ⟨ht, rfl⟩⟩

instance : IsTrans Ledger Ledger.KeepsSettled := by
  refine ⟨fun l₁ l₂ l₃ h₁ h₂ t ht hsettled => ?_⟩
  obtain ⟨ht₂, hlegs₂⟩ := h₁ t ht hsettled
  obtain ⟨ht₃, hlegs₃⟩ := h₂ t ht₂ hsettled
  exact ⟨ht₃, hlegs₃.trans hlegs₂⟩

theorem Ledger.Extends.keepsSettled (h : l.Extends l' c) : l.KeepsSettled l' := by
  intro t ht hsettled
  rcases h.cases_writes with rfl | ⟨r, r', new, writes, -⟩
  · exact ⟨ht, rfl⟩
  · rcases writes.mem_forth ht with rfl | ⟨hne, hmem⟩
    · rw [CostTrade.not_settled_of_edge writes.edge] at hsettled
      cases hsettled
    · exact ⟨hmem, writes.legsOf_other hne⟩

def Ledger.Accounted (l : Ledger) : Prop :=
  ∀ t ∈ l.trades, t.accountingStatus ≠ .complete → l.legsOf t.id = []

theorem Ledger.Extends.accounted (h : l.Extends l' c) (hac : l.Accounted) : l'.Accounted := by
  intro t ht hstatus
  rcases h.cases_writes with rfl | ⟨r, r', new, writes, hnew⟩
  · exact hac t ht hstatus
  · rcases writes.mem_back ht with rfl | ⟨hmem, hne⟩
    · have hbf : r.accountingStatus ≠ .complete := by
        intro hcm
        have hed := writes.edge
        rw [hcm] at hed
        cases hed
      rw [writes.id, writes.legsOf_written, hnew hstatus, append_nil]
      exact hac r writes.mem hbf
    · rw [writes.legsOf_other hne]
      exact hac t hmem hstatus

def Ledger.Completed (l : Ledger) (tradeId : ℕ) : Prop :=
  ∃ t ∈ l.trades, t.id = tradeId ∧ t.accountingStatus = .complete

theorem Ledger.Extends.completed (h : l.Extends l' c) (hac : l.Accounted)
    (hbf : ¬ l.Completed tradeId) (haf : l'.Completed tradeId) :
    ∃ read result, c = .settle tradeId read result ∧ (∃ t ∈ l.trades, t.id = tradeId ∧ t.accountingStatus = .pending) ∧
      ∃ t' ∈ l'.trades, t'.id = tradeId ∧ t'.accountingStatus = .complete ∧
        l'.legsOf tradeId = result.legs.map (.of tradeId t'.exchange) := by
  obtain ⟨t', ht', rfl, hcm⟩ := haf
  cases h with
  | none same => exact absurd ⟨t', same ▸ ht', rfl, hcm⟩ hbf
  | @complete r r' read result status writes =>
    rcases writes.mem_back ht' with rfl | ⟨hmem, -⟩
    · have hpending : r.accountingStatus = .pending := by
        have hed := writes.edge
        rw [hcm] at hed
        generalize r.accountingStatus = before at hed
        cases hed
        rfl
      refine ⟨read, result, by rw [writes.id], ⟨r, writes.mem, writes.id.symm, hpending⟩, ?_⟩
      refine ⟨t', ht', rfl, hcm, ?_⟩
      have hnn : l.legsOf r.id = [] := hac r writes.mem (by rw [hpending]; simp)
      rw [writes.id, writes.legsOf_written, hnn, nil_append, writes.exchange]
    · exact absurd ⟨t', hmem, rfl, hcm⟩ hbf
  | @other _ r r' status writes =>
    rcases writes.mem_back ht' with rfl | ⟨hmem, -⟩
    · exact absurd hcm status
    · exact absurd ⟨t', hmem, rfl, hcm⟩ hbf

end

/-- No costs are booked yet: there is no leg, and no trade is complete. -/
def Ledger.Fresh (l : Ledger) : Prop :=
  l.legs = [] ∧ ∀ t ∈ l.trades, t.accountingStatus ≠ .complete

theorem Ledger.Fresh.accounted (h : l.Fresh) : l.Accounted := by
  intro t _ _
  rw [legsOf, h.1]
  rfl

/-- **No execution is charged to two trades and settled figures are final**, in every run of the three transactions. -/
theorem costs_settled_once (l : Ledger) (hfresh : l.Fresh) (steps : List CostStep) :
    (∀ n, ∀ leg ∈ (ledgerAt l steps n).legs, ∀ leg' ∈ (ledgerAt l steps n).legs,
      leg.key = leg'.key → leg.tradeId = leg'.tradeId) ∧
    (∀ n, ∀ t ∈ (ledgerAt l steps n).trades, ∃ t' ∈ (ledgerAt l steps (n + 1)).trades, t'.id = t.id ∧
      (t' = t ∨ CostEdge t.accountingStatus t'.accountingStatus)) ∧
    (∀ m n, m ≤ n → ∀ t ∈ (ledgerAt l steps m).trades, t.isSettled = true →
      t ∈ (ledgerAt l steps n).trades ∧ (ledgerAt l steps n).legsOf t.id = (ledgerAt l steps m).legsOf t.id) ∧
    (∀ n, ∀ t ∈ (ledgerAt l steps n).trades, t.accountingStatus = .complete →
      ∃ k < n, ∃ read result, steps[k]? = some (.settle t.id read result) ∧
        (∃ t₀ ∈ (ledgerAt l steps k).trades, t₀.id = t.id ∧ t₀.accountingStatus = .pending) ∧
        t ∈ (ledgerAt l steps (k + 1)).trades ∧
        (ledgerAt l steps n).legsOf t.id = result.legs.map (.of t.id t.exchange)) := by
  have hkeeps : ∀ {m n : ℕ}, m ≤ n → (ledgerAt l steps m).KeepsSettled (ledgerAt l steps n) :=
    Run.persists id fun _ c _ => (costStep_extends _ c).keepsSettled
  refine ⟨fun n leg hleg leg' hleg' hkey => ?_, fun n t ht => ?_, fun m n hmn => hkeeps hmn, ?_⟩
  · rw [inj_on_of_nodup_map (ledgerAt l steps n).leg_keys hleg hleg' hkey]
  · cases hc : steps[n]? with
    | none =>
      rw [ledgerAt, Run.stateAt_of_length_le hc]
      exact ⟨t, ht, rfl, .inl rfl⟩
    | some c =>
      rw [ledgerAt, Run.stateAt_succ hc]
      exact (costStep_extends _ c).edge ht
  · intro n t ht hcomplete
    have hstart : ¬ l.Completed t.id := by
      rintro ⟨t₀, ht0, -, hstatus⟩
      exact hfresh.2 t₀ ht0 hstatus
    obtain ⟨k, hk, c, hc, hbefore, hafter⟩ := Run.exists_step (P := fun l => Ledger.Completed l t.id) hstart
      (show (ledgerAt l steps n).Completed t.id from ⟨t, ht, rfl, hcomplete⟩)
    have haccounted : (ledgerAt l steps k).Accounted :=
      Run.invariant hfresh.accounted (fun _ c _ => (costStep_extends _ c).accounted) k
    obtain ⟨read, result, rfl, hpending, t', ht', hid, hstatus, hlegs⟩ :=
      (costStep_extends _ c).completed haccounted hbefore hafter
    -- the trade it completed is the one we look at, which has not changed since
    have hnext : ledgerAt l steps (k + 1) = costStep (ledgerAt l steps k) (.settle t.id read result) :=
      Run.stateAt_succ hc
    rw [← hnext] at ht' hlegs
    obtain ⟨hlater, hsame⟩ := hkeeps (show k + 1 ≤ n by omega) t' ht' (by simp [CostTrade.isSettled, hstatus])
    have heq : t' = t := inj_on_of_nodup_map (ledgerAt l steps n).trade_ids hlater ht hid
    subst heq
    exact ⟨k, hk, read, result, hc, hpending, ht', hsame.trans hlegs⟩

def sampleLedger : Ledger where
  trades := [1, 2].map fun id =>
    { id
      exchange := "bybit"
      status := .closed
      accountingVersion := .liveExchangeCostsV1
      accountingStatus := .pending
      accountingError := none
      figures :=
        { grossPnlUsd := none, grossPnlPct := none, netPnlUsd := none, netPnlPct := none, feesUsd := none
          fundingUsd := none, slippageUsd := none, pnlUsd := none, pnlPct := none, outcomeLabel := none } }
  legs := []
  trade_ids := by decide
  leg_keys := by decide

def sampleResult (tradeId : ℕ) : CostResult :=
  { status := .complete, feesUsd := some 1, fundingUsd := some 0, entryValue := some 100
    exitValue := some 110, grossPnlUsd := some 10
    legs :=
      [{ tradeId, execType := .trade
         execution :=
          { execId := "e1", execType := .trade, orderId := some "o1", orderLinkId := none, side := some "Buy"
            quantity := 1, price := some 100, value := some 100, fee := 1, feeCurrency := some "USDT"
            executedAt := 0 } }] }

def sampleSettles : List CostStep :=
  [.settle 1 [] (sampleResult 1), .settle 2 [] (sampleResult 2), .markIncomplete 2 "writing failed",
    .operatorSettle 2 10 1 0 100 "checked"]

theorem costs_settled_once_sample :
    (ledgerAt sampleLedger sampleSettles 4).trades.map (·.accountingStatus) = [.complete, .operatorSettled] ∧
      ∃ k < 4, ∃ read result, sampleSettles[k]? = some (.settle 1 read result) ∧
        (ledgerAt sampleLedger sampleSettles 4).legsOf 1 = result.legs.map (.of 1 "bybit") := by
  have hfresh : sampleLedger.Fresh := ⟨rfl, by decide⟩
  refine ⟨by decide +kernel, ?_⟩
  obtain ⟨t, ht⟩ : ∃ t, (ledgerAt sampleLedger sampleSettles 4).trades.head? = some t ∧ t.id = 1 ∧
      t.exchange = "bybit" ∧ t.accountingStatus = .complete :=
    ⟨_, rfl, by decide +kernel⟩
  obtain ⟨hhead, hid, hexchange, hstatus⟩ := ht
  obtain ⟨k, hk, read, result, hc, -, -, hlegs⟩ :=
    (costs_settled_once sampleLedger hfresh sampleSettles).2.2.2 4 t (mem_of_head? hhead) hstatus
  rw [hid, hexchange] at hlegs
  rw [hid] at hc
  exact ⟨k, hk, read, result, hc, hlegs⟩

end Schurfer.Costs.Store
