import Schurfer.Journal.Model

/-!
# The accounting generation

The tables the PnL tracker reads, and the triggers of migration 0062: one that fires increments `app.pnl_generation`
in the same transaction.
-/

namespace Schurfer.Pnl

open List

structure SetupContext where
  paper : Option String
  rest : String
deriving DecidableEq

structure TradeRow extends Trade where
  id : ℕ
  exitAt : Option Time
  setupContext : Option SetupContext

def TradeRow.notPaper (row : TradeRow) : Bool :=
  (row.setupContext.bind (·.paper)).getD "false" ≠ "true"

structure CloseFill where
  id : ℕ
  tradeId : ℕ

inductive IncidentStatus
  | pending
  | resolving
  | resolved
  | manualRequired
deriving DecidableEq

structure Incident where
  id : ℕ
  status : IncidentStatus

def Incident.isOpen (row : Incident) : Bool := row.status = .pending || row.status = .resolving

structure Tables where
  trades : List TradeRow
  closeFills : List CloseFill
  incidents : List Incident
  generation : ℤ

open Tables

def Tables.Constraints (t : Tables) : Prop :=
  (t.trades.map (·.id)).Nodup ∧ (t.closeFills.map (·.id)).Nodup ∧ (t.incidents.map (·.id)).Nodup ∧
    ∀ fill ∈ t.closeFills, ∃ row ∈ t.trades, row.id = fill.tradeId

instance (t : Tables) : Decidable t.Constraints :=
  inferInstanceAs (Decidable ((t.trades.map (·.id)).Nodup ∧ (t.closeFills.map (·.id)).Nodup ∧
    (t.incidents.map (·.id)).Nodup ∧ ∀ fill ∈ t.closeFills, ∃ row ∈ t.trades, row.id = fill.tradeId))

structure Journal extends Tables where
  constraints : toTables.Constraints

inductive RowChange
  | insertTrade (row : TradeRow)
  | updateTrade (new : TradeRow)
  | deleteTrade (id : ℕ)
  | insertFill (fill : CloseFill)
  | updateFill (new : CloseFill)
  | deleteFill (id : ℕ)
  | insertIncident (row : Incident)
  | updateIncident (new : Incident)
  | deleteIncident (id : ℕ)

def tracked (row : TradeRow) : TradeStatus × Option ℚ × Option Time × AccountingVersion ×
    AccountingStatus × Option SetupContext :=
  (row.status, row.pnlUsd, row.exitAt, row.accountingVersion, row.accountingStatus, row.setupContext)

def bumpsUpdate (new old : TradeRow) : Bool :=
  tracked new ≠ tracked old && (old.notPaper || new.notPaper)

def applyRow (t : Tables) : RowChange → Tables × ℕ
  | .insertTrade row =>
    ({ t with trades := t.trades ++ [row] }, if row.status = .closed && row.notPaper then 1 else 0)
  | .updateTrade new =>
    ({ t with trades := t.trades.map fun row => if row.id = new.id then new else row },
      t.trades.countP fun row => row.id = new.id && bumpsUpdate new row)
  | .deleteTrade id =>
    ({ t with
        trades := t.trades.filter (·.id ≠ id)
        closeFills := t.closeFills.filter (·.tradeId ≠ id) },
      (t.trades.countP fun row => row.id = id && row.notPaper) + t.closeFills.countP (·.tradeId = id))
  | .insertFill fill => ({ t with closeFills := t.closeFills ++ [fill] }, 1)
  | .updateFill new =>
    ({ t with closeFills := t.closeFills.map fun fill => if fill.id = new.id then new else fill },
      t.closeFills.countP (·.id = new.id))
  | .deleteFill id =>
    ({ t with closeFills := t.closeFills.filter (·.id ≠ id) }, t.closeFills.countP (·.id = id))
  | .insertIncident row => ({ t with incidents := t.incidents ++ [row] }, 1)
  | .updateIncident new =>
    ({ t with incidents := t.incidents.map fun row => if row.id = new.id then new else row },
      t.incidents.countP fun row => row.id = new.id && row.status ≠ new.status)
  | .deleteIncident id =>
    ({ t with incidents := t.incidents.filter (·.id ≠ id) }, t.incidents.countP (·.id = id))

def Journal.applyChange (j : Journal) (c : RowChange) : Option Journal :=
  let out := applyRow j.toTables c
  let t : Tables := { out.1 with generation := j.generation + out.2 }
  if h : t.Constraints then some ⟨t, h⟩ else none

def Journal.applyAll (j : Journal) : List RowChange → Option Journal
  | [] => some j
  | c :: cs => (j.applyChange c).bind fun j' => j'.applyAll cs

def TradeRow.isUnsettled (row : TradeRow) : Bool :=
  row.status = .closed && row.accountingVersion = .liveExchangeCostsV1 &&
    (row.accountingStatus = .pending || row.accountingStatus = .incomplete)

@[ext]
structure Inputs where
  realized : ℚ
  partialCloses : List ℕ
  openIncidents : List ℕ
  unsettled : List ℕ

def TradeRow.closedSince (startOfDay : Time) (row : TradeRow) : Bool :=
  row.status = .closed && (∃ exit ∈ row.exitAt, startOfDay ≤ exit) && row.notPaper

variable (t : Tables)

def Tables.isPartlyClosed (row : TradeRow) : Bool :=
  row.status = .open && t.closeFills.any (·.tradeId = row.id)

def Tables.inputs (startOfDay : Time) : Inputs where
  realized := ((t.trades.filter (·.closedSince startOfDay)).filterMap (·.pnlUsd)).sum
  partialCloses := (t.trades.filter t.isPartlyClosed).map (·.id)
  openIncidents := (t.incidents.filter (·.isOpen)).map (·.id)
  unsettled := (t.trades.filter (·.isUnsettled)).map (·.id)

inductive Blocker
  | partialCloseOutstanding
  | fillIncidentOutstanding
  | liveCostsUnsettled

structure PnlSnapshot where
  realized : ℚ
  generation : ℤ
  blocker : Option Blocker

def Inputs.blocker (inputs : Inputs) : Option Blocker :=
  if inputs.partialCloses ≠ [] then some .partialCloseOutstanding
  else if inputs.openIncidents ≠ [] then some .fillIncidentOutstanding
  else if inputs.unsettled ≠ [] then some .liveCostsUnsettled
  else none

def Tables.pnlSnapshot (startOfDay : Time) : PnlSnapshot where
  realized := (t.inputs startOfDay).realized
  generation := t.generation
  blocker := (t.inputs startOfDay).blocker

/-- Paper trades have no close fills and never carry the live accounting version. -/
def Tables.PaperClean : Prop :=
  ∀ row ∈ t.trades, row.notPaper = false →
    t.closeFills.any (·.tradeId = row.id) = false ∧ row.accountingVersion ≠ .liveExchangeCostsV1

instance (t : Tables) : Decidable t.PaperClean :=
  inferInstanceAs (Decidable (∀ row ∈ t.trades, row.notPaper = false →
    t.closeFills.any (·.tradeId = row.id) = false ∧ row.accountingVersion ≠ .liveExchangeCostsV1))

structure View where
  closed : List (ℕ × Option ℚ × Option Time × AccountingVersion × AccountingStatus)
  partlyClosed : List ℕ
  openIncidents : List ℕ

def TradeRow.figures (row : TradeRow) : ℕ × Option ℚ × Option Time × AccountingVersion × AccountingStatus :=
  (row.id, row.pnlUsd, row.exitAt, row.accountingVersion, row.accountingStatus)

def TradeRow.isClosedLive (row : TradeRow) : Bool := row.status = .closed && row.notPaper

def Tables.view : View where
  closed := (t.trades.filter (·.isClosedLive)).map (·.figures)
  partlyClosed := (t.trades.filter fun row => t.isPartlyClosed row && row.notPaper).map (·.id)
  openIncidents := (t.incidents.filter (·.isOpen)).map (·.id)

section

variable {t t' : Tables}

theorem inputs_realized (t : Tables) (startOfDay : Time) : (t.inputs startOfDay).realized =
      ((t.view.closed.filter fun f => ∃ exit ∈ f.2.2.1, startOfDay ≤ exit).filterMap (·.2.1)).sum := by
  simp only [inputs, view, filter_map, filterMap_map, filter_filter]
  congr 2
  refine filter_congr fun row _ => ?_
  simp only [TradeRow.closedSince, TradeRow.isClosedLive, TradeRow.figures, Function.comp_apply]
  cases row.notPaper <;> cases row.status <;> simp

theorem inputs_unsettled (h : t.PaperClean) (startOfDay : Time) : (t.inputs startOfDay).unsettled =
      (t.view.closed.filter fun f => f.2.2.2.1 = .liveExchangeCostsV1 &&
        (f.2.2.2.2 = .pending || f.2.2.2.2 = .incomplete)).map (·.1) := by
  simp only [inputs, view, filter_map, map_map, filter_filter]
  congr 1
  refine filter_congr fun row hrow => ?_
  simp only [TradeRow.isUnsettled, TradeRow.isClosedLive, TradeRow.figures, Function.comp_apply]
  cases hpp : row.notPaper with
  | true => cases row.status <;> simp
  | false =>
    have hvr := (h row hrow hpp).2
    simp [hvr]

theorem inputs_partialCloses (h : t.PaperClean) (startOfDay : Time) :
    (t.inputs startOfDay).partialCloses = t.view.partlyClosed := by
  simp only [inputs, view]
  congr 1
  refine filter_congr fun row hrow => ?_
  cases hpp : row.notPaper with
  | true => rw [Bool.and_true]
  | false =>
    have hfl := (h row hrow hpp).1
    rw [isPartlyClosed, hfl, Bool.and_false, Bool.false_and]

theorem inputs_eq_of_view (h : t.PaperClean) (h' : t'.PaperClean) (hv : t'.view = t.view)
    (startOfDay : Time) : t'.inputs startOfDay = t.inputs startOfDay := by
  refine Inputs.ext ?_ ?_ ?_ ?_
  · rw [inputs_realized, inputs_realized, hv]
  · rw [inputs_partialCloses h, inputs_partialCloses h', hv]
  · exact congrArg View.openIncidents hv
  · rw [inputs_unsettled h, inputs_unsettled h', hv]

theorem filter_map_map {α β : Type} {l : List α} {g : α → α} {p : α → Bool} {f : α → β}
    (h : ∀ a ∈ l, p (g a) = p a ∧ (p a = true → f (g a) = f a)) : ((l.map g).filter p).map f = (l.filter p).map f := by
  induction l with
  | nil => rfl
  | cons a l ih =>
    have hrs := ih fun b hb => h b (mem_cons_of_mem a hb)
    obtain ⟨hp, hf⟩ := h a mem_cons_self
    rw [map_cons, filter_cons, filter_cons, hp]
    cases hpa : p a with
    | false => simpa using hrs
    | true => simp [hrs, hf hpa]

theorem filter_eq_self_of_countP {α : Type} {l : List α} {p q : α → Bool} (h : l.countP q = 0)
    (hp : ∀ a, q a = false → p a = true) : l.filter p = l := by
  rw [filter_eq_self]
  intro a ha
  exact hp a (Bool.eq_false_iff.2 (countP_eq_zero.1 h a ha))

theorem bumpsUpdate_false {new old : TradeRow} (hid : old.id = new.id) (h : bumpsUpdate new old = false) :
    new.isClosedLive = old.isClosedLive ∧ (old.isClosedLive = true → new.figures = old.figures) ∧
      (new.status = .open && new.notPaper) = (old.status = .open && old.notPaper) := by
  unfold bumpsUpdate at h
  by_cases htr : tracked new = tracked old
  · simp only [tracked, Prod.mk.injEq] at htr
    obtain ⟨hstatus, hpnl, het, hvr, hacc, hst⟩ := htr
    simp only [TradeRow.isClosedLive, TradeRow.figures, TradeRow.notPaper, hstatus, hpnl, het, hvr, hacc, hst, hid]
    simp
  · -- both rows are paper
    simp only [ne_eq, htr, not_false_eq_true, decide_true, Bool.true_and, Bool.or_eq_false_iff] at h
    simp [TradeRow.isClosedLive, h.1, h.2]

variable {c : RowChange}

theorem applyRow_view {j : Journal} (hbm : (applyRow j.toTables c).2 = 0)
    (hcon : (applyRow j.toTables c).1.Constraints) : (applyRow j.toTables c).1.view = j.toTables.view := by
  cases c with
  | insertTrade row =>
    simp only [applyRow] at hbm hcon ⊢
    have hop : row.isClosedLive = false := by
      by_contra hne
      rw [Bool.not_eq_false] at hne
      unfold TradeRow.isClosedLive at hne
      rw [if_pos hne] at hbm
      exact absurd hbm one_ne_zero
    have hnf : j.closeFills.any (·.tradeId = row.id) = false := by
      rw [any_eq_false]
      intro fill hfi heq
      -- the fill's trade would have the new row's key
      obtain ⟨old, hold, hid⟩ := j.constraints.2.2.2 fill hfi
      have hkeys := hcon.1
      rw [map_append, nodup_append] at hkeys
      exact hkeys.2.2 old.id (mem_map_of_mem hold) row.id (by simp) (hid.trans (of_decide_eq_true heq))
    simp [view, isPartlyClosed, filter_append, hop, hnf]
  | updateTrade new =>
    simp only [applyRow] at hbm ⊢
    have hquiet : ∀ row ∈ j.trades, row.id = new.id → bumpsUpdate new row = false := by
      intro row hrow hid
      have hnn := countP_eq_zero.1 hbm row hrow
      simpa [hid] using hnn
    simp only [view, isPartlyClosed, View.mk.injEq, and_true]
    refine ⟨filter_map_map fun row hrow => ?_, filter_map_map fun row hrow => ?_⟩
    · by_cases hid : row.id = new.id
      · obtain ⟨hclosed, hfg, -⟩ := bumpsUpdate_false hid (hquiet row hrow hid)
        rw [if_pos hid]
        exact ⟨hclosed, hfg⟩
      · rw [if_neg hid]
        exact ⟨rfl, fun _ => rfl⟩
    · by_cases hid : row.id = new.id
      · obtain ⟨-, -, hop⟩ := bumpsUpdate_false hid (hquiet row hrow hid)
        rw [if_pos hid]
        refine ⟨?_, fun _ => hid.symm⟩
        rw [Bool.and_right_comm, hop, Bool.and_right_comm, hid]
      · rw [if_neg hid]
        exact ⟨rfl, fun _ => rfl⟩
  | deleteTrade id =>
    simp only [applyRow] at hbm ⊢
    obtain ⟨htd, hfl⟩ := Nat.add_eq_zero_iff.1 hbm
    have hkp : j.closeFills.filter (·.tradeId ≠ id) = j.closeFills :=
      filter_eq_self_of_countP hfl fun fill hne => by simpa using hne
    have hpp : ∀ row ∈ j.trades, row.notPaper = true → row.id ≠ id := by
      intro row hrow hlive hid
      have hnn := countP_eq_zero.1 htd row hrow
      simp [hid, hlive] at hnn
    simp only [view, isPartlyClosed, hkp, filter_filter, View.mk.injEq, and_true]
    refine ⟨congrArg _ (filter_congr fun row hrow => ?_), congrArg _ (filter_congr fun row hrow => ?_)⟩
    · cases hlive : row.notPaper with
      | true => simp [hpp row hrow hlive]
      | false => simp [TradeRow.isClosedLive, hlive]
    · cases hlive : row.notPaper with
      | true => simp [hpp row hrow hlive]
      | false => simp
  | insertFill => exact absurd hbm one_ne_zero
  | updateFill new =>
    simp only [applyRow] at hbm ⊢
    have hsame : j.closeFills.map (fun fill => if fill.id = new.id then new else fill) = j.closeFills := by
      refine (map_congr_left fun fill hfi => ?_).trans (map_id _)
      have hnn := countP_eq_zero.1 hbm fill hfi
      rw [if_neg (by simpa using hnn), id]
    simp only [hsame]
  | deleteFill id =>
    simp only [applyRow] at hbm ⊢
    have hsame : j.closeFills.filter (·.id ≠ id) = j.closeFills :=
      filter_eq_self_of_countP hbm fun fill hne => by simpa using hne
    simp only [hsame]
  | insertIncident => exact absurd hbm one_ne_zero
  | updateIncident new =>
    simp only [applyRow] at hbm ⊢
    simp only [view, isPartlyClosed, View.mk.injEq, true_and]
    refine filter_map_map fun row hrow => ?_
    by_cases hid : row.id = new.id
    · have hnn := countP_eq_zero.1 hbm row hrow
      have hstatus : row.status = new.status := by simpa [hid] using hnn
      rw [if_pos hid]
      exact ⟨by simp [Incident.isOpen, hstatus], fun _ => hid.symm⟩
    · rw [if_neg hid]
      exact ⟨rfl, fun _ => rfl⟩
  | deleteIncident id =>
    simp only [applyRow] at hbm ⊢
    have hsame : j.incidents.filter (·.id ≠ id) = j.incidents :=
      filter_eq_self_of_countP hbm fun row hne => by simpa using hne
    simp only [hsame]

end

/-- `j'` is `j` or what transactions made of it: the generation never falls, and while it stands the
view does. -/
def Journal.Later (j j' : Journal) : Prop :=
  j.generation ≤ j'.generation ∧ (j'.generation = j.generation → j'.view = j.view)

theorem Journal.Later.refl (j : Journal) : j.Later j := ⟨le_rfl, fun _ => rfl⟩

theorem Journal.Later.trans {j1 j2 j3 : Journal} (h : j1.Later j2) (h' : j2.Later j3) : j1.Later j3 := by
  refine ⟨h.1.trans h'.1, fun heq => ?_⟩
  have h2 : j2.generation = j1.generation := le_antisymm (heq ▸ h'.1) h.1
  rw [h'.2 (heq.trans h2.symm), h.2 h2]

theorem applyChange_later {j j' : Journal} (h : j.applyChange c = some j') : j.Later j' := by
  simp only [Journal.applyChange] at h
  split at h
  · rename_i hcon
    cases h
    refine ⟨by simp, fun heq => ?_⟩
    have hbm : (applyRow j.toTables c).2 = 0 := by
      simp only at heq
      omega
    exact applyRow_view hbm hcon
  · simp at h

/-- **Trigger completeness.** A transaction that leaves the generation as it was leaves everything
the inputs are computed from. -/
theorem Journal.applyAll_later {j j' : Journal} {cs : List RowChange} (h : j.applyAll cs = some j') : j.Later j' := by
  induction cs generalizing j with
  | nil =>
    obtain rfl := Option.some.inj h
    exact Journal.Later.refl j
  | cons c cs ih =>
    obtain ⟨j1, hc, hcs⟩ := Option.bind_eq_some_iff.1 h
    exact (applyChange_later hc).trans (ih hcs)

end Schurfer.Pnl
