import Schurfer.Desk.Parts
import Schurfer.Lib.Runs

/-!
# Outstanding close attempts

A close attempt is *outstanding* while its order may be on the exchange and its outcome is not recorded. A tick first
recovers what it can of them, and blocks the pairs of the rest.
-/

namespace Schurfer.Desk

open Orders LateFill Prog List AttemptRow

variable {s : State} {o : Op} {row row' : AttemptRow} {a : CloseAttempt} {id : ℕ} {f : AttemptRow → AttemptRow}
  {rows rows1 rows2 : List AttemptRow} {c : List Event × Chance} {todo : List CloseAttempt} {α : Type}

def tickAnswer (s : State) (o : Op) (c : List Event × Chance) : Except Failure (Ans o) × State :=
  answer 0 (c.1.foldl env s) o c.2

abbrev TickCall := Made State Op (List Event × Chance)

def AttemptRow.pair (row : AttemptRow) : Pair := (row.exchange, row.base)

def AttemptRow.outstanding (row : AttemptRow) : Bool :=
  row.context.isSome && (row.status = .pending || row.status = .accepted || row.status = .submissionUnknown)

/-- A close that is submitted finds no outstanding attempt of its exchange and base but its own. -/
def SubmitsAlone (m : TickCall) : Prop :=
  ∀ order, m.op = .createMarketOrder order → ∀ row ∈ m.before.attempts, row.outstanding = true →
    row.pair = (order.exchange, baseOf order.symbol) → row.clientOrderId = order.clientOrderId

/-- From `s`, while the calls of the program meet `R`, it submits alone and ends in `post`. -/
abbrev Ticks (R : TickCall → Prop) (post : Except Failure α → State → Prop) (p : Program α) (s : State) : Prop :=
  Runs tickAnswer R SubmitsAlone post p s

theorem events_attempts (s : State) (events : List Event) : (events.foldl env s).attempts = s.attempts := by
  induction events generalizing s with
  | nil => rfl
  | cons e events ih => exact (ih (env s e)).trans (env_attempts s e)

theorem tickAnswer_quiet (h : o.isQuiet = true) (s : State) (c : List Event × Chance) :
    (tickAnswer s o c).2.attempts = s.attempts := by
  have hen := events_attempts s c.1
  rcases answer_attempts_cases 0 (c.1.foldl env s) o c.2 with hcl | hcl
  · exact (hcl.trans (effect_attempts h 0 _ c.2)).trans hen
  · exact hcl.trans hen

theorem AttemptRow.Same.pair (h : row.Same row') : row'.pair = row.pair :=
  Prod.ext h.exchange h.base

theorem AttemptRow.Same.outstanding (h : row.Same row')
    (hstatus : row.status = row'.status) : row'.outstanding = row.outstanding := by
  unfold AttemptRow.outstanding
  rw [h.context, hstatus]

structure Touched (id : ℕ) (rows rows' : List AttemptRow) : Prop where
  length : rows'.length = rows.length
  mem : ∀ row' ∈ rows', ∃ row ∈ rows, row.Same row' ∧ (row'.id ≠ id → row.status = row'.status)

theorem Touched.refl (id : ℕ) (rows : List AttemptRow) : Touched id rows rows :=
  ⟨rfl, fun row hrow => ⟨row, hrow, .refl row, fun _ => rfl⟩⟩

theorem Touched.trans {rows3 : List AttemptRow} (h : Touched id rows1 rows2)
    (h' : Touched id rows2 rows3) : Touched id rows1 rows3 := by
  refine ⟨h'.length.trans h.length, fun row3 hrow3 => ?_⟩
  obtain ⟨row2, hrow2, hsame2, hstatus2⟩ := h'.mem row3 hrow3
  obtain ⟨row1, hrow1, hsame1, hstatus1⟩ := h.mem row2 hrow2
  refine ⟨row1, hrow1, hsame1.trans hsame2, fun hid => ?_⟩
  rw [hstatus1 fun heq => hid (hsame2.id.trans heq), hstatus2 hid]

theorem updateAttempt_touched (hf : ∀ row : AttemptRow, row.Same (f row)) :
    Touched id s.attempts (s.updateAttempt id f).attempts := by
  refine ⟨length_map _, fun row' hrow' => ?_⟩
  obtain ⟨row, hrow, rfl⟩ := mem_map.1 hrow'
  by_cases hid : row.id = id
  · rw [if_pos hid]
    exact ⟨row, hrow, hf row, fun hne => absurd ((hf row).id.trans hid) hne⟩
  · rw [if_neg hid]
    exact ⟨row, hrow, .refl row, fun _ => rfl⟩

theorem tickAnswer_marks (h : o.marks = some id) (s : State) (c : List Event × Chance) :
    Touched id s.attempts (tickAnswer s o c).2.attempts := by
  rw [← events_attempts s c.1]
  have hef : Touched id (c.1.foldl env s).attempts (effect 0 (c.1.foldl env s) c.2 o).attempts := by
    cases o with
    | markAccepted | markSubmissionUnknown | markFailed =>
      cases h
      exact updateAttempt_touched fun _ => by constructor <;> rfl
    | markCompleted | markPartial =>
      cases h
      exact updateAttempt_touched fun _ => by constructor <;> rfl
    | _ => cases h
  rcases answer_attempts_cases 0 (c.1.foldl env s) o c.2 with hcl | hcl
  · exact hcl ▸ hef
  · exact hcl ▸ Touched.refl id _

def Settled (id : ℕ) (rows : List AttemptRow) : Prop := ∀ row ∈ rows, row.id = id → row.outstanding = false

theorem updateAttempt_settled
    (hdn : ∀ row, (f row).outstanding = false) : Settled id (s.updateAttempt id f).attempts := by
  intro row' hrow' hid'
  obtain ⟨row, -, rfl⟩ := mem_map.1 hrow'
  by_cases hid : row.id = id
  · rw [if_pos hid]
    exact hdn row
  · rw [if_neg hid] at hid'
    exact absurd hid' hid

def Op.ends : Op → Option ℕ
  | .markFailed id => some id
  | .markCompleted id _ _ => some id
  | .markPartial id _ _ => some id
  | _ => none

theorem tickAnswer_ends (h : o.ends = some id) (s : State)
    (hc : c.2.failure = none) : Settled id (tickAnswer s o c).2.attempts := by
  have han : (tickAnswer s o c).2 = effect 0 (c.1.foldl env s) c.2 o := by
    cases o with
    | markFailed | markCompleted | markPartial => simp only [tickAnswer, answer, Chance.failureOf, hc]
    | _ => cases h
  rw [han]
  cases o with
  | markFailed | markCompleted | markPartial =>
    cases h
    exact updateAttempt_settled fun row => by simp [outstanding]
  | _ => cases h

def Op.recoveryNeeds : Op → Bool
  | .loadRecoverableCloseAttempts | .revokePnlReadiness | .exitKeys _ | .deleteStopKey _
  | .deletePendingClose _ _ | .setPendingClose _ | .deleteTradeKeyIfMatches _ _ | .markFailed _
  | .markCompleted _ _ _ => true
  | _ => false

/-- No call that a recovery rests on fails. -/
def Answered (m : TickCall) : Prop := m.op.recoveryNeeds = true → m.chance.2.failure = none

def Op.isCalm : Op → Bool
  | .findOpenTradeId _ _ _ | .recordCloseFill _ | .closeTrade _ _ _ _ | .aggregateCloseFillPrice _
  | .markAccepted _ _ | .markPartial _ _ _ => true
  | o => o.recoveryNeeds

theorem calm_ok (h : o.isCalm = true) (hR : Answered ⟨s, o, c⟩) : ∃ a, (tickAnswer s o c).1 = .ok a := by
  have han : ∀ e, c.2.failure = some e → o.recoveryNeeds = false := by
    intro e he
    by_contra hns
    rw [Bool.not_eq_false] at hns
    rw [hR hns] at he
    cases he
  simp only [tickAnswer, answer]
  split
  · cases o with
    | loadRecoverableCloseAttempts | revokePnlReadiness | exitKeys | deleteStopKey | deletePendingClose
    | setPendingClose | deleteTradeKeyIfMatches | markFailed | markCompleted | findOpenTradeId
    | recordCloseFill | closeTrade | aggregateCloseFillPrice | markAccepted | markPartial => exact ⟨_, rfl⟩
    | _ => cases h
  · rename_i e he
    cases o with
    | findOpenTradeId | recordCloseFill | closeTrade | aggregateCloseFillPrice | markAccepted | markPartial =>
      exact ⟨_, rfl⟩
    | releaseLock => cases h
    | _ => exact absurd ((han e he).symm.trans h) Bool.false_ne_true

theorem submitsAlone_other (h : ∀ order, o ≠ .createMarketOrder order) (c : List Event × Chance) :
    SubmitsAlone ⟨s, o, c⟩ :=
  fun order heq => absurd heq (h order)

theorem not_market_of_quiet (h : o.isQuiet = true) (order : MarketOrder) : o ≠ .createMarketOrder order := by
  rintro rfl
  cases h

theorem not_market_of_marks (h : o.marks = some id) (order : MarketOrder) : o ≠ .createMarketOrder order := by
  rintro rfl
  cases h

abbrev Never (o : Op) : Prop := o.isCalm = true

theorem calm_run {p : Program α} (hp : p.Calm Never Quiet) :
    Ticks Answered (fun r s' => (∃ b, r = .ok b) ∧ s'.attempts = s.attempts) p s :=
  .of_calm (Q := fun s' => s'.attempts = s.attempts)
    (fun s1 _ c hquiet hs hR => ⟨submitsAlone_other (not_market_of_quiet hquiet) c,
      (tickAnswer_quiet hquiet s1 c).trans hs, fun hca => calm_ok hca hR⟩) hp rfl

def Recovered (id : ℕ) (rows : List AttemptRow) (r : Except Failure Bool) (s' : State) : Prop :=
  ∃ blocked, r = .ok blocked ∧ Touched id rows s'.attempts ∧ (blocked = false → Settled id s'.attempts)

abbrev Recovers (id : ℕ) (rows : List AttemptRow) : Program Bool → State → Prop := Ticks Answered (Recovered id rows)

theorem recovered_blocked (hs : Touched id rows s.attempts) : Recovered id rows (.ok true) s :=
  ⟨true, rfl, hs, nofun⟩

theorem recovered_settled (hs : Touched id rows s.attempts) (hsettled : Settled id s.attempts) :
    Recovered id rows (.ok false) s :=
  ⟨false, rfl, hs, fun _ => hsettled⟩

theorem Recovered.after {p : Program α} {f : α → Program Bool} (hp : p.Calm Never Quiet)
    (hre : ∀ a s', s'.attempts = s.attempts → Recovers id rows (f a) s') :
    Recovers id rows (p >>= f) s := by
  refine .bind (.mono (fun r s' hr => ?_) (calm_run hp))
  obtain ⟨⟨a, rfl⟩, hs'⟩ := hr
  exact hre a s' hs'

theorem recovered_blockedUnready (hs : Touched id rows s.attempts) : Recovers id rows blockedUnready s :=
  Recovered.after (.perform rfl rfl) fun _ _ hs' => recovered_blocked (hs' ▸ hs)

theorem Recovered.mark {f : Ans o → Program Bool} (hmr : o.marks = some id) (hca : o.isCalm = true)
    (hs : Touched id rows s.attempts) (hre : ∀ a s', Touched id rows s'.attempts →
      (o.ends = some id → o.recoveryNeeds = true → Settled id s'.attempts) →
      Recovers id rows (f a) s') :
    Recovers id rows (call o >>= f) s := by
  refine .bind (.perform fun c hR => ⟨submitsAlone_other (not_market_of_marks hmr) c, ?_⟩)
  obtain ⟨a, ha⟩ := calm_ok hca hR
  rw [ha]
  exact hre a _ (hs.trans (tickAnswer_marks hmr s c)) fun hed hns => tickAnswer_ends hed s (hR hns)

section

variable (setup : Setup)

theorem calm_cancelTerminalStop (exchange : String) (pair : Pair) (slOrderId : Option String) (symbol : String) :
    (cancelTerminalStop exchange pair slOrderId symbol).Calm Never Quiet := by
  unfold cancelTerminalStop
  split
  · trivial
  · refine .bind (.attempt rfl) fun answer => ?_
    split
    · exact .perform rfl rfl
    · trivial

theorem calm_commitAndUntrack (pair : Pair) (tradeId : ℕ) (exitOrderId : Option String) (exitPrice : ℚ) :
    (commitAndUntrack pair tradeId exitOrderId exitPrice).Calm Never Quiet := by
  refine .bind ?_ fun committed => ?_
  · refine .bind (.perform rfl rfl) fun _ => .bind (.perform rfl rfl) fun committed => ?_
    split
    · exact .bind (.perform rfl rfl) fun _ => trivial
    · exact .bind (.perform rfl rfl) fun _ => .bind (.perform rfl rfl) fun _ => trivial
  · split
    · exact .bind (.perform rfl rfl) fun _ => trivial
    · trivial

theorem calm_finalizeRecoveredClose (a : CloseAttempt) (tradeId : ℕ) (orderId : String) (price : ℚ) :
    (finalizeRecoveredClose a tradeId orderId price).Calm Never Quiet :=
  .bind (calm_cancelTerminalStop _ _ _ _) fun _ => .bind (.perform rfl rfl) fun _ =>
    calm_commitAndUntrack _ _ _ _

theorem calm_findListed (a : CloseAttempt) (listings : List Listing) :
    (findListed setup a listings).Calm Never Quiet := by
  induction listings with
  | nil => trivial
  | cons listing listings ih =>
    unfold findListed
    split
    · refine .bind (.attempt rfl) fun answer => ?_
      split
      · trivial
      · exact ih
    · exact ih

theorem calm_findCloseAttemptOrder (a : CloseAttempt) : (findCloseAttemptOrder setup a).Calm Never Quiet := by
  unfold findCloseAttemptOrder
  split
  · split
    · refine .bind (.attempt rfl) fun answer => ?_
      split
      · trivial
      · exact calm_findListed setup a _
    · exact calm_findListed setup a _
  · exact calm_findListed setup a _

theorem calm_resolveFillPrice (exchange symbol : String) (order : Order) (requested : Option ℚ) :
    (resolveFillPrice setup exchange symbol order requested).Calm Never Quiet := by
  unfold resolveFillPrice
  split
  · trivial
  · split
    · trivial
    · refine .bind (.attempt rfl) fun answer => ?_
      dsimp only
      split
      · trivial
      · refine .bind ?_ fun found => ?_
        · unfold vwapFromTrades
          split
          · refine .bind (.attempt rfl) fun trades => ?_
            split <;> trivial
          · trivial
        · split
          · trivial
          · split <;> trivial

theorem calm_attemptTradeId (a : CloseAttempt) (order : Order) : (attemptTradeId a order).Calm Never Quiet := by
  unfold attemptTradeId
  split
  · trivial
  · exact .perform rfl rfl

end

section

variable (setup : Setup) (order : Order)

theorem recovered_recoverLeg (price filled remaining : ℚ) (tradeId : ℕ)
    (hs : Touched a.id rows s.attempts) : Recovers a.id rows
      (recoverLeg a order price filled remaining tradeId) s := by
  unfold recoverLeg
  dsimp only
  split
  · exact recovered_blockedUnready hs
  refine Recovered.after (Calm.perform rfl rfl) fun aggregate s1 hs1 => ?_
  rw [← hs1] at hs
  cases aggregate with
  | none => exact recovered_blockedUnready hs
  | some aggregate =>
    dsimp only
    split
    · -- the last leg: the attempt is completed before the local state is finished
      refine Recovered.mark rfl rfl hs fun _ s2 hs2 hsettled => ?_
      refine Recovered.after (calm_finalizeRecoveredClose a _ _ _) fun _ s3 hs3 => ?_
      exact recovered_settled (hs3 ▸ hs2) (hs3 ▸ hsettled rfl rfl)
    · -- a leg on the way: the answer says whether the mark was made
      refine Runs.bind (Runs.perform fun c hR => ⟨submitsAlone_other (by simp) c, ?_⟩)
      have hmr : (Op.markPartial a.id tradeId filled).marks = some a.id := rfl
      have htc := hs.trans (tickAnswer_marks hmr s1 c)
      cases hfl : c.2.failure with
      | none =>
        have hed : (Op.markPartial a.id tradeId filled).ends = some a.id := rfl
        have hsettled := tickAnswer_ends hed s1 hfl
        obtain ⟨recorded, hrc⟩ := calm_ok (o := .markPartial a.id tradeId filled) rfl hR
        rw [hrc]
        refine Recovered.after (Calm.perform rfl rfl) fun _ s3 hs3 => ?_
        exact ⟨!recorded, rfl, hs3 ▸ htc, fun _ => hs3 ▸ hsettled⟩
      | some e =>
        have hrf : (tickAnswer s1 (.markPartial a.id tradeId filled) c).1 = .ok false := by
          simp only [tickAnswer, answer, Chance.failureOf, hfl, failed]
        rw [hrf]
        refine Recovered.after (Calm.perform rfl rfl) fun _ s3 hs3 => ?_
        exact recovered_blocked (hs3 ▸ htc)

theorem recovered_recoverFilled (resolution : FillResolution) (hs : Touched a.id rows s.attempts) :
    Recovers a.id rows (recoverFilled a order resolution) s := by
  refine Recovered.after (Calm.attempt rfl) fun positions s1 hs1 => ?_
  rw [← hs1] at hs
  cases positions with
  | error => exact recovered_blocked hs
  | ok positions =>
    dsimp only
    split
    · exact recovered_blocked hs
    split
    · exact recovered_blocked hs
    refine Recovered.after (calm_attemptTradeId a order) fun tradeId s2 hs2 => ?_
    rw [← hs2] at hs
    cases tradeId with
    | none => exact recovered_blockedUnready hs
    | some tradeId => exact recovered_recoverLeg order _ _ _ tradeId hs

theorem recovered_recoverSent (hs : Touched a.id rows s.attempts) : Recovers a.id rows (recoverSent setup a) s := by
  have hrs : ∀ (order : Order) (s' : State), Touched a.id rows s'.attempts →
      Recovers a.id rows (recoverFound setup a order) s' := by
    intro order s' hs'
    refine Recovered.after (calm_resolveFillPrice setup _ _ _ _) fun resolution s1 hs1 => ?_
    rw [← hs1] at hs'
    split
    · exact recovered_blocked hs'
    · split
      · exact Recovered.mark rfl rfl hs' fun _ _ hs2 hsettled => recovered_settled hs2 (hsettled rfl rfl)
      · exact recovered_blocked hs'
    · exact recovered_recoverFilled order resolution hs'
  refine Recovered.after (calm_findCloseAttemptOrder setup a) fun found s1 hs1 => ?_
  rw [← hs1] at hs
  cases found with
  | none => exact recovered_blocked hs
  | some order =>
    dsimp only
    split
    · exact Recovered.mark rfl rfl hs fun _ s2 hs2 _ => hrs order s2 hs2
    · exact hrs order s1 hs

theorem recovered_recoverOne (hstatus : ∀ row ∈ s.attempts, row.id = a.id → row.status = a.status)
    (hs : Touched a.id rows s.attempts) :
    Recovers a.id rows (recoverOne setup a) s := by
  unfold recoverOne
  split
  · exact recovered_blocked hs
  split
  · rename_i tradeId hcompleted _
    have hsettled : Settled a.id s.attempts := by
      intro row hrow hid
      simp [outstanding, hstatus row hrow hid, hcompleted]
    refine Recovered.after (Calm.perform rfl rfl) fun aggregate s1 hs1 => ?_
    rw [← hs1] at hs hsettled
    cases aggregate with
    | none => exact recovered_blockedUnready hs
    | some price =>
      refine Recovered.after (calm_finalizeRecoveredClose a _ _ _) fun _ s2 hs2 => ?_
      exact recovered_settled (hs2 ▸ hs) (hs2 ▸ hsettled)
  · exact recovered_recoverSent setup hs

end

structure Loaded (rows : List AttemptRow) (todo : List CloseAttempt) : Prop where
  nodup : (todo.map (·.id)).Nodup
  row : ∀ a ∈ todo, ∀ row ∈ rows, row.id = a.id → row.status = a.status ∧ row.pair = (a.exchange, a.base)

structure Blocks (rows : List AttemptRow) (todo : List CloseAttempt) (blocked : List Pair)
    (rows' : List AttemptRow) : Prop where
  length : rows'.length = rows.length
  mem : ∀ row' ∈ rows', ∃ row ∈ rows, row.Same row' ∧
    ((∀ a ∈ todo, a.id ≠ row'.id) → row.status = row'.status)
  blocked : ∀ row' ∈ rows', row'.outstanding = true → (∃ a ∈ todo, a.id = row'.id) → row'.pair ∈ blocked

theorem Loaded.tail {rows' : List AttemptRow}
    (h : Loaded rows (a :: todo)) (htc : Touched a.id rows rows') : Loaded rows' todo := by
  have hnd := h.nodup
  rw [map_cons, nodup_cons] at hnd
  refine ⟨hnd.2, fun b hb row' hrow' hid => ?_⟩
  obtain ⟨row, hrow, hsame, hstatus⟩ := htc.mem row' hrow'
  have hne : row'.id ≠ a.id := fun heq =>
    hnd.1 (mem_map.2 ⟨b, hb, hid.symm.trans heq⟩)
  obtain ⟨hb_status, hb_pair⟩ := h.row b (mem_cons_of_mem a hb) row hrow (hsame.id.symm.trans hid)
  exact ⟨(hstatus hne).symm.trans hb_status, hsame.pair.trans hb_pair⟩

theorem Blocks.cons {blocked : Bool} {rest : List Pair} (hld : Loaded rows (a :: todo)) (htc : Touched a.id rows rows1)
    (hsettled : blocked = false → Settled a.id rows1) (hre : Blocks rows1 todo rest rows2) :
    Blocks rows (a :: todo) (if blocked then (a.exchange, a.base) :: rest else rest) rows2 := by
  have hnd := hld.nodup
  rw [map_cons, nodup_cons] at hnd
  refine ⟨hre.length.trans htc.length, fun row2 hrow2 => ?_, fun row2 hrow2 hout hin => ?_⟩
  · obtain ⟨row1, hrow1, hsame1, hstatus1⟩ := hre.mem row2 hrow2
    obtain ⟨row, hrow, hsame, hstatus⟩ := htc.mem row1 hrow1
    refine ⟨row, hrow, hsame.trans hsame1, fun hnot => ?_⟩
    have hne : row1.id ≠ a.id := fun heq => hnot a mem_cons_self (heq.symm.trans hsame1.id.symm)
    rw [hstatus hne, hstatus1 fun b hb => hnot b (mem_cons_of_mem a hb)]
  · obtain ⟨b, hb, hid⟩ := hin
    rcases mem_cons.1 hb with rfl | hb
    · -- the attempt itself: still outstanding, so its pair was blocked
      obtain ⟨row1, hrow1, hsame1, hstatus1⟩ := hre.mem row2 hrow2
      have hnot : ∀ x ∈ todo, x.id ≠ row2.id := fun x hx heq =>
        hnd.1 (mem_map.2 ⟨x, hx, heq.trans hid.symm⟩)
      have hout1 : row1.outstanding = true := by rw [← hsame1.outstanding (hstatus1 hnot)]; exact hout
      have hid1 : row1.id = b.id := hsame1.id.symm.trans hid.symm
      obtain ⟨row, hrow, hsame, -⟩ := htc.mem row1 hrow1
      have hpair := (hld.row b mem_cons_self row hrow (hsame.id.symm.trans hid1)).2
      cases blocked with
      | false =>
        rw [hsettled rfl row1 hrow1 hid1] at hout1
        cases hout1
      | true =>
        rw [hsame1.pair, hsame.pair, hpair]
        exact mem_cons_self
    · have hmem := hre.blocked row2 hrow2 hout ⟨b, hb, hid⟩
      split
      · exact mem_cons_of_mem _ hmem
      · exact hmem

theorem blocks_recoverAll (setup : Setup) (todo : List CloseAttempt) (hld : Loaded s.attempts todo) : Ticks Answered
      (fun r s' => ∃ blocked, r = .ok blocked ∧ Blocks s.attempts todo blocked s'.attempts)
      (recoverAll setup todo) s := by
  -- by induction on the attempts still to be recovered
  induction todo generalizing s with
  | nil =>
    refine ⟨[], rfl, rfl, fun row hrow => ⟨row, hrow, .refl row, fun _ => rfl⟩, fun _ _ _ hin => ?_⟩
    obtain ⟨a, ha, -⟩ := hin
    simp at ha
  | cons a todo ih =>
    have hone := recovered_recoverOne setup
      (fun row hrow hid => (hld.row a mem_cons_self row hrow hid).1) (Touched.refl a.id s.attempts)
    refine .bind (.mono (fun r s1 hr => ?_) hone)
    obtain ⟨blocked, rfl, htc, hsettled⟩ := hr
    refine .bind (.mono (fun r s2 hr => ?_) (ih (hld.tail htc)))
    obtain ⟨rest, rfl, hre⟩ := hr
    exact ⟨_, rfl, Blocks.cons hld htc hsettled hre⟩

theorem mem_recoverableCloses :
    a ∈ s.recoverableCloses ↔ ∃ row ∈ s.attempts, row.recoverable s.tradeIsOpen = true ∧ row.toClose = some a := by
  simp only [State.recoverableCloses, mem_filterMap, mem_filter, and_assoc]

theorem toClose_eq (h : row.toClose = some a) :
    a.id = row.id ∧ a.status = row.status ∧ (a.exchange, a.base) = row.pair := by
  obtain ⟨context, -, rfl⟩ := Option.map_eq_some_iff.1 h
  exact ⟨rfl, rfl, rfl⟩

theorem loaded_recoverableCloses (hkeys : (s.attempts.map (·.id)).Nodup) : Loaded s.attempts s.recoverableCloses := by
  constructor
  · -- the loaded ids are some of the table's, in its order
    have hids : s.recoverableCloses.map (·.id) =
        ((s.attempts.filter (·.recoverable s.tradeIsOpen)).filter (·.context.isSome)).map (·.id) := by
      unfold State.recoverableCloses
      generalize s.attempts.filter (·.recoverable s.tradeIsOpen) = rows
      induction rows with
      | nil => rfl
      | cons row rows ih =>
        cases hcn : row.context with
        | none | some => simp [toClose, hcn] at ih ⊢; exact ih
    rw [hids]
    exact ((filter_sublist.trans filter_sublist).map _).nodup hkeys
  · intro a ha row hrow hid
    obtain ⟨own, hown, -, hclose⟩ := mem_recoverableCloses.1 ha
    obtain ⟨hown_id, hown_status, hown_pair⟩ := toClose_eq hclose
    obtain rfl : row = own := inj_on_of_nodup_map hkeys hrow hown (hid.trans hown_id)
    exact ⟨hown_status.symm, hown_pair.symm⟩

theorem exists_loaded (hrow : row ∈ s.attempts) (hout : row.outstanding = true) :
    ∃ a ∈ s.recoverableCloses, a.id = row.id := by
  simp only [outstanding, Bool.and_eq_true, Bool.or_eq_true, decide_eq_true_eq] at hout
  obtain ⟨hcn, hstatus⟩ := hout
  obtain ⟨context, hcn⟩ := Option.isSome_iff_exists.1 hcn
  have hclose : ∃ a, row.toClose = some a := ⟨_, by rw [toClose, hcn]; rfl⟩
  obtain ⟨a, ha⟩ := hclose
  refine ⟨a, mem_recoverableCloses.2 ⟨row, hrow, ?_, ha⟩, (toClose_eq ha).1⟩
  rcases hstatus with (hstatus | hstatus) | hstatus <;> simp [AttemptRow.recoverable, hstatus]

theorem recovered_blocks (setup : Setup) (hkeys : KeysOk s.attempts) :
    Ticks Answered (fun r s' => ∃ blocked, r = .ok blocked ∧
      (∀ row ∈ s'.attempts, row.outstanding = true → row.pair ∈ blocked) ∧
      ∀ row ∈ s'.attempts, row.id ≤ s'.attempts.length) (recoverCloseAttempts setup) s := by
  refine .bind (.perform fun c hR => ⟨submitsAlone_other (by simp) c, ?_⟩)
  have hfl : c.2.failure = none := hR rfl
  have hlo : tickAnswer s .loadRecoverableCloseAttempts c =
      (.ok (c.1.foldl env s).recoverableCloses, c.1.foldl env s) := by
    simp only [tickAnswer, answer, Chance.failureOf, hfl, value, effect]
  rw [hlo]
  have hrw := events_attempts s c.1
  have hld := loaded_recoverableCloses (s := c.1.foldl env s) (by rw [hrw]; exact hkeys.nodup)
  refine .mono (fun r s' hr => ?_) (blocks_recoverAll setup _ hld)
  obtain ⟨blocked, rfl, hbl⟩ := hr
  refine ⟨blocked, rfl, fun row hrow hout => ?_, fun row hrow => ?_⟩
  · by_cases hin : ∃ a ∈ (c.1.foldl env s).recoverableCloses, a.id = row.id
    · exact hbl.blocked row hrow hout hin
    · -- not loaded, so as it was, and then it would have been loaded
      obtain ⟨old, hold, hsame, hstatus⟩ := hbl.mem row hrow
      have hsame_status := hstatus fun a ha heq => hin ⟨a, ha, heq⟩
      rw [hsame.outstanding hsame_status] at hout
      obtain ⟨a, ha, hid⟩ := exists_loaded hold hout
      exact absurd ⟨a, ha, hid.trans hsame.id.symm⟩ hin
  · obtain ⟨old, hold, hsame, -⟩ := hbl.mem row hrow
    rw [hsame.id, hbl.length, hrw]
    rw [hrw] at hold
    exact hkeys.bound old hold

end Schurfer.Desk
