import Schurfer.Desk.World
import Schurfer.Lib.Rows

/-!
# The parts of the jobs

What single calls do to the order attempts, and which calls the parts make that several jobs share.
-/

namespace Schurfer.Desk

open Orders LateFill Prog List

variable {rows rows' : List AttemptRow} {o : Op} {f : AttemptRow → AttemptRow} {α : Type} {order : Order}
  (setup : Setup) (pair : Pair) (i : ℕ) (s : State) (orderId : String) (a : CloseAttempt) (c : Chance)
  (r : EntryRequest) (exchange symbol : String) (tradeId : ℕ) (exitOrderId : Option String) (exitPrice price : ℚ)
  (filled : Option ℚ) (e : Event)

theorem env_tables : (env s e).attempts = s.attempts ∧
    (env s e).incidents = s.incidents ∧ (env s e).pending = s.pending := by
  cases e with
  | fillStop exchange orderId amount status =>
    simp only [env, fillStop]
    split
    · split <;> exact ⟨rfl, rfl, rfl⟩
    · exact ⟨rfl, rfl, rfl⟩
  | _ => exact ⟨rfl, rfl, rfl⟩

theorem env_attempts : (env s e).attempts = s.attempts := (env_tables s e).1

def Op.marks : Op → Option ℕ
  | .markAccepted id _ => some id
  | .markSubmissionUnknown id => some id
  | .markFailed id => some id
  | .markCompleted id _ _ => some id
  | .markPartial id _ _ => some id
  | _ => none

def Op.isQuiet : Op → Bool
  | .createAttempt _ | .createCloseAttempt _ | .linkCompletedTrade _ _ _ _ | .createMarketOrder _ => false
  | o => o.marks.isNone

theorem effect_attempts (h : o.isQuiet = true) (i : ℕ) (s : State) (c : Chance) :
    (effect i s c o).attempts = s.attempts := by
  cases o with
  | createAttempt | createCloseAttempt | linkCompletedTrade | createMarketOrder | markAccepted
  | markSubmissionUnknown | markFailed | markCompleted | markPartial => cases h
  | acquireLock | releaseLock | deleteTradeKeyIfMatches | newClientOrderId => simp only [effect]; split <;> rfl
  | fetchPositions reader exchange => cases reader <;> rfl
  | createStopMarketOrder => simp only [effect, placeStop]; split <;> rfl
  | cancelOrder exchange orderId symbol => cases orderId <;> rfl
  | openTrade => simp only [effect, State.openTrade]; split <;> rfl
  | recordCloseFill f =>
    simp only [effect, State.recordCloseFill]
    split
    · split
      · rfl
      · rfl
      · split <;> rfl
    · rfl
  | createIncident => simp only [effect, State.createIncident]; split <;> rfl
  | _ => rfl

theorem missed_attempts (o : Op) : (missed i s o).attempts = s.attempts := by
  unfold missed
  split <;> rfl

theorem answer_attempts_cases (o : Op) (c : Chance) :
    (answer i s o c).2.attempts = (effect i s c o).attempts ∨ (answer i s o c).2.attempts = s.attempts := by
  unfold answer
  split
  · exact .inl rfl
  · split
    · exact .inl rfl
    · exact .inr (missed_attempts i s o)

theorem answer_cases (o : Op) (c : Chance) :
    (answer i s o c).2 = effect i s c o ∨ (answer i s o c).2 = missed i s o := by
  unfold answer
  split
  · exact .inl rfl
  · split
    · exact .inl rfl
    · exact .inr rfl

structure AttemptRow.Same (row row' : AttemptRow) : Prop where
  id : row'.id = row.id
  exchange : row'.exchange = row.exchange
  base : row'.base = row.base
  symbol : row'.symbol = row.symbol
  clientOrderId : row'.clientOrderId = row.clientOrderId
  requestedAmount : row'.requestedAmount = row.requestedAmount
  context : row'.context = row.context

theorem AttemptRow.Same.refl (row : AttemptRow) : row.Same row := by constructor <;> rfl

theorem AttemptRow.Same.trans {row1 row2 row3 : AttemptRow} (h : row1.Same row2) (h' : row2.Same row3) :
    row1.Same row3 :=
  ⟨h'.id.trans h.id, h'.exchange.trans h.exchange, h'.base.trans h.base, h'.symbol.trans h.symbol,
    h'.clientOrderId.trans h.clientOrderId, h'.requestedAmount.trans h.requestedAmount,
    h'.context.trans h.context⟩

/-- The ids are keys, and a new row gets one above them all. -/
structure KeysOk (rows : List AttemptRow) : Prop where
  nodup : (rows.map (·.id)).Nodup
  bound : ∀ row ∈ rows, row.id ≤ rows.length

theorem KeysOk.append (h : KeysOk rows) {row : AttemptRow}
    (hid : row.id = rows.length + 1) : KeysOk (rows ++ [row]) := by
  constructor
  · rw [map_append, map_singleton, nodup_append]
    refine ⟨h.nodup, nodup_singleton _, ?_⟩
    rintro a ha b hb rfl
    obtain ⟨old, hold, rfl⟩ := mem_map.1 ha
    have hbn := h.bound old hold
    rw [mem_singleton] at hb
    omega
  · intro row' hrow'
    rw [length_append, length_singleton]
    rcases mem_append.1 hrow' with hold | hnew
    · exact (h.bound row' hold).trans (Nat.le_succ _)
    · rw [mem_singleton.1 hnew, hid]

theorem KeysOk.map (h : KeysOk rows) (hf : ∀ row, (f row).id = row.id) : KeysOk (rows.map f) := by
  constructor
  · have hids : (rows.map f).map (·.id) = rows.map (·.id) := by
      rw [map_map]
      exact map_congr_left fun row _ => hf row
    rw [hids]
    exact h.nodup
  · intro row' hrow'
    obtain ⟨row, hrow, rfl⟩ := mem_map.1 hrow'
    rw [hf, length_map]
    exact h.bound row hrow

inductive Writes (o : Op) (rows : List AttemptRow) : List AttemptRow → Prop
  | map (f : AttemptRow → AttemptRow) (hsame : ∀ row : AttemptRow, row.Same (f row))
      (hcompleted : ∀ row, (f row).context.isSome = true → (f row).status = .completed →
        f row = row ∨ ∃ filled, o = .markCompleted row.id (f row).tradeId filled) : Writes o rows (rows.map f)
  | add (row : AttemptRow) (hid : row.id = rows.length + 1) (hpending : row.status = .pending)
      (hclose : ∀ context, row.context = some context → ∃ n, o = .createCloseAttempt n ∧
        row.exchange = n.exchange ∧ row.symbol = n.symbol ∧ row.requestedAmount = n.requestedAmount ∧
        context = n.context) : Writes o rows (rows ++ [row])

theorem Writes.refl (o : Op) (rows : List AttemptRow) : Writes o rows rows := by
  have h : Writes o rows (rows.map fun row => row) := .map _ .refl fun _ _ _ => .inl rfl
  rwa [map_id'] at h

section

variable (h : Writes o rows rows') {row' : AttemptRow}

include h

theorem Writes.keysOk (hkeys : KeysOk rows) : KeysOk rows' := by
  cases h with
  | map f hsame _ => exact hkeys.map fun row => (hsame row).id
  | add row hid _ _ => exact hkeys.append hid

theorem Writes.grows : Rows.Grows AttemptRow.Same (fun _ => True) rows rows' := by
  cases h with
  | map f hsame _ => exact .map fun row _ => hsame row
  | add row _ _ _ => exact .append .refl fun _ _ => trivial

theorem Writes.close (hrow' : row' ∈ rows') {context : CloseContext} (hcn : row'.context = some context) :
    (∃ row ∈ rows, row.Same row') ∨ ∃ n, o = .createCloseAttempt n ∧ row'.exchange = n.exchange ∧
      row'.symbol = n.symbol ∧ row'.requestedAmount = n.requestedAmount ∧ context = n.context := by
  cases h with
  | map f hsame _ =>
    obtain ⟨row, hrow, rfl⟩ := mem_map.1 hrow'
    exact .inl ⟨row, hrow, hsame row⟩
  | add row _ _ hclose =>
    rcases mem_append.1 hrow' with hold | hnew
    · exact .inl ⟨row', hold, .refl row'⟩
    · rw [mem_singleton.1 hnew] at hcn ⊢
      exact .inr (hclose context hcn)

theorem Writes.completed
    (hrow' : row' ∈ rows') (hcn : row'.context.isSome = true) (hstatus : row'.status = .completed) :
    row' ∈ rows ∨ ∃ row ∈ rows, row.Same row' ∧ ∃ filled, o = .markCompleted row.id row'.tradeId filled := by
  cases h with
  | map f hsame hcompleted =>
    obtain ⟨row, hrow, rfl⟩ := mem_map.1 hrow'
    rcases hcompleted row hcn hstatus with heq | hmr
    · rw [heq]
      exact .inl hrow
    · exact .inr ⟨row, hrow, hsame row, hmr⟩
  | add row _ hpending _ =>
    rcases mem_append.1 hrow' with hold | hnew
    · exact .inl hold
    · rw [mem_singleton.1 hnew, hpending] at hstatus
      cases hstatus

end

theorem writes_update (id : ℕ) (hsame : ∀ row : AttemptRow, row.Same (f row))
    (hcompleted : ∀ row, (f row).status = .completed → ∃ filled, o = .markCompleted id (f row).tradeId filled) :
    Writes o s.attempts (s.updateAttempt id f).attempts := by
  refine .map _ (fun row => ?_) fun row _ hstatus => ?_
  · split
    · exact hsame row
    · exact .refl row
  · split at hstatus
    · rename_i hid
      rw [if_pos hid, hid]
      exact .inr (hcompleted row hstatus)
    · rename_i hid
      exact .inl (if_neg hid)

theorem effect_writes (o : Op) : Writes o s.attempts (effect i s c o).attempts := by
  by_cases hquiet : o.isQuiet = true
  · rw [effect_attempts hquiet i s c]
    exact .refl _ _
  cases o with
  | createAttempt e =>
    simp only [effect]
    split
    · exact .refl _ _
    · exact .add _ rfl rfl nofun
  | createCloseAttempt n =>
    simp only [effect]
    split
    · exact .refl _ _
    · exact .add _ rfl rfl fun context h => ⟨n, rfl, rfl, rfl, rfl, (Option.some.inj h).symm⟩
  | linkCompletedTrade exchange orderId tradeId filled =>
    refine .map _ (fun row => ?_) fun row hcn _ => ?_
    · split
      · constructor <;> rfl
      · exact .refl row
    · -- the rows of closes are left alone
      split at hcn
      · rename_i hen
        rw [hen.2.2.1] at hcn
        cases hcn
      · rename_i hen
        exact .inl (if_neg hen)
  | markAccepted id | markSubmissionUnknown id | markPartial id | markFailed id =>
    exact writes_update s id (fun _ => by constructor <;> rfl) fun _ h => by cases h
  | markCompleted id tradeId filled =>
    exact writes_update s id (fun _ => by constructor <;> rfl) fun _ _ => ⟨filled, rfl⟩
  | createMarketOrder m =>
    simp only [effect, placeMarket]
    split
    · exact .refl _ _
    · split <;> exact .refl _ _
  | _ => exact absurd rfl hquiet

def Op.keepsNotes : Op → Bool
  | .createIncident _ | .markAttempt _ _ | .markResolved _ | .setPendingClose _ | .deletePendingClose _ _ => false
  | _ => true

theorem effect_notes (h : o.keepsNotes = true) (i : ℕ) (s : State) (c : Chance) :
    (effect i s c o).incidents = s.incidents ∧ (effect i s c o).pending = s.pending := by
  cases o with
  | createIncident | markAttempt | markResolved | setPendingClose | deletePendingClose => cases h
  | acquireLock | releaseLock | deleteTradeKeyIfMatches => simp only [effect]; split <;> exact ⟨rfl, rfl⟩
  | fetchPositions reader | cancelOrder _ reader => cases reader <;> exact ⟨rfl, rfl⟩
  | createMarketOrder m =>
    simp only [effect, placeMarket]
    split
    · exact ⟨rfl, rfl⟩
    · split <;> exact ⟨rfl, rfl⟩
  | createStopMarketOrder => simp only [effect, placeStop]; split <;> exact ⟨rfl, rfl⟩
  | newClientOrderId | createAttempt | createCloseAttempt => simp only [effect]; split <;> exact ⟨rfl, rfl⟩
  | openTrade => simp only [effect, State.openTrade]; split <;> exact ⟨rfl, rfl⟩
  | recordCloseFill f =>
    simp only [effect, State.recordCloseFill]
    split
    · split
      · exact ⟨rfl, rfl⟩
      · exact ⟨rfl, rfl⟩
      · split <;> exact ⟨rfl, rfl⟩
    · exact ⟨rfl, rfl⟩
  | _ => exact ⟨rfl, rfl⟩

structure Incident.Same (n n' : Incident) : Prop where
  exchange : n'.exchange = n.exchange
  orderId : n'.orderId = n.orderId
  operation : n'.operation = n.operation
  context : n'.context = n.context

theorem Incident.Same.refl (n : Incident) : n.Same n := ⟨rfl, rfl, rfl, rfl⟩

theorem Incident.Same.trans {n1 n2 n3 : Incident} (h : n1.Same n2) (h' : n2.Same n3) : n1.Same n3 :=
  ⟨h'.exchange.trans h.exchange, h'.orderId.trans h.orderId, h'.operation.trans h.operation, h'.context.trans h.context⟩

theorem effect_incidents (o : Op) :
    Rows.Grows Incident.Same (fun _ => True) s.incidents (effect i s c o).incidents := by
  have hup : ∀ (id : ℕ) (f : Incident → Incident), (∀ n : Incident, n.Same (f n)) →
      Rows.Grows Incident.Same (fun _ => True) s.incidents (s.updateIncident id f).incidents := by
    intro id f hf
    refine .map fun n _ => ?_
    split
    · exact hf n
    · exact .refl n
  by_cases hkp : o.keepsNotes = true
  · rw [(effect_notes hkp i s c).1]
    exact .refl .refl _
  cases o with
  | markAttempt id | markResolved id => exact hup id _ fun _ => ⟨rfl, rfl, rfl, rfl⟩
  | createIncident n =>
    simp only [effect, State.createIncident]
    split
    · exact .refl .refl _
    · exact .append .refl fun _ _ => trivial
  | setPendingClose | deletePendingClose => exact .refl .refl _
  | _ => exact absurd rfl hkp

theorem effect_pending (o : Op) {q : PendingClose}
    (hq : q ∈ (effect i s c o).pending) : q ∈ s.pending ∨ o = .setPendingClose q := by
  by_cases hkp : o.keepsNotes = true
  · rw [(effect_notes hkp i s c).2] at hq
    exact .inl hq
  cases o with
  | setPendingClose p =>
    rcases mem_cons.1 hq with rfl | hold
    · exact .inr rfl
    · exact .inl (mem_filter.1 hold).1
  | deletePendingClose => exact .inl (mem_filter.1 hq).1
  | markAttempt | markResolved => exact .inl hq
  | createIncident n =>
    simp only [effect, State.createIncident] at hq
    split at hq
    · exact .inl hq
    · exact .inl hq
  | _ => exact absurd rfl hkp

abbrev Quiet (o : Op) : Prop := o.isQuiet = true

def Op.isAside : Op → Bool
  | .closeTrade _ _ _ _ | .setPendingClose _ | .recordCloseFill _ | .openTrade _ => false
  | o => o.isQuiet

abbrev Aside (o : Op) : Prop := o.isAside = true

theorem quiet_of_aside {p : Program α} (hp : p.Calls Aside) : p.Calls Quiet := by
  refine hp.mono fun o ho => ?_
  unfold Aside Op.isAside at ho
  split at ho
  · cases ho
  · cases ho
  · cases ho
  · cases ho
  · exact ho

def Op.isLook : Op → Bool
  | .fetchPositions .snapshot _ => false
  | .fetchPositions _ _ | .fetchOrder _ _ _ | .fetchOrders _ _ _ _ | .fetchTrades _ _ _ | .getTradeKey _ _
  | .findOpenTradeId _ _ _ => true
  | _ => false

abbrev Look (o : Op) : Prop := o.isLook = true

theorem aside_of_look {p : Program α} (hp : p.Calls Look) : p.Calls Aside := by
  refine hp.mono fun o ho => ?_
  unfold Look Op.isLook at ho
  split at ho
  all_goals first | rfl | cases ho

theorem calls_cancelTerminalStop (pair : Pair) (slOrderId : Option String) (symbol : String) :
    (cancelTerminalStop exchange pair slOrderId symbol).Calls Aside := by
  unfold cancelTerminalStop
  split
  · trivial
  · refine .bind (.attempt rfl) fun answer => ?_
    split
    · exact .perform rfl
    · trivial

theorem calls_resolveFillPrice_of {P : Op → Prop} {exchange symbol : String}
    (hP : ∀ id, order.id = some id → P (.fetchOrder exchange id symbol) ∧ P (.fetchTrades exchange id symbol))
    (requested : Option ℚ) : (resolveFillPrice setup exchange symbol order requested).Calls P := by
  unfold resolveFillPrice
  split
  · trivial
  split
  · trivial
  rename_i id hid
  obtain ⟨hor, htr⟩ := hP id hid
  refine .bind (.attempt hor) fun answer => ?_
  dsimp only
  split
  · trivial
  refine .bind ?_ fun found => ?_
  · unfold vwapFromTrades
    split
    · refine .bind (.attempt htr) fun trades => ?_
      split <;> trivial
    · trivial
  · split
    · trivial
    · split <;> trivial

def reported : (o : Op) → Except Failure (Ans o) → List ℚ
  | .fetchOrder _ _ _, .ok order => order.filled.toList
  | .fetchTrades _ _ _, .ok trades => [((trades.filter fun t => 0 < t.1 && 0 < t.2).map Prod.snd).sum]
  | _, _ => []

theorem filled_orderResolution {requested : Option ℚ} {look : String} {r : FillResolution} {x : ℚ}
    (h : orderResolution requested look order = some r) (hx : r.filledAmount = some x) :
    order.filled = some x ∧ 0 < x := by
  have ham := orderResolution_filled h
  rw [hx] at ham
  obtain ⟨hor, hnn⟩ := Option.filter_eq_some_iff.1 ham.symm
  refine ⟨hor, lt_of_le_of_ne (of_decide_eq_true hnn) fun hzr => ?_⟩
  unfold orderResolution at h
  split at h
  · split at h
    · cases h
    · rename_i hne
      cases h
      exact hne (hx.trans (congrArg some hzr.symm))
  · cases h

/-- A filled amount is one that was reported, and positive unless the order filled nothing. -/
theorem yields_filledAmount {G : ℚ → Prop} (hzr : G 0) (setup : Setup) (exchange symbol : String)
    (hor : ∀ x, order.filled = some x → G x) (requested : Option ℚ) :
    (resolveFillPrice setup exchange symbol order requested).Yields reported G
      fun r => ∀ x, r.filledAmount = some x → G x ∧ (r.status ≠ .noFill → 0 < x) := by
  unfold resolveFillPrice
  split
  · rename_i r hr
    intro x hx
    obtain ⟨hfl, hps⟩ := filled_orderResolution hr hx
    exact ⟨hor x hfl, fun _ => hps⟩
  split
  · exact nofun
  refine .bind (.attempt fun answer han => ?_)
  dsimp only
  split
  · rename_i r hr
    obtain ⟨order', hor', hr'⟩ := Option.bind_eq_some_iff.1 hr
    intro x hx
    obtain ⟨hfl, hps⟩ := filled_orderResolution hr' hx
    refine ⟨?_, fun _ => hps⟩
    cases answer with
    | error => cases hor'
    | ok fetched =>
      cases hor'
      exact han x (Option.mem_toList.2 hfl)
  refine .bind ?_
  have htr : ∀ orderId, (vwapFromTrades setup exchange symbol orderId).Yields reported G
      fun found => ∀ price amount, found = some (price, amount) → G amount ∧ 0 < amount := by
    intro orderId
    unfold vwapFromTrades
    split
    · refine .bind (.attempt fun trades htr => ?_)
      split
      · intro price amount hvw
        unfold vwap at hvw
        dsimp only at hvw
        split at hvw
        · cases hvw
        · rename_i hps
          cases hvw
          exact ⟨htr _ mem_cons_self, lt_of_not_ge hps⟩
      · exact nofun
    · exact nofun
  refine .mono (fun found hfn => ?_) (htr _)
  split
  · intro x hx
    cases hx
    exact (hfn _ _ rfl).imp_right fun hps _ => hps
  · split
    · intro x hx
      cases hx
      exact ⟨hzr, fun hstatus => absurd rfl hstatus⟩
    · exact nofun

theorem looks_resolveFillPrice (order : Order) (requested : Option ℚ) :
    (resolveFillPrice setup exchange symbol order requested).Calls Look :=
  calls_resolveFillPrice_of setup (fun _ _ => ⟨rfl, rfl⟩) requested

theorem calls_resolveFillPrice (order : Order) (requested : Option ℚ) :
    (resolveFillPrice setup exchange symbol order requested).Calls Aside :=
  aside_of_look (looks_resolveFillPrice setup exchange symbol order requested)

theorem looks_findListed (listings : List Listing) : (findListed setup a listings).Calls Look := by
  induction listings with
  | nil => trivial
  | cons listing listings ih =>
    unfold findListed
    split
    · refine .bind (.attempt rfl) fun answer => ?_
      split
      · trivial
      · exact ih
    · exact ih

theorem looks_findCloseAttemptOrder : (findCloseAttemptOrder setup a).Calls Look := by
  unfold findCloseAttemptOrder
  split
  · split
    · refine .bind (.attempt rfl) fun answer => ?_
      split
      · trivial
      · exact looks_findListed setup a _
    · exact looks_findListed setup a _
  · exact looks_findListed setup a _

theorem looks_attemptTradeId (order : Order) : (attemptTradeId a order).Calls Look := by
  unfold attemptTradeId
  split
  · trivial
  · exact .perform rfl

theorem calls_onAttempt {attemptId : Option ℕ} {update : ℕ → Program Unit} {P : Op → Prop}
    (hup : ∀ id, attemptId = some id → (update id).Calls P) : (onAttempt attemptId update).Calls P := by
  unfold onAttempt
  split
  · exact hup _ rfl
  · trivial

theorem looks_trackedTradeId (r : CloseRequest) : (trackedTradeId r).Calls Look := by
  refine .step rfl fun raw => ?_
  split
  · trivial
  · exact .perform rfl

theorem calls_fetchAllPositions (reader : Reader) (exchanges : List String) :
    (fetchAllPositions reader exchanges).Calls Aside := by
  induction exchanges with
  | nil => trivial
  | cons exchange exchanges ih =>
    refine .bind (.attempt rfl) fun answer => .bind ih fun rest => ?_
    split <;> trivial

section

variable (w : CloseWork)

theorem calls_dropStop : (dropStop w).Calls Aside :=
  .bind (calls_cancelTerminalStop _ _ _ _) fun _ => .perform rfl

theorem calls_deferClose (orderId : String) (v : CloseVolume) (orderTerminal : Option Bool) :
    (deferClose w orderId v orderTerminal).Calls Aside := by
  refine .bind ?_ fun result => ?_
  · exact .step rfl fun _ => .step rfl fun _ =>
      .last rfl
  · split
    · exact .bind (calls_dropStop w) fun _ => trivial
    · trivial

theorem calls_closeVolume (resolution : FillResolution) : (closeVolume w resolution).Calls Aside := by
  have hrm : (remainingPositionAmount w.request.exchange w.request.symbol w.positionSide).Calls Aside := by
    refine .bind (.attempt rfl) fun answer => ?_
    split <;> trivial
  unfold closeVolume
  split
  · exact .bind hrm fun remaining => by split <;> trivial
  · exact .bind hrm fun remaining => by split <;> trivial
  · trivial

end

/-- The calls that book a close. None of them sends, cancels or marks an order. -/
def Op.isBooking : Op → Bool
  | .acquireLock _ | .releaseLock _ | .fetchPositions .snapshot _ | .createStopMarketOrder _ | .cancelOrder _ _ _
  | .setStopKey _ _ => false
  | o => o.isQuiet

abbrev Booking (o : Op) : Prop := o.isBooking = true

theorem quiet_of_booking {p : Program α} (hp : p.Calls Booking) : p.Calls Quiet := by
  refine hp.mono fun o ho => ?_
  unfold Booking Op.isBooking at ho
  split at ho
  all_goals first | exact ho | cases ho

theorem booking_of_look {p : Program α} (hp : p.Calls Look) : p.Calls Booking := by
  refine hp.mono fun o ho => ?_
  unfold Look Op.isLook at ho
  split at ho
  · cases ho
  · rename_i reader _ _
    cases reader <;> first | rfl | contradiction
  all_goals first | rfl | cases ho

theorem books_tryCommitClose : (tryCommitClose pair tradeId exitOrderId exitPrice).Calls Booking := by
  refine .step rfl fun _ => .step rfl fun committed => ?_
  split
  · exact .last rfl
  · exact .step rfl fun _ => .last rfl

theorem books_commitAndUntrack : (commitAndUntrack pair tradeId exitOrderId exitPrice).Calls Booking := by
  refine .bind (books_tryCommitClose _ _ _ _) fun committed => ?_
  split
  · exact .last rfl
  · trivial

theorem books_journalExit (result : CloseResult) (price : ℚ) (reason : String) :
    (journalExit pair result price reason).Calls Booking := by
  refine .step rfl fun tradeId => ?_
  split
  · exact books_commitAndUntrack _ _ _ _
  · refine .step rfl fun _ => .bind ?_ fun orderId =>
      .last rfl
    unfold incidentOrderId
    split
    · trivial
    · exact .last rfl

theorem books_bookStop (tradeId : Option ℕ) : (bookStop pair orderId price filled tradeId).Calls Booking := by
  unfold bookStop
  split
  · trivial
  refine .step rfl fun expected => ?_
  split
  · trivial
  dsimp only
  split
  · exact .last rfl
  refine .step rfl fun aggregate => ?_
  split
  · split
    · trivial
    · exact .last rfl
  · exact .last rfl

theorem books_commitStop : (commitStop pair orderId price filled).Calls Booking := by
  refine .step rfl fun tradeId => .step rfl fun _ =>
    .bind (books_bookStop _ _ _ _ _) fun booked => ?_
  split
  · trivial
  refine .step rfl fun _ => .step rfl fun _ => ?_
  split
  · exact books_commitAndUntrack _ _ _ _
  · trivial

theorem books_reconcileFilled (order : Order) : (reconcileFilled setup pair orderId symbol order).Calls Booking := by
  refine .bind (booking_of_look (looks_resolveFillPrice setup _ _ _ _)) fun resolution => ?_
  split
  · trivial
  · exact .step rfl fun _ => .step rfl fun _ =>
      .last rfl
  · split
    · trivial
    · exact books_commitStop _ _ _ _

theorem books_retryEach (keys : List (Pair × ℕ)) : (retryEach keys).Calls Booking := by
  induction keys with
  | nil => trivial
  | cons key keys ih =>
    refine .bind (.handle (.step rfl fun raw => ?_) fun _ => trivial) fun _ => ih
    split
    · trivial
    refine .bind (books_tryCommitClose _ _ _ _) fun committed => ?_
    split
    · exact .last rfl
    · trivial

def Op.isNote : Op → Bool
  | .revokePnlReadiness | .createIncident _ | .newClientOrderId | .openTrade _ | .setTradeKey _ _ | .exitKeys _
  | .flatten _ _ _ | .markAccepted _ _ | .markSubmissionUnknown _ | .markFailed _ => true
  | _ => false

abbrev Note (o : Op) : Prop := o.isNote = true

theorem notes_incidentOrderId (orderId : Option String) : (incidentOrderId orderId).Calls Note := by
  unfold incidentOrderId
  split
  · trivial
  · exact .last rfl

theorem notes_completeOpen (trade : NewTrade) : (completeOpen pair trade).Calls Note := by
  refine .step rfl fun tradeId => ?_
  split
  · exact .bind (.attempt rfl) fun _ => .bind (.attempt rfl) fun _ => trivial
  · exact .bind (.attempt rfl) fun _ => trivial

theorem notes_flattenEntry : (flattenEntry r).Calls Note :=
  .last rfl

theorem calls_journalOpen (w : EntryWork) (order : Order) (resolution : FillResolution) :
    (journalOpen r w order resolution).Calls fun o => Note o ∨ ∃ t filled, o = .markCompleted w.attemptId t filled := by
  have hnt : ∀ {α : Type} {p : Program α}, p.Calls Note →
      p.Calls fun o => Note o ∨ ∃ t filled, o = .markCompleted w.attemptId t filled :=
    fun hp => hp.mono fun _ ho => .inl ho
  unfold journalOpen handleUnresolvedOpen
  split
  · refine .bind (hnt (notes_incidentOrderId _)) fun orderId => .bind ?_ fun _ => ?_
    · exact .step (.inl rfl) fun _ => .step (.inl rfl) fun _ => trivial
    · exact .step (.inr ⟨_, _, rfl⟩) fun _ => trivial
  split
  · trivial
  refine .bind (hnt (notes_completeOpen _ _)) fun tradeId =>
    .step (.inr ⟨_, _, rfl⟩) fun _ => ?_
  split
  · trivial
  · exact .bind (hnt (notes_incidentOrderId _)) fun _ => .step (.inl rfl) fun _ =>
      .step (.inl rfl) fun _ => trivial

end Schurfer.Desk
