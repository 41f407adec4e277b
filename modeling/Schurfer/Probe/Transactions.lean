import Schurfer.Probe.Tables

/-!
# The probe transactions

`live_probe.py`, `costsIncident` of the loss evaluator and `recordLReached` of the probe close. Each is one
transaction under the record's row lock. `Clock` holds the readings of the database clock; the random client order id
and the hash of an idempotency key are parameters.
-/

namespace Schurfer.Probe

open Except (raiseIf)

structure Clock where
  dbNow : Time
  statement : Time
  trigger : Time

def idempotencyKey (sha256 : String → String) (probeId decisionId : String) : Except Exn String := do
  raiseIf (probeId = "" ∨ decisionId = "")
    (.valueError "an idempotency key needs a probe id and a decision id")
  return sha256 (probeId ++ "\x00" ++ decisionId)

def lockRecord (probeId : String) : Tx (Option Record) := do
  return (← get).record? probeId

def blocker (record : Record) (dbNow : Time) : Option (RefusalReason × Detail) :=
  match record.revokedAt, record.suspendedAt, record.lReachedAt, record.costsIncidentAt with
  | some t, _, _, _ => some (.revoked, [("revoked_at", .time t)])
  | none, some _, _, _ =>
    some (.suspended, [("suspended_reason", (record.suspendedReason.map .text).getD .null)])
  | none, none, some t, _ => some (.lReached, [("l_reached_at", .time t)])
  | none, none, none, some _ =>
    some (.costsIncident, [("reason", (record.costsIncidentReason.map .text).getD .null)])
  | none, none, none, none =>
    if dbNow ≥ record.entriesUntil then
      some (.entriesClosed, [("entries_until", .time record.entriesUntil)])
    else none

def refuse (probeId : String) (key decisionId : Option String) (reason : RefusalReason) (detail : Detail)
    (reservationId : Option ℕ := none) : Tx Refused := do
  modify fun db => { db with
    refusals := db.refusals ++ [⟨probeId, key, decisionId, reservationId, reason.text, detail⟩] }
  return ⟨reason.text, detail⟩

variable (clk : Clock)

def issue (terms : Terms) (actor : String) : Tx Record := do
  terms.validate
  let some environment := Environment.ofText terms.environment
    | throw (.violated "ck_live_probe_auth_environment")
  if terms.entriesUntil.instant ≤ clk.statement then
    throw (.valueError "entries_until must be after the database clock")
  else
  let record : Record :=
    { terms :=
      { probeId := terms.probeId
        environment := environment
        accountKey := terms.accountKey
        exchange := "bybit"
        strategy := terms.strategy
        contractVersion := terms.contractVersion
        contractSha256 := terms.contractSha256
        instruments := terms.instruments
        maxEntries := terms.maxEntries
        notionalUsd := terms.notionalUsd
        lossThresholdUsd := terms.lossThresholdUsd
        entriesUntil := terms.entriesUntil.instant
        flatBy := terms.flatBy.instant
        issuedAt := clk.statement
        issuedBy := actor } }
  let id ← insertRecord record
  insertEvent terms.probeId .issued actor [("id", .number id)]
  return record

def updateProbe (probeId : String) (applies : Record → Bool) (f : Record → Record) : Tx ℕ := do
  let db ← get
  match db.records.findIdx? (·.probeId = probeId) with
  | none => return 0
  | some i =>
    match db.records[i]? with
    | none => return 0
    | some record =>
      if applies record then
        updateRecord i (f record)
        return 1
      else return 0

def setField (probeId : String) (event : EventKind) (actor : String) (detail : Detail)
    (applies : Record → Bool) (f : Record → Record) : Tx Bool := do
  match ← lockRecord probeId with
  | none => throw (.lookupError s!"no authorization record {quoted probeId}")
  | some record =>
    if applies record then
      let _ ← updateProbe probeId (fun _ => true) f
      insertEvent probeId event actor detail
      return true
    else return false

def revoke (probeId actor reason : String) : Tx Bool :=
  setField probeId .revoked actor [("reason", .text reason)] (fun r => r.revokedAt = none)
    fun r => { r with revocation := ⟨some clk.statement, some actor, some reason⟩ }

def resume (probeId actor : String) : Tx Bool :=
  setField probeId .resumed actor [] (fun r => r.suspendedAt ≠ none)
    fun r => { r with suspendedAt := none, suspendedReason := none }

def clearCostsIncident (probeId actor note : String) : Tx Bool :=
  setField probeId .costsIncidentCleared actor [("note", .text note)]
    (fun r => r.costsIncidentAt ≠ none)
    fun r => { r with costsIncidentAt := none, costsIncidentReason := none }

def costsIncident (clk : Clock) (probeId reason : String) : Tx Bool := do
  match ← lockRecord probeId with
  | none => throw (.lookupError probeId)
  | some _ =>
    let changed ← updateProbe probeId (fun r => r.costsIncidentAt = none)
      fun r => { r with costsIncidentAt := some clk.statement, costsIncidentReason := some reason }
    if changed = 1 then
      insertEvent probeId .costsIncident serviceActor [("reason", .text reason)]
      return true
    else return false

def markLReached (probeId : String) (loss : ℚ) (inputs : Detail) : Tx ℕ :=
  updateProbe probeId (fun r => r.lReachedAt = none)
    fun r => { r with lReached := ⟨some clk.statement, some loss, some inputs⟩ }

def recordLReached (probeId : String) (loss : ℚ) (inputs : Detail) : Tx Bool := do
  match ← lockRecord probeId with
  | none => throw (.lookupError s!"no authorization record {quoted probeId}")
  | some _ =>
    let changed ← markLReached clk probeId loss inputs
    if changed = 1 then
      insertEvent probeId .lReached serviceActor (("loss_usd", .decimal loss) :: inputs)
      return true
    else return false

def suspendActiveIn (reason : String) : Tx (List String) := do
  let db ← get
  let active := db.records.zipIdx.filter fun (r, _) => r.revokedAt = none ∧ r.suspendedAt = none
  active.forM fun (r, i) =>
    updateRecord i { r with suspendedAt := some clk.statement, suspendedReason := some reason }
  let probeIds := (active.map (·.1.probeId)).mergeSort
  probeIds.forM fun p => insertEvent p .suspended serviceActor [("reason", .text reason)]
  return probeIds

def Db.byKey (db : Db) (probeId key : String) : Option (Row × ℕ) :=
  db.reservations.zipIdx.find? fun (r, _) => r.probeId = probeId && r.chain.idempotencyKey = key

def admitNew (clientOrderId : String) (request : EntryRequest)
    (record : Record) (key : String) : Tx (Reservation ⊕ Refused) := do
  let refuse := fun reason detail =>
    Sum.inr <$> refuse request.probeId (some key) (some request.decisionId) reason detail
  let held := (← get).ledger request.probeId
  if held.closedUnsettled ≠ 0 then
    refuse .probeTradeCostsPending [("closed_unsettled", .number held.closedUnsettled)]
  else
  let threshold := record.terms.lossThresholdUsd
  if -held.realizedClosed ≥ threshold then
    let inputs : Detail := [("source", .text "admission"),
      ("realized_closed", .decimal held.realizedClosed), ("loss_threshold_usd", .decimal threshold)]
    let _ ← markLReached clk request.probeId (-held.realizedClosed) inputs
    insertEvent request.probeId .lReached serviceActor inputs
    refuse .lReached inputs
  else if held.slotsHeld ≥ slots then
    refuse .slotBusy [("slots_held", .number held.slotsHeld)]
  else if (held.entriesSpent : ℤ) ≥ record.terms.maxEntries then
    refuse .maxEntriesSpent
      [("entries_spent", .number held.entriesSpent), ("max_entries", .number record.terms.maxEntries)]
  else
  let notional := record.terms.notionalUsd
  let reserveUsd ← entryReserve notional request.reserveInputs
  if admits held.realizedClosed held.reservedOpen reserveUsd threshold = false then
    refuse .lHeadroom
      [("realized_closed", .decimal held.realizedClosed), ("reserved_open", .decimal held.reservedOpen),
        ("reserve", .decimal reserveUsd), ("loss_threshold_usd", .decimal threshold)]
  else if clk.statement ≥ record.entriesUntil then
    -- the insert selects its row from the record, before the deadline only
    refuse .entriesClosed [("entries_until", .time record.entriesUntil)]
  else
  let some side := Side.ofText request.side | throw (.violated "ck_live_probe_reservations_side")
  let row : Row :=
    { chain :=
      { probeId := request.probeId
        idempotencyKey := key
        decisionId := request.decisionId
        clientOrderId := clientOrderId
        nativeMarketId := request.nativeMarketId
        side := side
        notionalUsd := notional
        reserveUsd := reserveUsd
        reserveInputs := request.reserveInputs
        createdAt := clk.statement } }
  let id ← insertReservation clk.trigger row
  return .inl (row.reservation id)

def reserve (sha256 : String → String) (clk : Clock) (clientOrderId : String) (request : EntryRequest) :
    Tx (Reservation ⊕ Refused) := do
  let key ← idempotencyKey sha256 request.probeId request.decisionId
  let refuse := fun reason detail =>
    Sum.inr <$> refuse request.probeId (some key) (some request.decisionId) reason detail
  match ← lockRecord request.probeId with
  | none => refuse .noAuthorization []
  | some record =>
    if (record.terms.environment.text, record.terms.accountKey) ≠
        (request.environment, request.accountKey) then
      refuse .foreignAccount [("environment", .text request.environment),
        ("record_environment", .text record.terms.environment.text)]
    else
    match (← get).byKey request.probeId key with
    | some (existing, id) =>
      if (existing.chain.nativeMarketId, existing.chain.side.text) ≠
          (request.nativeMarketId, request.side) then
        throw (.valueError (s!"decision {quoted request.decisionId} of probe {quoted request.probeId}" ++
          " was reserved for another instrument or side"))
      else return .inl (existing.reservation id false)
    | none =>
      match blocker record clk.dbNow with
      | some (reason, detail) => refuse reason detail
      | none =>
        if request.nativeMarketId ∉ record.terms.instruments then
          refuse .instrumentNotAllowed [("instrument", .text request.nativeMarketId)]
        else admitNew clk clientOrderId request record key

def lockReservation (id : ℕ) : Tx (Record × Row) := do
  match (← get).reservations[id]? with
  | none => throw (.lookupError s!"no reservation {id}")
  | some row =>
    match ← lockRecord row.probeId with
    | none => throw .assertionError
    | some record => return (record, row)

def refuseRow (id : ℕ) (row : Row) (reason : RefusalReason) (detail : Detail) : Tx Refused := do
  updateReservation clk.trigger id { row with
    state := .refusedBeforeSend, stateReason := some reason.text, finishedAt := some clk.statement }
  refuse row.probeId (some row.chain.idempotencyKey) (some row.chain.decisionId) reason detail (some id)

def beginSending (id : ℕ) : Tx (Reservation ⊕ Refused) := do
  let (record, row) ← lockReservation id
  if row.state = .refusedBeforeSend then
    return .inr ⟨row.stateReason.getD "", [("reservation_id", .number id)]⟩
  else if row.state ≠ .reserved then
    return .inl (row.reservation id false)
  else
  match blocker record clk.dbNow with
  | some (reason, detail) => Sum.inr <$> refuseRow clk id row reason detail
  | none =>
    if clk.statement < record.entriesUntil then
      let sending := { row with state := .sending, sendingAt := some clk.statement }
      updateReservation clk.trigger id sending
      return .inl (sending.reservation id)
    else
      Sum.inr <$> refuseRow clk id row .entriesClosed [("entries_until", .time record.entriesUntil)]

def refuseBeforeSend (id : ℕ) (reason : String) : Tx Refused := do
  let (_, row) ← lockReservation id
  if row.state ≠ .reserved then
    throw (.valueError s!"reservation {id} is {row.state.text}, not reserved")
  else refuseRow clk id row (.other reason) []

abbrev SentStep := Db → Record → Row → Option Row

def linkAttemptSql (attemptId : ℕ) : SentStep := fun db record row =>
  if row.state = .sending ∧ row.attemptId = none ∧
      Attempt.isEntryOf (db.attempts attemptId) (some record) row = true then
    some { row with attemptId := some attemptId }
  else none

def markPlacedSql : SentStep := fun _ _ row =>
  if row.state = .sending ∧ row.attemptId ≠ none then
    some { row with state := .placed, finishedAt := some clk.statement }
  else none

def markReleasedSql (reason : String) : SentStep := fun _ _ row =>
  if row.state = .sending then
    some { row with state := .released, stateReason := some reason, finishedAt := some clk.statement }
  else none

def linkTradeSql (tradeId : ℕ) : SentStep := fun db _ row =>
  if row.state = .placed ∧ row.tradeId = none ∧
      ∃ a ∈ row.attemptId, ∃ x ∈ db.attempts a, x.tradeId = some tradeId then
    some { row with tradeId := some tradeId }
  else none

def updateSent (id : ℕ) (sql : SentStep) (done : Row → Bool) : Tx Unit := do
  let (record, row) ← lockReservation id
  if done row then
    return ()
  else
  match sql (← get) record row with
  | some new => updateReservation clk.trigger id new
  | none =>
    let (attempt, trade) := (shown row.attemptId, shown row.tradeId)
    throw (.valueError
      s!"reservation {id} is {row.state.text} (attempt {attempt}, trade {trade}): step refused")

def linkAttempt (id attemptId : ℕ) : Tx Unit :=
  updateSent clk id (linkAttemptSql attemptId) fun r => r.attemptId = some attemptId

def markPlaced (id : ℕ) : Tx Unit :=
  updateSent clk id (markPlacedSql clk) fun r => r.state = .placed

def markReleased (id : ℕ) (reason : String) : Tx Unit :=
  updateSent clk id (markReleasedSql clk reason) fun r => r.state = .released

def linkTrade (id tradeId : ℕ) : Tx Unit :=
  updateSent clk id (linkTradeSql tradeId) fun r => r.tradeId = some tradeId

end Schurfer.Probe
