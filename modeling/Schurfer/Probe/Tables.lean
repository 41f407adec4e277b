import Schurfer.Probe.Model

/-!
# The guarded tables of a probe

Migration 0063: the constraints of the two tables, and the triggers in front of every write. The four functions here
are the only ways to change a row; a refused write raises.
-/

namespace Schurfer.Probe

open Except (raiseIf raiseIf_ok bind_ok)

variable {u : Unit} {clock : Time} {new old : Row} {db : Db} {id : ℕ}

def isProbeIdChar (c : Char) : Bool := c.isDigit || ('a' ≤ c && c ≤ 'z')

def isProbeId (s : String) : Bool :=
  match s.toList with
  | [] => false
  | c :: cs => isProbeIdChar c && 2 ≤ cs.length && cs.length ≤ 63 &&
      cs.all fun d => isProbeIdChar d || d = '-'

def recordChecks (new : Record) : Except Exn Unit := do
  raiseIf (isProbeId new.probeId = false) (.violated "ck_live_probe_auth_probe_id")
  raiseIf (new.terms.exchange ≠ "bybit") (.violated "ck_live_probe_auth_exchange")
  raiseIf (isHexOf 64 new.terms.contractSha256 = false) (.violated "ck_live_probe_auth_contract_sha256")
  raiseIf (new.terms.instruments.length < 1) (.violated "ck_live_probe_auth_instruments")
  raiseIf (new.terms.maxEntries ≤ 0) (.violated "ck_live_probe_auth_max_entries")
  raiseIf (¬ (0 < new.terms.notionalUsd ∧ new.terms.notionalUsd ≤ 50))
    (.violated "ck_live_probe_auth_notional")
  raiseIf (new.terms.lossThresholdUsd ≤ 0) (.violated "ck_live_probe_auth_loss_threshold")
  raiseIf (new.terms.flatBy < new.terms.entriesUntil) (.violated "ck_live_probe_auth_flat_by")
  raiseIf (new.revocation.revokedAt.isNone ≠ new.revocation.revokedBy.isNone)
    (.violated "ck_live_probe_auth_revoked")
  raiseIf (new.suspendedAt.isNone ≠ new.suspendedReason.isNone)
    (.violated "ck_live_probe_auth_suspended")
  raiseIf (new.costsIncidentAt.isNone ≠ new.costsIncidentReason.isNone)
    (.violated "ck_live_probe_auth_costs_incident")
  raiseIf (new.lReached.lReachedAt.isNone ≠ new.lReached.lReachedLossUsd.isNone ∨
      new.lReached.lReachedAt.isNone ≠ new.lReached.lReachedInputs.isNone)
    (.violated "ck_live_probe_auth_l_reached")

theorem recordChecks_maxEntries {new : Record} (h : recordChecks new = .ok u) : 0 < new.terms.maxEntries := by
  simp only [recordChecks, bind_ok, raiseIf_ok] at h
  obtain ⟨-, -, -, -, -, -, -, -, -, hmax, -⟩ := h
  exact not_le.1 hmax

def recordUnique (others : List Record) (new : Record) : Except Exn Unit :=
  raiseIf (∃ r ∈ others, r.probeId = new.probeId) (.violated "uq_live_probe_auth_probe_id")

def rowChecks (new : Row) : Except Exn Unit := do
  raiseIf (isHexOf 32 new.chain.clientOrderId = false) (.violated "ck_live_probe_reservations_cid")
  raiseIf (new.chain.notionalUsd ≤ 0) (.violated "ck_live_probe_reservations_notional")
  raiseIf (new.chain.reserveUsd < 0) (.violated "ck_live_probe_reservations_reserve")
  raiseIf (new.state ∈ [State.sending, .placed, .released] ∧ new.sendingAt = none)
    (.violated "ck_live_probe_reservations_sending_at")
  raiseIf (new.state ∈ [State.refusedBeforeSend, .placed, .released] ∧ new.finishedAt = none)
    (.violated "ck_live_probe_reservations_finished_at")
  raiseIf (new.state = .placed ∧ new.attemptId = none)
    (.violated "ck_live_probe_reservations_placed_attempt")

def rowUnique (others : List Row) (new : Row) : Except Exn Unit := do
  raiseIf (∃ r ∈ others, r.probeId = new.probeId ∧ r.chain.idempotencyKey = new.chain.idempotencyKey)
    (.violated "uq_live_probe_reservations_idempotency")
  raiseIf (∃ r ∈ others, r.chain.clientOrderId = new.chain.clientOrderId)
    (.violated "uq_live_probe_reservations_cid")
  -- nulls are distinct from each other
  raiseIf (∃ r ∈ others, new.attemptId ≠ none ∧ r.attemptId = new.attemptId)
    (.violated "uq_live_probe_reservations_attempt")
  raiseIf (∃ r ∈ others, new.tradeId ≠ none ∧ r.tradeId = new.tradeId)
    (.violated "uq_live_probe_reservations_trade")

def rowReferences (db : Db) (new : Row) : Except Exn Unit := do
  raiseIf (db.record? new.probeId = none) (.violated "live_probe_reservations_probe_id_fkey")
  raiseIf (∃ a ∈ new.attemptId, db.attempts a = none) (.violated "live_probe_reservations_attempt_id_fkey")
  raiseIf (∃ t ∈ new.tradeId, db.trades t = none) (.violated "live_probe_reservations_trade_id_fkey")

def authorizationsGuard (old new : Record) : Except Exn Unit := do
  let probeId := old.probeId
  raiseIf (new.terms ≠ old.terms)
    (.raised s!"live_probe_authorizations: the terms of probe {probeId} never change")
  raiseIf (old.revokedAt ≠ none ∧ new.revocation ≠ old.revocation)
    (.raised s!"live_probe_authorizations: probe {probeId} stays revoked")
  raiseIf (old.lReachedAt ≠ none ∧ new.lReached ≠ old.lReached)
    (.raised s!"live_probe_authorizations: L reached on probe {probeId} stays")

theorem authorizationsGuard_ok {old new : Record} : authorizationsGuard old new = .ok () ↔
      new.terms = old.terms ∧ (old.revokedAt ≠ none → new.revocation = old.revocation) ∧
        (old.lReachedAt ≠ none → new.lReached = old.lReached) := by
  simp only [authorizationsGuard, bind_ok, raiseIf_ok]
  simp

/-- The record admits an entry on `market` at `clock`. -/
def Record.AdmitsEntry (rec : Record) (market : String) (clock : Time) : Prop :=
  rec.revokedAt = none ∧ rec.suspendedAt = none ∧ rec.lReachedAt = none ∧
    rec.costsIncidentAt = none ∧ clock < rec.entriesUntil ∧ market ∈ rec.terms.instruments

instance (rec : Record) (market : String) (clock : Time) : Decidable (rec.AdmitsEntry market clock) :=
  inferInstanceAs (Decidable (_ ∧ _ ∧ _ ∧ _ ∧ _ ∧ _))

def Attempt.isEntryOf (attempt : Option Attempt) (rec : Option Record) (r : Row) : Bool :=
  match attempt with
  | none => false
  | some a => a.operation = .entry && a.clientOrderId = r.chain.clientOrderId &&
      some a.exchange = rec.map (·.terms.exchange) &&
      a.nativeMarketId = some r.chain.nativeMarketId && a.side = r.chain.side

def refusedByRecord (rec : Option Record) (new : Row) (clock : Time) : Prop :=
  ∃ r ∈ rec, ¬ r.AdmitsEntry new.chain.nativeMarketId clock

instance (rec : Option Record) (new : Row) (clock : Time) : Decidable (refusedByRecord rec new clock) :=
  inferInstanceAs (Decidable (∃ r ∈ rec, _))

def admitsNoEntry (probeId : String) : Exn :=
  .raised s!"live_probe_reservations: probe {probeId} admits no entry now"

def State.Follows (old new : State) : Prop :=
  (old = .reserved ∧ (new = .sending ∨ new = .refusedBeforeSend)) ∨
    (old = .sending ∧ (new = .placed ∨ new = .released))

instance (old new : State) : Decidable (old.Follows new) :=
  inferInstanceAs (Decidable (_ ∨ _))

def reservationsInsertGuard (db : Db) (clock : Time) (new : Row) : Except Exn Unit := do
  raiseIf (refusedByRecord (db.record? new.probeId) new clock) (admitsNoEntry new.probeId)
  raiseIf (new.state ≠ .reserved ∨ new.attemptId ≠ none ∨ new.tradeId ≠ none)
    (.raised "live_probe_reservations: a reservation starts reserved")

def reservationsUpdateGuard (db : Db) (clock : Time) (id : ℕ) (old new : Row) : Except Exn Unit := do
  let rec? := db.record? new.probeId
  raiseIf ((new.state = .sending ∧ old.state ≠ .sending) ∧ refusedByRecord rec? new clock)
    (admitsNoEntry new.probeId)
  raiseIf (new.chain ≠ old.chain)
    (.raised s!"live_probe_reservations: the chain of reservation {id} never changes")
  raiseIf (old.attemptId ≠ none ∧ new.attemptId ≠ old.attemptId)
    (.raised s!"live_probe_reservations: attempt of reservation {id} never changes")
  raiseIf (old.tradeId ≠ none ∧ new.tradeId ≠ old.tradeId)
    (.raised s!"live_probe_reservations: trade of reservation {id} never changes")
  let attemptId := new.attemptId.getD 0
  raiseIf (∃ a ∈ new.attemptId, old.attemptId = none ∧
      Attempt.isEntryOf (db.attempts a) rec? new = false)
    (.raised s!"live_probe_reservations: attempt {attemptId} is not the entry attempt of reservation {id}")
  let tradeId := new.tradeId.getD 0
  raiseIf (∃ t ∈ new.tradeId, old.tradeId = none ∧
      ¬ ∃ a ∈ new.attemptId, ∃ x ∈ db.attempts a, x.tradeId = some t)
    (.raised s!"live_probe_reservations: trade {tradeId} is not journalled from the attempt of reservation {id}")
  let (oldState, newState) := (old.state.text, new.state.text)
  raiseIf (new.state ≠ old.state ∧ ¬ old.state.Follows new.state)
    (.raised s!"live_probe_reservations: {oldState} -> {newState} refused for reservation {id}")
  raiseIf (new.state = old.state ∧ (new.state = .refusedBeforeSend ∨ new.state = .released) ∧
      (new.stateReason, new.finishedAt, new.attemptId, new.tradeId) ≠
        (old.stateReason, old.finishedAt, old.attemptId, old.tradeId))
    (.raised s!"live_probe_reservations: reservation {id} is final")

theorem reservationsInsertGuard_ok : reservationsInsertGuard db clock new = .ok u ↔
      (∀ rec, db.record? new.probeId = some rec → rec.AdmitsEntry new.chain.nativeMarketId clock) ∧
        new.state = .reserved ∧ new.attemptId = none ∧ new.tradeId = none := by
  simp only [reservationsInsertGuard, bind_ok, raiseIf_ok, refusedByRecord]
  simp

structure RowMoves (old new : Row) : Prop where
  chain : new.chain = old.chain
  attempt : old.attemptId ≠ none → new.attemptId = old.attemptId
  trade : old.tradeId ≠ none → new.tradeId = old.tradeId
  state : new.state = old.state ∨ old.state.Follows new.state

theorem reservationsUpdateGuard_moves (h : reservationsUpdateGuard db clock id old new = .ok u) : RowMoves old new := by
  simp only [reservationsUpdateGuard, bind_ok, raiseIf_ok] at h
  obtain ⟨-, -, -, hch, -, hatt, -, htr, -, -, -, -, -, hst, -⟩ := h
  refine ⟨not_not.1 hch, fun h0 => ?_, fun h0 => ?_, ?_⟩
  · by_contra hne
    exact hatt ⟨h0, hne⟩
  · by_contra hne
    exact htr ⟨h0, hne⟩
  · by_contra hne
    exact hst (not_or.1 hne)

theorem reservationsUpdateGuard_admits (h : reservationsUpdateGuard db clock id old new = .ok u)
    (hs : new.state = .sending) (ho : old.state ≠ .sending) {rec : Record} (hrec : db.record? new.probeId = some rec) :
    rec.AdmitsEntry new.chain.nativeMarketId clock := by
  simp only [reservationsUpdateGuard, bind_ok, raiseIf_ok] at h
  obtain ⟨-, hadm, -⟩ := h
  by_contra hno
  exact hadm ⟨⟨hs, ho⟩, rec, hrec, hno⟩

def insertRecord (new : Record) : Tx ℕ := do
  let db ← get
  recordChecks new
  recordUnique db.records new
  set { db with records := db.records ++ [new] }
  return db.records.length

def updateRecord (i : ℕ) (new : Record) : Tx Unit := do
  let db ← get
  match db.records[i]? with
  | none => return ()
  | some old =>
    authorizationsGuard old new
    recordChecks new
    recordUnique (db.records.eraseIdx i) new
    set { db with records := db.records.set i new }

def insertReservation (clock : Time) (new : Row) : Tx ℕ := do
  let db ← get
  reservationsInsertGuard db clock new
  rowChecks new
  rowUnique db.reservations new
  rowReferences db new
  set { db with reservations := db.reservations ++ [new] }
  return db.reservations.length

def updateReservation (clock : Time) (id : ℕ) (new : Row) : Tx Unit := do
  let db ← get
  match db.reservations[id]? with
  | none => return ()
  | some old =>
    reservationsUpdateGuard db clock id old new
    rowChecks new
    rowUnique (db.reservations.eraseIdx id) new
    rowReferences db new
    set { db with reservations := db.reservations.set id new }

def deleteRecord : Tx Unit :=
  throw (.raised "live_probe_authorizations: a record is never deleted")

def deleteReservation : Tx Unit :=
  throw (.raised "live_probe_reservations: a reservation is never deleted")

def insertEvent (probeId : String) (event : EventKind) (actor : String) (detail : Detail) : Tx Unit :=
  modify fun db => { db with events := db.events ++ [⟨probeId, event, actor, detail⟩] }

end Schurfer.Probe
