import Schurfer.Lib.Rows
import Schurfer.Probe.Transactions

/-!
# What a commit can do

Whatever the command, its commit has one of four shapes (`Commit`): a chain of writes that neither insert a
reservation nor move one to `sending`, one insert, one move to `sending`, or a change of the journal.
-/

namespace Schurfer.Probe

open List Txn Txn.Keeps

open Relation (ReflTransGen)

variable {record : Record} {new : Row} {sha256 : String → String} {db : Db} {n i : ℕ}

inductive Write : Db → Db → Prop
  | logged (db : Db) (events : List Event) (refusals : List Refusal) :
      Write db { db with events := events, refusals := refusals }
  | newRecord (db : Db) (new : Record) (hpos : 0 < new.terms.maxEntries)
      (huniq : ∀ r ∈ db.records, r.probeId ≠ new.probeId) :
      Write db { db with records := db.records ++ [new] }
  | record (db : Db) (i : ℕ) (old new : Record) (hi : db.records[i]? = some old)
      (hg : authorizationsGuard old new = .ok ()) :
      Write db { db with records := db.records.set i new }
  | row (db : Db) (id : ℕ) (old new : Row) (hi : db.reservations[id]? = some old)
      (hm : RowMoves old new) (hs : new.state = .sending → old.state = .sending) :
      Write db { db with reservations := db.reservations.set id new }

abbrev Writes : Db → Db → Prop := ReflTransGen Write

def Admitted (db : Db) (new : Row) : Prop :=
  ∃ record, db.record? new.probeId = some record ∧
    (db.ledger new.probeId).closedUnsettled = 0 ∧
    (db.ledger new.probeId).slotsHeld < slots ∧
    ((db.ledger new.probeId).entriesSpent : ℤ) < record.terms.maxEntries ∧
    -(db.ledger new.probeId).realizedClosed + (db.ledger new.probeId).reservedOpen
      + new.chain.reserveUsd ≤ record.terms.lossThresholdUsd

structure Rules where
  admits : Db → Row → Prop
  trades : Db → (ℕ → Option Trade) → Prop
  clock : Time

inductive Commit (rules : Rules) : Db → Db → Prop
  | quiet {db db' : Db} (h : Writes db db') : Commit rules db db'
  | insert (db : Db) (new : Row) (record : Record) (hrec : db.record? new.probeId = some record)
      (hadm : record.AdmitsEntry new.chain.nativeMarketId rules.clock) (hs : new.state = .reserved)
      (ha : new.attemptId = none) (ht : new.tradeId = none)
      (huniq : ∀ r ∈ db.reservations, r.probeId = new.probeId →
        r.chain.idempotencyKey ≠ new.chain.idempotencyKey) (h : rules.admits db new) :
      Commit rules db { db with reservations := db.reservations ++ [new] }
  | send (db : Db) (id : ℕ) (old new : Row) (record : Record)
      (hi : db.reservations[id]? = some old) (hm : RowMoves old new) (ho : old.state ≠ .sending)
      (hs : new.state = .sending) (hrec : db.record? new.probeId = some record)
      (hadm : record.AdmitsEntry new.chain.nativeMarketId rules.clock) :
      Commit rules db { db with reservations := db.reservations.set id new }
  | journal (db : Db) (attempts : ℕ → Option Attempt) (trades : ℕ → Option Trade)
      (h : rules.trades db trades) :
      Commit rules db { db with attempts := attempts, trades := trades }

section

variable {rules : Rules} {clock : Time} {db' : Db} {id : ℕ} (clk : Clock) (probeId : String) (event : EventKind)
  (reason actor : String) (detail : Detail) (applies : Record → Bool) (f : Record → Record)

theorem insertEvent_quiet : (insertEvent probeId event actor detail).Keeps Writes :=
  .modify fun db => .single (.logged db _ db.refusals)

theorem insertRecord_quiet (new : Record) : (insertRecord new).Keeps Writes := by
  intro db n db' h
  simp only [insertRecord, bind_ok, get_ok, lift_ok, set_ok, pure_ok] at h
  obtain ⟨_, _, ⟨rfl, rfl⟩, _, _, ⟨hchk, rfl⟩, _, _, ⟨hu, rfl⟩, _, _, rfl, -, rfl⟩ := h
  refine .single (.newRecord db new (recordChecks_maxEntries hchk) fun r hr heq => ?_)
  rw [recordUnique, Except.raiseIf_ok] at hu
  exact hu ⟨r, hr, heq⟩

theorem updateRecord_quiet (i : ℕ) (new : Record) : (updateRecord i new).Keeps Writes := by
  intro db u db' h
  simp only [updateRecord, bind_ok, get_ok] at h
  obtain ⟨_, _, ⟨rfl, rfl⟩, h⟩ := h
  split at h
  · obtain ⟨-, rfl⟩ := pure_ok.1 h
    exact .refl
  · rename_i old hi
    simp only [bind_ok, lift_ok, set_ok] at h
    obtain ⟨_, _, ⟨hg, rfl⟩, _, _, ⟨-, rfl⟩, _, _, ⟨-, rfl⟩, rfl⟩ := h
    exact .single (.record db i old new hi hg)

theorem insertReservation_ok
    (h : (insertReservation rules.clock new).run db = .ok (n, db')) (hadm : rules.admits db new) :
    Commit rules db db' := by
  simp only [insertReservation, bind_ok, get_ok, lift_ok, set_ok, pure_ok] at h
  obtain ⟨_, _, ⟨rfl, rfl⟩, _, _, ⟨hg, rfl⟩, _, _, ⟨-, rfl⟩, _, _, ⟨hu, rfl⟩, _, _, ⟨hr, rfl⟩, _, _, rfl, -, rfl⟩ := h
  obtain ⟨hrec, hs, ha, ht⟩ := reservationsInsertGuard_ok.1 hg
  simp only [rowReferences, Except.bind_ok, Except.raiseIf_ok] at hr
  obtain ⟨-, hfk, -⟩ := hr
  obtain ⟨record, hrc⟩ := Option.ne_none_iff_exists'.1 hfk
  simp only [rowUnique, Except.bind_ok, Except.raiseIf_ok] at hu
  obtain ⟨-, huniq, -⟩ := hu
  refine .insert db new record hrc (hrec record hrc) hs ha ht ?_ hadm
  intro r hr hp hk
  exact huniq ⟨r, hr, hp, hk⟩

theorem updateReservation_ok {u : Unit} (h : (updateReservation clock id new).run db = .ok (u, db')) :
    db' = db ∨ ∃ old, db.reservations[id]? = some old ∧ RowMoves old new ∧
      db' = { db with reservations := db.reservations.set id new } ∧
      (new.state = .sending → old.state ≠ .sending → ∃ record, db.record? new.probeId = some record ∧
        record.AdmitsEntry new.chain.nativeMarketId clock) := by
  simp only [updateReservation, bind_ok, get_ok] at h
  obtain ⟨_, _, ⟨rfl, rfl⟩, h⟩ := h
  split at h
  · obtain ⟨-, rfl⟩ := pure_ok.1 h
    exact .inl rfl
  · rename_i old hi
    simp only [bind_ok, lift_ok, set_ok] at h
    obtain ⟨_, _, ⟨hg, rfl⟩, _, _, ⟨-, rfl⟩, _, _, ⟨-, rfl⟩, _, _, ⟨hr, rfl⟩, rfl⟩ := h
    refine .inr ⟨old, hi, reservationsUpdateGuard_moves hg, rfl, fun hs ho => ?_⟩
    simp only [rowReferences, Except.bind_ok, Except.raiseIf_ok] at hr
    obtain ⟨-, hfk, -⟩ := hr
    obtain ⟨record, hrc⟩ := Option.ne_none_iff_exists'.1 hfk
    exact ⟨record, hrc, reservationsUpdateGuard_admits hg hs ho hrc⟩

theorem updateReservation_quiet (hs : new.state ≠ .sending) : (updateReservation clock id new).Keeps Writes := by
  intro db u db' h
  rcases updateReservation_ok h with rfl | ⟨old, hi, hm, rfl, -⟩
  · exact .refl
  · exact .single (.row db id old new hi hm fun h => absurd h hs)

theorem updateReservation_commit : (updateReservation rules.clock id new).Keeps (Commit rules) := by
  intro db u db' h
  rcases updateReservation_ok h with rfl | ⟨old, hi, hm, rfl, hsn⟩
  · exact .quiet .refl
  · by_cases hs : new.state = .sending ∧ old.state ≠ .sending
    · obtain ⟨record, hrec, hadm⟩ := hsn hs.1 hs.2
      exact .send db id old new record hi hm hs.2 hs.1 hrec hadm
    · refine .quiet (.single (.row db id old new hi hm fun hn => ?_))
      by_contra ho
      exact hs ⟨hn, ho⟩

theorem refuse_quiet (key decisionId : Option String) (reason : RefusalReason)
    (detail : Detail) (id : Option ℕ) : (refuse probeId key decisionId reason detail id).Keeps Writes :=
  .bind (.modify fun db => .single (.logged db db.events _)) fun _ => .pure _

theorem lockRecord_ok {probeId : String} {found : Option Record}
    (h : (lockRecord probeId).run db = .ok (found, db')) : found = db.record? probeId ∧ db' = db := by
  obtain ⟨_, _, ⟨rfl, rfl⟩, rfl, rfl⟩ := h
  exact ⟨rfl, rfl⟩

theorem lockRecord_quiet : (lockRecord probeId).Keeps Writes := by
  intro db found db' h
  rw [(lockRecord_ok h).2]

theorem issue_quiet (terms : Terms) (actor : String) : (issue clk terms actor).Keeps Writes := by
  refine .bind (.lift _) fun _ => ?_
  split
  · split
    · exact .throw _
    · exact .bind (insertRecord_quiet _) fun _ => .bind (insertEvent_quiet ..) fun _ => .pure _
  · exact .throw _

theorem updateProbe_quiet : (updateProbe probeId applies f).Keeps Writes := by
  refine .bind .get fun db => ?_
  split
  · exact .pure _
  · split
    · exact .pure _
    · split
      · exact .bind (updateRecord_quiet _ _) fun _ => .pure _
      · exact .pure _

theorem setField_quiet : (setField probeId event actor detail applies f).Keeps Writes := by
  refine .bind (lockRecord_quiet probeId) fun found => ?_
  split
  · exact .throw _
  · split
    · exact .bind (updateProbe_quiet ..) fun _ => .bind (insertEvent_quiet ..) fun _ => .pure _
    · exact .pure _

theorem costsIncident_quiet : (costsIncident clk probeId reason).Keeps Writes := by
  refine .bind (lockRecord_quiet probeId) fun found => ?_
  split
  · exact .throw _
  · refine .bind (updateProbe_quiet ..) fun changed => ?_
    split
    · exact .bind (insertEvent_quiet ..) fun _ => .pure _
    · exact .pure _

theorem recordLReached_quiet (loss : ℚ) (inputs : Detail) :
    (recordLReached clk probeId loss inputs).Keeps Writes := by
  refine .bind (lockRecord_quiet probeId) fun found => ?_
  split
  · exact .throw _
  · refine .bind (updateProbe_quiet ..) fun changed => ?_
    split
    · exact .bind (insertEvent_quiet ..) fun _ => .pure _
    · exact .pure _

theorem suspendActiveIn_quiet : (suspendActiveIn clk reason).Keeps Writes := by
  refine .bind .get fun db => .bind (.forM (fun _ => updateRecord_quiet _ _) _) fun _ => ?_
  exact .bind (.forM (fun _ => insertEvent_quiet ..) _) fun _ => .pure _

theorem admitNew_commit (hadm : ∀ db r, Admitted db r → rules.admits db r) {clk : Clock} {cid : String}
    {request : EntryRequest} {key : String} {out : Reservation ⊕ Refused}
    (hclk : clk.trigger = rules.clock) (hrec : db.record? request.probeId = some record)
    (h : (admitNew clk cid request record key).run db = .ok (out, db')) : Commit rules db db' := by
  have hrf : ∀ {reason detail db1}, (Sum.inr <$> refuse request.probeId (some key)
      (some request.decisionId) reason detail : Tx (Reservation ⊕ Refused)).run db1 = .ok (out, db') →
      Writes db1 db' := fun h => map (refuse_quiet ..) h
  simp only [admitNew, bind_ok, get_ok] at h
  obtain ⟨_, _, ⟨rfl, rfl⟩, h⟩ := h
  split at h
  · exact .quiet (hrf h)
  rename_i hclosed
  split at h
  · -- L is reached on the realized result alone: mark the record, then refuse
    simp only [bind_ok] at h
    obtain ⟨_, _, hmr, _, _, hevn, h⟩ := h
    exact .quiet (((updateProbe_quiet _ _ _ hmr).trans (insertEvent_quiet _ _ _ _ hevn)).trans (hrf h))
  split at h
  · exact .quiet (hrf h)
  rename_i hsl
  split at h
  · exact .quiet (hrf h)
  rename_i hen
  rw [lift_bind_ok] at h
  obtain ⟨reserveUsd, -, h⟩ := h
  split at h
  · exact .quiet (hrf h)
  rename_i hrm
  split at h
  · exact .quiet (hrf h)
  split at h
  · rename_i side _
    rw [bind_ok] at h
    obtain ⟨id, _, hins, h⟩ := h
    obtain ⟨-, rfl⟩ := pure_ok.1 h
    rw [hclk] at hins
    refine insertReservation_ok hins (hadm _ _ ⟨record, hrec, not_not.1 hclosed, not_le.1 hsl, not_le.1 hen, ?_⟩)
    simpa [admits] using hrm
  · exact (throw_ok.1 h).elim

theorem reserve_commit (hadm : ∀ db r, Admitted db r → rules.admits db r) (sha256 : String → String)
    (clk : Clock) (hclk : clk.trigger = rules.clock) (cid : String) (request : EntryRequest) :
    (reserve sha256 clk cid request).Keeps (Commit rules) := by
  intro db out db' h
  have hrf : ∀ {key reason detail}, (Sum.inr <$> refuse request.probeId key
      (some request.decisionId) reason detail : Tx (Reservation ⊕ Refused)).run db = .ok (out, db') →
      Commit rules db db' := fun h => .quiet (map (refuse_quiet ..) h)
  unfold reserve at h
  rw [lift_bind_ok] at h
  obtain ⟨key, -, h⟩ := h
  rw [bind_ok] at h
  obtain ⟨found, _, hlc, h⟩ := h
  obtain ⟨hfn, rfl⟩ := lockRecord_ok hlc
  split at h
  · exact hrf h
  split at h
  · exact hrf h
  rw [get_bind_ok] at h
  split at h
  · -- a repeated delivery
    split at h
    · exact (throw_ok.1 h).elim
    · obtain ⟨-, rfl⟩ := pure_ok.1 h
      exact .quiet .refl
  split at h
  · exact hrf h
  split at h
  · exact hrf h
  · exact admitNew_commit hadm hclk hfn.symm h

theorem lockReservation_ok {found : Record × Row} (h : (lockReservation id).run db = .ok (found, db')) :
    db' = db ∧ db.reservations[id]? = some found.2 ∧ db.record? found.2.probeId = some found.1 := by
  unfold lockReservation at h
  rw [get_bind_ok] at h
  split at h
  · exact (throw_ok.1 h).elim
  rename_i row hrow
  rw [bind_ok] at h
  obtain ⟨found', _, hlc, h⟩ := h
  obtain ⟨hfn, rfl⟩ := lockRecord_ok hlc
  split at h
  · exact (throw_ok.1 h).elim
  obtain ⟨rfl, rfl⟩ := pure_ok.1 h
  exact ⟨rfl, hrow, hfn.symm⟩

theorem refuseRow_quiet (id : ℕ) (row : Row) (reason : RefusalReason) (detail : Detail) :
    (refuseRow clk id row reason detail).Keeps Writes :=
  .bind (updateReservation_quiet (by simp)) fun _ => refuse_quiet ..

theorem beginSending_commit (hclk : clk.trigger = rules.clock) (id : ℕ) :
    (beginSending clk id).Keeps (Commit rules) := by
  intro db out db' h
  unfold beginSending at h
  rw [bind_ok] at h
  obtain ⟨⟨record, row⟩, _, hlc, h⟩ := h
  obtain ⟨rfl, -, -⟩ := lockReservation_ok hlc
  simp only at h
  split at h
  · obtain ⟨-, rfl⟩ := pure_ok.1 h
    exact .quiet .refl
  split at h
  · obtain ⟨-, rfl⟩ := pure_ok.1 h
    exact .quiet .refl
  split at h
  · exact .quiet (map (refuseRow_quiet ..) h)
  split at h
  · obtain ⟨_, _, hupd, h⟩ := bind_ok.1 h
    obtain ⟨-, rfl⟩ := pure_ok.1 h
    rw [hclk] at hupd
    exact updateReservation_commit hupd
  · exact .quiet (map (refuseRow_quiet ..) h)

theorem lockReservation_quiet (id : ℕ) : (lockReservation id).Keeps Writes := by
  intro db found db' h
  rw [(lockReservation_ok h).1]

theorem refuseBeforeSend_quiet (id : ℕ) (reason : String) : (refuseBeforeSend clk id reason).Keeps Writes := by
  refine .bind (lockReservation_quiet id) fun found => ?_
  dsimp only
  split
  · exact .throw _
  · exact refuseRow_quiet ..

theorem updateSent_commit (hclk : clk.trigger = rules.clock) (id : ℕ) (sql : SentStep)
    (done : Row → Bool) : (updateSent clk id sql done).Keeps (Commit rules) := by
  intro db u db' h
  unfold updateSent at h
  rw [bind_ok] at h
  obtain ⟨⟨record, row⟩, _, hlc, h⟩ := h
  obtain ⟨rfl, -, -⟩ := lockReservation_ok hlc
  simp only at h
  split at h
  · obtain ⟨-, rfl⟩ := pure_ok.1 h
    exact .quiet .refl
  rw [get_bind_ok] at h
  split at h
  · rw [hclk] at h
    exact updateReservation_commit h
  · exact (throw_ok.1 h).elim

end

inductive Cmd
  | issue (clk : Clock) (terms : Terms) (actor : String)
  | revoke (clk : Clock) (probeId actor reason : String)
  | resume (clk : Clock) (probeId actor : String)
  | suspendActive (clk : Clock) (reason : String)
  | costsIncident (clk : Clock) (probeId reason : String)
  | clearCostsIncident (clk : Clock) (probeId actor note : String)
  | recordLReached (clk : Clock) (probeId : String) (loss : ℚ) (inputs : Detail)
  | reserve (clk : Clock) (clientOrderId : String) (request : EntryRequest)
  | beginSending (clk : Clock) (id : ℕ)
  | refuseBeforeSend (clk : Clock) (id : ℕ) (reason : String)
  | linkAttempt (clk : Clock) (id attemptId : ℕ)
  | markPlaced (clk : Clock) (id : ℕ)
  | markReleased (clk : Clock) (id : ℕ) (reason : String)
  | linkTrade (clk : Clock) (id tradeId : ℕ)
  | setAttempts (clk : Clock) (rows : List (ℕ × Option Attempt))
  | setTrades (clk : Clock) (rows : List (ℕ × Option Trade))
  | insertRecord (clk : Clock) (new : Record)
  | updateRecord (clk : Clock) (i : ℕ) (new : Record)
  | deleteRecord (clk : Clock)
  | insertReservation (clk : Clock) (new : Row)
  | updateReservation (clk : Clock) (id : ℕ) (new : Row)
  | deleteReservation (clk : Clock)

variable {cs : List Cmd}

def writeRows {α : Type} (table : ℕ → Option α) (rows : List (ℕ × Option α)) : ℕ → Option α :=
  rows.foldl (fun t (id, row) => Function.update t id row) table

namespace Cmd

def clk : Cmd → Clock
  | issue clk .. | revoke clk .. | resume clk .. | suspendActive clk .. | costsIncident clk ..
  | clearCostsIncident clk .. | recordLReached clk .. | reserve clk .. | beginSending clk ..
  | refuseBeforeSend clk .. | linkAttempt clk .. | markPlaced clk .. | markReleased clk ..
  | linkTrade clk .. | setAttempts clk .. | setTrades clk .. | insertRecord clk ..
  | updateRecord clk .. | deleteRecord clk | insertReservation clk .. | updateReservation clk ..
  | deleteReservation clk => clk

def isRaw : Cmd → Bool
  | insertRecord .. | updateRecord .. | deleteRecord .. | insertReservation ..
  | updateReservation .. | deleteReservation .. => true
  | _ => false

def txn (sha256 : String → String) : Cmd → Tx Unit
  | issue clk terms actor => discard (Probe.issue clk terms actor)
  | revoke clk probeId actor reason => discard (Probe.revoke clk probeId actor reason)
  | resume _ probeId actor => discard (Probe.resume probeId actor)
  | suspendActive clk reason => discard (Probe.suspendActiveIn clk reason)
  | costsIncident clk probeId reason => discard (Probe.costsIncident clk probeId reason)
  | clearCostsIncident _ probeId actor note => discard (Probe.clearCostsIncident probeId actor note)
  | recordLReached clk probeId loss inputs => discard (Probe.recordLReached clk probeId loss inputs)
  | reserve clk cid request => discard (Probe.reserve sha256 clk cid request)
  | beginSending clk id => discard (Probe.beginSending clk id)
  | refuseBeforeSend clk id reason => discard (Probe.refuseBeforeSend clk id reason)
  | linkAttempt clk id attemptId => Probe.linkAttempt clk id attemptId
  | markPlaced clk id => Probe.markPlaced clk id
  | markReleased clk id reason => Probe.markReleased clk id reason
  | linkTrade clk id tradeId => Probe.linkTrade clk id tradeId
  | setAttempts _ rows => modify fun db => { db with attempts := writeRows db.attempts rows }
  | setTrades _ rows => modify fun db => { db with trades := writeRows db.trades rows }
  | insertRecord _ new => discard (Probe.insertRecord new)
  | updateRecord _ i new => Probe.updateRecord i new
  | deleteRecord _ => Probe.deleteRecord
  | insertReservation clk new => discard (Probe.insertReservation clk.trigger new)
  | updateReservation clk id new => Probe.updateReservation clk.trigger id new
  | deleteReservation _ => Probe.deleteReservation

def rules (c : Cmd) : Rules where
  admits db r := c.isRaw = true ∨ Admitted db r
  trades db trades := trades = db.trades ∨
    ∃ clk rows, c = setTrades clk rows ∧ trades = writeRows db.trades rows
  clock := c.clk.trigger

end Cmd

def Db.start (attempts : ℕ → Option Attempt) (trades : ℕ → Option Trade) : Db :=
  { attempts := attempts, trades := trades }

def Db.step (sha256 : String → String) (db : Db) (c : Cmd) : Db := (c.txn sha256).commit db

def dbAt (sha256 : String → String) (db : Db) (cs : List Cmd) (n : ℕ) : Db :=
  Run.stateAt (Db.step sha256) db cs n

theorem dbAt_succ {c : Cmd} (hc : cs[n]? = some c) : dbAt sha256 db cs (n + 1) = (dbAt sha256 db cs n).step sha256 c :=
  Run.stateAt_succ hc

theorem dbAt_stop (hc : cs[n]? = none) : dbAt sha256 db cs (n + 1) = dbAt sha256 db cs n :=
  Run.stateAt_of_length_le hc

/-- **Every commit has one of the four shapes**, and a probe transaction inserts only what the
ledger admits. -/
theorem Cmd.commit (sha256 : String → String) (c : Cmd) (db : Db) : Commit c.rules db (db.step sha256 c) := by
  have quiet : ∀ {α : Type} {t : Tx α}, t.Keeps Writes → (discard t).Keeps (Commit c.rules) :=
    fun h => (map h).mono fun _ _ => .quiet
  rcases (c.txn sha256).commit_cases db with hs | ⟨u, hrun⟩
  · -- rolled back
    unfold Db.step
    rw [hs]
    exact .quiet .refl
  change Commit _ db ((c.txn sha256).commit db)
  generalize (c.txn sha256).commit db = db' at hrun
  cases c with
  | issue => exact quiet (issue_quiet ..) hrun
  | revoke | resume | clearCostsIncident => exact quiet (setField_quiet ..) hrun
  | suspendActive => exact quiet (suspendActiveIn_quiet ..) hrun
  | costsIncident => exact quiet (costsIncident_quiet ..) hrun
  | recordLReached => exact quiet (recordLReached_quiet ..) hrun
  | reserve clk cid request =>
    exact map (reserve_commit (fun _ _ h => Or.inr h) sha256 clk rfl cid request) hrun
  | beginSending clk id => exact map (beginSending_commit clk rfl id) hrun
  | refuseBeforeSend => exact quiet (refuseBeforeSend_quiet ..) hrun
  | linkAttempt clk =>
    unfold Cmd.txn Probe.linkAttempt at hrun
    exact updateSent_commit clk rfl _ _ _ hrun
  | markPlaced clk =>
    unfold Cmd.txn Probe.markPlaced at hrun
    exact updateSent_commit clk rfl _ _ _ hrun
  | markReleased clk =>
    unfold Cmd.txn Probe.markReleased at hrun
    exact updateSent_commit clk rfl _ _ _ hrun
  | linkTrade clk =>
    unfold Cmd.txn Probe.linkTrade at hrun
    exact updateSent_commit clk rfl _ _ _ hrun
  | setAttempts clk rows =>
    rw [← modify_ok.1 hrun]
    exact .journal db _ _ (.inl rfl)
  | setTrades clk rows =>
    rw [← modify_ok.1 hrun]
    exact .journal db _ _ (.inr ⟨clk, rows, rfl, rfl⟩)
  | insertRecord => exact quiet (insertRecord_quiet _) hrun
  | updateRecord => exact .quiet (updateRecord_quiet _ _ hrun)
  | deleteRecord => exact (throw_ok.1 hrun).elim
  | insertReservation clk new =>
    have h : (Probe.insertReservation clk.trigger new).Keeps
        (Commit (Cmd.insertReservation clk new).rules) := fun _ _ _ h => insertReservation_ok h (.inl rfl)
    exact map h hrun
  | updateReservation clk id new =>
    have h : (Probe.updateReservation clk.trigger id new).Keeps
        (Commit (Cmd.updateReservation clk id new).rules) := updateReservation_commit
    exact h hrun
  | deleteReservation => exact (throw_ok.1 hrun).elim

def Db.UniqueRecords (db : Db) : Prop := (db.records.map (·.terms.probeId)).Nodup

theorem Db.UniqueRecords.newRecord (h : db.UniqueRecords) (huniq : ∀ r ∈ db.records, r.probeId ≠ record.probeId) :
    ({ db with records := db.records ++ [record] } : Db).UniqueRecords := by
  unfold Db.UniqueRecords
  rw [map_append, nodup_append]
  refine ⟨h, by simp, ?_⟩
  intro a ha b hb heq
  obtain ⟨r, hr, rfl⟩ := mem_map.1 ha
  simp only [map_cons, map_nil, mem_singleton] at hb
  exact huniq r hr (heq.trans hb)

theorem Db.UniqueRecords.record?_eq (h : db.UniqueRecords)
    (hi : db.records[i]? = some record) : db.record? record.probeId = some record := by
  have hmem : record ∈ db.records := mem_of_getElem? hi
  cases hf : db.record? record.probeId with
  | none => exact absurd (find?_eq_none.1 hf record hmem) (by simp)
  | some found =>
    have hid : found.probeId = record.probeId := by simpa using find?_some hf
    rw [inj_on_of_nodup_map h (mem_of_find?_eq_some hf) hmem hid]

section

variable {rules : Rules} {db' : Db}

def QuietMoves (old new : Row) : Prop :=
  RowMoves old new ∧ (new.state = .sending → old.state = .sending)

theorem RowMoves.refl (r : Row) : RowMoves r r := ⟨rfl, fun _ => rfl, fun _ => rfl, .inl rfl⟩

instance : Std.Refl RowMoves := ⟨RowMoves.refl⟩

instance : Std.Refl QuietMoves := ⟨fun r => ⟨.refl r, id⟩⟩

instance : IsTrans Row QuietMoves := by
  refine ⟨fun r₁ r₂ r₃ h₁ h₂ => ⟨⟨h₂.1.chain.trans h₁.1.chain, fun h => ?_, fun h => ?_, ?_⟩,
    fun h => h₁.2 (h₂.2 h)⟩⟩
  · have h12 := h₁.1.attempt h
    exact (h₂.1.attempt (h12 ▸ h)).trans h12
  · have h12 := h₁.1.trade h
    exact (h₂.1.trade (h12 ▸ h)).trans h12
  · rcases h₁.1.state with h12 | h12
    · rw [← h12]
      exact h₂.1.state
    · rcases h₂.1.state with h23 | h23
      · rw [h23]
        exact .inr h12
      · rcases h12 with ⟨ho, hn | hn⟩ | ⟨ho, hn⟩
        · rw [h₁.2 hn] at ho
          exact absurd ho (by simp)
        · rw [hn] at h23
          simp [State.Follows] at h23
        · rcases hn with hn | hn <;> rw [hn] at h23 <;> simp [State.Follows] at h23

theorem Write.moves (h : Write db db') : Rows.Evolves QuietMoves db.reservations db'.reservations ∧
      db'.reservations.length = db.reservations.length := by
  cases h with
  | logged | newRecord | record => exact ⟨Std.Refl.refl _, rfl⟩
  | row id old new hi hm hs => exact ⟨.set hi ⟨hm, hs⟩, length_set⟩

theorem Writes.moves (h : Writes db db') : Rows.Evolves QuietMoves db.reservations db'.reservations ∧
      db'.reservations.length = db.reservations.length := by
  induction h with
  | refl => exact ⟨Std.Refl.refl _, rfl⟩
  | tail _ hw ih => exact ⟨IsTrans.trans _ _ _ ih.1 hw.moves.1, hw.moves.2.trans ih.2⟩

theorem Commit.moves (h : Commit rules db db') : Rows.Evolves RowMoves db.reservations db'.reservations := by
  cases h with
  | quiet hw =>
    intro i r hr
    obtain ⟨r', hr', hm⟩ := hw.moves.1 i r hr
    exact ⟨r', hr', hm.1⟩
  | insert => exact .append _ _
  | send id old new record hi hm => exact .set hi hm
  | journal => exact Std.Refl.refl _

theorem Commit.inserted (h : Commit rules db db') {r : Row}
    (hnn : db.reservations[i]? = none) (hsm : db'.reservations[i]? = some r) :
    r.state = .reserved ∧ rules.admits db r ∧ db' = { db with reservations := db.reservations ++ [r] } ∧
      ∃ record, db.record? r.probeId = some record ∧ record.AdmitsEntry r.chain.nativeMarketId rules.clock := by
  have hle : db.reservations.length ≤ i := getElem?_eq_none_iff.1 hnn
  have hlt : i < db'.reservations.length := (List.getElem?_eq_some_iff.1 hsm).1
  cases h with
  | quiet hw =>
    rw [hw.moves.2] at hlt
    omega
  | insert new record hrec hadm hs ha ht huniq h =>
    rw [getElem?_append_right hle] at hsm
    have hi : i - db.reservations.length = 0 := by
      simp only [length_append, length_singleton] at hlt
      omega
    rw [hi] at hsm
    obtain rfl : new = r := by simpa using hsm
    exact ⟨hs, h, rfl, record, hrec, hadm⟩
  | send =>
    rw [length_set] at hlt
    omega
  | journal =>
    change i < db.reservations.length at hlt
    omega

theorem Commit.sent (h : Commit rules db db') {r r' : Row} (hr : db.reservations[i]? = some r)
    (hr' : db'.reservations[i]? = some r') (hs : r.state ≠ .sending) (hs' : r'.state = .sending) :
    db'.records = db.records ∧ ∃ record, db.record? r.probeId = some record ∧
      record.AdmitsEntry r.chain.nativeMarketId rules.clock := by
  have hlt : i < db.reservations.length := (List.getElem?_eq_some_iff.1 hr).1
  cases h with
  | quiet hw =>
    obtain ⟨r2, hr2, hm⟩ := hw.moves.1 i r hr
    rw [hr', Option.some.injEq] at hr2
    subst hr2
    exact absurd (hm.2 hs') hs
  | insert new =>
    rw [getElem?_append_left hlt, hr, Option.some.injEq] at hr'
    exact absurd (hr' ▸ hs') hs
  | send id old new record hi hm ho hsn hrec hadm =>
    by_cases hid : id = i
    · subst hid
      rw [hr, Option.some.injEq] at hi
      subst hi
      have hch : new.chain = r.chain := hm.chain
      unfold Row.probeId at hrec ⊢
      rw [hch] at hrec hadm
      exact ⟨rfl, record, hrec, hadm⟩
    · rw [getElem?_set_ne hid, hr, Option.some.injEq] at hr'
      exact absurd (hr' ▸ hs') hs
  | journal =>
    rw [hr, Option.some.injEq] at hr'
    exact absurd (hr' ▸ hs') hs

end

end Schurfer.Probe
