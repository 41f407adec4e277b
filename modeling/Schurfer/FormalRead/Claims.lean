import Schurfer.Lib.Rows
import Schurfer.Lib.Threads

/-!
# The claims of registered cohorts

`app.formal_read_claims` holds one row per cohort. Every statement is a transaction of its own, and may fail before or
after it took effect; the trigger of migration 0057 guards every update. The columns nothing here reads are left out.
-/

namespace Schurfer.FormalRead

open Threads

def lease : ℕ := 60 * 60 * 1000000

structure Cohort where
  studyId : String
  contractVersion : String
  cohortStart : ℕ
deriving DecidableEq

inductive Status
  | claimed | completed | adminStopped
deriving DecidableEq

inductive Owner
  | uuid (n : ℕ)
  | administrativeStop
deriving DecidableEq

structure Row where
  cohort : Cohort
  candidateIds : List ℤ
  status : Status
  leaseOwner : Owner
  leaseExpiresAt : ℕ
  completedAt : Option ℕ
  resultFingerprint : Option String
  terminalReason : Option String
deriving DecidableEq

structure Database where
  rows : List Row
  now : ℕ

inductive Failure
  | stopped (cohort : Cohort)
  | alreadyCompleted (cohort : Cohort)
  | leaseHeld (cohort : Cohort)
  | notOwned (claimId : ℕ)
  | alreadyRead (cohort : Cohort) (status : Status)
  | otherStop (cohort : Cohort) (terminalReason : Option String)
  | gone
  | terminal (status : Status)
  | cannotBecome (status : Status)
  | database

structure Returned where
  id : ℕ
  candidateIds : List ℤ
  status : Status

def Row.returned (r : Row) (id : ℕ) : Returned := ⟨id, r.candidateIds, r.status⟩

def terminalGuard (old new : Row) : Except Failure Row :=
  if old.status = .completed ∨ old.status = .adminStopped then .error (.terminal old.status)
  else if new.status ≠ .claimed ∧ new.status ≠ .completed then .error (.cannotBecome new.status)
  else .ok new

section

variable (db : Database)

def Database.insert (row : Row) : Option Returned × Database :=
  if ∃ r ∈ db.rows, r.cohort = row.cohort then (none, db)
  else (some (row.returned db.rows.length), { db with rows := db.rows ++ [row] })

def Database.find (p : Row → ℕ → Bool) : Option (Row × ℕ) := db.rows.zipIdx.find? fun (r, id) => p r id

def Database.update (p : Row → ℕ → Bool) (set : Row → Row) : Except Failure (Option Returned) × Database :=
  match db.find p with
  | none => (.ok none, db)
  | some (old, id) =>
    match terminalGuard old (set old) with
    | .error e => (.error e, db)
    | .ok new => (.ok (some (new.returned id)), { db with rows := db.rows.set id new })

variable (cohort : Cohort)

def Database.insertClaim (candidateIds : List ℤ) (owner : Owner) : Option Returned × Database :=
  db.insert ⟨cohort, candidateIds, .claimed, owner, db.now + lease, none, none, none⟩

def Database.takeOver (owner : Owner) : Except Failure (Option Returned) × Database :=
  db.update (fun r _ => r.cohort = cohort ∧ r.status = .claimed ∧ r.leaseExpiresAt < db.now)
    fun r => { r with leaseOwner := owner, leaseExpiresAt := db.now + lease }

def Database.complete (claimId : ℕ) (resultFingerprint : String) (owner : Owner) :
    Except Failure (Option Returned) × Database :=
  db.update (fun r id => id = claimId ∧ r.status = .claimed ∧ r.leaseOwner = owner)
    fun r => { r with
      status := .completed, completedAt := some db.now, resultFingerprint := some resultFingerprint }

def Database.insertStop (closedIds : List ℤ) (terminalReason resultFingerprint : String) :
    Option Returned × Database :=
  db.insert ⟨cohort, closedIds, .adminStopped, .administrativeStop, db.now, some db.now,
    some resultFingerprint, some terminalReason⟩

def Database.ofCohort : Option (Row × ℕ) := db.find fun r _ => r.cohort = cohort

end

inductive Op
  | uuid4
  | insertClaim (cohort : Cohort) (candidateIds : List ℤ) (owner : Owner)
  | takeOver (cohort : Cohort) (owner : Owner)
  | selectClaim (cohort : Cohort)
  | complete (claimId : ℕ) (resultFingerprint : String) (owner : Owner)
  | insertStop (cohort : Cohort) (closedIds : List ℤ) (terminalReason resultFingerprint : String)
  | selectStop (cohort : Cohort)

structure StoredStop extends Returned where
  terminalReason : Option String
  resultFingerprint : Option String

abbrev Ans : Op → Type
  | .uuid4 => Owner
  | .insertClaim .. => Option Returned
  | .takeOver .. => Option Returned
  | .selectClaim _ => Option Returned
  | .complete .. => Option Returned
  | .insertStop .. => Option Returned
  | .selectStop _ => Option StoredStop

/-- What a statement answers and leaves. Owners are unique: the uuid that call `i` draws is `i`. -/
def execute (i : ℕ) (db : Database) : (o : Op) → Except Failure (Ans o) × Database
  | .uuid4 => (.ok (.uuid i), db)
  | .insertClaim cohort ids owner =>
    let out := db.insertClaim cohort ids owner
    (.ok out.1, out.2)
  | .takeOver cohort owner => db.takeOver cohort owner
  | .selectClaim cohort => (.ok ((db.ofCohort cohort).map fun (r, id) => r.returned id), db)
  | .complete claimId fingerprint owner => db.complete claimId fingerprint owner
  | .insertStop cohort ids reason fingerprint =>
    let out := db.insertStop cohort ids reason fingerprint
    (.ok out.1, out.2)
  | .selectStop cohort =>
    (.ok ((db.ofCohort cohort).map fun (r, id) => ⟨r.returned id, r.terminalReason, r.resultFingerprint⟩), db)

inductive Chance
  | fine
  | fails (lands : Bool)

def answer (i : ℕ) (db : Database) (o : Op) : Chance → Except Failure (Ans o) × Database
  | .fine => execute i db o
  | .fails lands => (.error .database, if lands then (execute i db o).2 else db)

def world : World Database Failure Op Ans Chance ℕ where
  answer := answer
  env db passed := { db with now := db.now + passed }
  crash _ db := db

abbrev Program := Prog Failure Op Ans

structure FormalReadClaim where
  id : ℕ
  candidateIds : List ℤ
  status : Status
  resumed : Bool
  owner : Owner

structure AdministrativeStop where
  id : ℕ
  candidateIds : List ℤ
  terminalReason : String
  resultFingerprint : String
  newlyRecorded : Bool

def Returned.claim (row : Returned) (resumed : Bool) (owner : Owner) : FormalReadClaim :=
  ⟨row.id, row.candidateIds, row.status, resumed, owner⟩

def refused (cohort : Cohort) (existing : Option Returned) : Failure :=
  match existing.map Returned.status with
  | some .adminStopped => .stopped cohort
  | some .completed => .alreadyCompleted cohort
  | _ => .leaseHeld cohort

def openClaim (cohort : Cohort) (candidateIds : List ℤ) : Program FormalReadClaim := do
  let owner ← Prog.perform Op.uuid4
  match ← Prog.perform (Op.insertClaim cohort candidateIds owner) with
  | some row => return row.claim false owner
  | none =>
    match ← Prog.perform (Op.takeOver cohort owner) with
    | some taken => return taken.claim true owner
    | none =>
      let existing ← Prog.perform (Op.selectClaim cohort)
      throw (refused cohort existing)

def completeClaim (claimId : ℕ) (resultFingerprint : String) (owner : Owner) : Program Unit := do
  match ← Prog.perform (Op.complete claimId resultFingerprint owner) with
  | some _ => return ()
  | none => throw (.notOwned claimId)

def recordAdministrativeStop (cohort : Cohort) (closedIds : List ℤ) (terminalReason resultFingerprint : String) :
    Program AdministrativeStop := do
  match ← Prog.perform (Op.insertStop cohort closedIds terminalReason resultFingerprint) with
  | some inserted => return ⟨inserted.id, closedIds, terminalReason, resultFingerprint, true⟩
  | none =>
    match ← Prog.perform (Op.selectStop cohort) with
    | none => throw .gone
    | some row =>
      if row.status ≠ .adminStopped then throw (.alreadyRead cohort row.status)
      else if row.terminalReason ≠ some terminalReason ∨ row.resultFingerprint ≠ some resultFingerprint then
        throw (.otherStop cohort row.terminalReason)
      else return ⟨row.id, row.candidateIds, terminalReason, resultFingerprint, false⟩

inductive Request
  | openClaim (cohort : Cohort) (candidateIds : List ℤ)
  | completeClaim (claimId : ℕ) (resultFingerprint : String) (owner : Owner)
  | recordAdministrativeStop (cohort : Cohort) (closedIds : List ℤ) (terminalReason resultFingerprint : String)

inductive Answer
  | claim (c : FormalReadClaim)
  | completed
  | stop (s : AdministrativeStop)

def Request.program : Request → Program Answer
  | .openClaim cohort ids => do
    let c ← FormalRead.openClaim cohort ids
    return .claim c
  | .completeClaim claimId fingerprint owner => do
    FormalRead.completeClaim claimId fingerprint owner
    return .completed
  | .recordAdministrativeStop cohort ids reason fingerprint => do
    let s ← FormalRead.recordAdministrativeStop cohort ids reason fingerprint
    return .stop s

abbrev Reached := Config Database Failure Op Ans Request Answer

def reached (now : ℕ) (moves : List (Move Request Chance ℕ)) : Reached :=
  Config.run world Request.program ⟨⟨[], now⟩, []⟩ moves

end Schurfer.FormalRead
