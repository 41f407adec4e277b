import Schurfer.FormalRead.Claims

/-!
# A registered cohort is read at most once

A row's cohort and ids stay, a row that is not claimed stays as it is, and a lease ends only by running out.
-/

namespace Schurfer.FormalRead

open Threads List Option Database

variable {cohort : Cohort} {o : Op} {id i claimId : ℕ} {r old : Row} {claim : FormalReadClaim} {owner : Owner}

def Row.SameLease (r r' : Row) : Prop := r'.leaseOwner = r.leaseOwner ∧ r'.leaseExpiresAt = r.leaseExpiresAt

structure Row.Later (r r' : Row) : Prop where
  cohort : r'.cohort = r.cohort
  candidateIds : r'.candidateIds = r.candidateIds
  terminal : r.status ≠ .claimed → r' = r
  notStopped : r.status = .claimed → r'.status ≠ .adminStopped
  lease : r.SameLease r' ∨ r.leaseExpiresAt + lease < r'.leaseExpiresAt

theorem Row.Later.refl (r : Row) : r.Later r :=
  ⟨rfl, rfl, fun _ => rfl, fun h => by rw [h]; decide, .inl ⟨rfl, rfl⟩⟩

theorem Row.Later.trans {r1 r2 r3 : Row} (h1 : r1.Later r2) (h2 : r2.Later r3) : r1.Later r3 where
  cohort := h2.cohort.trans h1.cohort
  candidateIds := h2.candidateIds.trans h1.candidateIds
  terminal hr := by
    obtain rfl := h1.terminal hr
    exact h2.terminal hr
  notStopped hr := by
    by_cases hr2 : r2.status = .claimed
    · exact h2.notStopped hr2
    · rw [h2.terminal hr2]
      exact h1.notStopped hr
  lease := by
    rcases h1.lease with ⟨ho1, he1⟩ | hlt1 <;> rcases h2.lease with ⟨ho2, he2⟩ | hlt2
    · exact .inl ⟨ho2.trans ho1, he2.trans he1⟩
    · exact .inr (by omega)
    · exact .inr (by omega)
    · exact .inr (by omega)

def Row.LaterBeside (i : ℕ) (r r' : Row) : Prop := r.Later r' ∧ (r'.leaseOwner = .uuid i → r.SameLease r')

instance (i : ℕ) : Std.Refl (Row.LaterBeside i) := ⟨fun r => ⟨.refl r, fun _ => ⟨rfl, rfl⟩⟩⟩

instance (i : ℕ) : IsTrans Row (Row.LaterBeside i) := by
  refine ⟨fun r₁ r₂ r₃ h₁ h₂ => ⟨h₁.1.trans h₂.1, fun howner => ?_⟩⟩
  obtain ⟨ho₂, he₂⟩ := h₂.2 howner
  obtain ⟨ho₁, he₁⟩ := h₁.2 (ho₂.symm.trans howner)
  exact ⟨ho₂.trans ho₁, he₂.trans he₁⟩

instance : Std.Refl Row.Later := ⟨.refl⟩

instance : IsTrans Row Row.Later := ⟨fun _ _ _ => .trans⟩

section

variable {db db' : Database} {new : Row}

theorem Database.find_some {p : Row → ℕ → Bool} (h : db.find p = some (r, id)) :
    db.rows[id]? = some r ∧ p r id = true := by
  refine ⟨mk_mem_zipIdx_iff_getElem?.1 (mem_of_find?_eq_some h), ?_⟩
  exact find?_some (p := fun x : Row × ℕ => p x.1 x.2) h

theorem Database.insert_cases (db : Database) (row : Row) :
    db.insert row = (none, db) ∨ (∀ r ∈ db.rows, r.cohort ≠ row.cohort) ∧
      db.insert row = (some (row.returned db.rows.length), { db with rows := db.rows ++ [row] }) := by
  unfold insert
  split
  · exact .inl rfl
  · rename_i hnn
    exact .inr ⟨fun r hr hc => hnn ⟨r, hr, hc⟩, rfl⟩

theorem Database.update_cases (db : Database) (p : Row → ℕ → Bool) (set : Row → Row) :
    (db.update p set).2 = db ∧ (∀ row, (db.update p set).1 ≠ .ok (some row)) ∨
    ∃ old id, db.rows[id]? = some old ∧ p old id = true ∧ old.status = .claimed ∧ (set old).status ≠ .adminStopped ∧
      db.update p set = (.ok (some ((set old).returned id)), { db with rows := db.rows.set id (set old) }) := by
  unfold update
  split
  · exact .inl ⟨rfl, nofun⟩
  · rename_i old id hfn
    obtain ⟨hold, hp⟩ := find_some hfn
    unfold terminalGuard
    split_ifs with htr hbe
    · exact .inl ⟨rfl, nofun⟩
    · exact .inl ⟨rfl, nofun⟩
    · refine .inr ⟨old, id, hold, hp, ?_, ?_, rfl⟩
      · cases hs : old.status with
        | claimed => rfl
        | completed => exact absurd (.inl hs) htr
        | adminStopped => exact absurd (.inr hs) htr
      · intro hs
        rw [hs] at hbe
        exact hbe ⟨by decide, by decide⟩

inductive Writes (db : Database) : Op → Database → Prop
  | nothing (o : Op) : Writes db o db
  | claim (cohort : Cohort) (ids : List ℤ) (owner : Owner) (hnew : ∀ r ∈ db.rows, r.cohort ≠ cohort) :
    Writes db (.insertClaim cohort ids owner)
      { db with rows := db.rows ++ [⟨cohort, ids, .claimed, owner, db.now + lease, none, none, none⟩] }
  | stop (cohort : Cohort) (ids : List ℤ) (reason fingerprint : String)
      (hnew : ∀ r ∈ db.rows, r.cohort ≠ cohort) :
    Writes db (.insertStop cohort ids reason fingerprint)
      { db with rows := db.rows ++ [⟨cohort, ids, .adminStopped, .administrativeStop, db.now, some db.now,
        some fingerprint, some reason⟩] }
  | takeOver (cohort : Cohort) (owner : Owner) (old : Row) (id : ℕ) (hold : db.rows[id]? = some old)
      (hstatus : old.status = .claimed) (hexpired : old.leaseExpiresAt < db.now) :
    Writes db (.takeOver cohort owner)
      { db with rows := db.rows.set id { old with leaseOwner := owner, leaseExpiresAt := db.now + lease } }
  | complete (claimId : ℕ) (fingerprint : String) (owner : Owner) (old : Row)
      (hold : db.rows[claimId]? = some old) (hstatus : old.status = .claimed) :
    Writes db (.complete claimId fingerprint owner)
      { db with rows := db.rows.set claimId { old with
          status := .completed, completedAt := some db.now, resultFingerprint := some fingerprint } }

theorem execute_writes (i : ℕ) (db : Database) (o : Op) : Writes db o (execute i db o).2 := by
  cases o with
  | uuid4 | selectClaim | selectStop => exact .nothing _
  | insertClaim cohort ids owner =>
    simp only [execute, insertClaim]
    rcases db.insert_cases ⟨cohort, ids, .claimed, owner, db.now + lease, none, none, none⟩ with h | ⟨hnew, h⟩
    · rw [h]
      exact .nothing _
    · rw [h]
      exact .claim cohort ids owner hnew
  | insertStop cohort ids reason fingerprint =>
    simp only [execute, insertStop]
    rcases db.insert_cases ⟨cohort, ids, .adminStopped, .administrativeStop, db.now, some db.now,
      some fingerprint, some reason⟩ with h | ⟨hnew, h⟩
    · rw [h]
      exact .nothing _
    · rw [h]
      exact .stop cohort ids reason fingerprint hnew
  | takeOver cohort owner =>
    simp only [execute, takeOver]
    rcases db.update_cases _ _ with ⟨h, -⟩ | ⟨old, id, hold, hp, hstatus, -, h⟩
    · rw [h]
      exact .nothing _
    · rw [h]
      simp only [Bool.decide_and, Bool.and_eq_true, decide_eq_true_eq] at hp
      exact .takeOver cohort owner old id hold hstatus hp.2.2
  | complete claimId fingerprint owner =>
    simp only [execute, complete]
    rcases db.update_cases _ _ with ⟨h, -⟩ | ⟨old, id, hold, hp, hstatus, -, h⟩
    · rw [h]
      exact .nothing _
    · rw [h]
      simp only [Bool.decide_and, Bool.and_eq_true, decide_eq_true_eq] at hp
      obtain ⟨rfl, -, -⟩ := hp
      exact .complete id fingerprint owner old hold hstatus

theorem answer_writes (i : ℕ) (db : Database) (o : Op) (c : Chance) : Writes db o (answer i db o c).2 := by
  cases c with
  | fine => exact execute_writes i db o
  | fails lands =>
    cases lands with
    | true => exact execute_writes i db o
    | false => exact .nothing o

structure Database.Kept (db : Database) : Prop where
  oneRow : ∀ (id id' : ℕ) (r r' : Row), db.rows[id]? = some r → db.rows[id']? = some r' →
    r.cohort = r'.cohort → id = id'
  leases : ∀ r ∈ db.rows, r.leaseExpiresAt ≤ db.now + lease

theorem Database.Kept.append (h : db.Kept) {row : Row} (hnew : ∀ r ∈ db.rows, r.cohort ≠ row.cohort)
    (hls : row.leaseExpiresAt ≤ db.now + lease) : Database.Kept { db with rows := db.rows ++ [row] } where
  oneRow id id' r r' hr hr' hch := by
    rcases getElem?_snoc hr with ⟨-, hold⟩ | ⟨rfl, rfl⟩ <;> rcases getElem?_snoc hr' with ⟨-, hold'⟩ | ⟨rfl, rfl⟩
    · exact h.oneRow id id' r r' hold hold' hch
    · exact absurd hch (hnew r (mem_of_getElem? hold))
    · exact absurd hch.symm (hnew r' (mem_of_getElem? hold'))
    · rfl
  leases r hr := by
    rcases mem_append.1 hr with hr | hr
    · exact h.leases r hr
    · rw [mem_singleton.1 hr]
      exact hls

theorem Database.Kept.set (h : db.Kept) (hold : db.rows[id]? = some old)
    (hch : new.cohort = old.cohort) (hls : new.leaseExpiresAt ≤ db.now + lease) :
    Database.Kept { db with rows := db.rows.set id new } where
  oneRow id1 id2 r1 r2 hr1 hr2 heq := by
    rcases getElem?_set_cases hr1 with ⟨rfl, rfl⟩ | ⟨-, hot1⟩ <;>
      rcases getElem?_set_cases hr2 with ⟨rfl, rfl⟩ | ⟨-, hot2⟩
    · rfl
    · exact h.oneRow _ _ _ _ hold hot2 (hch.symm.trans heq)
    · exact h.oneRow _ _ _ _ hot1 hold (heq.trans hch)
    · exact h.oneRow _ _ _ _ hot1 hot2 heq
  leases r hr := by
    rcases mem_or_eq_of_mem_set hr with hr | rfl
    · exact h.leases r hr
    · exact hls

theorem Writes.kept (hw : Writes db o db') (h : db.Kept) : db'.Kept := by
  cases hw with
  | nothing => exact h
  | claim cohort ids owner hnew => exact h.append hnew (le_refl _)
  | stop cohort ids reason fingerprint hnew => exact h.append hnew (Nat.le_add_right _ _)
  | takeOver cohort owner old id hold hstatus hexpired =>
    refine h.set hold ?_ ?_
    · rfl
    · exact le_refl _
  | complete claimId fingerprint owner old hold hstatus =>
    refine h.set hold ?_ ?_
    · rfl
    · exact h.leases old (mem_of_getElem? hold)

def Op.Beside (i : ℕ) : Op → Prop
  | .insertClaim _ _ owner => owner ≠ .uuid i
  | .takeOver _ owner => owner ≠ .uuid i
  | _ => True

theorem takeOver_later {now : ℕ} (owner : Owner) (hstatus : old.status = .claimed)
    (hexpired : old.leaseExpiresAt < now) :
    old.Later { old with leaseOwner := owner, leaseExpiresAt := now + lease } where
  cohort := rfl
  candidateIds := rfl
  terminal h := absurd hstatus h
  notStopped h := by
    simp only [h]
    decide
  lease := .inr (Nat.add_lt_add_right hexpired lease)

theorem complete_later (completedAt : Option ℕ) (fingerprint : Option String) (hstatus : old.status = .claimed) :
    old.Later { old with status := .completed, completedAt := completedAt, resultFingerprint := fingerprint } where
  cohort := rfl
  candidateIds := rfl
  terminal h := absurd hstatus h
  notStopped _ := Status.noConfusion
  lease := .inl ⟨rfl, rfl⟩

theorem Writes.later (hw : Writes db o db') : Rows.Evolves Row.Later db.rows db'.rows := by
  cases hw with
  | nothing => exact Std.Refl.refl _
  | claim | stop => exact .append _ _
  | takeOver cohort owner old id hold hstatus hexpired => exact .set hold (takeOver_later owner hstatus hexpired)
  | complete claimId fingerprint owner old hold hstatus => exact .set hold (complete_later _ _ hstatus)

theorem Writes.inserted (hw : Writes db o db') (hr : db'.rows[id]? = some r)
    (hnew : db.rows[id]? = none) : r.status ≠ .completed := by
  have hlast : ∀ row : Row, (db.rows ++ [row])[id]? = some r → r = row := by
    intro row hrow
    rcases getElem?_snoc hrow with ⟨-, hold⟩ | ⟨-, rfl⟩
    · exact absurd (hold.symm.trans hnew) (some_ne_none _)
    · rfl
  have hset : ∀ (id' : ℕ) (old row : Row), db.rows[id']? = some old → (db.rows.set id' row)[id]? ≠ some r := by
    intro id' old row hold hrow
    rcases getElem?_set_cases hrow with ⟨rfl, -⟩ | ⟨-, hot⟩
    · exact absurd (hold.symm.trans hnew) (some_ne_none _)
    · exact absurd (hot.symm.trans hnew) (some_ne_none _)
  cases hw with
  | nothing => exact absurd (hr.symm.trans hnew) (some_ne_none _)
  | claim | stop =>
    rw [hlast _ hr]
    exact Status.noConfusion
  | takeOver cohort owner old id' hold _ _ => exact absurd hr (hset id' old _ hold)
  | complete claimId fingerprint owner old hold _ => exact absurd hr (hset claimId old _ hold)

theorem Writes.laterBeside (hw : Writes db o db') (ho : o.Beside i) :
    Rows.Evolves (Row.LaterBeside i) db.rows db'.rows := by
  cases hw with
  | nothing => exact Std.Refl.refl _
  | claim | stop => exact .append _ _
  | takeOver cohort owner old id hold hstatus hexpired =>
    exact .set hold ⟨takeOver_later owner hstatus hexpired, fun howner => absurd howner ho⟩
  | complete claimId fingerprint owner old hold hstatus =>
    exact .set hold ⟨complete_later _ _ hstatus, fun _ => ⟨rfl, rfl⟩⟩

end

def Op.OfCall (i : ℕ) : Op → Prop
  | .insertClaim _ _ owner => owner = .uuid i
  | .takeOver _ owner => owner = .uuid i
  | _ => True

theorem Op.OfCall.beside {j : ℕ} (h : o.OfCall i) (hij : j ≠ i) : o.Beside j := by
  cases o with
  | insertClaim | takeOver =>
    intro howner
    exact hij (Owner.uuid.inj (howner.symm.trans h))
  | uuid4 | selectClaim | complete | insertStop | selectStop => trivial

def contract : Contract Database Failure Op Ans Request where
  inv := Database.Kept
  rely i db db' := Rows.Evolves (Row.LaterBeside i) db.rows db'.rows
  pre i _ _ _ o := o.OfCall i

theorem rely_refl (i : ℕ) (db : Database) : contract.rely i db db := Std.Refl.refl (r := Rows.Evolves _) db.rows

theorem rely_trans (i : ℕ) (db1 db2 db3 : Database) (h1 : contract.rely i db1 db2) (h2 : contract.rely i db2 db3) :
    contract.rely i db1 db3 := IsTrans.trans (r := Rows.Evolves _) db1.rows db2.rows db3.rows h1 h2

theorem kept : Kept world contract fun _ => False where
  refl := rely_refl
  trans := rely_trans
  keeps i _ _ db o c hinv hpre :=
    ⟨(answer_writes i db o c).kept hinv, fun _ hj => (answer_writes i db o c).laterBeside (hpre.beside hj)⟩
  own _ _ _ _ _ _ ho := ho.elim

def lastCallAt (h : List (Call Database Failure Op Ans)) : ℕ := (h.getLast?.map fun c => c.before.now).getD 0

structure Granted (i : ℕ) (cohort : Cohort) (claim : FormalReadClaim) (obtainedAt : ℕ) (db : Database) : Prop where
  owner : claim.owner = .uuid i
  row : ∃ row, db.rows[claim.id]? = some row ∧ row.cohort = cohort ∧ row.candidateIds = claim.candidateIds ∧
    row.status = .claimed ∧ row.leaseOwner = .uuid i ∧ row.leaseExpiresAt = obtainedAt + lease

def returned (i : ℕ) (r : Request) (h : List (Call Database Failure Op Ans)) (db : Database) :
    Except Failure Answer → Prop
  | .ok (.claim claim) => ∀ cohort ids, r = .openClaim cohort ids → Granted i cohort claim (lastCallAt h) db
  | .ok .completed => ∀ claimId fingerprint owner, r = .completeClaim claimId fingerprint owner →
      ∃ row, db.rows[claimId]? = some row ∧ row.status = .completed ∧ row.leaseOwner = owner ∧
        row.resultFingerprint = some fingerprint
  | _ => True

theorem lastCallAt_snoc (h : List (Call Database Failure Op Ans)) (c : Call Database Failure Op Ans) :
    lastCallAt (h ++ [c]) = c.before.now := by
  simp [lastCallAt]

section

variable {db : Database} {h : List (Call Database Failure Op Ans)} {row : Returned}

theorem insertClaim_granted {ids : List ℤ} (hrow : (db.insertClaim cohort ids (.uuid i)).1 = some row) :
    Granted i cohort (row.claim false (.uuid i)) db.now (db.insertClaim cohort ids (.uuid i)).2 := by
  revert hrow
  unfold insertClaim
  rcases db.insert_cases ⟨cohort, ids, .claimed, .uuid i, db.now + lease, none, none, none⟩ with h | ⟨-, h⟩
  · rw [h]
    intro hrow
    cases hrow
  · rw [h]
    intro hrow
    cases hrow
    exact ⟨rfl, _, getElem?_concat_length, rfl, rfl, rfl, rfl, rfl⟩

theorem takeOver_granted (hrow : (db.takeOver cohort (.uuid i)).1 = .ok (some row)) :
    Granted i cohort (row.claim true (.uuid i)) db.now (db.takeOver cohort (.uuid i)).2 := by
  revert hrow
  unfold takeOver
  rcases db.update_cases _ _ with ⟨-, h⟩ | ⟨old, id, hold, hp, hstatus, -, h⟩
  · exact fun hrow => absurd hrow (h row)
  · rw [h]
    intro hrow
    cases hrow
    simp only [Bool.decide_and, Bool.and_eq_true, decide_eq_true_eq] at hp
    have hlt : id < db.rows.length := (List.getElem?_eq_some_iff.1 hold).1
    exact ⟨rfl, _, getElem?_set_self hlt, hp.1, rfl, hstatus, rfl, rfl⟩

theorem complete_completed {fingerprint : String} (hrow : (db.complete claimId fingerprint owner).1 = .ok (some row)) :
    ∃ row, (db.complete claimId fingerprint owner).2.rows[claimId]? = some row ∧ row.status = .completed ∧
      row.leaseOwner = owner ∧ row.resultFingerprint = some fingerprint := by
  revert hrow
  unfold complete
  rcases db.update_cases _ _ with ⟨-, h⟩ | ⟨old, id, hold, hp, -, -, h⟩
  · exact fun hrow => absurd hrow (h row)
  · rw [h]
    intro _
    simp only [Bool.decide_and, Bool.and_eq_true, decide_eq_true_eq] at hp
    obtain ⟨rfl, -, howner⟩ := hp
    have hlt : id < db.rows.length := (List.getElem?_eq_some_iff.1 hold).1
    exact ⟨_, getElem?_set_self hlt, rfl, howner, rfl⟩

theorem safe_openClaim (cohort : Cohort) (ids : List ℤ) (r : Request) :
    Safe world contract i r (fun h db out => ∀ claim, out = .ok claim → Granted i cohort claim (lastCallAt h) db)
      (openClaim cohort ids) h db := by
  refine .bind (kept.perform fun db1 _ _ => ⟨trivial, fun c1 _ => ?_⟩)
  cases c1 with
  | fails => intro claim hc; cases hc
  | fine =>
    refine .bind (kept.perform fun db2 _ _ => ⟨rfl, fun c2 _ => ?_⟩)
    cases c2 with
    | fails => intro claim hc; cases hc
    | fine =>
      simp only [world, answer, execute]
      cases hin : (db2.insertClaim cohort ids (.uuid i)).1 with
      | some row =>
        intro claim hc
        cases hc
        rw [lastCallAt_snoc]
        exact insertClaim_granted hin
      | none =>
        refine .bind (kept.perform fun db3 _ _ => ⟨rfl, fun c3 _ => ?_⟩)
        cases c3 with
        | fails => intro claim hc; cases hc
        | fine =>
          simp only [world, answer, execute]
          cases htk : (db3.takeOver cohort (.uuid i)).1 with
          | error => intro claim hc; cases hc
          | ok taken =>
            cases taken with
            | some row =>
              intro claim hc
              cases hc
              rw [lastCallAt_snoc]
              exact takeOver_granted htk
            | none =>
              refine .bind (kept.perform fun db4 _ _ => ⟨trivial, fun c4 _ => ?_⟩)
              cases c4 with
              | fails | fine => intro claim hc; cases hc

theorem safe_completeClaim (claimId : ℕ) (fingerprint : String) (owner : Owner) (r : Request) :
    Safe world contract i r (fun _ db out => out = .ok () →
      ∃ row, db.rows[claimId]? = some row ∧ row.status = .completed ∧ row.leaseOwner = owner ∧
        row.resultFingerprint = some fingerprint) (completeClaim claimId fingerprint owner) h db := by
  refine .bind (kept.perform fun db1 _ _ => ⟨trivial, fun c1 _ => ?_⟩)
  cases c1 with
  | fails => intro hc; cases hc
  | fine =>
    simp only [world, answer, execute]
    cases hdn : (db1.complete claimId fingerprint owner).1 with
    | error => intro hc; cases hc
    | ok done =>
      cases done with
      | none => intro hc; cases hc
      | some => exact fun _ => complete_completed hdn

theorem safe_recordAdministrativeStop (cohort : Cohort) (ids : List ℤ) (reason fingerprint : String) (r : Request) :
    Safe world contract i r (fun _ _ _ => True) (recordAdministrativeStop cohort ids reason fingerprint) h db := by
  refine .bind (kept.perform fun db1 _ _ => ⟨trivial, fun c1 _ => ?_⟩)
  cases (world.answer i db1 (Op.insertStop cohort ids reason fingerprint) c1).1 with
  | error => trivial
  | ok inserted =>
    cases inserted with
    | some => trivial
    | none =>
      refine .bind (kept.perform fun db2 _ _ => ⟨trivial, fun c2 _ => ?_⟩)
      cases (world.answer i db2 (Op.selectStop cohort) c2).1 with
      | error => trivial
      | ok stored =>
        cases stored with
        | none => trivial
        | some row =>
          simp only
          split_ifs <;> trivial

theorem safe_program (i : ℕ) (r : Request) (db : Database) :
    Safe world contract i r (returned i r) r.program [] db := by
  cases r with
  | openClaim cohort ids =>
    refine .bind (.mono (fun h db out hout => ?_) (safe_openClaim cohort ids _))
    cases out with
    | error => trivial
    | ok claim =>
      rintro _ _ ⟨⟩
      exact hout claim rfl
  | completeClaim claimId fingerprint owner =>
    refine .bind (.mono (fun h db out hout => ?_) (safe_completeClaim claimId fingerprint owner _))
    cases out with
    | error => trivial
    | ok _ =>
      rintro _ _ _ ⟨⟩
      exact hout rfl
  | recordAdministrativeStop cohort ids reason fingerprint =>
    refine .bind (.mono (fun h db out _ => ?_) (safe_recordAdministrativeStop cohort ids reason fingerprint _))
    cases out with
    | error | ok => trivial

end

theorem sound : Sound world Request.program contract returned where
  refl := rely_refl
  trans := rely_trans
  env db passed h := by
    refine ⟨⟨h.oneRow, fun r hr => ?_⟩, fun i => rely_refl i db⟩
    have hls := h.leases r hr
    show r.leaseExpiresAt ≤ db.now + passed + lease
    omega
  crash _ db h := ⟨h, fun j _ => rely_refl j db⟩
  start i r db _ := safe_program i r db

/-- Call `i` is an `open_claim` of the cohort that returned `claim`; it obtained the lease at `obtainedAt`. -/
def Opened (cfg : Reached) (i : ℕ) (cohort : Cohort) (claim : FormalReadClaim) (obtainedAt : ℕ) : Prop :=
  ∃ ids h, cfg.threads[i]? = some ⟨.openClaim cohort ids, h, some (.ret (.claim claim))⟩ ∧ obtainedAt = lastCallAt h

def Completed (cfg : Reached) (i claimId : ℕ) (owner : Owner) : Prop :=
  ∃ fingerprint h, cfg.threads[i]? = some ⟨.completeClaim claimId fingerprint owner, h, some (.ret .completed)⟩

/-- A cohort is read at most once, on one prefix: `moment n` is what is there after `n` moves. -/
structure ReadOnce (moment : ℕ → Reached) : Prop where
  oneRow : ∀ n (id id' : ℕ) (r r' : Row), (moment n).state.rows[id]? = some r → (moment n).state.rows[id']? = some r' →
    r.cohort = r'.cohort → id = id'
  /-- A row keeps its place and its ids; what is completed or stopped stays as it is, its fingerprint
  included, and what was claimed is never stopped. -/
  stays : ∀ m n (id : ℕ) (r : Row), m ≤ n → (moment m).state.rows[id]? = some r →
    ∃ r', (moment n).state.rows[id]? = some r' ∧ r'.cohort = r.cohort ∧ r'.candidateIds = r.candidateIds ∧
      (r.status ≠ .claimed → r' = r) ∧ (r.status = .claimed → r'.status ≠ .adminStopped)
  claimedFirst : ∀ n (id : ℕ) (r : Row), (moment n).state.rows[id]? = some r → r.status = .completed →
    ∃ m r₀, m < n ∧ (moment m).state.rows[id]? = some r₀ ∧ r₀.status = .claimed
  /-- A claim has the ids its row has, whenever the row is there. -/
  firstIds : ∀ n i cohort claim t, Opened (moment n) i cohort claim t →
    (∃ r, (moment n).state.rows[claim.id]? = some r) ∧ ∀ (m : ℕ) (r : Row), m ≤ n →
      (moment m).state.rows[claim.id]? = some r → r.cohort = cohort ∧ r.candidateIds = claim.candidateIds
  oneLease : ∀ n i j cohort ci cj ti tj, Opened (moment n) i cohort ci ti → Opened (moment n) j cohort cj tj →
    (moment n).state.now ≤ ti + lease → (moment n).state.now ≤ tj + lease → i = j
  /-- The leases of all other calls had run out before the one of the call that completes began. -/
  lastRun : ∀ n k i cohort claim t, Opened (moment n) i cohort claim t → Completed (moment n) k claim.id claim.owner →
    ∀ j cj tj, Opened (moment n) j cohort cj tj → j = i ∨ tj + lease < t
  afterwards : ∀ m n (id : ℕ) (r : Row), m ≤ n → (moment m).state.rows[id]? = some r → r.status ≠ .claimed →
    ∀ i claim t, Opened (moment n) i r.cohort claim t → Opened (moment m) i r.cohort claim t

section

variable (now : ℕ) (moves : List (Move Request Chance ℕ))

theorem start_kept : (⟨[], now⟩ : Database).Kept :=
  ⟨fun _ _ _ _ h => absurd h.symm (some_ne_none _), nofun⟩

theorem reached_kept : (reached now moves).state.Kept := (sound.reached (start_kept now) moves).inv

theorem reached_later {m n : ℕ} (hmn : m ≤ n) :
    Rows.Evolves Row.Later (reached now (moves.take m)).state.rows (reached now (moves.take n)).state.rows :=
  Config.run_moves (R := fun db db' : Database => Rows.Evolves Row.Later db.rows db'.rows)
    (fun db => Std.Refl.refl db.rows) (fun db1 db2 db3 h1 h2 => IsTrans.trans db1.rows db2.rows db3.rows h1 h2)
    (fun i db o c => (answer_writes i db o c).later) (fun db _ => Std.Refl.refl db.rows)
    (fun _ db => Std.Refl.refl db.rows) _ _ hmn

theorem reached_claimed_first (n : ℕ)
    (hr : (reached now (moves.take n)).state.rows[id]? = some r) (hdn : r.status = .completed) :
    ∃ m r0, m < n ∧ (reached now (moves.take m)).state.rows[id]? = some r0 ∧ r0.status = .claimed := by
  induction n generalizing r with
  | zero => cases hr
  | succ n ih =>
    cases hold : (reached now (moves.take n)).state.rows[id]? with
    | none =>
      -- the row is new, and no row is inserted as completed
      have hst : ∀ m : Move Request Chance ℕ, r.status ≠ .completed ∨
          ((reached now (moves.take n)).step world Request.program m).state.rows[id]? ≠ some r := by
        intro m
        by_contra hbt
        push Not at hbt
        exact Config.step_moves
          (R := fun db db' : Database => db'.rows[id]? = some r → db.rows[id]? = none → r.status ≠ .completed)
          (fun db h h' => absurd (h.symm.trans h') (some_ne_none _))
          (fun i db o c h h' => (answer_writes i db o c).inserted h h')
          (fun db _ h h' => absurd (h.symm.trans h') (some_ne_none _))
          (fun _ db h h' => absurd (h.symm.trans h') (some_ne_none _)) _ m hbt.2 hold hbt.1
      rcases Config.run_take_succ (W := world) (⟨⟨[], now⟩, []⟩ : Reached) moves n with hsame | ⟨m, -, hnx⟩
      · rw [reached, hsame] at hr
        exact absurd (hr.symm.trans hold) (some_ne_none _)
      · rw [reached, hnx] at hr
        rcases hst m with hne | hne
        · exact absurd hdn hne
        · exact absurd hr hne
    | some r0 =>
      obtain ⟨r', hr', hlater⟩ := reached_later now moves (Nat.le_succ n) id r0 hold
      obtain rfl := some.inj (hr.symm.trans hr')
      by_cases hcl : r0.status = .claimed
      · exact ⟨n, r0, Nat.lt_succ_self n, hold, hcl⟩
      · obtain rfl := hlater.terminal hcl
        obtain ⟨m, r1, hm, hr1, hcl1⟩ := ih hold hdn
        exact ⟨m, r1, Nat.lt_succ_of_lt hm, hr1, hcl1⟩

variable {now moves}

/-- What an opened claim still says: its row has its ids, and its lease, unless that had run out when
the lease of the row began. -/
theorem Opened.row {t : ℕ} (hop : Opened (reached now moves) i cohort claim t) :
    claim.owner = .uuid i ∧ ∃ r, (reached now moves).state.rows[claim.id]? = some r ∧ r.cohort = cohort ∧
      r.candidateIds = claim.candidateIds ∧ (r.leaseOwner = .uuid i ∧ r.leaseExpiresAt = t + lease ∨
        r.leaseOwner ≠ .uuid i ∧ t + lease + lease < r.leaseExpiresAt) := by
  obtain ⟨ids, h, hthread, rfl⟩ := hop
  obtain ⟨db0, hrl, hrt⟩ := ((sound.reached (start_kept now) moves).threads i _ hthread).safe _ rfl
  obtain ⟨howner, r0, hr0, hch, hids, -, hls, hep⟩ := hrt cohort ids rfl
  obtain ⟨r, hr, hlater, hbs⟩ := hrl claim.id r0 hr0
  refine ⟨howner, r, hr, hlater.cohort.trans hch, hlater.candidateIds.trans hids, ?_⟩
  by_cases hmi : r.leaseOwner = .uuid i
  · exact .inl ⟨hmi, (hbs hmi).2.trans hep⟩
  · refine .inr ⟨hmi, ?_⟩
    rcases hlater.lease with ⟨hsame, -⟩ | hlt
    · exact absurd (hsame.trans hls) hmi
    · rwa [hep] at hlt

theorem Completed.row {k : ℕ} (hdn : Completed (reached now moves) k claimId owner) :
    ∃ r, (reached now moves).state.rows[claimId]? = some r ∧ r.status = .completed ∧ r.leaseOwner = owner := by
  obtain ⟨fingerprint, h, hthread⟩ := hdn
  obtain ⟨db0, hrl, hrt⟩ := ((sound.reached (start_kept now) moves).threads k _ hthread).safe _ rfl
  obtain ⟨r, hr, hstatus, howner, -⟩ := hrt claimId fingerprint owner rfl
  obtain ⟨r', hr', hlater, -⟩ := hrl claimId r hr
  obtain rfl := hlater.terminal (by rw [hstatus]; exact Status.noConfusion)
  exact ⟨r', hr', hstatus, howner⟩

theorem Opened.moment {t n : ℕ} (hop : Opened (reached now (moves.take n)) i cohort claim t) :
    ∃ m r, (reached now (moves.take m)).state.rows[claim.id]? = some r ∧ r.cohort = cohort ∧ r.status = .claimed ∧
      m ≤ n ∧ ∀ m', m ≤ m' → m' ≤ n → Opened (reached now (moves.take m')) i cohort claim t := by
  obtain ⟨ids, h, hthread, rfl⟩ := hop
  obtain ⟨m, hm, hrt, hsn⟩ := sound.finished (start_kept now) (moves.take n) hthread rfl
  have hta : ∀ m', m' ≤ n → (moves.take n).take m' = moves.take m' := by
    intro m' hm'
    rw [take_take, Nat.min_eq_left hm']
  have hmn : m ≤ n := hm.trans (length_take_le n moves)
  rw [hta m hmn] at hrt
  obtain ⟨-, r, hr, hch, -, hstatus, -, -⟩ := hrt cohort ids rfl
  refine ⟨m, r, hr, hch, hstatus, hmn, fun m' hm' hm'n => ⟨ids, h, ?_, rfl⟩⟩
  have hth := hsn m' hm'
  rwa [hta m' hm'n] at hth

end

/-- **A registered cohort is read at most once, on one prefix.** -/
theorem cohort_read_once (now : ℕ) (moves : List (Move Request Chance ℕ)) :
    ReadOnce fun n => reached now (moves.take n) where
  oneRow n := (reached_kept now (moves.take n)).oneRow
  stays m n id r hmn hr := by
    obtain ⟨r', hr', hlater⟩ := reached_later now moves hmn id r hr
    exact ⟨r', hr', hlater.cohort, hlater.candidateIds, hlater.terminal, hlater.notStopped⟩
  claimedFirst n id r hr hdone := reached_claimed_first now moves n hr hdone
  firstIds n i cohort claim t hopen := by
    obtain ⟨-, r, hr, hcohort, hids, -⟩ := hopen.row
    refine ⟨⟨r, hr⟩, fun m r0 hmn hr0 => ?_⟩
    obtain ⟨r', hr', hlater⟩ := reached_later now moves hmn claim.id r0 hr0
    obtain rfl := some.inj (hr.symm.trans hr')
    exact ⟨hlater.cohort.symm.trans hcohort, hlater.candidateIds.symm.trans hids⟩
  oneLease n i j cohort ci cj ti tj hi hj hnow_i hnow_j := by
    have hkept := reached_kept now (moves.take n)
    obtain ⟨-, ri, hri, hci, -, hlease_i⟩ := hi.row
    obtain ⟨-, rj, hrj, hcj, -, hlease_j⟩ := hj.row
    have hid : ci.id = cj.id := hkept.oneRow _ _ ri rj hri hrj (hci.trans hcj.symm)
    rw [hid] at hri
    obtain rfl := some.inj (hri.symm.trans hrj)
    have hlast := hkept.leases ri (mem_of_getElem? hri)
    -- a lease that the row no longer has ran out before the row's own began
    rcases hlease_i with ⟨ho_i, -⟩ | ⟨-, hlt⟩
    · rcases hlease_j with ⟨ho_j, -⟩ | ⟨-, hlt⟩
      · exact Owner.uuid.inj (ho_i.symm.trans ho_j)
      · omega
    · omega
  lastRun n k i cohort claim t hopen hdone j cj tj hj := by
    have hkept := reached_kept now (moves.take n)
    obtain ⟨howner, r, hr, hcohort, -, hlease⟩ := hopen.row
    obtain ⟨-, rj, hrj, hcj, -, hlease_j⟩ := hj.row
    obtain ⟨r', hr', -, howner'⟩ := hdone.row
    obtain rfl := some.inj (hr.symm.trans hr')
    have hid : cj.id = claim.id := hkept.oneRow _ _ rj r hrj hr (hcj.trans hcohort.symm)
    rw [hid] at hrj
    obtain rfl := some.inj (hr.symm.trans hrj)
    rw [howner] at howner'
    rcases hlease with ⟨-, hexpires⟩ | ⟨hne, -⟩
    · rcases hlease_j with ⟨ho_j, -⟩ | ⟨-, hlt⟩
      · exact .inl (Owner.uuid.inj (ho_j.symm.trans howner'))
      · exact .inr (by omega)
    · exact absurd howner' hne
  afterwards m n id r hmn hr hterminal i claim t hopen := by
    obtain ⟨m', r0, hr0, hcohort, hstatus, hm'n, hsince⟩ := hopen.moment
    rcases Nat.lt_or_ge m m' with hlt | hge
    · -- after `m` the row is as it was, so it was not claimed when the claim was opened
      obtain ⟨r', hr', hlater⟩ := reached_later now moves hlt.le id r hr
      obtain rfl := hlater.terminal hterminal
      have hid := (reached_kept now (moves.take m')).oneRow _ _ _ _ hr' hr0 hcohort.symm
      rw [hid] at hr'
      obtain rfl := some.inj (hr'.symm.trans hr0)
      exact absurd hstatus hterminal
    · exact hsince m hge hmn

/-! A run that stops after it claimed `[1, 2]`; another one takes the claim over when the lease has run
out, on the same ids, and completes it, which the first no longer can. -/

example :
    let cohort : Cohort := ⟨"HYP-012", "v2", 0⟩
    let moves := [.start (.openClaim cohort [1, 2]), .call 0 .fine, .call 0 .fine, .env (lease + 1),
      .start (.openClaim cohort [3]), .call 1 .fine, .call 1 .fine, .call 1 .fine,
      .start (.completeClaim 0 "late" (.uuid 0)), .call 2 .fine,
      .start (.completeClaim 0 "read" (.uuid 1)), .call 3 .fine]
    (reached 0 moves).state.rows.map (fun r => (r.candidateIds, r.status, r.leaseOwner, r.resultFingerprint)) =
      [([1, 2], .completed, .uuid 1, some "read")] := by
  decide +kernel

end Schurfer.FormalRead
