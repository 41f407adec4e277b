import Schurfer.Probe.Budget

/-!
# A probe stop is final

What the triggers of migration 0063 keep over one write, a commit keeps and a run keeps. A stopped record admits no
entry.
-/

namespace Schurfer.Probe

variable {record : Record}

structure RecordKept (old new : Record) : Prop where
  terms : new.terms = old.terms
  revoked : old.revokedAt ≠ none → new.revocation = old.revocation
  lReached : old.lReachedAt ≠ none → new.lReached = old.lReached

/-- What the trigger keeps of a reservation, whatever its state does. -/
structure RowKept (old new : Row) : Prop where
  chain : new.chain = old.chain
  attempt : old.attemptId ≠ none → new.attemptId = old.attemptId
  trade : old.tradeId ≠ none → new.tradeId = old.tradeId

def Record.Stopped (record : Record) : Prop := record.revokedAt ≠ none ∨ record.lReachedAt ≠ none

instance : Std.Refl RecordKept := ⟨fun _ => ⟨rfl, fun _ => rfl, fun _ => rfl⟩⟩

instance : IsTrans Record RecordKept := by
  refine ⟨fun r₁ r₂ r₃ h₁ h₂ => ⟨h₂.terms.trans h₁.terms, fun h => ?_, fun h => ?_⟩⟩
  · have h12 := h₁.revoked h
    refine (h₂.revoked ?_).trans h12
    unfold Record.revokedAt at h ⊢
    rw [h12]
    exact h
  · have h12 := h₁.lReached h
    refine (h₂.lReached ?_).trans h12
    unfold Record.lReachedAt at h ⊢
    rw [h12]
    exact h

instance : Std.Refl RowKept := ⟨fun _ => ⟨rfl, fun _ => rfl, fun _ => rfl⟩⟩

instance : IsTrans Row RowKept := by
  refine ⟨fun r₁ r₂ r₃ h₁ h₂ => ⟨h₂.chain.trans h₁.chain, fun h => ?_, fun h => ?_⟩⟩
  · have h12 := h₁.attempt h
    exact (h₂.attempt (h12 ▸ h)).trans h12
  · have h12 := h₁.trade h
    exact (h₂.trade (h12 ▸ h)).trans h12

theorem RecordKept.stopped {old new : Record} (h : RecordKept old new) (hs : old.Stopped) : new.Stopped := by
  rcases hs with hs | hs
  · refine .inl ?_
    unfold Record.revokedAt at hs ⊢
    rwa [h.revoked hs]
  · refine .inr ?_
    unfold Record.lReachedAt at hs ⊢
    rwa [h.lReached hs]

theorem Record.Stopped.admits_none (hs : record.Stopped) {market : String}
    {clock : Time} : ¬ record.AdmitsEntry market clock := by
  rintro ⟨hrev, -, hl, -⟩
  rcases hs with hs | hs
  · exact hs hrev
  · exact hs hl

variable {rules : Rules} {db db' : Db} {r' : Row}

theorem Write.records (h : Write db db') : Rows.Evolves RecordKept db.records db'.records := by
  cases h with
  | logged | row => exact Std.Refl.refl _
  | newRecord => exact .append _ _
  | record i old new hi hg =>
    obtain ⟨htr, hrev, hl⟩ := authorizationsGuard_ok.1 hg
    exact .set hi ⟨htr, hrev, hl⟩

theorem Commit.records (h : Commit rules db db') : Rows.Evolves RecordKept db.records db'.records := by
  cases h with
  | quiet hw =>
    induction hw with
    | refl => exact Std.Refl.refl _
    | tail _ hw ih => exact IsTrans.trans _ _ _ ih hw.records
  | insert | send | journal => exact Std.Refl.refl _

theorem Write.unique (h : Write db db') (hu : db.UniqueRecords) : db'.UniqueRecords := by
  cases h with
  | logged | row => exact hu
  | newRecord new _ huniq => exact hu.newRecord huniq
  | record i old new hi hg =>
    have htr : new.terms = old.terms := (authorizationsGuard_ok.1 hg).1
    unfold Db.UniqueRecords
    rw [Rows.map_set_eq hi (by rw [htr])]
    exact hu

theorem Commit.unique (h : Commit rules db db') (hu : db.UniqueRecords) : db'.UniqueRecords := by
  cases h with
  | quiet hw =>
    induction hw with
    | refl => exact hu
    | tail _ hw ih => exact hw.unique ih
  | insert | send | journal => exact hu

theorem Commit.stopped (h : Commit rules db db') (hu : db.UniqueRecords) {i : ℕ} (hi : db.records[i]? = some record)
    (hs : record.Stopped) {id : ℕ} (hr' : db'.reservations[id]? = some r') (hp : r'.probeId = record.probeId) :
    ∃ r, db.reservations[id]? = some r ∧ (r'.state = .sending → r.state = .sending) := by
  have hrec : db.record? r'.probeId = some record := hp ▸ hu.record?_eq hi
  cases hr : db.reservations[id]? with
  | none =>
    obtain ⟨-, -, -, found, hfn, hadm⟩ := h.inserted hr hr'
    rw [hrec, Option.some.injEq] at hfn
    exact absurd (hfn ▸ hadm) hs.admits_none
  | some r =>
    refine ⟨r, rfl, fun hs' => ?_⟩
    by_contra hne
    obtain ⟨-, found, hfn, hadm⟩ := h.sent hr hr' hne hs'
    obtain ⟨r2, hr2, hm⟩ := h.moves id r hr
    rw [hr', Option.some.injEq] at hr2
    have hsame : r.probeId = r'.probeId := by
      unfold Row.probeId
      rw [hr2, hm.chain]
    rw [hsame, hrec, Option.some.injEq] at hfn
    exact absurd (hfn ▸ hadm) hs.admits_none

section

variable (sha256 : String → String) (attempts : ℕ → Option Attempt) (trades : ℕ → Option Trade) (cs : List Cmd)

def probeAt (n : ℕ) : Db := dbAt sha256 (.start attempts trades) cs n

variable {sha256 attempts trades cs}

variable (sha256 attempts trades cs) in
theorem probeAt_commit (n : ℕ) : ∃ rules,
    Commit rules (probeAt sha256 attempts trades cs n) (probeAt sha256 attempts trades cs (n + 1)) := by
  unfold probeAt
  cases hc : cs[n]? with
  | none => rw [dbAt_stop hc]; exact ⟨⟨fun _ _ => False, fun _ _ => False, 0⟩, .quiet .refl⟩
  | some c => rw [dbAt_succ hc]; exact ⟨c.rules, c.commit sha256 _⟩

theorem records_kept {m n : ℕ} (hmn : m ≤ n) : Rows.Evolves RecordKept (probeAt sha256 attempts trades cs m).records
      (probeAt sha256 attempts trades cs n).records :=
  Run.persists Db.records (fun _ c _ => (c.commit sha256 _).records) hmn

theorem rows_kept {m n : ℕ} (hmn : m ≤ n) : Rows.Evolves RowKept (probeAt sha256 attempts trades cs m).reservations
      (probeAt sha256 attempts trades cs n).reservations := by
  refine Run.persists Db.reservations (fun _ c _ i r hr => ?_) hmn
  obtain ⟨r', hr', hm⟩ := (c.commit sha256 _).moves i r hr
  exact ⟨r', hr', hm.chain, hm.attempt, hm.trade⟩

theorem stopped_admits_none {m n i : ℕ} (hmn : m ≤ n)
    (hi : (probeAt sha256 attempts trades cs m).records[i]? = some record) (hs : record.Stopped)
    {id : ℕ} (hr' : (probeAt sha256 attempts trades cs (n + 1)).reservations[id]? = some r')
    (hp : r'.probeId = record.probeId) : ∃ r, (probeAt sha256 attempts trades cs n).reservations[id]? = some r ∧
      (r'.state = .sending → r.state = .sending) := by
  obtain ⟨now, hnow, hkp⟩ := records_kept hmn i record hi
  obtain ⟨rules, hc⟩ := probeAt_commit sha256 attempts trades cs n
  have hunique : (probeAt sha256 attempts trades cs n).UniqueRecords :=
    Run.invariant (by simp [Db.start, Db.UniqueRecords]) (fun _ c _ h => (c.commit sha256 _).unique h) n
  refine hc.stopped hunique hnow (hkp.stopped hs) hr' (hp.trans ?_)
  unfold Record.probeId
  rw [hkp.terms]

theorem sending_admitted {n id : ℕ} {r : Row}
    (hr : (probeAt sha256 attempts trades cs n).reservations[id]? = some r) (hs : r.state = .sending) :
    ∃ k < n, ∃ c r0 r1 record, cs[k]? = some c ∧
      (probeAt sha256 attempts trades cs k).reservations[id]? = some r0 ∧ r0.state ≠ .sending ∧
      (probeAt sha256 attempts trades cs (k + 1)).reservations[id]? = some r1 ∧ r1.state = .sending ∧
      (probeAt sha256 attempts trades cs k).record? r.probeId = some record ∧
      (probeAt sha256 attempts trades cs (k + 1)).record? r.probeId = some record ∧
      record.AdmitsEntry r.chain.nativeMarketId c.clk.trigger := by
  let P := fun db : Db => ∃ x, db.reservations[id]? = some x ∧ x.state = .sending
  have h0 : ¬ P (Db.start attempts trades) := by
    rintro ⟨x, hx, -⟩
    simp [Db.start] at hx
  have hP : P (Run.stateAt (Db.step sha256) (Db.start attempts trades) cs n) := ⟨r, hr, hs⟩
  obtain ⟨k, hk, c, hc, hbf, r1, hr1, hs1⟩ := Run.exists_step h0 hP
  have hcm := c.commit sha256 (probeAt sha256 attempts trades cs k)
  have hst : probeAt sha256 attempts trades cs (k + 1) =
      (probeAt sha256 attempts trades cs k).step sha256 c := dbAt_succ hc
  cases hr0 : (probeAt sha256 attempts trades cs k).reservations[id]? with
  | none =>
    -- an insert starts reserved
    have hres := (hcm.inserted hr0 hr1).1
    rw [hres] at hs1
    simp at hs1
  | some r0 =>
    have hne : r0.state ≠ .sending := fun h => hbf ⟨r0, hr0, h⟩
    obtain ⟨hrc, record, hrec, hadm⟩ := hcm.sent hr0 hr1 hne hs1
    obtain ⟨r2, hr2, hkp⟩ := rows_kept hk.le id r0 hr0
    rw [hr, Option.some.injEq] at hr2
    subst hr2
    refine ⟨k, hk, c, r0, r1, record, hc, hr0, hne, hst ▸ hr1, hs1, ?_, ?_, ?_⟩
    · unfold Row.probeId
      rw [hkp.chain]
      exact hrec
    · rw [hst]
      unfold Row.probeId Db.record?
      rw [hkp.chain, hrc]
      exact hrec
    · rw [hkp.chain]
      exact hadm

/-- **A probe stop is final.** In every run of the probe transactions and of arbitrary writes that pass the triggers:
what is set of a record or a reservation never changes, and once a record is stopped no later commit inserts a
reservation of its probe or moves one to `sending`. -/
theorem probe_stop_final (sha256 : String → String) (attempts : ℕ → Option Attempt)
    (trades : ℕ → Option Trade) (cs : List Cmd) :
    let db := probeAt sha256 attempts trades cs
    (∀ m n, m ≤ n → Rows.Evolves RecordKept (db m).records (db n).records ∧
      Rows.Evolves RowKept (db m).reservations (db n).reservations) ∧
    (∀ (n id : ℕ) (r' : Row), (db (n + 1)).reservations[id]? = some r' →
      match (db n).reservations[id]? with
      | none => r'.state = .reserved
      | some r => r'.state = r.state ∨ r.state.Follows r'.state) ∧
    (∀ (m n i : ℕ) (record : Record), m ≤ n → (db m).records[i]? = some record → record.Stopped →
      ∀ (id : ℕ) (r' : Row), (db (n + 1)).reservations[id]? = some r' → r'.probeId = record.probeId →
        ∃ r, (db n).reservations[id]? = some r ∧ (r'.state = .sending → r.state = .sending)) ∧
    (∀ (n id : ℕ) (r : Row), (db n).reservations[id]? = some r → r.state = .sending →
      ∃ k < n, ∃ c r₀ r₁ record, cs[k]? = some c ∧
        (db k).reservations[id]? = some r₀ ∧ r₀.state ≠ .sending ∧
        (db (k + 1)).reservations[id]? = some r₁ ∧ r₁.state = .sending ∧
        (db k).record? r.probeId = some record ∧ (db (k + 1)).record? r.probeId = some record ∧
        record.AdmitsEntry r.chain.nativeMarketId c.clk.trigger) := by
  intro db
  refine ⟨fun m n hmn => ⟨records_kept hmn, rows_kept hmn⟩, fun n id r' hr' => ?_,
    fun m n i record hmn hi hs id r' hr' hp => stopped_admits_none hmn hi hs hr' hp,
    fun n id r hr hs => sending_admitted hr hs⟩
  obtain ⟨rules, hc⟩ := probeAt_commit sha256 attempts trades cs n
  split
  · rename_i hnone
    exact (hc.inserted hnone hr').1
  · rename_i r hr
    obtain ⟨r2, hr2, hm⟩ := hc.moves id r hr
    rw [hr', Option.some.injEq] at hr2
    subst hr2
    exact hm.state

end

/-- The revoke of `sampleRun` comes before the send: the reservation is refused, nothing is sent. -/
theorem sampleRun_stop_final :
    let db := probeAt id (fun _ => none) (fun _ => none) sampleRun
    (db 15).reservations.map (·.state) = [.placed, .refusedBeforeSend] ∧
      Rows.Evolves RecordKept (db 14).records (db 15).records :=
  ⟨by decide +kernel, ((probe_stop_final id _ _ sampleRun).1 14 15 (by decide)).1⟩

end Schurfer.Probe
