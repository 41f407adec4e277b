import Schurfer.Probe.Commits

/-!
# The budgets of a probe hold in every run

`Budgeted` is the invariant. A write that passed the triggers never gives a reservation a slot or an entry it did not
hold, a trade that only moves forward frees slots, and `reserve` inserts only what the ledger admits.
-/

namespace Schurfer.Probe

open List

variable {db db' : Db} {old new : Row} {c : Cmd}

theorem RowMoves.spendsEntry (hm : RowMoves old new) (h : spendsEntry new = true) : spendsEntry old = true := by
  simp only [Probe.spendsEntry, decide_eq_true_eq] at h ⊢
  rcases hm.state with hs | ⟨ho, hn⟩ | ⟨ho, hn⟩
  · rwa [← hs]
  · exact .inl ho
  · exact .inr (.inl ho)

theorem RowMoves.holdsSlot (hm : RowMoves old new) (h : holdsSlot new (db.tradeOf new) = true) :
    holdsSlot old (db.tradeOf old) = true := by
  simp only [Probe.holdsSlot, decide_eq_true_eq] at h ⊢
  rcases hm.state with hs | ⟨ho, -⟩ | ⟨ho, -⟩
  · rw [← hs]
    rcases h with h | h | ⟨hp, ht⟩
    · exact .inl h
    · exact .inr (.inl h)
    · refine .inr (.inr ⟨hp, fun x hx => ht x ?_⟩)
      cases htr : old.tradeId with
      | none => rw [Db.tradeOf, htr] at hx; simp at hx
      | some => rw [Db.tradeOf, hm.trade (by simp [htr])]; exact hx
  · exact .inl ho
  · exact .inr (.inl ho)

def Trade.Forward (old new : Trade) : Prop :=
  (old.status = .closed → new.status = .closed) ∧
    (settled old = true → settled new = true ∧ new.pnlUsd = old.pnlUsd)

instance (old new : Trade) : Decidable (Trade.Forward old new) :=
  inferInstanceAs (Decidable (_ ∧ _))

def Db.TradesForward (db : Db) (trades : ℕ → Option Trade) : Prop :=
  ∀ r ∈ db.reservations, ∀ t ∈ r.tradeId, ∀ x ∈ db.trades t, ∃ y ∈ trades t, Trade.Forward x y

theorem holdsSlot_forward {trades : ℕ → Option Trade} (hf : db.TradesForward trades) {r : Row}
    (hr : r ∈ db.reservations) (h : holdsSlot r ({ db with trades := trades }.tradeOf r) = true) :
    holdsSlot r (db.tradeOf r) = true := by
  simp only [holdsSlot, decide_eq_true_eq] at h ⊢
  rcases h with h | h | ⟨hp, ht⟩
  · exact .inl h
  · exact .inr (.inl h)
  · refine .inr (.inr ⟨hp, fun x hx hclosed => ?_⟩)
    obtain ⟨t, hrt, hxt⟩ := Option.bind_eq_some_iff.1 hx
    obtain ⟨y, hy, hfwd⟩ := hf r hr t hrt x hxt
    exact ht y (Option.bind_eq_some_iff.2 ⟨t, hrt, hy⟩) (hfwd.1 hclosed)

theorem slotsHeld_eq (db : Db) (p : String) : (db.ledger p).slotsHeld =
      db.reservations.countP fun r => holdsSlot r (db.tradeOf r) && decide (r.probeId = p) :=
  countP_filter

theorem entriesSpent_eq (db : Db) (p : String) : (db.ledger p).entriesSpent =
      db.reservations.countP fun r => spendsEntry r && decide (r.probeId = p) :=
  countP_filter

theorem ledger_insert (db : Db) (new : Row) (hs : new.state = .reserved) (p : String) :
    ({ db with reservations := db.reservations ++ [new] } : Db).ledger p =
      if new.probeId = p then
        { db.ledger p with
          entriesSpent := (db.ledger p).entriesSpent + 1
          slotsHeld := (db.ledger p).slotsHeld + 1
          reservedOpen := (db.ledger p).reservedOpen + new.chain.reserveUsd }
      else db.ledger p := by
  have h1 : spendsEntry new = true := by simp [spendsEntry, hs]
  have h2 : ∀ t, holdsSlot new t = true := by simp [holdsSlot, hs]
  have h3 : ∀ t, holdsReserve new t = true := by simp [holdsReserve, hs]
  have h4 : ∀ t, isRealized new t = false := by simp [isRealized, hs]
  have h5 : ∀ t, isUnsettled new t = false := by simp [isUnsettled, hs]
  have htr : ∀ r, ({ db with reservations := db.reservations ++ [new] } : Db).tradeOf r = db.tradeOf r :=
    fun _ => rfl
  split
  · rename_i hp
    simp [Db.ledger, htr, hp, filter_append, countP_append, h1, h2, h3, h4, h5]
  · rename_i hp
    simp [Db.ledger, htr, hp, filter_append]

def Row.key (r : Row) : String × String := (r.chain.probeId, r.chain.idempotencyKey)

structure Budgeted (db : Db) : Prop where
  owned : ∀ r ∈ db.reservations, r.probeId ∈ db.records.map (·.terms.probeId)
  unique : db.UniqueRecords
  slots : ∀ p, (db.ledger p).slotsHeld ≤ Probe.slots
  entries : ∀ t ∈ db.records.map (·.terms), ((db.ledger t.probeId).entriesSpent : ℤ) ≤ t.maxEntries
  keys : (db.reservations.map Row.key).Nodup

section

variable (h : Budgeted db)

include h

theorem Budgeted.of_terms (hte : db'.records.map (·.terms) = db.records.map (·.terms))
    (hres : db'.reservations = db.reservations) (htr : db'.trades = db.trades) : Budgeted db' := by
  have hled : ∀ p, db'.ledger p = db.ledger p := by
    intro p
    unfold Db.ledger Db.tradeOf
    rw [hres, htr]
  have hids : db'.records.map (·.terms.probeId) = db.records.map (·.terms.probeId) := by
    have := congrArg (map RecordTerms.probeId) hte
    rwa [map_map, map_map] at this
  refine ⟨?_, ?_, fun p => hled p ▸ h.slots p, ?_, hres ▸ h.keys⟩
  · rw [hres, hids]
    exact h.owned
  · unfold Db.UniqueRecords
    rw [hids]
    exact h.unique
  · rw [hte]
    intro t ht
    rw [hled]
    exact h.entries t ht

theorem Budgeted.newRecord {record : Record} (hpos : 0 < record.terms.maxEntries)
    (huniq : ∀ r ∈ db.records, r.probeId ≠ record.probeId) :
    Budgeted { db with records := db.records ++ [record] } := by
  have hfr : record.probeId ∉ db.records.map (·.terms.probeId) := by
    intro hmem
    obtain ⟨r, hr, heq⟩ := mem_map.1 hmem
    exact huniq r hr heq
  refine ⟨fun r hr => ?_, h.unique.newRecord huniq, h.slots, ?_, h.keys⟩
  · rw [map_append]
    exact mem_append_left _ (h.owned r hr)
  · intro t ht
    rw [map_append, mem_append] at ht
    rcases ht with ht | ht
    · exact h.entries t ht
    · simp only [map_cons, map_nil, mem_singleton] at ht
      subst ht
      have hzr : (db.ledger record.terms.probeId).entriesSpent = 0 := by
        rw [entriesSpent_eq, countP_eq_zero]
        intro r hr hp
        simp only [Bool.and_eq_true, decide_eq_true_eq] at hp
        have hown := h.owned r hr
        rw [hp.2] at hown
        exact hfr hown
      change ((db.ledger record.terms.probeId).entriesSpent : ℤ) ≤ _
      rw [hzr]
      exact_mod_cast hpos.le

theorem Budgeted.updateRow {id : ℕ} (hi : db.reservations[id]? = some old)
    (hm : RowMoves old new) : Budgeted { db with reservations := db.reservations.set id new } := by
  have hle : ∀ {f : Row → Bool}, (f new = true → f old = true) →
      (db.reservations.set id new).countP f ≤ db.reservations.countP f := Rows.countP_set_le hi
  have hpr : new.probeId = old.probeId := by
    unfold Row.probeId
    rw [hm.chain]
  refine ⟨fun r hr => ?_, h.unique, fun p => ?_, fun t ht => ?_, ?_⟩
  · rcases mem_or_eq_of_mem_set hr with hr | rfl
    · exact h.owned r hr
    · rw [hpr]
      exact h.owned old (mem_of_getElem? hi)
  · refine le_trans ?_ (h.slots p)
    rw [slotsHeld_eq, slotsHeld_eq]
    refine hle ?_
    simp only [Bool.and_eq_true, decide_eq_true_eq, hpr]
    exact fun hh => ⟨hm.holdsSlot hh.1, hh.2⟩
  · refine le_trans ?_ (h.entries t ht)
    rw [entriesSpent_eq, entriesSpent_eq]
    refine Int.ofNat_le.2 (hle ?_)
    simp only [Bool.and_eq_true, decide_eq_true_eq, hpr]
    exact fun hh => ⟨hm.spendsEntry hh.1, hh.2⟩
  · change ((db.reservations.set id new).map Row.key).Nodup
    rw [Rows.map_set_eq hi (by unfold Row.key; rw [hm.chain])]
    exact h.keys

theorem Budgeted.insertRow (hs : new.state = .reserved) (hadm : Admitted db new)
    (huniq : ∀ r ∈ db.reservations, r.probeId = new.probeId → r.chain.idempotencyKey ≠ new.chain.idempotencyKey) :
    Budgeted { db with reservations := db.reservations ++ [new] } := by
  obtain ⟨record, hrec, -, hsl, hent, -⟩ := hadm
  have hmem : record ∈ db.records := mem_of_find?_eq_some hrec
  have hid : record.probeId = new.probeId := by simpa using find?_some hrec
  refine ⟨fun r hr => ?_, h.unique, fun p => ?_, fun t ht => ?_, ?_⟩
  · rcases mem_append.1 hr with hr | hr
    · exact h.owned r hr
    · rw [mem_singleton.1 hr, ← hid]
      exact mem_map_of_mem hmem
  · rw [ledger_insert db new hs p]
    split
    · rename_i hp
      rw [hp] at hsl
      exact hsl
    · exact h.slots p
  · rw [ledger_insert db new hs]
    split
    · rename_i hp
      -- probe ids are unique, so these are the terms the admission read
      obtain ⟨r', hr', rfl⟩ := mem_map.1 ht
      have hsame : r' = record := inj_on_of_nodup_map h.unique hr' hmem (hp.symm.trans hid.symm)
      subst hsame
      rw [hp] at hent
      push_cast
      omega
    · exact h.entries t ht
  · change ((db.reservations ++ [new]).map Row.key).Nodup
    rw [map_append, nodup_append]
    refine ⟨h.keys, by simp, ?_⟩
    intro a ha b hb heq
    obtain ⟨r, hr, rfl⟩ := mem_map.1 ha
    simp only [map_cons, map_nil, mem_singleton] at hb
    rw [hb, Row.key, Row.key, Prod.mk.injEq] at heq
    exact huniq r hr heq.1 heq.2

theorem Budgeted.setTrades {attempts : ℕ → Option Attempt} {trades : ℕ → Option Trade} (hf : db.TradesForward trades) :
    Budgeted { db with attempts := attempts, trades := trades } := by
  refine ⟨h.owned, h.unique, fun p => le_trans ?_ (h.slots p), h.entries, h.keys⟩
  rw [slotsHeld_eq, slotsHeld_eq]
  refine countP_mono_left fun r hr hp => ?_
  simp only [Bool.and_eq_true, decide_eq_true_eq] at hp ⊢
  exact ⟨holdsSlot_forward hf hr hp.1, hp.2⟩

theorem Budgeted.write (hw : Write db db') : Budgeted db' := by
  cases hw with
  | logged => exact h.of_terms rfl rfl rfl
  | newRecord record hpos huniq => exact h.newRecord hpos huniq
  | record i old new hi hg =>
    have hte : new.terms = old.terms := (authorizationsGuard_ok.1 hg).1
    exact h.of_terms (Rows.map_set_eq hi hte) rfl rfl
  | row id old new hi hm => exact h.updateRow hi hm

theorem Budgeted.writes (hw : Writes db db') : Budgeted db' := by
  induction hw with
  | refl => exact h
  | tail _ hw ih => exact ih.write hw

theorem Budgeted.commit {rules : Rules} (hc : Commit rules db db') (hadm : ∀ r, rules.admits db r → Admitted db r)
    (htr : ∀ trades, rules.trades db trades → db.TradesForward trades) : Budgeted db' := by
  cases hc with
  | quiet hw => exact h.writes hw
  | insert new record _ _ hs _ _ huniq ha => exact h.insertRow hs (hadm new ha) huniq
  | send id old new record hi hm => exact h.updateRow hi hm
  | journal attempts trades ht => exact h.setTrades (htr trades ht)

end

instance (db : Db) (trades : ℕ → Option Trade) : Decidable (db.TradesForward trades) :=
  inferInstanceAs (Decidable (∀ r ∈ db.reservations, _))

theorem Db.TradesForward.refl (db : Db) : db.TradesForward db.trades :=
  fun _ _ _ _ x hx => ⟨x, hx, id, fun h => ⟨h, rfl⟩⟩

/-- The transactions of a budget run: no write from outside, and trade transactions that only
move a linked trade forward. -/
def Cmd.Allowed (db : Db) : Cmd → Prop
  | .setTrades _ rows => db.TradesForward (writeRows db.trades rows)
  | c => c.isRaw = false

instance (db : Db) (c : Cmd) : Decidable (c.Allowed db) := by
  cases c <;> unfold Cmd.Allowed <;> infer_instance

/-- Every transaction of the run is allowed where it runs. -/
def ProbeRun (sha256 : String → String) (db : Db) (cs : List Cmd) : Prop :=
  ∀ n, (h : n < cs.length) → (cs.get ⟨n, h⟩).Allowed (dbAt sha256 db cs n)

instance (sha256 : String → String) (db : Db) (cs : List Cmd) : Decidable (ProbeRun sha256 db cs) :=
  inferInstanceAs (Decidable (∀ n, (h : n < cs.length) → _))

theorem Cmd.Allowed.isRaw (h : c.Allowed db) : c.isRaw = false := by
  cases c <;> first | rfl | exact h

theorem Cmd.Allowed.trades (h : c.Allowed db) {trades : ℕ → Option Trade}
    (ht : c.rules.trades db trades) : db.TradesForward trades := by
  rcases ht with rfl | ⟨clk, rows, rfl, rfl⟩
  · exact .refl db
  · exact h

theorem Budgeted.step (sha256 : String → String) (h : Budgeted db) (hc : c.Allowed db) :
    Budgeted (db.step sha256 c) := by
  refine h.commit (c.commit sha256 db) (fun r hr => ?_) fun trades ht => hc.trades ht
  exact hr.resolve_left (by rw [hc.isRaw]; simp)

theorem budgeted_start (attempts : ℕ → Option Attempt) (trades : ℕ → Option Trade) :
    Budgeted (Db.start attempts trades) := by
  refine ⟨by simp [Db.start], by simp [Db.start, Db.UniqueRecords], fun p => ?_, by simp [Db.start], by simp [Db.start]⟩
  rw [slotsHeld_eq]
  simp [Db.start]

section

variable {sha256 : String → String} {attempts : ℕ → Option Attempt} {trades : ℕ → Option Trade} {cs : List Cmd}

theorem ProbeRun.budgeted (hrun : ProbeRun sha256 (.start attempts trades) cs) (n : ℕ) :
    Budgeted (dbAt sha256 (.start attempts trades) cs n) := by
  refine Run.invariant (budgeted_start attempts trades) (fun m c hc h => ?_) n
  obtain ⟨hlt, rfl⟩ := List.getElem?_eq_some_iff.1 hc
  exact h.step sha256 (hrun m hlt)

/-- **The budgets hold under every interleaving**: slots, entries, one reservation for a key, and the loss with every
open reserve within L. -/
theorem budgets_hold (hrun : ProbeRun sha256 (.start attempts trades) cs) (n : ℕ) :
    let now := dbAt sha256 (.start attempts trades) cs n
    let next := dbAt sha256 (.start attempts trades) cs (n + 1)
    (∀ record ∈ now.records, (now.ledger record.probeId).slotsHeld ≤ slots ∧
      ((now.ledger record.probeId).entriesSpent : ℤ) ≤ record.terms.maxEntries) ∧
    (now.reservations.map Row.key).Nodup ∧
    (∀ (i : ℕ) (r : Row), now.reservations[i]? = none → next.reservations[i]? = some r →
      ∃ record, next.record? r.probeId = some record ∧ (next.ledger r.probeId).closedUnsettled = 0 ∧
        -(next.ledger r.probeId).realizedClosed + (next.ledger r.probeId).reservedOpen
          ≤ record.terms.lossThresholdUsd) := by
  intro now next
  have hinv : Budgeted now := hrun.budgeted n
  refine ⟨fun record hrec => ⟨hinv.slots _, ?_⟩, hinv.keys, ?_⟩
  · exact hinv.entries record.terms (mem_map_of_mem hrec)
  · intro i r hnone hsome
    cases hc : cs[n]? with
    | none =>
      have hstop : next = now := dbAt_stop hc
      rw [hstop, hnone] at hsome
      simp at hsome
    | some c =>
      have hstep : next = now.step sha256 c := dbAt_succ hc
      obtain ⟨hlt, rfl⟩ := List.getElem?_eq_some_iff.1 hc
      have hraw := (hrun n hlt).isRaw
      rw [hstep] at hsome ⊢
      obtain ⟨hs, hadm, hdb', -⟩ := ((cs[n]).commit sha256 now).inserted hnone hsome
      obtain ⟨record, hrec, hclosed, -, -, hloss⟩ := hadm.resolve_left fun h => by
        rw [get_eq_getElem, h] at hraw
        simp at hraw
      rw [hdb', ledger_insert _ r hs, if_pos rfl]
      refine ⟨record, hrec, hclosed, ?_⟩
      linarith

end

/-! ## A run in full

A probe of two entries: the second decision waits for the slot, then for the costs of the first
trade, and is reserved once they are settled. -/

def sampleTerms : Terms where
  probeId := "probe-1"
  environment := "testnet"
  accountKey := "main"
  strategy := "pump_short"
  contractVersion := "v1"
  contractSha256 := "aaaaaaaaaaaaaaaaaaaaaaaaaaaaaaaaaaaaaaaaaaaaaaaaaaaaaaaaaaaaaaaa"
  instruments := ["XYZUSDT"]
  maxEntries := 2
  notionalUsd := 20
  lossThresholdUsd := 3
  entriesUntil := ⟨1000, true⟩
  flatBy := ⟨2000, true⟩

def sampleRequest (decisionId : String) : EntryRequest where
  probeId := "probe-1"
  decisionId := decisionId
  environment := "testnet"
  accountKey := "main"
  nativeMarketId := "XYZUSDT"
  side := "short"
  reserveInputs := ⟨5, 1 / 1000, 1 / 10000, 2⟩

def sampleTrade (status : TradeStatus) (costs : AccountingStatus) : Trade where
  status := status
  pnlUsd := some (-1)
  accountingVersion := .liveExchangeCostsV1
  accountingStatus := costs

def sampleRun : List Cmd :=
  let at_ := fun (t : Time) => Clock.mk t t t
  let entry := "11111111111111111111111111111111"
  let second := "22222222222222222222222222222222"
  [.issue (at_ 1) sampleTerms "owner",
   .reserve (at_ 2) entry (sampleRequest "d1"),
   .reserve (at_ 3) second (sampleRequest "d2"),
   .beginSending (at_ 4) 0,
   .setAttempts (at_ 5) [(7, some ⟨.entry, entry, "bybit", some "XYZUSDT", .short, some 9⟩)],
   .linkAttempt (at_ 6) 0 7,
   .markPlaced (at_ 7) 0,
   .setTrades (at_ 8) [(9, some (sampleTrade .open .pending))],
   .linkTrade (at_ 9) 0 9,
   .setTrades (at_ 10) [(9, some (sampleTrade .closed .pending))],
   .reserve (at_ 11) second (sampleRequest "d2"),
   .setTrades (at_ 12) [(9, some (sampleTrade .closed .complete))],
   .reserve (at_ 13) second (sampleRequest "d2"),
   .revoke (at_ 14) "probe-1" "owner" "done",
   .beginSending (at_ 15) 1]

theorem sampleRun_budgets :
    let final := dbAt id (.start (fun _ => none) (fun _ => none)) sampleRun 13
    (final.reservations.map (·.state)) = [.placed, .reserved] ∧
    ∀ record ∈ final.records, (final.ledger record.probeId).slotsHeld ≤ slots ∧
      ((final.ledger record.probeId).entriesSpent : ℤ) ≤ record.terms.maxEntries :=
  ⟨by decide +kernel, (budgets_hold (by decide +kernel) 13).1⟩

end Schurfer.Probe
