import Schurfer.Reconciliation.Scan

/-!
# What a clean scan says

Journal, exchange and Redis agree after a scan without an incident exactly when no two rows it folds are of one
identity (`clean_scan_sound`): two open trades of one instrument and side pass as one (`hiddenTrade_clean`).
-/

namespace Schurfer.Reconciliation

open List Dict

variable {s : Sources} {a : OrderAttemptSnapshot} {identity : FullIdentity} {j : Journal} {attempts : Attempts}
  {x : RedisPositionSnapshot} {rows : List OrderAttemptSnapshot} {d : Dict FullIdentity ExchangePositionSnapshot}
  {r r' : OpenRow} {ps : List Held} {p : Held}

structure Owned (identity : FullIdentity) (position : Option ExchangePositionSnapshot)
    (trade : Option OwnedTradeSnapshot) (attempts : List OrderAttemptSnapshot)
    (redis : Option RedisPositionSnapshot) : Prop where
  complete : identity.complete = true
  resolved : ∀ a ∈ attempts, a.unresolved = false
  agree : position ≠ none ∨ trade ≠ none →
    ∃ p t r, position = some p ∧ trade = some t ∧ redis = some r ∧
      sameContracts (some p.contracts) t.contracts = true

theorem classify_owned {position : Option ExchangePositionSnapshot}
    {trade : Option OwnedTradeSnapshot} {attempts : List OrderAttemptSnapshot} {redis : Option RedisPositionSnapshot}
    (h : (classifyPositionState identity position trade attempts redis).incidentRequired = false) :
    Owned identity position trade attempts redis := by
  unfold classifyPositionState at h
  split at h
  · simp [quarantine] at h
  rename_i hcm
  split at h
  · simp [quarantine] at h
  rename_i hrs
  have hatt : ∀ a ∈ attempts, a.unresolved = false := by simpa using hrs
  split at h
  · rename_i hnn
    refine ⟨by simpa using hcm, hatt, fun hsm => ?_⟩
    rcases hsm with hsm | hsm
    · exact absurd hnn.1 hsm
    · exact absurd hnn.2.1 hsm
  · refine ⟨by simpa using hcm, hatt, fun _ => ?_⟩
    split at h
    · rename_i p t r _ _
      split at h
      · rename_i hsame
        exact ⟨p, t, r, rfl, rfl, rfl, hsame⟩
      · simp [quarantine] at h
    · simp [quarantine] at h
    · split at h
      · simp [quarantine] at h
      · split at h <;> simp [quarantine] at h
    · simp [quarantine] at h
    · simp [quarantine] at h
    · simp [quarantine] at h

theorem owned_of_clean (hcl : runScan s = [])
    (hmem : identity ∈ fetchExchangeSnapshots s ∨ identity ∈ dbTrades s.journal ∨
      identity ∈ dbAttempts s.journal ∨ identity ∈ fetchRedisSnapshots s) :
    Owned identity ((fetchExchangeSnapshots s).lookup identity) ((dbTrades s.journal).lookup identity)
      ((Dict.group (dbAttempts s.journal) identity).map (resolveAttempt s))
      ((fetchRedisSnapshots s).lookup identity) := by
  refine classify_owned ?_
  have hall : identity ∈ allIdentities s := by
    unfold allIdentities
    rw [mem_insertionSort, mem_dedup]
    simp only [mem_append, ← AList.mem_keys]
    tauto
  unfold runScan at hcl
  rw [filter_eq_nil_iff] at hcl
  have hno := hcl _ (mem_map_of_mem hall)
  simpa [decisionFor] using hno

def Genuine (j : Journal) (identity : FullIdentity) (a : OrderAttemptSnapshot) : Prop :=
  a.identity = identity ∧ ∃ row ∈ j.attempts, a = attemptFromRow row identity.exchange identity.symbol identity.side

def AllGenuine (j : Journal) (attempts : Attempts) : Prop :=
  ∀ identity, ∀ a ∈ Dict.group attempts identity, Genuine j identity a

theorem Genuine.eq {b : OrderAttemptSnapshot} (ha : Genuine j identity a)
    (hb : Genuine j identity b) (hid : a.attemptId = b.attemptId) : a = b := by
  obtain ⟨-, row, hrow, rfl⟩ := ha
  obtain ⟨-, row', hrow', rfl⟩ := hb
  rw [inj_on_of_nodup_map j.attempt_ids hrow hrow' hid]

theorem addAttempt_genuine (h : AllGenuine j attempts)
    (ha : Genuine j a.identity a) : AllGenuine j (addAttempt attempts a) := by
  intro identity b hb
  rcases mem_group_push.1 hb with hb | ⟨rfl, rfl⟩
  · exact h identity b hb
  · exact ha

theorem foldl_addAttempt_genuine (h : AllGenuine j attempts) (hrw : ∀ a ∈ rows, Genuine j a.identity a) :
    AllGenuine j (rows.foldl addAttempt attempts) := by
  induction rows generalizing attempts with
  | nil => exact h
  | cons a rows ih =>
    exact ih (addAttempt_genuine h (hrw a mem_cons_self)) fun b hb => hrw b (mem_cons_of_mem a hb)

theorem attemptSnapshot_genuine (hr : r ∈ openTradesSql j)
    (ha : r.attemptSnapshot = some a) : Genuine j a.identity a := by
  obtain ⟨row, hrow, rfl⟩ := Option.map_eq_some_iff.1 ha
  refine ⟨rfl, row, ?_, rfl⟩
  obtain ⟨t, -, hjn⟩ := mem_flatMap.1 hr
  split at hjn
  · rw [mem_singleton.1 hjn] at hrow
    cases hrow
  · obtain ⟨row', hrow', rfl⟩ := mem_map.1 hjn
    rw [Option.some.injEq] at hrow
    subst hrow
    exact (mem_filter.1 hrow').1

theorem addTradeAttempt_genuine (h : AllGenuine j attempts)
    (hr : r ∈ openTradesSql j) : AllGenuine j (addTradeAttempt attempts r) := by
  unfold addTradeAttempt
  split
  · exact h
  · rename_i a ha
    split
    · exact addAttempt_genuine h (attemptSnapshot_genuine hr ha)
    · exact h

theorem mem_addTradeAttempt (h : AllGenuine j attempts) (hr : r ∈ openTradesSql j) (ha : r.attemptSnapshot = some a) :
    a ∈ Dict.group (addTradeAttempt attempts r) a.identity := by
  unfold addTradeAttempt
  rw [ha]
  dsimp only
  split
  · exact mem_group_push.2 (.inr ⟨rfl, rfl⟩)
  · rename_i hexs
    simp only [all_eq_true, decide_eq_true_eq, not_forall, not_not] at hexs
    obtain ⟨b, hb, hid⟩ := hexs
    obtain rfl : b = a := (h _ b hb).eq (attemptSnapshot_genuine hr ha) hid
    exact hb

theorem addTradeAttempt_keeps
    (h : a ∈ Dict.group attempts identity) (r : OpenRow) : a ∈ Dict.group (addTradeAttempt attempts r) identity := by
  unfold addTradeAttempt
  split
  · exact h
  · split
    · exact mem_group_push.2 (.inl h)
    · exact h

theorem foldl_addTradeAttempt {rows : List OpenRow} (hrw : ∀ r ∈ rows, r ∈ openTradesSql j)
    (hgn : AllGenuine j attempts) (h : (∃ r ∈ rows, r.attemptSnapshot = some a) ∨ a ∈ Dict.group attempts a.identity) :
    a ∈ Dict.group (rows.foldl addTradeAttempt attempts) a.identity := by
  induction rows generalizing attempts with
  | nil =>
    rcases h with ⟨r, hr, -⟩ | h
    · cases hr
    · exact h
  | cons r rows ih =>
    have hr : r ∈ openTradesSql j := hrw r mem_cons_self
    refine ih (fun r' hr' => hrw r' (mem_cons_of_mem r hr')) (addTradeAttempt_genuine hgn hr) ?_
    rcases h with ⟨r', hr', ha⟩ | h
    · rcases mem_cons.1 hr' with rfl | hr'
      · exact .inr (mem_addTradeAttempt hgn hr ha)
      · exact .inl ⟨r', hr', ha⟩
    · exact .inr (addTradeAttempt_keeps h r)

theorem mem_foldl_addAttempt (h : a ∈ rows ∨ a ∈ Dict.group attempts a.identity) :
    a ∈ Dict.group (rows.foldl addAttempt attempts) a.identity := by
  induction rows generalizing attempts with
  | nil => exact h.resolve_left not_mem_nil
  | cons r rows ih =>
    refine ih ?_
    rcases h with h | h
    · rcases mem_cons.1 h with rfl | h
      · exact .inr (mem_group_push.2 (.inr ⟨rfl, rfl⟩))
      · exact .inl h
    · exact .inr (mem_group_push.2 (.inl h))

def attemptsRead (j : Journal) : List OrderAttemptSnapshot :=
  (attemptsSql j).map AttemptRow.snapshot ++ (openTradesSql j).filterMap OpenRow.attemptSnapshot

theorem mem_dbAttempts (h : a ∈ attemptsRead j) : a ∈ Dict.group (dbAttempts j) a.identity := by
  have hrw : ∀ b ∈ (attemptsSql j).map AttemptRow.snapshot, Genuine j b.identity b := by
    intro b hb
    obtain ⟨row, hrow, rfl⟩ := mem_map.1 hb
    exact ⟨rfl, row, (mem_filter.1 hrow).1, rfl⟩
  have hem : AllGenuine j ∅ := by
    intro identity b hb
    cases hb
  refine foldl_addTradeAttempt (fun _ hr => hr) (foldl_addAttempt_genuine hem hrw) ?_
  rcases mem_append.1 h with h | h
  · exact .inr (mem_foldl_addAttempt (.inl h))
  · obtain ⟨r, hr, ha⟩ := mem_filterMap.1 h
    exact .inl ⟨r, hr, ha⟩

/-- No two rows the scan folds are of one identity, neither two open trades nor two positions of an exchange. -/
structure Separate (s : Sources) : Prop where
  trades : ∀ r ∈ openTradesSql s.journal, ∀ r' ∈ openTradesSql s.journal, r.identity = r'.identity → r = r'
  positions : ((held s).map Held.identity).Nodup

theorem OpenRow.identity_columns (r : OpenRow) :
    r.identity.exchange = r.trade.exchange ∧ r.identity.symbol = r.trade.symbol ∧ r.identity.side = r.trade.side := by
  unfold OpenRow.identity OpenRow.attemptSnapshot
  cases r.attempt <;> exact ⟨rfl, rfl, rfl⟩

theorem Separate.lookup_trade (h : Separate s) (hr : r ∈ openTradesSql s.journal) :
    (dbTrades s.journal).lookup r.identity = some r.snapshot := by
  obtain ⟨r', hr', hid, hlk⟩ := exists_lookup_ofRows OpenRow.identity OpenRow.snapshot hr
  rw [h.trades r' hr' r hr hid] at hlk
  exact hlk

theorem lookup_foldl_addPosition (h : identity ∉ ps.map Held.identity) :
    (ps.foldl addPosition d).lookup identity = d.lookup identity := by
  induction ps generalizing d with
  | nil => rfl
  | cons p ps ih =>
    rw [map_cons, mem_cons, not_or] at h
    rw [foldl_cons, ih h.2, addPosition, lookup_insert_eq, if_neg h.1]

theorem lookup_addPosition (hps : (ps.map Held.identity).Nodup)
    (hd : ∀ p ∈ ps, d.lookup p.identity = none) (hp : p ∈ ps) :
    (ps.foldl addPosition d).lookup p.identity = some ⟨p.identity, |p.contracts|, p.entryPrice⟩ := by
  induction ps generalizing d with
  | nil => cases hp
  | cons q ps ih =>
    rw [map_cons, nodup_cons] at hps
    have hq : d.lookup q.identity = none := hd q mem_cons_self
    rw [foldl_cons]
    rcases mem_cons.1 hp with rfl | hp
    · rw [lookup_foldl_addPosition hps.1, addPosition, hq, lookup_insert_eq, if_pos rfl]
    · refine ih hps.2 (fun p' hp' => ?_) hp
      have hne : p'.identity ≠ q.identity := by
        intro heq
        exact hps.1 (heq ▸ mem_map_of_mem hp')
      rw [addPosition, lookup_insert_eq, if_neg hne]
      exact hd p' (mem_cons_of_mem q hp')

theorem Separate.lookup_position (h : Separate s) (hp : p ∈ held s) :
    (fetchExchangeSnapshots s).lookup p.identity = some ⟨p.identity, |p.contracts|, p.entryPrice⟩ :=
  lookup_addPosition h.positions (fun _ _ => AList.lookup_empty _) hp

theorem Separate.of_lookup_position (h : Separate s) {x : ExchangePositionSnapshot}
    (hx : (fetchExchangeSnapshots s).lookup identity = some x) :
    ∃ p ∈ held s, p.identity = identity ∧ x.contracts = |p.contracts| := by
  by_cases hmem : identity ∈ (held s).map Held.identity
  · obtain ⟨p, hp, rfl⟩ := mem_map.1 hmem
    rw [h.lookup_position hp, Option.some.injEq] at hx
    subst hx
    exact ⟨p, hp, rfl, rfl⟩
  · rw [fetchExchangeSnapshots, lookup_foldl_addPosition hmem, AList.lookup_empty] at hx
    cases hx

def Projected (s : Sources) (r : OpenRow) : Prop :=
  let base := r.snapshot.base
  redisTradeId s r.trade.exchange base = r.trade.id ∧
    ∀ key ∈ requiredKeys r.trade.exchange base, (redisGet s key).isSome = true

structure Sound (s : Sources) : Prop where
  /-- an open trade has a complete identity, a position of its own of exactly that identity with its filled amount,
  and the keys that name it -/
  trades : ∀ r ∈ openTradesSql s.journal, r.identity.complete = true ∧
    (∃ p, (held s).filter (·.identity = r.identity) = [p] ∧
      sameContracts (some |p.contracts|) r.snapshot.contracts = true) ∧
    Projected s r
  /-- no two open trades are of one identity -/
  distinct : ∀ r ∈ openTradesSql s.journal, ∀ r' ∈ openTradesSql s.journal, r.identity = r'.identity → r = r'
  /-- a position has one open trade -/
  positions : ∀ p ∈ held s, ∃! r, r ∈ openTradesSql s.journal ∧ r.identity = p.identity
  /-- no attempt is left unresolved -/
  attempts : ∀ a ∈ attemptsRead s.journal, (resolveAttempt s a).unresolved = false

theorem tradeById_some {tradeId : ℤ} {trade : OwnedTradeSnapshot} (h : tradeById j tradeId = some trade) :
    ∃ r ∈ openTradesSql j, (r.trade.id : ℤ) = tradeId ∧ r.snapshot = trade := by
  unfold tradeById at h
  split at h
  · rename_i hpos
    obtain ⟨r, hr, hid, hsn⟩ := lookup_ofRows h
    refine ⟨r, hr, ?_, hsn⟩
    rw [hid]
    exact Int.toNat_of_nonneg hpos
  · cases h

theorem projected_of_snapshot {exchange base : String}
    (h : redisSnapshot s exchange base = some x) (hcm : x.identity.complete = true) :
    ∃ r ∈ openTradesSql s.journal, r.identity = x.identity ∧ Projected s r := by
  unfold redisSnapshot at h
  dsimp only at h
  split at h
  · cases h
    simp [FullIdentity.complete] at hcm
  · rename_i trade htrade
    obtain ⟨r, hr, hid, rfl⟩ := tradeById_some htrade
    split at h
    · cases h
      simp [FullIdentity.complete] at hcm
    · rename_i hsame
      rw [not_or, not_not, not_not] at hsame
      obtain ⟨hexchange, hbs⟩ := hsame
      split at h
      · rename_i hkeys
        cases h
        have htr : r.trade.exchange = exchange := r.identity_columns.1.symm.trans hexchange
        refine ⟨r, hr, rfl, ?_⟩
        unfold Projected
        rw [htr, hbs]
        exact ⟨hid.symm, all_eq_true.1 hkeys⟩
      · cases h

theorem projected_of_lookup (hcm : identity.complete = true) (hx : (fetchRedisSnapshots s).lookup identity = some x) :
    ∃ r ∈ openTradesSql s.journal, r.identity = identity ∧ Projected s r := by
  obtain ⟨x', hmem, rfl, rfl⟩ := lookup_ofRows hx
  obtain ⟨⟨exchange, base⟩, -, hsp⟩ := mem_filterMap.1 hmem
  exact projected_of_snapshot hsp hcm

theorem filter_identity (hnodup : (ps.map Held.identity).Nodup) (hp : p ∈ ps) :
    ps.filter (·.identity = p.identity) = [p] := by
  have hone : (ps.filter (·.identity = p.identity)).length = 1 := by
    have hcount := count_eq_one_of_mem hnodup (mem_map_of_mem hp)
    rwa [count, countP_map, countP_eq_length_filter] at hcount
  obtain ⟨q, hq⟩ := length_eq_one_iff.1 hone
  have hmem : p ∈ ps.filter (·.identity = p.identity) := mem_filter.2 ⟨hp, by simp⟩
  rw [hq, mem_singleton] at hmem
  rw [hq, hmem]

theorem Separate.sound (hseparate : Separate s) (hclean : runScan s = []) : Sound s := by
  refine ⟨fun r hr => ?_, hseparate.trades, fun p hp => ?_, fun a ha => ?_⟩
  · have hlookup := hseparate.lookup_trade hr
    have hmem : r.identity ∈ dbTrades s.journal := by
      rw [← AList.lookup_isSome, hlookup]
      rfl
    have howned := owned_of_clean hclean (.inr (.inl hmem))
    obtain ⟨x, t, y, hx, ht, hy, hsame⟩ := howned.agree (.inr (by rw [hlookup]; simp))
    obtain rfl : r.snapshot = t := Option.some.inj (hlookup.symm.trans ht)
    obtain ⟨p, hp, hpid, hcontracts⟩ := hseparate.of_lookup_position hx
    obtain ⟨r', hr', hid, hprojected⟩ := projected_of_lookup howned.complete hy
    obtain rfl : r' = r := hseparate.trades r' hr' r hr hid
    exact ⟨howned.complete, ⟨p, hpid ▸ filter_identity hseparate.positions hp, hcontracts ▸ hsame⟩, hprojected⟩
  · have hlookup := hseparate.lookup_position hp
    have hmem : p.identity ∈ fetchExchangeSnapshots s := by
      rw [← AList.lookup_isSome, hlookup]
      rfl
    obtain ⟨x, t, y, -, ht, -, -⟩ :=
      (owned_of_clean hclean (.inl hmem)).agree (.inl (by rw [hlookup]; simp))
    obtain ⟨r, hr, hid, -⟩ := lookup_ofRows ht
    refine ⟨r, ⟨hr, hid⟩, fun r' hr' => ?_⟩
    exact hseparate.trades r' hr'.1 r hr (hr'.2.trans hid.symm)
  · have hgroup := mem_dbAttempts ha
    have howned := owned_of_clean hclean (.inr (.inr (.inl (mem_of_mem_group hgroup))))
    exact howned.resolved _ (mem_map_of_mem hgroup)

theorem Sound.separate (hsound : Sound s) : Separate s := by
  refine ⟨hsound.distinct, nodup_iff_count_le_one.2 fun identity => ?_⟩
  by_cases hmem : identity ∈ (held s).map Held.identity
  · -- the position has an open trade, and that trade no other position
    obtain ⟨p, hp, rfl⟩ := mem_map.1 hmem
    obtain ⟨r, ⟨hr, hid⟩, -⟩ := hsound.positions p hp
    obtain ⟨-, ⟨q, hown, -⟩, -⟩ := hsound.trades r hr
    rw [hid] at hown
    rw [count, countP_map, countP_eq_length_filter]
    exact (congrArg length hown).le
  · exact (count_eq_zero.2 hmem).le.trans zero_le_one

/-- **What a clean scan says**: after a scan without an incident the sources agree exactly when no two open trades and
no two positions are of one identity. -/
theorem clean_scan_sound (hclean : runScan s = []) : Sound s ↔ Separate s :=
  ⟨Sound.separate, fun hseparate => hseparate.sound hclean⟩

def sampleTrade (id : ℕ) : TradeRow :=
  { id, exchange := "bybit", symbol := "ABC/USDT:USDT", side := "long", status := .open, paper := false
    entryPrice := 10 }

def sampleAttempt (id : ℕ) : AttemptRow :=
  { id, clientOrderId := s!"e{id}", operation := .entry, exchange := "bybit", base := "ABC"
    symbol := "ABC/USDT:USDT", nativeMarketId := some "ABCUSDT", marketType := some "swap", side := "long"
    status := .completed, orderId := some s!"o{id}", requestedAmount := some 1, filledAmount := some 1
    tradeId := some id }

def sampleSources (journal : Journal) : Sources where
  exchanges := ["bybit"]
  markets _ _ := some ⟨"ABCUSDT", "swap"⟩
  positions _ := [⟨some "ABC/USDT:USDT", some 1, some "long", some 10⟩]
  journal := journal
  redis :=
    [("trade:id:bybit:ABC", "1"), ("position:opened_at:bybit:ABC", "0"), ("position:sl_order_id:bybit:ABC", "s"),
      ("exit:params:bybit:ABC", "p"), ("position:entry:bybit:ABC", "10"), ("position:side:bybit:ABC", "long"),
      ("position:size_usd:bybit:ABC", "10")]
  parse text := if text = "1" then some 1 else none
  resolve _ := none

def ownedSources : Sources :=
  sampleSources ⟨[sampleTrade 1], [sampleAttempt 1], by decide, by decide, by decide⟩

theorem ownedSources_sound : (openTradesSql ownedSources.journal).length = 1 ∧ Sound ownedSources :=
  ⟨by decide +kernel, (clean_scan_sound (by decide +kernel)).2 ⟨by decide +kernel, by decide +kernel⟩⟩

def hiddenSources : Sources :=
  sampleSources ⟨[sampleTrade 1, sampleTrade 2], [sampleAttempt 1, sampleAttempt 2], by decide, by decide, by decide⟩

/-- Two open trades of one identity, each with a fill of one contract, and one position of one contract: the
scan raises no incident. -/
theorem hiddenTrade_clean :
    runScan hiddenSources = [] ∧
      (∃ r ∈ openTradesSql hiddenSources.journal, ∃ r' ∈ openTradesSql hiddenSources.journal,
        r.trade.id ≠ r'.trade.id ∧ r.identity = r'.identity) ∧
      ((held hiddenSources).map Held.contracts).sum = 1 ∧
      ((openTradesSql hiddenSources.journal).map fun r => r.snapshot.contracts.getD 0).sum = 2 ∧
      ¬ Sound hiddenSources := by
  have hshared : ∃ r ∈ openTradesSql hiddenSources.journal, ∃ r' ∈ openTradesSql hiddenSources.journal,
      r.trade.id ≠ r'.trade.id ∧ r.identity = r'.identity := by decide +kernel
  refine ⟨by decide +kernel, hshared, by decide +kernel, by decide +kernel, fun hsound => ?_⟩
  obtain ⟨r, hr, r', hr', hne, hid⟩ := hshared
  exact hne (by rw [hsound.distinct r hr r' hr' hid])

end Schurfer.Reconciliation
