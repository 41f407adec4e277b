import Schurfer.Episodes.Model

/-!
# What a call can do

`step_change` says all that a call can do to the row of an episode, and `step_trades` what it can do to the trades.
-/

namespace Schurfer.Episodes

open List Option

variable {db db' : Db} {id claimToken : String} {e e' : Episode} {r : Row} {s : State} {c : Call} {now : ℤ}
  {o : Option Episode} {p : Row → Bool} {status : Status} {f : Row → Row}

theorem write?_eq_some (h : r.write? = some e) : e.toRow = r ∧ r.checked = true := by
  unfold Row.write? at h
  split at h
  · rename_i hr
    cases h
    exact ⟨rfl, hr⟩
  · cases h

theorem Episode.checks (e : Episode) : e.status.reasoned = e.terminalReason.isSome ∧
      (e.status = .claimed → e.claimToken.isSome ∧ e.claimedAt.isSome ∧ e.claimExpiresAt.isSome) := by
  have h := e.isChecked
  unfold Row.checked at h
  rw [Bool.and_eq_true, beq_iff_eq] at h
  refine ⟨h.1, fun hcm => ?_⟩
  have hsh := h.2
  rw [hcm] at hsh
  simpa [and_assoc] using hsh

theorem insert_eq_some (h : db.insert id r = some (db', e)) :
    db.episodes.lookup id = none ∧ e.toRow = r ∧ db'.trades = db.trades ∧
      ∀ id', db'.episodes.lookup id' = if id' = id then some e else db.episodes.lookup id' := by
  unfold Db.insert at h
  cases hlk : db.episodes.lookup id with
  | some => rw [hlk] at h; cases h
  | none =>
    rw [hlk] at h
    obtain ⟨e1, hwr, heq⟩ := map_eq_some_iff.1 h
    cases heq
    exact ⟨rfl, (write?_eq_some hwr).1, rfl, fun id' => Dict.lookup_insert_eq _ _ _ _⟩

theorem update_eq_some (h : db.update id p f = some (db', e')) :
    ∃ e, db.episodes.lookup id = some e ∧ p e.toRow = true ∧ e'.toRow = f e.toRow ∧ db'.trades = db.trades ∧
      ∀ id', db'.episodes.lookup id' = if id' = id then some e' else db.episodes.lookup id' := by
  obtain ⟨e, hfl, h⟩ := bind_eq_some_iff.1 h
  obtain ⟨e1, hwr, h⟩ := bind_eq_some_iff.1 h
  cases h
  obtain ⟨hlk, hp⟩ := filter_eq_some_iff.1 hfl
  exact ⟨e, hlk, hp, (write?_eq_some hwr).1, rfl, fun id' => Dict.lookup_insert_eq _ _ _ _⟩

inductive Change (s : State) (id : String) : Call → Option Episode → Option Episode → Prop
  | same (c : Call) (o : Option Episode) : Change s id c o o
  | armed {now : ℤ} {req : ArmRequest} {e : Episode} (hid : req.episodeId = id)
      (hfree : s.db.watched req.exchange req.nativeMarketId = false) (hstatus : e.status = .armed)
      (hexchange : e.exchange = req.exchange) (hmarket : e.nativeMarketId = req.nativeMarketId) :
      Change s id (.createEpisode now req) none (some e)
  | rejected {now : ℤ} {req : RejectRequest} {e : Episode} (hstatus : e.status = .rejected) :
      Change s id (.createRejectedEpisode now req) none (some e)
  | claimed {now : ℤ} {token : String} {leaseSeconds : ℤ} {e e' : Episode} (h : e.claimable now = true)
      (he' : e'.toRow = e.toRow.claim now token leaseSeconds) :
      Change s id (.claimEpisode now id token leaseSeconds) (some e) (some e')
  | terminated {reason : String} {claimToken : Option String} {status : Status} {e e' : Episode}
      (h : e.terminable claimToken = true) (he' : e'.toRow = e.toRow.finish status reason) :
      Change s id (.terminateEpisode id reason claimToken status) (some e) (some e')
  | closed {e e' : Episode} (h : e.status = .opened) (he' : e'.toRow = { e.toRow with status := .closed }) :
      Change s id (.markClosed id) (some e) (some e')
  | reaped {worker : ℕ} {r : Reap} {kind : ReapKind} {e e' : Episode} (hr : s.reaps.lookup worker = some r)
      (hkind : (id, kind) ∈ r.pending) (he' : e'.toRow = e.toRow.finish kind.status kind.reason) :
      Change s id (.reapCommit worker) (some e) (some e')
  | opened {now : ℤ} {req : OpenRequest} {e e' : Episode} (hid : req.episodeId = id)
      (h : e.claimStillLive now req.claimToken = true) (he' : e'.toRow = { e.toRow with status := .opened })
      (htrade : ∃ t ∈ (s.step (.openTradeForEpisode now req)).db.trades,
        t.episodeId = id ∧ t.entryIdempotencyKey = entryKey id) :
      Change s id (.openTradeForEpisode now req) (some e) (some e')

theorem finish_finish (r : Row) (status status' : Status) (reason reason' : String) :
    (r.finish status reason).finish status' reason' = r.finish status' reason' := rfl

theorem commit_lookup (pending : List (String × ReapKind)) (db : Db) :
    (pending.foldl Reap.apply db).trades = db.trades ∧
      ((pending.foldl Reap.apply db).episodes.lookup id = db.episodes.lookup id ∨
        ∃ kind e e', (id, kind) ∈ pending ∧ db.episodes.lookup id = some e ∧
          (pending.foldl Reap.apply db).episodes.lookup id = some e' ∧
          e'.toRow = e.toRow.finish kind.status kind.reason) := by
  induction pending generalizing db with
  | nil => exact ⟨rfl, .inl rfl⟩
  | cons x pending ih =>
    rw [foldl_cons]
    -- the induction is on the rows to write; a row listed twice is finished twice
    obtain ⟨htr, hrow⟩ := ih (Reap.apply db x)
    -- what the first of the rows did
    have hfr : (Reap.apply db x).trades = db.trades ∧ ((Reap.apply db x).episodes.lookup id = db.episodes.lookup id ∨
          ∃ e e', x.1 = id ∧ db.episodes.lookup id = some e ∧ (Reap.apply db x).episodes.lookup id = some e' ∧
            e'.toRow = e.toRow.finish x.2.status x.2.reason) := by
      unfold Reap.apply
      cases hup : db.update x.1 (fun _ => true) (·.finish x.2.status x.2.reason) with
      | none => exact ⟨rfl, .inl rfl⟩
      | some p =>
        obtain ⟨db1, e'⟩ := p
        obtain ⟨e, hlk, -, he', htr, hall⟩ := update_eq_some hup
        refine ⟨htr, ?_⟩
        by_cases hid : id = x.1
        · subst hid
          exact .inr ⟨e, e', rfl, hlk, (hall x.1).trans (if_pos rfl), he'⟩
        · exact .inl ((hall id).trans (if_neg hid))
    refine ⟨htr.trans hfr.1, ?_⟩
    rcases hrow with hsame | ⟨kind, e, e', hmem, hlk, hlk', he'⟩
    · rcases hfr.2 with hfr | ⟨e, e', hid, hlk, hlk', he'⟩
      · exact .inl (hsame.trans hfr)
      · exact .inr ⟨x.2, e, e', hid ▸ mem_cons_self, hlk, hsame.trans hlk', he'⟩
    · rcases hfr.2 with hfr | ⟨e0, e1, hid, hlk0, hlk1, he1⟩
      · exact .inr ⟨kind, e, e', mem_cons_of_mem x hmem, hfr ▸ hlk, hlk', he'⟩
      · obtain rfl : e = e1 := some.inj (hlk.symm.trans hlk1)
        refine .inr ⟨kind, e0, e', mem_cons_of_mem x hmem, hlk0, hlk', ?_⟩
        rw [he', he1, finish_finish]

theorem claimStillLive_iff : r.claimStillLive now claimToken = true ↔ r.claimToken = some claimToken ∧
      (r.status = .opened ∨ r.status = .claimed ∧ (∃ t ∈ r.claimExpiresAt, now < t) ∧ now < r.expiresAt) := by
  unfold Row.claimStillLive
  cases r.claimExpiresAt <;> simp [and_assoc]

theorem markOpened_lookup (hlk : db.episodes.lookup id = some e) (hlive : e.claimStillLive now claimToken = true) :
    (db.markOpened id claimToken).trades = db.trades ∧ ∃ e' : Episode, e'.toRow = { e.toRow with status := .opened } ∧
        ∀ id', (db.markOpened id claimToken).episodes.lookup id' =
          if id' = id then some e' else db.episodes.lookup id' := by
  obtain ⟨htk, hstatus⟩ := claimStillLive_iff.1 hlive
  have hch : ({ e.toRow with status := .opened } : Row).checked = true := by
    have hreason : e.terminalReason = none := by
      refine not_isSome_iff_eq_none.1 ?_
      rw [← e.checks.1]
      rcases hstatus with hstatus | ⟨hstatus, -⟩ <;> rw [hstatus] <;> decide
    unfold Row.checked
    simp [hreason, Status.reasoned]
  have hup : db.update id (·.claimToken == some claimToken) (fun r => { r with status := .opened }) =
      some ({ db with episodes := AList.insert id ⟨_, hch⟩ db.episodes }, ⟨_, hch⟩) := by
    have hwr : ({ e.toRow with status := .opened } : Row).write? = some ⟨_, hch⟩ := dif_pos hch
    have hmt : (e.claimToken == some claimToken) = true := by rw [htk, beq_self_eq_true]
    unfold Db.update
    rw [hlk, filter_some, if_pos hmt]
    show (Row.write? _).bind _ = _
    rw [hwr]
    rfl
  unfold Db.markOpened
  rw [hup]
  exact ⟨rfl, ⟨_, hch⟩, rfl, fun id' => Dict.lookup_insert_eq _ _ _ _⟩

theorem upsertStrategy_tables (name version : String) : (db.upsertStrategy name version).1.episodes = db.episodes ∧
      (db.upsertStrategy name version).1.trades = db.trades := by
  unfold Db.upsertStrategy
  split <;> exact ⟨rfl, rfl⟩

/-- What `open_trade_for_episode` can do: nothing to these tables, or it finds the claim good, and writes the trade of
the key or finds it, and marks the episode. -/
theorem open_cases (now : ℤ) (req : OpenRequest) (key : String) (db : Db) :
    let db' := (openTradeForEpisode now req key db).1
    (db'.episodes = db.episodes ∧ db'.trades = db.trades) ∨
    ∃ e e' : Episode, db.episodes.lookup req.episodeId = some e ∧ e.claimStillLive now req.claimToken = true ∧
      e'.toRow = { e.toRow with status := .opened } ∧
      (∀ id', db'.episodes.lookup id' = if id' = req.episodeId then some e' else db.episodes.lookup id') ∧
      ((∀ t ∈ db.trades, t.entryIdempotencyKey ≠ key) ∧ (∃ t, db'.trades = db.trades ++ [t] ∧
          t.episodeId = req.episodeId ∧ t.entryIdempotencyKey = key) ∨
        db'.trades = db.trades ∧ ∃ t ∈ db.trades, t.episodeId = req.episodeId ∧ t.entryIdempotencyKey = key) := by
  unfold openTradeForEpisode
  split
  · exact .inl ⟨rfl, rfl⟩
  · split
    · exact .inl ⟨rfl, rfl⟩
    · rename_i hlive
      -- registering the strategy leaves the two tables alone
      obtain ⟨hep, htr⟩ := @upsertStrategy_tables db req.strategyName req.strategyVersion
      generalize db.upsertStrategy req.strategyName req.strategyVersion = upserted at hep htr
      obtain ⟨db1, strategyId⟩ := upserted
      dsimp only at hep htr ⊢
      obtain ⟨e, hlk, hlive⟩ : ∃ e, db.episodes.lookup req.episodeId = some e ∧
          e.claimStillLive now req.claimToken = true := by
        cases hlk : db.episodes.lookup req.episodeId with
        | none => simp [hlk] at hlive
        | some e => exact ⟨e, rfl, by simpa [hlk] using hlive⟩
      have hmr := fun trades : List TradeRow => markOpened_lookup
        (show ({ db1 with trades } : Db).episodes.lookup req.episodeId = some e from hep ▸ hlk) hlive
      split
      · rename_i hfn
        -- no trade has the key yet
        rw [findIdx?_eq_none_iff] at hfn
        obtain ⟨htr', e', he', hall⟩ := hmr (db1.trades ++ [⟨strategyId, req.symbol, req.episodeId, key⟩])
        refine .inr ⟨e, e', hlk, hlive, he', hep ▸ hall, .inl ⟨fun t ht => ?_, ?_⟩⟩
        · simpa using hfn t (htr ▸ ht)
        · exact ⟨⟨strategyId, req.symbol, req.episodeId, key⟩, by rw [htr', htr], rfl, rfl⟩
      · rename_i existingId hfn
        -- a trade with the key is there: a retry, or a clash that is refused
        obtain ⟨hlt, hkey, -⟩ := findIdx?_eq_some_iff_getElem.1 hfn
        split
        · exact .inl ⟨hep, htr⟩
        · rename_i hsame
          obtain ⟨htr', e', he', hall⟩ := hmr db1.trades
          refine .inr ⟨e, e', hlk, hlive, he', hep ▸ hall, .inr ⟨htr'.trans htr, ?_⟩⟩
          have hmem : ∀ t ∈ db1.trades, t ∈ db.trades := fun t ht => htr ▸ ht
          refine ⟨db1.trades[existingId], hmem _ (getElem_mem hlt), ?_, by simpa using hkey⟩
          rw [getElem?_eq_getElem hlt] at hsame
          simp only [all_some, decide_eq_true_eq, not_or, not_not] at hsame
          exact hsame.1

def Acts (s : State) (c : Call) (db' : Db) : Prop :=
  db'.trades = s.db.trades ∧ ∀ id, Change s id c (s.db.episodes.lookup id) (db'.episodes.lookup id)

theorem acts_same (s : State) (c : Call) : Acts s c s.db := ⟨rfl, fun _ => .same _ _⟩

theorem acts_of_insert (hin : s.db.insert id r = some (db', e))
    (hcn : e.toRow = r → Change s id c none (some e)) : Acts s c db' := by
  obtain ⟨hnn, he, htr, hall⟩ := insert_eq_some hin
  refine ⟨htr, fun id' => ?_⟩
  rw [hall]
  split
  · rename_i hid
    rw [hid, hnn]
    exact hcn he
  · exact .same _ _

theorem acts_of_update (hup : s.db.update id p f = some (db', e'))
    (hcn : ∀ e : Episode, p e.toRow = true → e'.toRow = f e.toRow → Change s id c (some e) (some e')) :
    Acts s c db' := by
  obtain ⟨e, hlk, hp, he', htr, hall⟩ := update_eq_some hup
  refine ⟨htr, fun id' => ?_⟩
  rw [hall]
  split
  · rename_i hid
    rw [hid, hlk]
    exact hcn e hp he'
  · exact .same _ _

theorem step_acts (s : State) (c : Call) : Acts s c (s.step c).db ∨ ∃ now req, c = .openTradeForEpisode now req := by
  cases c with
  | openTradeForEpisode now req => exact .inr ⟨now, req, rfl⟩
  | createEpisode now req =>
    refine .inl ?_
    unfold State.step createEpisode
    dsimp only
    split
    · exact acts_same _ _
    · rename_i hfree
      split
      · rename_i db' e hin
        refine acts_of_insert hin fun he => ?_
        exact .armed rfl (by simpa using hfree) (he ▸ rfl) (he ▸ rfl) (he ▸ rfl)
      · exact acts_same _ _
  | createRejectedEpisode now req =>
    refine .inl ?_
    unfold State.step createRejectedEpisode
    dsimp only
    split
    · exact acts_same _ _
    · split
      · rename_i db' e hin
        exact acts_of_insert hin fun he => .rejected (he ▸ rfl)
      · exact acts_same _ _
  | claimEpisode now episodeId token leaseSeconds =>
    refine .inl ?_
    unfold State.step claimEpisode
    dsimp only
    split
    · rename_i db' e' hup
      exact acts_of_update hup fun e hp he' => .claimed hp he'
    · exact acts_same _ _
  | terminateEpisode episodeId reason claimToken status =>
    refine .inl ?_
    unfold State.step terminateEpisode
    dsimp only
    split
    · rename_i db' e' hup
      exact acts_of_update hup fun e hp he' => .terminated hp he'
    · exact acts_same _ _
  | markClosed episodeId =>
    refine .inl ?_
    unfold State.step markClosed
    dsimp only
    split
    · rename_i db' e' hup
      exact acts_of_update hup fun e hp he' => .closed (by simpa using hp) he'
    · exact acts_same _ _
  | reapBegin => exact .inl (acts_same _ _)
  | reapSelect worker ids =>
    refine .inl ?_
    unfold State.step
    dsimp only
    split <;> exact acts_same _ _
  | reapCommit worker =>
    refine .inl ?_
    unfold State.step
    dsimp only
    split
    · rename_i r hr
      split
      · unfold Reap.commit
        refine ⟨(@commit_lookup "" r.pending s.db).1, fun id => ?_⟩
        -- what the row is now does not matter, only that the reaper has read it
        rcases (@commit_lookup id r.pending s.db).2 with hsame | ⟨kind, e, e', hkind, hlk, hlk', he'⟩
        · rw [hsame]
          exact .same _ _
        · rw [hlk, hlk']
          exact .reaped hr hkind he'
      · exact acts_same _ _
    · exact acts_same _ _
  | reapAbort => exact .inl (acts_same _ _)

theorem step_change (s : State) (c : Call) (id : String) :
    Change s id c (s.db.episodes.lookup id) ((s.step c).db.episodes.lookup id) := by
  rcases step_acts s c with hac | ⟨now, req, rfl⟩
  · exact hac.2 id
  · show Change s id _ _ ((openTradeForEpisode now req (entryKey req.episodeId) s.db).1.episodes.lookup id)
    rcases open_cases now req (entryKey req.episodeId) s.db with
      ⟨hsame, -⟩ | ⟨e, e', hlk, hlive, he', hall, htr⟩
    · rw [hsame]
      exact .same _ _
    · rw [hall]
      split
      · rename_i hid
        rw [hid, hlk]
        refine .opened rfl hlive he' ?_
        show ∃ t ∈ (openTradeForEpisode now req (entryKey req.episodeId) s.db).1.trades, _
        rcases htr with ⟨-, t, hap, ht⟩ | ⟨hsame, t, hmem, ht⟩
        · rw [hap]
          exact ⟨t, mem_append_right _ mem_cons_self, ht⟩
        · rw [hsame]
          exact ⟨t, hmem, ht⟩
      · exact .same _ _

structure Trades (s : State) (now : ℤ) (req : OpenRequest) (t : TradeRow) (e : Episode) : Prop where
  appended : (s.step (.openTradeForEpisode now req)).db.trades = s.db.trades ++ [t]
  episodeId : t.episodeId = req.episodeId
  key : t.entryIdempotencyKey = entryKey req.episodeId
  isNew : ∀ t' ∈ s.db.trades, t'.entryIdempotencyKey ≠ entryKey req.episodeId
  row : s.db.episodes.lookup req.episodeId = some e
  live : e.claimStillLive now req.claimToken = true
  marked : ∃ e' ∈ (s.step (.openTradeForEpisode now req)).db.episodes.lookup req.episodeId, e'.status = .opened

theorem step_trades (s : State) (c : Call) : (s.step c).db.trades = s.db.trades ∨
      ∃ now req t e, c = .openTradeForEpisode now req ∧ Trades s now req t e := by
  rcases step_acts s c with hac | ⟨now, req, rfl⟩
  · exact .inl hac.1
  · rcases open_cases now req (entryKey req.episodeId) s.db with
      ⟨-, hsame⟩ | ⟨e, e', hlk, hlive, he', hall, htr⟩
    · exact .inl hsame
    · rcases htr with ⟨hnew, t, hap, hid, hkey⟩ | ⟨hsame, -⟩
      · refine .inr ⟨now, req, t, e, rfl, hap, hid, hkey, hnew, hlk, hlive, e', ?_, he' ▸ rfl⟩
        exact (hall req.episodeId).trans (if_pos rfl)
      · exact .inl hsame

theorem reasoned_of_finish {reason : String}
    (h : e'.toRow = r.finish status reason) : e'.status = status ∧ status.reasoned = true := by
  have hstatus : e'.status = status := h ▸ rfl
  have hreason : e'.terminalReason = some reason := h ▸ rfl
  have hcc := e'.checks.1
  rw [hstatus, hreason] at hcc
  exact ⟨hstatus, hcc⟩

theorem not_live_of_reasoned (h : status.reasoned = true) : status.live = false := by
  cases status <;> first | rfl | cases h

theorem live_of_claimable (h : r.claimable now = true) : r.status.live = true := by
  unfold Row.claimable at h
  simp only [Bool.and_eq_true, Bool.or_eq_true, beq_iff_eq] at h
  rcases h.2 with har | ⟨hcm, -⟩
  · rw [har]
    rfl
  · rw [hcm]
    rfl

theorem Change.stays (h : Change s id c (some e) o) :
    ∃ e', o = some e' ∧ (e.status.live = false → e'.status.live = false) := by
  cases h with
  | same => exact ⟨e, rfl, fun hlive => hlive⟩
  | claimed hcl he' =>
    refine ⟨_, rfl, fun hlive => ?_⟩
    rw [live_of_claimable hcl] at hlive
    cases hlive
  | terminated _ he' | reaped _ _ he' =>
    obtain ⟨hstatus, hrs⟩ := reasoned_of_finish he'
    exact ⟨_, rfl, fun _ => hstatus ▸ not_live_of_reasoned hrs⟩
  | closed _ he' | opened _ _ he' => exact ⟨_, rfl, fun _ => he' ▸ rfl⟩

theorem Change.live (h : Change s id c o (some e')) (hlive : e'.status.live = true) :
    (∃ e, o = some e ∧ e.status.live = true ∧ e.exchange = e'.exchange ∧ e.nativeMarketId = e'.nativeMarketId) ∨
      ∃ now req, c = .createEpisode now req ∧ req.episodeId = id ∧
        s.db.watched e'.exchange e'.nativeMarketId = false := by
  cases h with
  | same => exact .inl ⟨e', rfl, hlive, rfl, rfl⟩
  | armed hid hfree hstatus hexchange hmarket =>
    exact .inr ⟨_, _, rfl, hid, by rw [hexchange, hmarket]; exact hfree⟩
  | rejected hstatus =>
    rw [hstatus] at hlive
    cases hlive
  | claimed hcl he' => exact .inl ⟨_, rfl, live_of_claimable hcl, he' ▸ rfl, he' ▸ rfl⟩
  | terminated _ he' | reaped _ _ he' =>
    obtain ⟨hstatus, hrs⟩ := reasoned_of_finish he'
    rw [hstatus, not_live_of_reasoned hrs] at hlive
    cases hlive
  | closed hopened he' =>
    have hstatus : e'.status = .closed := he' ▸ rfl
    rw [hstatus] at hlive
    cases hlive
  | opened hid hst he' htrade =>
    have hstatus : e'.status = .opened := he' ▸ rfl
    rw [hstatus] at hlive
    cases hlive

end Schurfer.Episodes
