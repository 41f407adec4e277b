import Schurfer.Episodes.Changes

/-!
# One trade for an episode

An instrument has one live episode at most, an episode one trade at most, and a trade is written only under a claim
that is good at that moment. Each transaction has any `now()` at all.
-/

namespace Schurfer.Episodes

open List

variable {id : String} {e : Episode}

structure Sound (db : Db) : Prop where
  live : ∀ {id id' : String} {e e' : Episode}, db.episodes.lookup id = some e → db.episodes.lookup id' = some e' →
    e.status.live = true → e'.status.live = true → e.exchange = e'.exchange → e.nativeMarketId = e'.nativeMarketId →
    id = id'
  keyed : ∀ t ∈ db.trades, t.entryIdempotencyKey = entryKey t.episodeId
  once : db.trades.Pairwise fun t t' => t.episodeId ≠ t'.episodeId
  traded : ∀ {id : String} {e : Episode}, db.episodes.lookup id = some e → e.status = .opened ∨ e.status = .closed →
    ∃ t ∈ db.trades, t.episodeId = id
  ended : ∀ t ∈ db.trades, ∃ e ∈ db.episodes.lookup t.episodeId, e.status.live = false

theorem not_live_of_not_watched {db : Db} {exchange nativeMarketId : String}
    (h : db.watched exchange nativeMarketId = false)
    (hlk : db.episodes.lookup id = some e) (hlive : e.status.live = true) (hexchange : e.exchange = exchange)
    (hmarket : e.nativeMarketId = nativeMarketId) : False := by
  have hmem : (⟨id, e⟩ : Sigma fun _ : String => Episode) ∈ db.episodes.entries := AList.mem_lookup_iff.1 hlk
  have hnot := (any_eq_false.1 h) ⟨id, e⟩ hmem
  simp [hlive, hexchange, hmarket] at hnot

section

variable {s : State} (h : Sound s.db) (c : Call) {t : TradeRow} {e' : Episode}

include h

theorem Sound.step_live {id' : String} (he : (s.step c).db.episodes.lookup id = some e)
    (he' : (s.step c).db.episodes.lookup id' = some e') (hlive : e.status.live = true) (hlive' : e'.status.live = true)
    (hexchange : e.exchange = e'.exchange) (hmarket : e.nativeMarketId = e'.nativeMarketId) : id = id' := by
  have hch := step_change s c id
  have hch' := step_change s c id'
  rw [he] at hch
  rw [he'] at hch'
  -- each of the two was live before, or this call armed it
  rcases hch.live hlive with ⟨e0, ho, hlive0, hexchange0, hmarket0⟩ | ⟨now, req, hc, hid, hfree⟩
  · rcases hch'.live hlive' with ⟨e1, ho1, hlive1, hexchange1, hmarket1⟩ | ⟨now, req, -, -, hfree⟩
    · exact h.live ho ho1 hlive0 hlive1 (hexchange0.trans (hexchange.trans hexchange1.symm))
        (hmarket0.trans (hmarket.trans hmarket1.symm))
    · exact (not_live_of_not_watched hfree ho hlive0 (hexchange0.trans hexchange) (hmarket0.trans hmarket)).elim
  · rcases hch'.live hlive' with ⟨e1, ho1, hlive1, hexchange1, hmarket1⟩ | ⟨now', req', hc', hid', -⟩
    · exact (not_live_of_not_watched hfree ho1 hlive1 (hexchange1.trans hexchange.symm)
        (hmarket1.trans hmarket.symm)).elim
    · rw [hc] at hc'
      obtain ⟨-, rfl⟩ := Call.createEpisode.inj hc'
      exact hid.symm.trans hid'

theorem Sound.claimed {now : ℤ} {req : OpenRequest} (ht : Trades s now req t e) :
    e.status = .claimed ∧ e.claimToken = some req.claimToken ∧ (∃ expiry ∈ e.claimExpiresAt, now < expiry) ∧
      now < e.expiresAt := by
  obtain ⟨htk, hopened | ⟨hcl, hls, hwn⟩⟩ := claimStillLive_iff.1 ht.live
  · -- an opened episode has its trade, with the same key
    obtain ⟨t', ht', hid⟩ := h.traded ht.row (.inl hopened)
    have hkey := h.keyed t' ht'
    rw [hid] at hkey
    exact absurd hkey (ht.isNew t' ht')
  · exact ⟨hcl, htk, hls, hwn⟩

omit h in
theorem trades_stay (ht : t ∈ s.db.trades) : t ∈ (s.step c).db.trades := by
  rcases step_trades s c with hsame | ⟨now, req, t', e, rfl, htr⟩
  · rw [hsame]
    exact ht
  · rw [htr.appended]
    exact mem_append_left _ ht

theorem Sound.step_traded (hlk : (s.step c).db.episodes.lookup id = some e')
    (hstatus : e'.status = .opened ∨ e'.status = .closed) : ∃ t ∈ (s.step c).db.trades, t.episodeId = id := by
  have hbf : ∀ {e : Episode}, s.db.episodes.lookup id = some e → e.status = .opened ∨ e.status = .closed →
      ∃ t ∈ (s.step c).db.trades, t.episodeId = id := by
    intro e hlk0 hstatus0
    obtain ⟨t, ht, hid⟩ := h.traded hlk0 hstatus0
    exact ⟨t, trades_stay c ht, hid⟩
  have hch := step_change s c id
  rw [hlk] at hch
  generalize hrow : s.db.episodes.lookup id = o at hch
  cases hch with
  | same => exact hbf hrow hstatus
  | armed _ _ har | rejected har => rw [har] at hstatus; simp at hstatus
  | claimed hcm he' =>
    have hcl : e'.status = .claimed := he' ▸ rfl
    rw [hcl] at hstatus
    simp at hstatus
  | terminated hte he' =>
    obtain ⟨rfl, hrs⟩ := reasoned_of_finish he'
    rcases hstatus with hstatus | hstatus <;> rw [hstatus] at hrs <;> cases hrs
  | closed hopened he' => exact hbf hrow (.inl hopened)
  | reaped hr hkind he' =>
    obtain ⟨hstatus', hrs⟩ := reasoned_of_finish he'
    rw [← hstatus'] at hrs
    rcases hstatus with hstatus | hstatus <;> rw [hstatus] at hrs <;> cases hrs
  | opened hid hlive he' htrade =>
    obtain ⟨t, ht, htid, -⟩ := htrade
    exact ⟨t, ht, htid⟩

theorem Sound.step : Sound (s.step c).db := by
  -- an episode with a trade is not live, and stays so
  have hen : ∀ t ∈ s.db.trades, ∃ e ∈ (s.step c).db.episodes.lookup t.episodeId, e.status.live = false := by
    intro t ht
    obtain ⟨e, he, hlive⟩ := h.ended t ht
    have hch := step_change s c t.episodeId
    rw [Option.mem_def.1 he] at hch
    obtain ⟨e', he', hkp⟩ := hch.stays
    exact ⟨e', he', hkp hlive⟩
  rcases step_trades s c with hsame | ⟨now, req, t, e, rfl, htr⟩
  · exact ⟨h.step_live c, hsame ▸ h.keyed, hsame ▸ h.once, h.step_traded c, hsame ▸ hen⟩
  · refine ⟨h.step_live _, fun t' ht' => ?_, ?_, h.step_traded _, fun t' ht' => ?_⟩
    · rw [htr.appended] at ht'
      rcases mem_append.1 ht' with ht' | ht'
      · exact h.keyed t' ht'
      · rw [mem_singleton.1 ht', htr.key, htr.episodeId]
    · rw [htr.appended]
      -- a second trade of the episode would have the same key
      refine pairwise_append.2 ⟨h.once, pairwise_singleton _ _, fun t1 ht1 t2 ht2 hid => ?_⟩
      rw [mem_singleton.1 ht2, htr.episodeId] at hid
      exact htr.isNew t1 ht1 (hid ▸ h.keyed t1 ht1)
    · rw [htr.appended] at ht'
      rcases mem_append.1 ht' with ht' | ht'
      · exact hen t' ht'
      · obtain ⟨e', he', hopened⟩ := htr.marked
        rw [mem_singleton.1 ht', htr.episodeId]
        exact ⟨e', he', by rw [hopened]; rfl⟩

end

section

variable (calls : List Call)

theorem sound_stateAfter (n : ℕ) : Sound (stateAfter calls n).db := by
  refine Run.invariant (I := fun s : State => Sound s.db) ?_ (fun n c _ h => h.step c) n
  refine ⟨fun he => ?_, fun t ht => ?_, .nil, fun he => ?_, fun t ht => ?_⟩
  · rw [AList.lookup_empty] at he
    cases he
  · cases ht
  · rw [AList.lookup_empty] at he
    cases he
  · cases ht

def StaysEnded (o o' : Option Episode) : Prop :=
  ∀ e ∈ o, e.status.live = false → ∃ e' ∈ o', e'.status.live = false

instance : Std.Refl StaysEnded := ⟨fun _ e he hlive => ⟨e, he, hlive⟩⟩

instance : IsTrans (Option Episode) StaysEnded := by
  refine ⟨fun a b c hab hbc e he hlive => ?_⟩
  obtain ⟨e₁, he₁, hlive₁⟩ := hab e he hlive
  exact hbc e₁ he₁ hlive₁

theorem staysEnded (id : String) {m n : ℕ} (hmn : m ≤ n) :
    StaysEnded ((stateAfter calls m).db.episodes.lookup id) ((stateAfter calls n).db.episodes.lookup id) := by
  refine Run.persists (fun s : State => s.db.episodes.lookup id) (fun k c _ e he hlive => ?_) hmn
  have hch := step_change (Run.stateAt State.step {} calls k) c id
  rw [Option.mem_def.1 he] at hch
  obtain ⟨e', he', hkp⟩ := hch.stays
  exact ⟨e', he', hkp hlive⟩

theorem no_trade_of_ended {n : ℕ}
    (hlk : (stateAfter calls n).db.episodes.lookup id = some e) (hen : e.status.reasoned = true)
    (hnv : ∀ k ≤ n, ∀ e' ∈ (stateAfter calls k).db.episodes.lookup id, e'.status ≠ .opened) (m : ℕ) :
    ∀ t ∈ (stateAfter calls m).db.trades, t.episodeId ≠ id := by
  intro t ht hid
  have htd : ∃ t ∈ (Run.stateAt State.step {} calls m).db.trades, t.episodeId = id := ⟨t, ht, hid⟩
  -- the call that wrote the first trade of the episode
  obtain ⟨k, -, c, hc, hnn, t', ht', hid'⟩ :=
    Run.exists_step (P := fun s : State => ∃ t ∈ s.db.trades, t.episodeId = id) (by simp) htd
  rcases step_trades (Run.stateAt State.step {} calls k) c with hsame | ⟨now, req, t1, e1, rfl, htr⟩
  · rw [hsame] at ht'
    exact hnn ⟨t', ht', hid'⟩
  · have hreq : req.episodeId = id := by
      rw [htr.appended] at ht'
      rcases mem_append.1 ht' with ht' | ht'
      · exact (hnn ⟨t', ht', hid'⟩).elim
      · rw [← htr.episodeId, ← mem_singleton.1 ht', hid']
    rcases Nat.lt_or_ge k n with hkn | hnk
    · -- it opened the episode before the end
      obtain ⟨e', he', hopened⟩ := htr.marked
      rw [hreq] at he'
      exact hnv (k + 1) hkn e' (stateAfter_succ hc ▸ he') hopened
    · -- after the end nobody has a claim
      obtain ⟨e', he', hlive⟩ := staysEnded calls id hnk e hlk (not_live_of_reasoned hen)
      have hrow := htr.row
      rw [hreq] at hrow
      obtain rfl : e' = e1 := Option.some.inj ((Option.mem_def.1 he').symm.trans hrow)
      obtain ⟨hcl, -⟩ := (sound_stateAfter calls k).claimed htr
      rw [hcl] at hlive
      cases hlive

/-- In every run: one live episode at most of an instrument, one trade at most of an episode, written only under a
claim that is good at that moment, and none of an episode that ended without being opened. -/
theorem episode_opens_once :
    (∀ n id id' e e', (stateAfter calls n).db.episodes.lookup id = some e →
      (stateAfter calls n).db.episodes.lookup id' = some e' → e.status.live = true → e'.status.live = true →
      e.exchange = e'.exchange → e.nativeMarketId = e'.nativeMarketId → id = id') ∧
    (∀ n, (stateAfter calls n).db.trades.Pairwise fun t t' => t.episodeId ≠ t'.episodeId) ∧
    (∀ n c, calls[n]? = some c → (stateAfter calls (n + 1)).db.trades = (stateAfter calls n).db.trades ∨
      ∃ now req t e, c = .openTradeForEpisode now req ∧
        (stateAfter calls (n + 1)).db.trades = (stateAfter calls n).db.trades ++ [t] ∧
        t.episodeId = req.episodeId ∧ (stateAfter calls n).db.episodes.lookup req.episodeId = some e ∧
        e.status = .claimed ∧ e.claimToken = some req.claimToken ∧ (∃ expiry ∈ e.claimExpiresAt, now < expiry) ∧
        now < e.expiresAt) ∧
    ∀ n id e, (stateAfter calls n).db.episodes.lookup id = some e → e.status.reasoned = true →
      (∀ k ≤ n, ∀ e' ∈ (stateAfter calls k).db.episodes.lookup id, e'.status ≠ .opened) →
      ∀ m, ∀ t ∈ (stateAfter calls m).db.trades, t.episodeId ≠ id := by
  refine ⟨fun n id id' e e' he he' hlive hlive' hexchange hmarket => ?_, fun n => (sound_stateAfter calls n).once,
    fun n c hc => ?_, fun n id e he hended hnever m => no_trade_of_ended calls he hended hnever m⟩
  · exact (sound_stateAfter calls n).live he he' hlive hlive' hexchange hmarket
  · rw [stateAfter_succ hc]
    rcases step_trades (stateAfter calls n) c with hsame | ⟨now, req, t, e, rfl, htrades⟩
    · exact .inl hsame
    · have hclaimed := (sound_stateAfter calls n).claimed htrades
      exact .inr ⟨now, req, t, e, rfl, htrades.appended, htrades.episodeId, htrades.row, hclaimed⟩

end

end Schurfer.Episodes
