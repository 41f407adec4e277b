import Schurfer.Episodes.Changes

/-!
# Whether an outcome is final

Two updates do not look at the status they overwrite: that of a worker that ends an episode with its token, and those
of a reaper, which looked earlier.
-/

namespace Schurfer.Episodes

def Status.final : Status → Bool
  | .expired | .rejected | .suppressed | .closed => true
  | _ => false

/-- What an update that does not look at the status counts on. -/
def Call.guarded (s : State) : Call → Bool
  | .terminateEpisode episodeId _ (some token) _ =>
    (s.db.episodes.lookup episodeId).all fun e => e.claimToken != some token || e.status == .claimed
  | .reapCommit worker =>
    (s.reaps.lookup worker).all fun r => r.pending.all fun x =>
      (s.db.episodes.lookup x.1).all fun e => e.status == x.2.source
  | _ => true

/-- An outcome stays, and an opened episode can only be closed. -/
def Lasting (o o' : Option Episode) : Prop :=
  ∀ e ∈ o, ∃ e' ∈ o',
    (e.status.final = true → e'.status = e.status ∧ e'.terminalReason = e.terminalReason) ∧
    (e.status = .opened → e'.status = .opened ∨ e'.status = .closed)

instance : Std.Refl Lasting := ⟨fun _ e he => ⟨e, he, fun _ => ⟨rfl, rfl⟩, .inl⟩⟩

instance : IsTrans (Option Episode) Lasting := by
  refine ⟨fun a b c hab hbc e he => ?_⟩
  obtain ⟨e₁, he₁, hfinal₁, hopened₁⟩ := hab e he
  obtain ⟨e₂, he₂, hfinal₂, hopened₂⟩ := hbc e₁ he₁
  refine ⟨e₂, he₂, fun hfinal => ?_, fun hopened => ?_⟩
  · obtain ⟨hstatus, hreason⟩ := hfinal₁ hfinal
    obtain ⟨hstatus₂, hreason₂⟩ := hfinal₂ (hstatus ▸ hfinal)
    exact ⟨hstatus₂.trans hstatus, hreason₂.trans hreason⟩
  · rcases hopened₁ hopened with hopened | hclosed
    · exact hopened₂ hopened
    · obtain ⟨hstatus₂, -⟩ := hfinal₂ (by rw [hclosed]; rfl)
      exact .inr (hstatus₂.trans hclosed)

theorem not_final_of_live {status : Status} (h : status.live = true) : status.final = false := by
  cases status <;> first | rfl | cases h

theorem lasting_of_live {e e' : Episode} (hlive : e.status.live = true) : Lasting (some e) (some e') := by
  intro e1 he1
  cases he1
  refine ⟨e', rfl, fun hfinal => ?_, fun hopened => ?_⟩
  · rw [not_final_of_live hlive] at hfinal
    cases hfinal
  · rw [hopened] at hlive
    cases hlive

theorem step_lasting (s : State) (c : Call) (hgr : c.guarded s = true) (id : String) :
    Lasting (s.db.episodes.lookup id) ((s.step c).db.episodes.lookup id) := by
  have hch := step_change s c id
  generalize hrow : s.db.episodes.lookup id = o at hch ⊢
  generalize (s.step c).db.episodes.lookup id = o' at hch ⊢
  cases hch with
  | same => exact Std.Refl.refl _
  | armed | rejected =>
    intro e1 he1
    cases he1
  | claimed hcm he' => exact lasting_of_live (live_of_claimable hcm)
  | @terminated reason claimToken status e e' htr he' =>
    refine lasting_of_live ?_
    cases claimToken with
    | none =>
      have har : e.status = .armed := by simpa [Row.terminable] using htr
      rw [har]
      rfl
    | some token =>
      -- the update asks for the token only; the condition says that the row is still claimed
      have htk : e.claimToken = some token := by simpa [Row.terminable] using htr
      have hcl : e.status = .claimed := by simpa [Call.guarded, hrow, htk] using hgr
      rw [hcl]
      rfl
  | @closed e e' hopened he' =>
    intro e1 he1
    cases he1
    refine ⟨e', rfl, fun hfinal => ?_, fun _ => .inr (he' ▸ rfl)⟩
    rw [hopened] at hfinal
    cases hfinal
  | @reaped worker r kind e e' hr hkind he' =>
    refine lasting_of_live ?_
    -- the rows still have the status the reaper read
    have hall : ∀ x ∈ r.pending, ∀ e ∈ s.db.episodes.lookup x.1, e.status = x.2.source := by
      simpa [Call.guarded, hr, Option.all_eq_true] using hgr
    rw [hall (id, kind) hkind e hrow]
    cases kind <;> rfl
  | @opened now req e e' hid hlive he' htrade =>
    intro e1 he1
    cases he1
    refine ⟨e', rfl, fun hfinal => ?_, fun _ => .inl (he' ▸ rfl)⟩
    obtain ⟨-, hopened | ⟨hcl, -⟩⟩ := claimStillLive_iff.1 hlive
    · rw [hopened] at hfinal
      cases hfinal
    · rw [hcl] at hfinal
      cases hfinal

/-- In a run in which every call that overwrites a status without looking at it finds the one it counts on, an outcome
that is written stays with its reason, and an opened episode can only be closed. -/
theorem outcome_final (calls : List Call)
    (hguard : ∀ (n : ℕ) (c : Call), calls[n]? = some c → c.guarded (stateAfter calls n) = true) {m n : ℕ} (hmn : m ≤ n)
    {id : String} {e : Episode} (hlookup : (stateAfter calls m).db.episodes.lookup id = some e) :
    ∃ e', (stateAfter calls n).db.episodes.lookup id = some e' ∧
      (e.status.final = true → e'.status = e.status ∧ e'.terminalReason = e.terminalReason) ∧
      (e.status = .opened → e'.status = .opened ∨ e'.status = .closed) := by
  have hlasting := Run.persists (fun s : State => s.db.episodes.lookup id)
    (fun k c hc => step_lasting (Run.stateAt State.step {} calls k) c (hguard k c hc) id) hmn
  exact hlasting e hlookup

def orderly : List Call :=
  [.createEpisode 0 ⟨"first", "binance", "PEPEUSDT", "bybit", "1000PEPEUSDT", 900⟩,
    .claimEpisode (seconds 10) "first" "a" 30,
    .terminateEpisode "first" "spread_too_wide" (some "a") .rejected,
    .createEpisode (seconds 60) ⟨"second", "binance", "PEPEUSDT", "bybit", "1000PEPEUSDT", 900⟩,
    .reapBegin 0 (seconds 1000) 200 5, .reapSelect 0 ["second"], .reapSelect 0 [], .reapSelect 0 [], .reapCommit 0,
    .claimEpisode (seconds 1010) "first" "b" 30]

/-- The rejection stands at the end. -/
theorem orderly_rejection_stands :
    ∃ e e', (stateAfter orderly 3).db.episodes.lookup "first" = some e ∧ e.status = .rejected ∧
      (stateAfter orderly 10).db.episodes.lookup "first" = some e' ∧ e'.status = .rejected ∧
      e'.terminalReason = some "spread_too_wide" := by
  have hguard : ∀ (n : ℕ) (c : Call), orderly[n]? = some c → c.guarded (stateAfter orderly n) = true := by
    have hall : ∀ n ∈ List.range orderly.length,
        (orderly[n]?).all fun c => c.guarded (stateAfter orderly n) := by decide +kernel
    intro n c hc
    have hn := (List.getElem?_eq_some_iff.1 hc).1
    simpa [hc] using hall n (List.mem_range.2 hn)
  have hrejected : ((stateAfter orderly 3).db.episodes.lookup "first").map (fun e => (e.status, e.terminalReason)) =
      some (.rejected, some "spread_too_wide") := by decide +kernel
  obtain ⟨e, he, hboth⟩ := Option.map_eq_some_iff.1 hrejected
  obtain ⟨hstatus, hreason⟩ := Prod.mk.inj hboth
  obtain ⟨e', he', hfinal, -⟩ := outcome_final orderly hguard (show 3 ≤ 10 by decide) he
  obtain ⟨hstatus', hreason'⟩ := hfinal (by rw [hstatus]; rfl)
  exact ⟨e, e', he, hstatus, he', hstatus'.trans hstatus, hreason'.trans hreason⟩

def slowWorker : List Call :=
  [.createEpisode 0 ⟨"first", "binance", "PEPEUSDT", "bybit", "1000PEPEUSDT", 60⟩,
    .claimEpisode (seconds 50) "first" "a" 30,
    .reapBegin 0 (seconds 70) 200 5, .reapSelect 0 [], .reapSelect 0 ["first"], .reapSelect 0 [], .reapCommit 0,
    .terminateEpisode "first" "insufficient_depth" (some "a") .rejected]

/-- The expired episode becomes a rejected one, with another reason. -/
theorem slow_worker_overwrites :
    ((stateAfter slowWorker 7).db.episodes.lookup "first").map (fun e => (e.status, e.terminalReason)) =
        some (.expired, some "expired_while_claimed") ∧
      ((stateAfter slowWorker 8).db.episodes.lookup "first").map (fun e => (e.status, e.terminalReason)) =
        some (.rejected, some "insufficient_depth") := by
  decide +kernel

end Schurfer.Episodes
