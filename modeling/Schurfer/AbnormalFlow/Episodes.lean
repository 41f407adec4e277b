import Mathlib.Combinatorics.Enumerative.DoubleCounting
import Mathlib.Data.List.Sort
import Mathlib.Data.Prod.Lex
import Mathlib.Data.String.Basic
import Schurfer.Lib.Dict

/-!
# The episodes of the fires

`form_episodes` keeps the first fire of an asset and then none within the cooldown of the last it kept. No choice of
fires that are so far apart has more of them, and the order the fires come in does not matter as long as no kept fire
shares its sort key with another (`episodes_thinned`); otherwise it does (`equal_keys_keep_first`).
-/

namespace Schurfer.AbnormalFlow

open List

structure DecisionFeatures where
  exchange : String
  marketType : String
  nativeMarketId : String
  captureVersion : String
  symbol : String
  canonicalAsset : String
  decisionAt : ℤ
deriving DecidableEq

namespace DecisionFeatures

variable (f : DecisionFeatures)

def routeKey : String × String × String × String × ℤ :=
  (f.exchange, f.marketType, f.nativeMarketId, f.captureVersion, f.decisionAt)

def key : String × String := (f.exchange, f.canonicalAsset)

def sortKey : String ×ₗ String ×ₗ ℤ ×ₗ String :=
  toLex (f.exchange, toLex (f.canonicalAsset, toLex (f.decisionAt, f.symbol)))

end DecisionFeatures

open DecisionFeatures

def thin (cooldown : ℤ) : List DecisionFeatures → Dict (String × String) ℤ → List DecisionFeatures
  | [], _ => []
  | f :: rest, lastKeptAt =>
    if ∃ previous ∈ lastKeptAt.lookup f.key, f.decisionAt - previous < cooldown then thin cooldown rest lastKeptAt
    else f :: thin cooldown rest (lastKeptAt.insert f.key f.decisionAt)

def ordered (fires : List DecisionFeatures) : List DecisionFeatures :=
  fires.insertionSort fun f f' => f.sortKey ≤ f'.sortKey

def cooldownOf (cooldownMinutes : ℤ) : ℤ := cooldownMinutes * 60000000

def formEpisodes (fires : List DecisionFeatures) (cooldownMinutes : ℤ) : List DecisionFeatures :=
  thin (cooldownOf cooldownMinutes) (ordered fires) ∅

variable {cooldown : ℤ} {f f' : DecisionFeatures} {fires : List DecisionFeatures} {last : Dict (String × String) ℤ}

/-- The fires of an asset in the order of their times. -/
def InOrder (fires : List DecisionFeatures) : Prop :=
  fires.Pairwise fun f f' => f.key = f'.key → f.decisionAt ≤ f'.decisionAt

theorem decisionAt_le (h : f.sortKey ≤ f'.sortKey) (hkey : f.key = f'.key) : f.decisionAt ≤ f'.decisionAt := by
  simp only [key, Prod.mk.injEq] at hkey
  simp only [sortKey, Prod.Lex.toLex_le_toLex, hkey, lt_irrefl, false_or, true_and] at h
  exact h.elim le_of_lt fun h => h.1.le

theorem pairwise_ordered : (ordered fires).Pairwise fun f f' => f.sortKey ≤ f'.sortKey :=
  @pairwise_insertionSort _ (fun f f' => f.sortKey ≤ f'.sortKey) _ ⟨fun _ _ => le_total _ _⟩
    ⟨fun _ _ _ => le_trans⟩ fires

theorem ordered_inOrder : InOrder (ordered fires) := pairwise_ordered.imp decisionAt_le

theorem thin_sublist : thin cooldown fires last <+ fires := by
  induction fires generalizing last with
  | nil => exact .slnil
  | cons f fires ih =>
    unfold thin
    split
    · exact .cons f ih
    · exact .cons_cons f ih

theorem thin_apart (hs : InOrder fires) :
    ((thin cooldown fires last).Pairwise fun f f' => f.key = f'.key → cooldown ≤ f'.decisionAt - f.decisionAt) ∧
      ∀ f ∈ thin cooldown fires last, ∀ previous ∈ last.lookup f.key, cooldown ≤ f.decisionAt - previous := by
  induction fires generalizing last with
  | nil => exact ⟨.nil, nofun⟩
  | cons f fires ih =>
    obtain ⟨hle, hs⟩ := pairwise_cons.1 hs
    unfold thin
    split
    · exact ih hs
    · rename_i hfree
      obtain ⟨hrest, hlast⟩ := @ih (last.insert f.key f.decisionAt) hs
      refine ⟨pairwise_cons.2 ⟨fun f' hf' hkey => ?_, hrest⟩, fun f' hf' previous hprev => ?_⟩
      · exact hlast f' hf' _ (by rw [← hkey, AList.lookup_insert]; rfl)
      · have hf : ∀ previous ∈ last.lookup f.key, cooldown ≤ f.decisionAt - previous := by
          simpa only [not_exists, not_and, not_lt] using hfree
        obtain rfl | hf' := mem_cons.1 hf'
        · exact hf previous hprev
        · by_cases hkey : f.key = f'.key
          · have := hle f' (thin_sublist.subset hf') hkey
            have := hf previous (hkey ▸ hprev)
            omega
          · exact hlast f' hf' previous (by rwa [AList.lookup_insert_ne (Ne.symm hkey)])

/-- The fire is kept, or follows closely on one that is. -/
structure Covers (cooldown : ℤ) (f k : DecisionFeatures) : Prop where
  key : k.key = f.key
  le : k.decisionAt ≤ f.decisionAt
  close : k = f ∨ f.decisionAt - k.decisionAt < cooldown

theorem thin_covers (hs : InOrder fires) (hf : f ∈ fires) :
    (∃ previous ∈ last.lookup f.key, f.decisionAt - previous < cooldown) ∨
      ∃ k ∈ thin cooldown fires last, Covers cooldown f k := by
  induction fires generalizing last with
  | nil => cases hf
  | cons f₀ fires ih =>
    obtain ⟨hle, hs⟩ := pairwise_cons.1 hs
    unfold thin
    split
    · rename_i hclose
      obtain rfl | hf := mem_cons.1 hf
      · exact .inl hclose
      · exact ih hs hf
    · obtain rfl | hf := mem_cons.1 hf
      · exact .inr ⟨f, mem_cons_self, rfl, le_rfl, .inl rfl⟩
      · obtain ⟨previous, hprev, hlt⟩ | ⟨k, hk, hcovers⟩ := @ih (last.insert f₀.key f₀.decisionAt) hs hf
        · by_cases hkey : f₀.key = f.key
          · rw [← hkey, AList.lookup_insert] at hprev
            cases hprev
            exact .inr ⟨f₀, mem_cons_self, hkey, hle f hf hkey, .inr hlt⟩
          · rw [AList.lookup_insert_ne (Ne.symm hkey)] at hprev
            exact .inl ⟨previous, hprev, hlt⟩
        · exact .inr ⟨k, mem_cons_of_mem _ hk, hcovers⟩

theorem formEpisodes_covers (cooldownMinutes : ℤ) (hf : f ∈ fires) :
    ∃ k ∈ formEpisodes fires cooldownMinutes, Covers (cooldownOf cooldownMinutes) f k := by
  have hmem : f ∈ ordered fires := (mem_insertionSort _).2 hf
  exact (thin_covers ordered_inOrder hmem).resolve_left nofun

def Apart (cooldown : ℤ) (chosen : Finset DecisionFeatures) : Prop :=
  ∀ f ∈ chosen, ∀ f' ∈ chosen, f ≠ f' → f.key = f'.key → cooldown ≤ |f'.decisionAt - f.decisionAt|

theorem card_le {chosen : Finset DecisionFeatures} {cooldownMinutes : ℤ} (hsub : ∀ f ∈ chosen, f ∈ fires)
    (hapart : Apart (cooldownOf cooldownMinutes) chosen) (key : String × String) :
    (chosen.filter (·.key = key)).card ≤ ((formEpisodes fires cooldownMinutes).filter (·.key = key)).length := by
  refine (Finset.card_le_card_of_forall_subsingleton (Covers (cooldownOf cooldownMinutes)) (fun f hf => ?_)
    fun k _ f ⟨hf, hk⟩ f' ⟨hf', hk'⟩ => ?_).trans (toFinset_card_le _)
  · obtain ⟨hf, hkey⟩ := Finset.mem_filter.1 hf
    obtain ⟨k, hk, hcovers⟩ := formEpisodes_covers cooldownMinutes (hsub f hf)
    exact ⟨k, by simp [hk, hcovers.key, hkey], hcovers⟩
  · -- two that are far apart do not follow on the same kept fire
    by_contra hne
    have hle := hk.le
    have hle' := hk'.le
    have hfar := hapart f (Finset.mem_filter.1 hf).1 f' (Finset.mem_filter.1 hf').1 hne (hk.key.symm.trans hk'.key)
    rw [le_abs] at hfar
    obtain rfl | hlt := hk.close
    · obtain heq | hlt' := hk'.close
      · exact hne heq
      · omega
    · obtain rfl | hlt' := hk'.close <;> omega

/-- The lists of fires have the same sort keys, one by one. -/
abbrev Alike : List DecisionFeatures → List DecisionFeatures → Prop := Forall₂ fun f f' => f.sortKey = f'.sortKey

theorem key_eq (h : f.sortKey = f'.sortKey) : f.key = f'.key ∧ f.decisionAt = f'.decisionAt := by
  simp only [sortKey, toLex_inj, Prod.mk.injEq] at h
  exact ⟨Prod.ext h.1 h.2.1, h.2.2.1⟩

/-- What is kept is decided by the sort keys alone. -/
theorem thin_alike {fires' : List DecisionFeatures} (h : Alike fires fires') :
    Alike (thin cooldown fires last) (thin cooldown fires' last) := by
  induction h generalizing last with
  | nil => exact .nil
  | cons heq _ ih =>
    obtain ⟨hkey, htime⟩ := key_eq heq
    unfold thin
    rw [hkey, htime]
    split
    · exact ih
    · exact .cons heq ih

theorem formEpisodes_alike {fires' : List DecisionFeatures} (h : fires'.Perm fires) (cooldownMinutes : ℤ) :
    Alike (formEpisodes fires' cooldownMinutes) (formEpisodes fires cooldownMinutes) := by
  have hkeys : (ordered fires').map sortKey = (ordered fires).map sortKey := by
    refine Perm.eq_of_pairwise (fun _ _ _ _ => le_antisymm) (pairwise_map.2 pairwise_ordered)
      (pairwise_map.2 pairwise_ordered) (Perm.map _ ?_)
    exact ((perm_insertionSort _ _).trans h).trans (perm_insertionSort _ _).symm
  rw [← forall₂_eq_eq_eq, forall₂_map_left_iff, forall₂_map_right_iff] at hkeys
  exact thin_alike hkeys

theorem formEpisodes_map {g : DecisionFeatures → DecisionFeatures} (hg : ∀ f, (g f).sortKey = f.sortKey)
    (cooldownMinutes : ℤ) :
    formEpisodes (fires.map g) cooldownMinutes = (formEpisodes fires cooldownMinutes).map g := by
  have hordered : ordered (fires.map g) = (ordered fires).map g :=
    (map_insertionSort _ _ g fires fun f _ f' _ => by rw [hg, hg]).symm
  have hthin : ∀ l last, thin (cooldownOf cooldownMinutes) (l.map g) last =
      (thin (cooldownOf cooldownMinutes) l last).map g := by
    intro l
    induction l with
    | nil => exact fun _ => rfl
    | cons f l ih =>
      intro last
      obtain ⟨hkey, htime⟩ := key_eq (hg f)
      rw [map_cons, thin, thin, hkey, htime]
      split
      · exact ih last
      · rw [map_cons, ih]
  rw [formEpisodes, hordered, hthin, formEpisodes]

/-- No other fire has the sort key of a fire that is kept. -/
def KeptAlone (fires kept : List DecisionFeatures) : Prop := ∀ k ∈ kept, ∀ f ∈ fires, f.sortKey = k.sortKey → f = k

theorem KeptAlone.eq {kept kept' : List DecisionFeatures} (halone : KeptAlone fires kept) (h : Alike kept' kept)
    (hsub : kept' ⊆ fires) : kept' = kept := by
  induction h with
  | nil => rfl
  | cons heq _ ih =>
    rw [halone _ mem_cons_self _ (hsub mem_cons_self) heq,
      ih (fun k hk => halone k (mem_cons_of_mem _ hk)) fun f hf => hsub (mem_cons_of_mem _ hf)]

theorem formEpisodes_subset (fires : List DecisionFeatures) (cooldownMinutes : ℤ) :
    formEpisodes fires cooldownMinutes ⊆ fires :=
  fun _ hf => (mem_insertionSort _).1 (thin_sublist.subset hf)

/-- Two fires with the sort key of a kept one change places without changing what is kept where. -/
theorem keptAlone_of_same {cooldownMinutes : ℤ} (hroutes : (fires.map routeKey).Nodup)
    (hsame : ∀ fires', fires'.Perm fires → formEpisodes fires' cooldownMinutes = formEpisodes fires cooldownMinutes) :
    KeptAlone fires (formEpisodes fires cooldownMinutes) := by
  intro k hk f hf hkey
  have hmem : ∀ x ∈ fires, Equiv.swap k f x ∈ fires := by
    intro x hx
    rw [Equiv.swap_apply_def]
    split_ifs
    · exact hf
    · exact formEpisodes_subset _ _ hk
    · exact hx
  have hperm : (fires.map (Equiv.swap k f)).Perm fires := by
    refine (Nodup.subperm (hroutes.of_map.map (Equiv.injective _)) fun x hx => ?_).perm_of_length_le (by simp)
    obtain ⟨y, hy, rfl⟩ := mem_map.1 hx
    exact hmem y hy
  have hswap : ∀ x, (Equiv.swap k f x).sortKey = x.sortKey := by
    intro x
    rw [Equiv.swap_apply_def]
    split_ifs with hxk hxf
    · rw [hxk, hkey]
    · rw [hxf, hkey]
    · rfl
  have hfixed := hsame _ hperm
  rw [formEpisodes_map hswap] at hfixed
  have hk' := map_inj_left.1 (hfixed.trans (map_id _).symm) k hk
  rwa [Equiv.swap_apply_left] at hk'

/-- **Episode thinning**: the episodes are the same for every order of the fires exactly when no kept fire shares its
sort key with another; they are a cooldown apart and cover every fire, and no other choice that is so far apart has
more of an asset. -/
theorem episodes_thinned (fires : List DecisionFeatures) (hroutes : (fires.map routeKey).Nodup) (cooldownMinutes : ℤ) :
    let kept := formEpisodes fires cooldownMinutes
    let cooldown := cooldownOf cooldownMinutes
    ((∀ fires', fires'.Perm fires → formEpisodes fires' cooldownMinutes = kept) ↔ KeptAlone fires kept) ∧
    kept.Pairwise (fun f f' => f.key = f'.key → cooldown ≤ f'.decisionAt - f.decisionAt) ∧
    (∀ f ∈ fires, f ∉ kept → ∃ k ∈ kept, k.key = f.key ∧ k.decisionAt ≤ f.decisionAt ∧
      f.decisionAt - k.decisionAt < cooldown) ∧
    ∀ chosen : Finset DecisionFeatures, (∀ f ∈ chosen, f ∈ fires) → Apart cooldown chosen →
      ∀ key, (chosen.filter (·.key = key)).card ≤ (kept.filter (·.key = key)).length := by
  refine ⟨⟨keptAlone_of_same hroutes, fun halone fires' h => ?_⟩, (thin_apart ordered_inOrder).1,
    fun f hf hdropped => ?_, fun chosen hsub hapart key => card_le hsub hapart key⟩
  · exact halone.eq (formEpisodes_alike h _) fun f hf => h.subset (formEpisodes_subset _ _ hf)
  · obtain ⟨k, hk, hkey, hle, rfl | hlt⟩ := formEpisodes_covers cooldownMinutes hf
    · exact absurd hk hdropped
    · exact ⟨k, hk, hkey, hle, hlt⟩

def sampleFire (marketType : String) (decisionAt : ℤ) : DecisionFeatures :=
  ⟨"bybit", marketType, "BTCUSDT", "v1", "BTCUSDT", "BTC", decisionAt⟩

def laterTie : List DecisionFeatures := [sampleFire "swap" 0, sampleFire "spot" 30000000, sampleFire "swap" 30000000]

/-- Two fires of one sort key half a minute after a kept one: every order of the three keeps the first alone. -/
theorem laterTie_thinned :
    (laterTie.map routeKey).Nodup ∧ ∀ fires', fires'.Perm laterTie → formEpisodes fires' 1 = [sampleFire "swap" 0] := by
  have hroutes : (laterTie.map routeKey).Nodup := by decide +kernel
  have hkept : formEpisodes laterTie 1 = [sampleFire "swap" 0] := by decide +kernel
  refine ⟨hroutes, fun fires' h => ((episodes_thinned laterTie hroutes 1).1.2 ?_ fires' h).trans hkept⟩
  rw [hkept, KeptAlone]
  decide +kernel

theorem equal_keys_keep_first :
    ([sampleFire "spot" 0, sampleFire "swap" 0].map routeKey).Nodup ∧
      formEpisodes [sampleFire "spot" 0, sampleFire "swap" 0] 1 = [sampleFire "spot" 0] ∧
      formEpisodes [sampleFire "swap" 0, sampleFire "spot" 0] 1 = [sampleFire "swap" 0] := by
  decide +kernel

end Schurfer.AbnormalFlow
