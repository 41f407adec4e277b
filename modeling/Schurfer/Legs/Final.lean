import Schurfer.Legs.Journal
import Schurfer.Lib.Rows

/-!
# Legs are written once and a close is final

A leg keeps its amounts, and its time once it has one; a closed trade keeps its row and takes no leg; and evidence
that contradicts a recorded leg changes nothing.
-/

namespace Schurfer.Legs

open List Leg

variable {l l' : Leg} {leg : CloseLeg} {trip : RoundTrip} {j : Journal} {x : String × Bool}

def Leg.core (l : Leg) : Leg := { l with executedAt := none, executionTimeSource := none }

structure Leg.Keeps (l l' : Leg) : Prop where
  core : l'.core = l.core
  time : l.executedAt ≠ none → l' = l

theorem Leg.Keeps.refl (l : Leg) : l.Keeps l := ⟨rfl, fun _ => rfl⟩

theorem Leg.Keeps.trans {l1 l2 l3 : Leg} (h1 : l1.Keeps l2) (h2 : l2.Keeps l3) : l1.Keeps l3 := by
  refine ⟨h2.core.trans h1.core, fun htm => ?_⟩
  have h12 : l2 = l1 := h1.time htm
  subst h12
  exact h2.time htm

theorem Leg.Keeps.key (h : l.Keeps l') : l'.key = l.key := by
  have hkey : l'.core.key = l.core.key := by rw [h.core]
  exact hkey

theorem Leg.Keeps.tradeId (h : l.Keeps l') : l'.tradeId = l.tradeId := by
  have htrade : l'.core.tradeId = l.core.tradeId := by rw [h.core]
  exact htrade

theorem Leg.keeps_enriched (l evidence : Leg) : l.Keeps (l.enriched evidence) := by
  unfold enriched
  split
  · rename_i h
    exact ⟨rfl, fun htm => absurd h.1 htm⟩
  · exact .refl l

def Leg.conflicts (recorded evidence : Leg) : Bool :=
  !recorded.agrees evidence || recorded.timesConflict evidence

structure TradeRow.Keeps (t t' : TradeRow) : Prop where
  id : t'.id = t.id
  closed : t.status = .closed → t' = t

theorem TradeRow.Keeps.refl (t : TradeRow) : t.Keeps t := ⟨rfl, fun _ => rfl⟩

theorem TradeRow.Keeps.trans {t1 t2 t3 : TradeRow} (h1 : t1.Keeps t2) (h2 : t2.Keeps t3) : t1.Keeps t3 := by
  refine ⟨h2.id.trans h1.id, fun hclosed => ?_⟩
  have h12 : t2 = t1 := h1.closed hclosed
  subst h12
  exact h2.closed hclosed

def Journal.Closed (j : Journal) (tradeId : ℕ) : Prop := ∃ t ∈ j.trades, t.id = tradeId ∧ t.status = .closed

structure Journal.Extends (j j' : Journal) : Prop where
  trades : Rows.Grows TradeRow.Keeps (fun _ => True) j.trades j'.trades
  legs : Rows.Grows Leg.Keeps (fun l => ¬ j.Closed l.tradeId) j.legs j'.legs

namespace Journal

variable {j' j1 j2 j3 : Journal} {evidence : Leg}

theorem Extends.closed (h : j.Extends j') {tradeId : ℕ} (hc : j.Closed tradeId) : j'.Closed tradeId := by
  obtain ⟨t, ht, hid, hstatus⟩ := hc
  obtain ⟨t', ht', hkp⟩ := h.trades.mem_forth ht
  have hsame : t' = t := hkp.closed hstatus
  exact ⟨t', ht', hsame ▸ hid, hsame ▸ hstatus⟩

theorem Extends.refl (j : Journal) : j.Extends j := ⟨.refl .refl _, .refl .refl _⟩

theorem Extends.trans (h1 : j1.Extends j2) (h2 : j2.Extends j3) : j1.Extends j3 where
  trades := h1.trades.trans (fun _ _ _ => TradeRow.Keeps.trans) (fun _ _ _ _ => trivial) h2.trades
  legs := by
    -- a leg that is new after the second step is of a trade open then, hence open before
    have hlater := h2.legs.mono (fun _ _ h => h) fun l hon hclosed => hon (h1.closed hclosed)
    refine h1.legs.trans (fun _ _ _ => Leg.Keeps.trans) (fun l l' hon hkp => ?_) hlater
    rwa [hkp.tradeId]

theorem Extends.legsOf_closed (h : j.Extends j') {tradeId : ℕ} (hc : j.Closed tradeId) :
    (j'.legsOf tradeId).map core = (j.legsOf tradeId).map core := by
  obtain ⟨-, hlg⟩ := h
  unfold legsOf
  generalize j.legs = legs, j'.legs = legs' at hlg
  induction hlg with
  | nil hnew =>
    rw [filter_eq_nil_iff.2]
    · rfl
    · intro l hl htrade
      exact hnew l hl (by rw [of_decide_eq_true htrade]; exact hc)
  | @cons l l' legs legs' hkp _ ih =>
    rw [filter_cons, filter_cons, hkp.tradeId]
    split
    · rw [map_cons, map_cons, ih, hkp.core]
    · exact ih

instance : Std.Refl Extends := ⟨Extends.refl⟩

instance : IsTrans Journal Extends := ⟨fun _ _ _ => Extends.trans⟩

theorem not_closed_of_find {t : TradeRow} {tradeId : ℕ} (hfi : j.findTrade tradeId = some t)
    (hstatus : t.status ≠ .closed) : ¬ j.Closed tradeId := by
  rintro ⟨t', ht', hid', hclosed⟩
  have ht : t ∈ j.trades := mem_of_find?_eq_some hfi
  have hid : t.id = tradeId := by simpa using find?_some hfi
  have hsame : t' = t := inj_on_of_nodup_map j.trade_ids ht' ht (hid'.trans hid.symm)
  exact hstatus (hsame ▸ hclosed)

theorem findLeg_eq (hl : l ∈ j.legs) : j.findLeg l.exchange l.orderId = some l := by
  cases hfi : j.findLeg l.exchange l.orderId with
  | none =>
    have hnn : ¬ decide (l.key = (l.exchange, l.orderId)) = true := find?_eq_none.1 hfi l hl
    exact absurd (decide_eq_true rfl) hnn
  | some l' =>
    have hl' : l' ∈ j.legs := mem_of_find?_eq_some hfi
    have hkey : l'.key = (l.exchange, l.orderId) := by simpa using find?_some hfi
    rw [inj_on_of_nodup_map j.leg_keys hl' hl hkey]

theorem enrichLeg_extends (j : Journal) (evidence : Leg) : j.Extends (j.enrichLeg evidence) := by
  refine ⟨.refl .refl _, .map fun l _ => ?_⟩
  split
  · exact l.keeps_enriched evidence
  · exact .refl l

theorem repeatedCloseFill_extends (j : Journal) (evidence : Leg) : j.Extends (j.repeatedCloseFill evidence).2 := by
  unfold repeatedCloseFill
  split
  · exact .refl j
  · split
    · exact .refl j
    · exact j.enrichLeg_extends evidence

theorem recordCloseFillIn_extends (j : Journal) (evidence : Leg) : j.Extends (j.recordCloseFillIn evidence).2 := by
  unfold recordCloseFillIn
  split
  · split
    · exact .refl j
    · rename_i status hlc
      split
      · rename_i hnew
        obtain ⟨t, hfi, rfl⟩ := Option.map_eq_some_iff.1 hlc
        refine ⟨.refl .refl _, .append .refl fun l hl => ?_⟩
        rw [mem_singleton.1 hl]
        exact not_closed_of_find hfi hnew.1
      · exact j.repeatedCloseFill_extends evidence
  · exact .refl j

theorem recordCloseFillIn_repeated (hkey : evidence.key ∈ j.legs.map key) :
    (j.recordCloseFillIn evidence).2 = j ∨ j.recordCloseFillIn evidence = j.repeatedCloseFill evidence := by
  unfold recordCloseFillIn
  split
  · split
    · exact .inl rfl
    · split
      · rename_i hnew
        exact absurd hkey hnew.2
      · exact .inr rfl
  · exact .inl rfl

theorem recordCloseFillIn_core (hkey : evidence.key ∈ j.legs.map key) :
    (j.recordCloseFillIn evidence).2.legs.map core = j.legs.map core := by
  rcases recordCloseFillIn_repeated hkey with hsame | hrp
  · rw [hsame]
  · rw [hrp]
    unfold repeatedCloseFill
    split
    · rfl
    · split
      · rfl
      · rw [enrichLeg, map_map]
        refine map_congr_left fun l _ => ?_
        simp only [Function.comp_apply]
        split
        · exact (l.keeps_enriched evidence).core
        · rfl

theorem recordCloseFillIn_conflict (hl : l ∈ j.legs) (hkey : l.key = evidence.key)
    (hcn : l.conflicts evidence = true) : j.recordCloseFillIn evidence = (none, j) := by
  have hfi : j.findLeg evidence.exchange evidence.orderId = some l := by
    obtain ⟨hexchange, hor⟩ := Prod.mk.inj hkey
    rw [← hexchange, ← hor]
    exact findLeg_eq hl
  have hrp : j.repeatedCloseFill evidence = (none, j) := by
    unfold repeatedCloseFill
    rw [hfi]
    refine if_pos ?_
    simpa [conflicts] using hcn
  have hmem : evidence.key ∈ j.legs.map key := mem_map.2 ⟨l, hl, hkey⟩
  unfold recordCloseFillIn
  split
  · split
    · rfl
    · split
      · rename_i hnew
        exact absurd hmem hnew.2
      · exact hrp
  · rfl

theorem openTradeIn_extends (j : Journal) (opening : TradeOpen) : j.Extends (j.openTradeIn opening).2 := by
  unfold openTradeIn
  split
  · exact .refl j
  · exact ⟨.append .refl fun _ _ => trivial, .refl .refl _⟩

theorem openTradeIn_legs (j : Journal) (opening : TradeOpen) : (j.openTradeIn opening).2.legs = j.legs := by
  unfold openTradeIn
  split
  · rfl
  · rfl

end Journal

theorem TradeRow.keeps_closedBy (tradeId : ℕ) (c : Close) (t : TradeRow) : t.Keeps (t.closedBy tradeId c) := by
  refine ⟨t.closedBy_id tradeId c, fun hclosed => ?_⟩
  refine if_neg fun h => ?_
  rw [hclosed] at h
  cases h.2

section

open Txn List

theorem closeTradeIn_extends (read : Option TradeRow) (a : CloseArgs) :
    (closeTradeIn read a).Keeps Journal.Extends := by
  unfold closeTradeIn
  split
  · exact .pure _
  · split
    · exact .pure _
    · refine .bind (.lift _) fun c => .get_bind fun j outcome j' hrun => ?_
      split at hrun
      · have hret := set_bind_ok.1 hrun
        obtain ⟨-, rfl⟩ := pure_ok.1 hret
        exact ⟨.map fun t _ => t.keeps_closedBy a.tradeId c, .refl .refl _⟩
      · obtain ⟨-, rfl⟩ := pure_ok.1 hrun
        exact .refl j

theorem recordLegs_extends (exchange : String) (tradeId : ℕ) (aggregate : Option ℚ) (legs : List CloseLeg) :
    (recordLegs exchange tradeId aggregate legs).Keeps Journal.Extends := by
  induction legs generalizing aggregate with
  | nil => exact .pure _
  | cons leg legs ih =>
    refine .get_bind fun j out j' hrun => ?_
    have hrs := set_bind_ok.1 hrun
    refine (j.recordCloseFillIn_extends (leg.evidence exchange tradeId)).trans ?_
    split at hrs
    · exact (throw_ok.1 hrs).elim
    · exact ih _ hrs

variable {exchange : String} (task : TaskRef) (owner : String)

theorem recordLegs_own {tradeId : ℕ} {aggregate out : Option ℚ} {legs : List CloseLeg}
    {j' : Journal} (hrun : (recordLegs exchange tradeId aggregate legs).run j = .ok (out, j'))
    (hleg : leg ∈ legs) (hl : l ∈ j.legs) (hkey : l.key = (exchange, leg.orderId)) : l.tradeId = tradeId := by
  induction legs generalizing aggregate j l with
  | nil => cases hleg
  | cons first legs ih =>
    unfold recordLegs at hrun
    rw [get_bind_ok] at hrun
    have hrs := set_bind_ok.1 hrun
    split at hrs
    · exact (throw_ok.1 hrs).elim
    · rename_i price htk
      rcases mem_cons.1 hleg with rfl | hleg
      · by_contra hne
        have hcn : l.conflicts (leg.evidence exchange tradeId) = true := by
          simp [conflicts, agrees, CloseLeg.evidence, hne]
        have hed : l.key = (leg.evidence exchange tradeId).key := hkey
        rw [Journal.recordCloseFillIn_conflict hl hed hcn] at htk
        cases htk
      · obtain ⟨l', hl', hkp⟩ := (j.recordCloseFillIn_extends _).legs.mem_forth hl
        rw [← hkp.tradeId]
        exact ih hrs hleg hl' (hkp.key.trans hkey)

theorem publishTrade_extends (trip : RoundTrip) : (publishTrade trip).Keeps Journal.Extends := by
  unfold publishTrade
  split
  · exact .pure _
  · split
    · exact .throw _
    · refine .get_bind fun j out j' hrun => ?_
      have hrs := set_bind_ok.1 hrun
      split at hrs
      · exact (throw_ok.1 hrs).elim
      · obtain ⟨-, rfl⟩ := pure_ok.1 hrs
        exact j.openTradeIn_extends _

theorem publishLegs_extends (exchange : String) (tradeId : ℕ) (status : TradeStatus)
    (journalled : List (String × Bool)) (trip : RoundTrip) :
    (publishLegs exchange tradeId status journalled trip).Keeps Journal.Extends := by
  unfold publishLegs
  dsimp only
  split
  · split
    · exact .throw _
    · split
      · exact .throw _
      · exact recordLegs_extends _ _ _ _
  · split
    · exact .throw _
    · exact .bind .get fun _ => .pure _

theorem linkTask_extends (tradeId : ℕ) : (linkTask task owner tradeId).Keeps Journal.Extends := by
  refine .get_bind fun j out j' hrun => ?_
  split at hrun
  · exact (throw_ok.1 hrun).elim
  · obtain rfl := set_ok.1 hrun
    exact ⟨.refl .refl _, .refl .refl _⟩

theorem publish_extends (trip : RoundTrip) (now : Time) : (publish task owner trip now).Keeps Journal.Extends := by
  refine .bind (publishTrade_extends trip) fun tradeId => .bind .get fun j => ?_
  split
  · exact .throw _
  · refine .bind (.lift _) fun journalled => .bind (publishLegs_extends _ _ _ _ _) fun aggregate => ?_
    split
    · exact .throw _
    · refine .bind .get fun j => .bind (closeTradeIn_extends _ _) fun closed => ?_
      split
      · exact .throw _
      · exact .bind (linkTask_extends _ _ _) fun _ => .pure _

def RoundTrip.trade (trip : RoundTrip) (j : Journal) : Option ℕ :=
  trip.tradeId <|> trip.opening.bind fun opening => (j.openTradeIn opening).1

theorem publishTrade_ok {j1 : Journal} {tradeId : ℕ} (hrun : (publishTrade trip).run j = .ok (tradeId, j1)) :
    trip.trade j = some tradeId ∧ j1.legs = j.legs := by
  unfold publishTrade at hrun
  split at hrun
  · rename_i id hid
    obtain ⟨rfl, rfl⟩ := pure_ok.1 hrun
    exact ⟨by rw [RoundTrip.trade, hid]; rfl, rfl⟩
  · rename_i hnn
    split at hrun
    · exact (throw_ok.1 hrun).elim
    · rename_i opening hop
      rw [get_bind_ok] at hrun
      have hrs := set_bind_ok.1 hrun
      split at hrs
      · exact (throw_ok.1 hrs).elim
      · rename_i id hid
        obtain ⟨rfl, rfl⟩ := pure_ok.1 hrs
        refine ⟨?_, j.openTradeIn_legs opening⟩
        rw [RoundTrip.trade, hnn, hop]
        exact hid

theorem journalledLeg_ok (h : journalledLeg exchange trip l = .ok x) :
    x = (l.orderId, l.terminal) ∧ l.exchange = exchange ∧
      (∀ leg ∈ trip.legs, leg.orderId = l.orderId → leg.isJournalled exchange l = true) ∧
      (l.terminal = true → l.orderId = trip.last.orderId) := by
  unfold journalledLeg at h
  split at h
  · simp at h
  · rename_i found hfn
    have hmem : found ∈ trip.legs := mem_of_find?_eq_some hfn
    have hor : found.orderId = l.orderId := by simpa using find?_some hfn
    split at h
    · simp at h
    · rename_i hjr
      rw [Bool.not_eq_false] at hjr
      split at h
      · simp at h
      · rename_i hlast
        refine ⟨(Except.pure_ok.1 h).symm, ?_, fun leg hleg hid => ?_, fun htr => ?_⟩
        · simp only [CloseLeg.isJournalled, Bool.and_eq_true, decide_eq_true_eq] at hjr
          exact hjr.1.1
        · rw [inj_on_of_nodup_map trip.distinct hleg hmem (hid.trans hor.symm)]
          exact hjr
        · by_contra hne
          exact hlast ⟨htr, hne⟩

section

variable {exchange : String} {j' : Journal} {tradeId : ℕ} {status : TradeStatus} {journalled : List (String × Bool)}
  {out : Option ℚ}

section

variable (hmap : (j.legsOf tradeId).mapM (journalledLeg exchange trip) = .ok journalled)

include hmap

theorem journalled_leg_eq (hl : l ∈ j.legs) (hkey : l.key = (exchange, leg.orderId))
    (hx : x ∈ journalled) (hid : x.1 = leg.orderId) : l.tradeId = tradeId ∧ x = (l.orderId, l.terminal) := by
  obtain ⟨l2, hl2, hok⟩ := (Except.mapM_mem hmap).1 x hx
  obtain ⟨rfl, hexchange, -, -⟩ := journalledLeg_ok hok
  obtain ⟨hmem, htrade⟩ := mem_filter.1 hl2
  have hkey2 : l2.key = l.key := by
    rw [hkey, ← hexchange, ← hid]
    rfl
  have hsame : l2 = l := inj_on_of_nodup_map j.leg_keys hmem hl hkey2
  subst hsame
  exact ⟨by simpa using htrade, rfl⟩

theorem publishLegs_last (hrun : (publishLegs exchange tradeId status journalled trip).run j = .ok (out, j'))
    (hl : l ∈ j.legs) (hkey : l.key = (exchange, trip.last.orderId))
    (hx : (l.orderId, l.terminal) ∈ journalled) (hon : l.terminal = false) : False := by
  have hor : l.orderId = trip.last.orderId := (Prod.mk.inj hkey).2
  unfold publishLegs at hrun
  dsimp only at hrun
  split at hrun
  · rename_i lastNew hls
    split at hrun
    · exact throw_ok.1 hrun
    · split at hrun
      · exact throw_ok.1 hrun
      · -- what is new does not hold the last leg, and no other leg is terminal
        rename_i htr
        obtain ⟨hmem, hnew⟩ := mem_filter.1 (mem_of_getLast? hls)
        rw [decide_eq_true_eq] at hnew
        rcases mem_append.1 hmem with hfr | hfinal
        · exact htr (trip.first_open lastNew hfr)
        · rw [mem_singleton.1 hfinal] at hnew
          exact hnew (mem_map.2 ⟨_, hx, hor⟩)
  · split at hrun
    · exact throw_ok.1 hrun
    · rename_i hjr
      rw [not_not] at hjr
      have hpair := (journalled_leg_eq hmap hl hkey hjr rfl).2
      rw [← (Prod.mk.inj hpair).2] at hon
      cases hon

theorem publishLegs_consistent (hrun : (publishLegs exchange tradeId status journalled trip).run j = .ok (out, j'))
    (hleg : leg ∈ trip.legs) (hl : l ∈ j.legs) (hkey : l.key = (exchange, leg.orderId)) :
    l.tradeId = tradeId ∧ leg.isJournalled exchange l = true ∧ l.terminal = leg.terminal := by
  obtain ⟨hexchange, hor⟩ := Prod.mk.inj hkey
  -- a leg of another trade would be recorded again, and refused
  have htrade : l.tradeId = tradeId := by
    by_contra hne
    have hnew : leg ∈ trip.legs.filter fun leg => leg.orderId ∉ journalled.map Prod.fst := by
      refine mem_filter.2 ⟨hleg, ?_⟩
      rw [decide_eq_true_eq]
      intro hmem
      obtain ⟨x, hx, hid⟩ := mem_map.1 hmem
      exact hne (journalled_leg_eq hmap hl hkey hx hid).1
    unfold publishLegs at hrun
    dsimp only at hrun
    split at hrun
    · split at hrun
      · exact (throw_ok.1 hrun).elim
      · split at hrun
        · exact (throw_ok.1 hrun).elim
        · exact hne (recordLegs_own hrun hnew hl hkey)
    · rename_i hlast
      rw [getLast?_eq_none_iff] at hlast
      rw [hlast] at hnew
      cases hnew
  have hof : l ∈ j.legsOf tradeId := mem_filter.2 ⟨hl, by simpa using htrade⟩
  obtain ⟨x, hx, hps⟩ := (Except.mapM_mem hmap).2 l hof
  obtain ⟨rfl, -, hmt, hlast⟩ := journalledLeg_ok hps
  refine ⟨htrade, hmt leg hleg hor.symm, ?_⟩
  rcases mem_append.1 hleg with hfr | hfinal
  · -- a leg before the last is not terminal, and its order is not the last one's
    rw [trip.first_open leg hfr]
    by_contra htr
    rw [Bool.not_eq_false] at htr
    have hsame : leg = trip.last := inj_on_of_nodup_map trip.distinct hleg (mem_append_right _
      mem_cons_self) (hor.symm.trans (hlast htr))
    have hon := trip.first_open leg hfr
    rw [hsame, trip.last_terminal] at hon
    cases hon
  · obtain rfl := mem_singleton.1 hfinal
    rw [trip.last_terminal]
    by_contra hon
    rw [Bool.not_eq_true] at hon
    exact publishLegs_last hmap hrun hl hkey hx hon

end

end

def CloseLeg.contradicts (leg : CloseLeg) (exchange : String) (tradeId : Option ℕ) (l : Leg) : Bool :=
  tradeId ≠ some l.tradeId || !leg.isJournalled exchange l || l.terminal ≠ leg.terminal

theorem publish_conflict {task : TaskRef} {owner : String} {now : Time} (hleg : leg ∈ trip.legs) (hl : l ∈ j.legs)
    (hkey : l.key = (task.exchange, leg.orderId)) (hcn : leg.contradicts task.exchange (trip.trade j) l = true) :
    (publish task owner trip now).commit j = j := by
  rcases (publish task owner trip now).commit_cases j with hsame | ⟨tradeId, hrun⟩
  · exact hsame
  exfalso
  generalize (publish task owner trip now).commit j = j' at hrun
  unfold publish at hrun
  rw [bind_ok] at hrun
  obtain ⟨tradeId, j1, htrade, hrun⟩ := hrun
  obtain ⟨htp, hlg⟩ := publishTrade_ok htrade
  rw [get_bind_ok] at hrun
  split at hrun
  · exact throw_ok.1 hrun
  · obtain ⟨journalled, hmap, hrun⟩ := lift_bind_ok.1 hrun
    rw [bind_ok] at hrun
    obtain ⟨aggregate, j2, hpb, -⟩ := hrun
    obtain ⟨hsame, hjr, htr⟩ :=
      publishLegs_consistent hmap hpb hleg (hlg.symm ▸ hl) hkey
    rw [htp, ← hsame] at hcn
    simp [CloseLeg.contradicts, hjr, htr] at hcn

end

inductive Step
  | openTrade (opening : TradeOpen)
  | recordCloseFill (evidence : Leg)
  | closeTrade (read : Option TradeRow) (args : CloseArgs)
  | publish (task : TaskRef) (owner : String) (trip : RoundTrip) (now : Time)

def step (j : Journal) : Step → Journal
  | .openTrade opening => (j.openTradeIn opening).2
  | .recordCloseFill evidence => (j.recordCloseFillIn evidence).2
  | .closeTrade read args => (closeTradeIn read args).commit j
  | .publish task owner trip now => (publish task owner trip now).commit j

theorem step_extends (j : Journal) (c : Step) : j.Extends (step j c) := by
  cases c with
  | openTrade opening => exact j.openTradeIn_extends opening
  | recordCloseFill evidence => exact j.recordCloseFillIn_extends evidence
  | closeTrade read args => exact (closeTradeIn_extends read args).commit j
  | publish task owner trip now => exact (publish_extends task owner trip now).commit j

abbrev journalAt (j : Journal) (steps : List Step) (n : ℕ) : Journal := Run.stateAt step j steps n

theorem journalAt_extends (j : Journal) (steps : List Step) {m n : ℕ} (hmn : m ≤ n) :
    (journalAt j steps m).Extends (journalAt j steps n) :=
  Run.persists id (fun _ c _ => step_extends _ c) hmn

/-- **Legs are written once and a close is final**, whatever transactions follow one another. -/
theorem close_legs_final (j : Journal) (steps : List Step) :
    (∀ n, ((journalAt j steps n).legs.map Leg.key).Nodup) ∧
    (∀ m n, m ≤ n → ∀ l ∈ (journalAt j steps m).legs, ∃ l' ∈ (journalAt j steps n).legs,
      l'.core = l.core ∧ (l.executedAt ≠ none → l'.executedAt = l.executedAt)) ∧
    (∀ n evidence, ∀ l ∈ (journalAt j steps n).legs, l.key = evidence.key →
      (step (journalAt j steps n) (.recordCloseFill evidence)).legs.map Leg.core =
          (journalAt j steps n).legs.map Leg.core ∧
        (l.conflicts evidence = true →
          step (journalAt j steps n) (.recordCloseFill evidence) = journalAt j steps n)) ∧
    (∀ n task owner trip now, ∀ leg ∈ trip.legs, ∀ l ∈ (journalAt j steps n).legs,
      l.key = (task.exchange, leg.orderId) →
      leg.contradicts task.exchange (trip.trade (journalAt j steps n)) l = true →
      step (journalAt j steps n) (.publish task owner trip now) = journalAt j steps n) ∧
    (∀ m n, m ≤ n → ∀ t ∈ (journalAt j steps m).trades, t.status = .closed →
      t ∈ (journalAt j steps n).trades ∧
      ((journalAt j steps n).legsOf t.id).map Leg.core = ((journalAt j steps m).legsOf t.id).map Leg.core) := by
  refine ⟨fun n => (journalAt j steps n).leg_keys, ?_, ?_, ?_, ?_⟩
  · intro m n hmn l hl
    obtain ⟨l', hl', hkeeps⟩ := (journalAt_extends j steps hmn).legs.mem_forth hl
    exact ⟨l', hl', hkeeps.core, fun htime => by rw [hkeeps.time htime]⟩
  · intro n evidence l hl hkey
    refine ⟨Journal.recordCloseFillIn_core (mem_map.2 ⟨l, hl, hkey⟩), fun hconflict => ?_⟩
    exact congrArg Prod.snd (Journal.recordCloseFillIn_conflict hl hkey hconflict)
  · intro n task owner trip now leg hleg l hl hkey hconflict
    exact publish_conflict hleg hl hkey hconflict
  · intro m n hmn t ht hclosed
    have hextends := journalAt_extends j steps hmn
    obtain ⟨t', ht', hkeeps⟩ := hextends.trades.mem_forth ht
    refine ⟨hkeeps.closed hclosed ▸ ht', ?_⟩
    exact hextends.legsOf_closed ⟨t, ht, rfl, hclosed⟩

end Schurfer.Legs
