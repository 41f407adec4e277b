import Schurfer.Legs.Final

/-!
# Trades with a terminal leg

A trade is *pinned* once it has a terminal leg. Where no recording adds a leg to it, its legs stay what they are, and
so does their amount-weighted price.
-/

namespace Schurfer.Legs

open List

variable {read : Option TradeRow} {tradeId t : ℕ} {a : CloseArgs} {exchange : String} {out : CloseOutcome}
  {journalled : List (String × Bool)}

namespace Journal

variable {j j' j1 j2 j3 : Journal} {evidence : Leg} {p : ℚ}

def coresOf (j : Journal) (t : ℕ) : List Leg := (j.legsOf t).map Leg.core

theorem coresOf_eq_filter (j : Journal) (t : ℕ) : j.coresOf t = (j.legs.map Leg.core).filter (·.tradeId = t) := by
  rw [filter_map]
  rfl

theorem coresOf_congr (h : j'.legs.map Leg.core = j.legs.map Leg.core) (t : ℕ) : j'.coresOf t = j.coresOf t := by
  rw [coresOf_eq_filter, coresOf_eq_filter, h]

def Pinned (j : Journal) (t : ℕ) : Prop := ∃ l ∈ j.legsOf t, l.terminal = true

theorem Pinned.congr (h : j'.coresOf t = j.coresOf t) (hpn : j.Pinned t) : j'.Pinned t := by
  obtain ⟨l, hl, htr⟩ := hpn
  have hco : l.core ∈ j'.coresOf t := h ▸ mem_map_of_mem hl
  obtain ⟨l', hl', heq⟩ := mem_map.1 hco
  have hsame : l'.core.terminal = l.core.terminal := by rw [heq]
  exact ⟨l', hl', hsame.trans htr⟩

theorem aggregateCloseFillPriceIn_congr (h : j'.coresOf t = j.coresOf t) :
    j'.aggregateCloseFillPriceIn t = j.aggregateCloseFillPriceIn t := by
  have hcr : ∀ (k : Journal) (f : Leg → ℚ), (∀ l : Leg, f l.core = f l) → (k.legsOf t).map f = (k.coresOf t).map f := by
    intro k f hf
    rw [coresOf, map_map]
    exact map_congr_left fun l _ => (hf l).symm
  unfold aggregateCloseFillPriceIn
  dsimp only
  rw [hcr j' (·.filledAmount) fun _ => rfl, hcr j (·.filledAmount) fun _ => rfl,
    hcr j' (fun l => l.fillPrice * l.filledAmount) fun _ => rfl,
    hcr j (fun l => l.fillPrice * l.filledAmount) fun _ => rfl, h]

structure At (j : Journal) (t : ℕ) (p : ℚ) : Prop where
  pinned : j.Pinned t
  price : j.aggregateCloseFillPriceIn t = some p

theorem At.vwap (h : j.At t p) :
    p = ((j.legsOf t).map fun l => l.fillPrice * l.filledAmount).sum / ((j.legsOf t).map (·.filledAmount)).sum := by
  have hpr := h.price
  unfold aggregateCloseFillPriceIn at hpr
  dsimp only at hpr
  split at hpr
  · cases hpr
  · exact (Option.some.inj hpr).symm

structure Later (j j' : Journal) : Prop where
  grows : j.Extends j'
  cores : ∀ t, j.Pinned t → j'.coresOf t = j.coresOf t

theorem Later.refl (j : Journal) : j.Later j := ⟨.refl j, fun _ _ => rfl⟩

theorem Later.trans (h1 : j1.Later j2) (h2 : j2.Later j3) : j1.Later j3 := by
  refine ⟨h1.grows.trans h2.grows, fun t hpn => ?_⟩
  have hcr := h1.cores t hpn
  exact (h2.cores t (hpn.congr hcr)).trans hcr

theorem Later.pinned (h : j.Later j') (hpn : j.Pinned t) : j'.Pinned t :=
  hpn.congr (h.cores t hpn)

theorem Later.at (h : j.Later j') (hat : j.At t p) : j'.At t p where
  pinned := h.pinned hat.pinned
  price := (aggregateCloseFillPriceIn_congr (h.cores t hat.pinned)).trans hat.price

theorem Later.of_legs (h : j.Extends j') (hlegs : j'.legs = j.legs) : j.Later j' :=
  ⟨h, fun t _ => coresOf_congr (by rw [hlegs]) t⟩

theorem recordCloseFillIn_legs (j : Journal) (evidence : Leg) :
    (j.recordCloseFillIn evidence).2.legs.map Leg.core = j.legs.map Leg.core ∨
      evidence.key ∉ j.legs.map Leg.key ∧ (j.recordCloseFillIn evidence).2.legs = j.legs ++ [evidence] := by
  by_cases hkey : evidence.key ∈ j.legs.map Leg.key
  · exact .inl (recordCloseFillIn_core hkey)
  · have hrp : j.repeatedCloseFill evidence = (none, j) := by
      unfold repeatedCloseFill
      have hfi : j.findLeg evidence.exchange evidence.orderId = none := by
        refine find?_eq_none.2 fun l hl hsame => hkey ?_
        exact mem_map.2 ⟨l, hl, of_decide_eq_true hsame⟩
      rw [hfi]
    unfold recordCloseFillIn
    split
    · split
      · exact .inl rfl
      · split
        · exact .inr ⟨hkey, rfl⟩
        · rw [hrp]
          exact .inl rfl
    · exact .inl rfl

theorem recordCloseFillIn_cores (j : Journal) (evidence : Leg)
    (h : t ≠ evidence.tradeId ∨ evidence.key ∈ j.legs.map Leg.key) :
    (j.recordCloseFillIn evidence).2.coresOf t = j.coresOf t := by
  rcases j.recordCloseFillIn_legs evidence with hsame | ⟨hnew, hadd⟩
  · exact coresOf_congr hsame t
  · have hot : t ≠ evidence.tradeId := h.resolve_right hnew
    rw [coresOf, coresOf, legsOf, hadd, filter_append, filter_singleton]
    have hne : decide (evidence.tradeId = t) = false := decide_eq_false (Ne.symm hot)
    rw [hne]
    simp [legsOf]

theorem recordCloseFillIn_later (h : evidence.key ∈ j.legs.map Leg.key ∨ ¬ j.Pinned evidence.tradeId) :
    j.Later (j.recordCloseFillIn evidence).2 := by
  refine ⟨j.recordCloseFillIn_extends evidence, fun t hpn => ?_⟩
  refine recordCloseFillIn_cores j evidence ?_
  rcases h with hkey | hop
  · exact .inr hkey
  · refine .inl fun heq => hop (heq ▸ hpn)

theorem repeatedCloseFill_some (hrun : j.repeatedCloseFill evidence = (some p, j')) :
    (∃ l ∈ j'.legs, l.key = evidence.key ∧ l.tradeId = evidence.tradeId ∧ l.terminal = evidence.terminal) ∧
      j'.aggregateCloseFillPriceIn evidence.tradeId = some p := by
  unfold repeatedCloseFill at hrun
  split at hrun
  · cases hrun
  · rename_i recorded hfi
    split at hrun
    · cases hrun
    · rename_i hag
      obtain ⟨hpr, rfl⟩ := Prod.mk.inj hrun
      have hmem : recorded ∈ j.legs := mem_of_find?_eq_some hfi
      have hfn := find?_some hfi
      have hkey : recorded.key = evidence.key := of_decide_eq_true hfn
      have hsame : recorded.agrees evidence = true := by
        by_contra hnot
        exact hag (.inl (eq_false_of_ne_true hnot))
      simp only [Leg.agrees, Bool.and_eq_true, decide_eq_true_eq] at hsame
      -- enriched or not, the leg keeps all but its times
      obtain ⟨l', hl', hkp⟩ := (j.enrichLeg_extends evidence).legs.mem_forth hmem
      have htr : l'.core.terminal = recorded.core.terminal := by rw [hkp.core]
      exact ⟨⟨l', hl', hkp.key.trans hkey, hkp.tradeId.trans hsame.1.1.1.1.1, Eq.trans htr hsame.1.1.1.1.2⟩, hpr⟩

theorem recordCloseFillIn_some (hrun : j.recordCloseFillIn evidence = (some p, j')) :
    (∃ l ∈ j'.legs, l.key = evidence.key ∧ l.tradeId = evidence.tradeId ∧ l.terminal = evidence.terminal) ∧
      j'.aggregateCloseFillPriceIn evidence.tradeId = some p := by
  unfold recordCloseFillIn at hrun
  split at hrun
  · split at hrun
    · cases hrun
    · split at hrun
      · obtain ⟨hpr, rfl⟩ := Prod.mk.inj hrun
        exact ⟨⟨evidence, mem_append_right _ mem_cons_self, rfl, rfl, rfl⟩, hpr⟩
      · exact repeatedCloseFill_some hrun
  · cases hrun

theorem recordCloseFillIn_at (hrun : j.recordCloseFillIn evidence = (some p, j'))
    (htr : evidence.terminal = true) : j'.At evidence.tradeId p := by
  obtain ⟨⟨l, hl, -, htrade, hsame⟩, hpr⟩ := recordCloseFillIn_some hrun
  refine ⟨⟨l, mem_filter.2 ⟨hl, ?_⟩, hsame.trans htr⟩, hpr⟩
  simpa using htrade

end Journal

section

open Txn

variable {j j' : Journal} {trip : RoundTrip}

theorem closeRow_exitPrice {row : TradeRow} {c : Close} (h : closeRow row a = .ok c) : c.exitPrice = a.exitPrice := by
  obtain ⟨accounting, -, hret⟩ := Except.bind_ok.1 h
  obtain rfl := Except.pure_ok.1 hret
  rfl

theorem closeTradeIn_ok (hrun : (closeTradeIn read a).run j = .ok (out, j')) : j' = j ∨ ∃ c, c.exitPrice = a.exitPrice ∧
      j' = j.mapTrades (TradeRow.closedBy a.tradeId c) (TradeRow.closedBy_id a.tradeId c) := by
  unfold closeTradeIn at hrun
  split at hrun
  · exact .inl (pure_ok.1 hrun).2.symm
  · split at hrun
    · exact .inl (pure_ok.1 hrun).2.symm
    · obtain ⟨c, hclose, hrun⟩ := lift_bind_ok.1 hrun
      rw [get_bind_ok] at hrun
      split at hrun
      · rw [bind_ok] at hrun
        obtain ⟨_, j3, hset, hret⟩ := hrun
        obtain ⟨-, rfl⟩ := pure_ok.1 hret
        refine .inr ⟨c, ?_, (set_ok.1 hset).symm⟩
        cases hrow : closeRow _ a with
        | error => rw [hrow] at hclose; cases hclose
        | ok c' =>
          rw [hrow] at hclose
          cases hclose
          exact closeRow_exitPrice hrow
      · exact .inl (pure_ok.1 hrun).2.symm

theorem closeTradeIn_legs (hrun : (closeTradeIn read a).run j = .ok (out, j')) : j'.legs = j.legs := by
  rcases closeTradeIn_ok hrun with rfl | ⟨c, -, rfl⟩
  · rfl
  · rfl

theorem closeTradeIn_later (read : Option TradeRow) (a : CloseArgs) (j : Journal) :
    j.Later ((closeTradeIn read a).commit j) := by
  refine .of_legs ((closeTradeIn_extends read a).commit j) ?_
  rcases (closeTradeIn read a).commit_cases j with hsame | ⟨out, hrun⟩
  · rw [hsame]
  · exact closeTradeIn_legs hrun

theorem closeTradeIn_closes (hop : ¬ j.Closed t) (hclosed : ((closeTradeIn read a).commit j).Closed t) :
    t = a.tradeId ∧ ∃ row ∈ ((closeTradeIn read a).commit j).trades, row.id = t ∧ row.status = .closed ∧
      row.close.map (·.exitPrice) = some a.exitPrice := by
  rcases (closeTradeIn read a).commit_cases j with hsame | ⟨out, hrun⟩
  · rw [hsame] at hclosed
    exact absurd hclosed hop
  · generalize (closeTradeIn read a).commit j = j' at hclosed hrun
    rcases closeTradeIn_ok hrun with rfl | ⟨c, hpr, rfl⟩
    · exact absurd hclosed hop
    · obtain ⟨row', hrow', hid, hstatus⟩ := hclosed
      obtain ⟨row, hrow, rfl⟩ := mem_map.1 hrow'
      by_cases hown : row.id = a.tradeId ∧ row.status = .open
      · have hclose : row.closedBy a.tradeId c = { row with status := .closed, close := some c } := if_pos hown
        refine ⟨?_, _, hrow', hid, hstatus, ?_⟩
        · rw [← hid, row.closedBy_id, hown.1]
        · rw [hclose]
          exact congrArg some hpr
      · have hke : row.closedBy a.tradeId c = row := if_neg hown
        rw [hke] at hid hstatus
        exact absurd ⟨row, hrow, hid, hstatus⟩ hop

theorem recordLegs_cores {aggregate out : Option ℚ} {legs : List CloseLeg}
    (hrun : (recordLegs exchange tradeId aggregate legs).run j = .ok (out, j')) (ht : t ≠ tradeId) :
    j'.coresOf t = j.coresOf t := by
  induction legs generalizing aggregate j with
  | nil =>
    obtain ⟨-, rfl⟩ := pure_ok.1 hrun
    rfl
  | cons leg legs ih =>
    unfold recordLegs at hrun
    rw [get_bind_ok] at hrun
    have hrs := set_bind_ok.1 hrun
    split at hrs
    · exact (throw_ok.1 hrs).elim
    · exact (ih hrs).trans (Journal.recordCloseFillIn_cores j _ (.inl ht))

theorem publishLegs_cores {status : TradeStatus} {out : Option ℚ}
    (hrun : (publishLegs exchange tradeId status journalled trip).run j = .ok (out, j'))
    (ht : t ≠ tradeId ∨ journalled.any Prod.snd = true) : j'.coresOf t = j.coresOf t := by
  unfold publishLegs at hrun
  dsimp only at hrun
  split at hrun
  · split at hrun
    · exact (throw_ok.1 hrun).elim
    · rename_i hfree
      split at hrun
      · exact (throw_ok.1 hrun).elim
      · exact recordLegs_cores hrun (ht.resolve_right fun htr => hfree (.inr htr))
  · split at hrun
    · exact (throw_ok.1 hrun).elim
    · have hret := get_bind_ok.1 hrun
      obtain ⟨-, rfl⟩ := pure_ok.1 hret
      rfl

theorem journalled_terminal (hpn : j.Pinned tradeId)
    (hmap : (j.legsOf tradeId).mapM (journalledLeg exchange trip) = .ok journalled) :
    journalled.any Prod.snd = true := by
  obtain ⟨l, hl, htr⟩ := hpn
  obtain ⟨x, hx, hok⟩ := (Except.mapM_mem hmap).2 l hl
  obtain ⟨rfl, -⟩ := journalledLeg_ok hok
  exact any_eq_true.2 ⟨_, hx, htr⟩

theorem linkTask_legs {task : TaskRef} {owner : String} {out : Unit}
    (hrun : (linkTask task owner tradeId).run j = .ok (out, j')) : j'.legs = j.legs := by
  unfold linkTask at hrun
  rw [get_bind_ok] at hrun
  split at hrun
  · exact (throw_ok.1 hrun).elim
  · obtain rfl := set_ok.1 hrun
    rfl

theorem publish_later (task : TaskRef) (owner : String) (trip : RoundTrip) (now : Time) (j : Journal) :
    j.Later ((publish task owner trip now).commit j) := by
  refine ⟨(publish_extends task owner trip now).commit j, fun t hpn => ?_⟩
  rcases (publish task owner trip now).commit_cases j with hsame | ⟨out, hrun⟩
  · rw [hsame]
  generalize (publish task owner trip now).commit j = j' at hrun
  unfold publish at hrun
  rw [bind_ok] at hrun
  obtain ⟨tradeId, j1, htrade, hrun⟩ := hrun
  have hlegs1 : j1.coresOf t = j.coresOf t := Journal.coresOf_congr (by rw [(publishTrade_ok htrade).2]) t
  rw [get_bind_ok] at hrun
  split at hrun
  · exact (throw_ok.1 hrun).elim
  obtain ⟨journalled, hmap, hrun⟩ := lift_bind_ok.1 hrun
  rw [bind_ok] at hrun
  obtain ⟨aggregate, j2, hpb, hrun⟩ := hrun
  have hlegs2 : j2.coresOf t = j1.coresOf t := by
    refine publishLegs_cores hpb ?_
    by_cases ht : t = tradeId
    · subst ht
      exact .inr (journalled_terminal (hpn.congr hlegs1) hmap)
    · exact .inl ht
  -- the close and the links touch no leg
  have hrs : j'.legs = j2.legs := by
    split at hrun
    · exact (throw_ok.1 hrun).elim
    rw [get_bind_ok] at hrun
    rw [bind_ok] at hrun
    obtain ⟨closed, j4, hclose, hrun⟩ := hrun
    split at hrun
    · exact (throw_ok.1 hrun).elim
    rw [bind_ok] at hrun
    obtain ⟨_, j5, hln, hret⟩ := hrun
    obtain ⟨-, rfl⟩ := pure_ok.1 hret
    exact (linkTask_legs hln).trans (closeTradeIn_legs hclose)
  exact (Journal.coresOf_congr (by rw [hrs]) t).trans (hlegs2.trans hlegs1)

end

theorem Journal.openTradeIn_later (j : Journal) (opening : TradeOpen) : j.Later (j.openTradeIn opening).2 :=
  .of_legs (j.openTradeIn_extends opening) (j.openTradeIn_legs opening)

theorem Journal.openTradeIn_closed {j : Journal} {opening : TradeOpen}
    (h : (j.openTradeIn opening).2.Closed t) : j.Closed t := by
  unfold Journal.openTradeIn at h
  split at h
  · exact h
  · obtain ⟨row, hrow, hid, hstatus⟩ := h
    rcases mem_append.1 hrow with hold | hnew
    · exact ⟨row, hold, hid, hstatus⟩
    · rw [mem_singleton.1 hnew] at hstatus
      cases hstatus

theorem Journal.recordCloseFillIn_trades (j : Journal) (evidence : Leg) :
    (j.recordCloseFillIn evidence).2.trades = j.trades := by
  unfold Journal.recordCloseFillIn
  split
  · split
    · rfl
    · split
      · rfl
      · unfold Journal.repeatedCloseFill
        split
        · rfl
        · split <;> rfl
  · rfl

end Schurfer.Legs
