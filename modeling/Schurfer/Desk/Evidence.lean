import Schurfer.Desk.Fill
import Schurfer.Lib.Except

/-!
# What a resolved fill rests on

That nothing was filled is concluded from a second look at the order or from its trades, unless both say nothing: then
the first payload alone decides, which a market order may send before it fills (`unread_no_fill`). A price that is a
quotient is not looked at again. `resolution_evidence` says exactly when the resolution rests on evidence.
-/

namespace Schurfer.Desk

open Orders LateFill Prog List Arith

variable {N : Type} [Arith N] {order : Order}

theorem positive_some {value : Option ℚ} {x : ℚ} (h : positive value = some x) : 0 < x :=
  of_decide_eq_true (Option.filter_eq_some_iff.1 h).2

/-- The payload states the price, and does not say that nothing was filled. -/
def SaysPrice (order : Order) (price : N) : Prop :=
  (fromOrderFields order).1.map Prod.fst = some price ∧ nonNegative order.filled ≠ some 0

/-- If the payload's price is the quotient of its cost and its filled amount, it is positive and finite. -/
def SoundQuotient (N : Type) [Arith N] (order : Order) : Prop :=
  positive order.average = none → positive order.price = none → ∀ cost amount, positive order.cost = some cost →
    positive (nonNegative order.filled) = some amount → Positive (div (ofRat cost) (ofRat amount) : N)

theorem SaysPrice.positive_iff {price : N} (h : SaysPrice order price) : Positive price ↔ SoundQuotient N order := by
  obtain ⟨h, -⟩ := h
  unfold fromOrderFields at h
  unfold SoundQuotient
  dsimp only at h
  split at h
  · rename_i average haverage
    cases h
    exact iff_of_true (positive_ofRat (positive_some haverage)) fun hnone => by rw [haverage] at hnone; cases hnone
  · rename_i stated _ hprice
    cases h
    exact iff_of_true (positive_ofRat (positive_some hprice)) fun _ hnone => by rw [hprice] at hnone; cases hnone
  · rename_i cost amount haverage hprice hcost hamount
    cases h
    simp [haverage, hprice, hcost, hamount]
  · cases h

omit [Arith N] in
theorem resolved_status (price : N) (source : String) (filled requested : Option ℚ) :
    (resolved price source filled requested).status = .confirmed ∨
      (resolved price source filled requested).status = .partlyFilled := by
  unfold resolved statusFor
  split
  · split
    · exact .inr rfl
    · exact .inl rfl
  · exact .inl rfl

def Prices (N : Type) [Arith N] (order : Order) : Prop := ∃ price : N, SaysPrice order price

theorem soundQuotient_of_not_prices (h : ¬ Prices N order) : SoundQuotient N order := by
  intro haverage hprice cost amount hcost hamount
  have hsays : SaysPrice order (div (ofRat cost) (ofRat amount) : N) := by
    refine ⟨by simp [fromOrderFields, haverage, hprice, hcost, hamount], fun hzero => ?_⟩
    have hpos := positive_some hamount
    simp [hzero, positive, hpos.ne] at hamount
  exact absurd ⟨_, hsays⟩ h

variable {requested : Option ℚ} {look : String}

theorem orderResolution_some {r : FillResolution N} (h : orderResolution requested look order = some r) :
    ∃ price, r.price = some price ∧ SaysPrice order price ∧ (r.status = .confirmed ∨ r.status = .partlyFilled) := by
  have hfilled := orderResolution_filled h
  unfold orderResolution at h
  split at h
  · rename_i price source filled hfields
    split at h
    · cases h
    · rename_i hne
      cases h
      exact ⟨price, rfl, ⟨by rw [hfields]; rfl, hfilled ▸ hne⟩, resolved_status _ _ _ _⟩
  · cases h

theorem not_prices (h : orderResolution requested look order = (none : Option (FillResolution N))) :
    ¬ Prices N order := by
  rintro ⟨price, hprice, hfilled⟩
  rw [← fromOrderFields_filled (N := N)] at hfilled
  unfold orderResolution at h
  split at h
  · rename_i hfields
    rw [hfields] at hfilled
    split at h
    · exact hfilled ‹_›
    · cases h
  · rename_i hfields
    rw [hfields] at hprice
    cases hprice

section

variable (setup : Setup) (exchange symbol : String) (f : (o : Op) → Except Failure (Ans o)) (order : Order)

/-- The second look at the order, if it succeeds. -/
def refetched (orderId : String) : Option Order := (f (.fetchOrder exchange orderId symbol)).toOption

/-- The trades of the order, if they can be read. -/
def tradesRead (orderId : String) : Option (List (ℚ × ℚ)) :=
  if setup.hasFetchTrades exchange then (f (.fetchTrades exchange orderId symbol)).toOption else none

/-- A read made after the first payload reports that nothing was executed. -/
def ReportsZero : Prop :=
  ∃ orderId ∈ order.id, (∃ refreshed ∈ refetched exchange symbol f orderId, nonNegative refreshed.filled = some 0) ∨
    ∃ trades ∈ tradesRead setup exchange symbol f orderId, ∀ t ∈ trades, t.2 ≤ 0

inductive TakenFrom (price : N) : Prop
  | order (h : SaysPrice order price)
  | refetch {orderId : String} {refreshed : Order} (h : refreshed ∈ refetched exchange symbol f orderId)
      (hprice : SaysPrice refreshed price)
  | trades {orderId : String} {trades : List (ℚ × ℚ)} {amount : ℚ}
      (h : trades ∈ tradesRead setup exchange symbol f orderId) (hprice : vwap trades = some (price, amount))

/-- No fill is reported by a read after the first payload; and a price is positive, finite and from a payload that does
not say that nothing was filled. -/
structure Evidence (r : FillResolution N) : Prop where
  none : r.status = .noFill → ReportsZero setup exchange symbol f order
  priced : r.status = .confirmed ∨ r.status = .partlyFilled →
    ∃ price, r.price = some price ∧ Positive price ∧ TakenFrom setup exchange symbol f order price

/-- What has to hold of the reads made after the first payload: the quotients are sound, and what the first payload
says of a fill of zero is looked at again. -/
structure SupportedAgain (N : Type) [Arith N] (orderId : String) : Prop where
  refetch : ∀ refreshed ∈ refetched exchange symbol f orderId, SoundQuotient N refreshed
  trades : (∀ refreshed ∈ refetched exchange symbol f orderId, ¬ Prices N refreshed) →
    ∀ trades ∈ tradesRead setup exchange symbol f orderId, ∀ average ∈ (vwap trades : Option (N × ℚ)),
      Positive average.1
  zero : nonNegative order.filled = some 0 →
    (∃ refreshed ∈ refetched exchange symbol f orderId, nonNegative refreshed.filled ≠ none ∨ Prices N refreshed) ∨
    ∃ trades ∈ tradesRead setup exchange symbol f orderId,
      (vwap trades : Option (N × ℚ)) ≠ none ∨ ∀ t ∈ trades, t.2 ≤ 0

/-- The first payload is sound, and so is a second look if the first says no price. -/
def Supported (N : Type) [Arith N] : Prop :=
  SoundQuotient N order ∧
    (¬ Prices N order → ∀ orderId ∈ order.id, SupportedAgain setup exchange symbol f order N orderId)

variable {setup exchange symbol f order} {orderId : String}

theorem vwapFromTrades_answered :
    (vwapFromTrades setup exchange symbol orderId : Program (Option (N × ℚ))).answered f =
      .ok (tradesRead setup exchange symbol f orderId >>= vwap) := by
  unfold vwapFromTrades tradesRead
  split
  · have hread : (tryCall (.fetchTrades exchange orderId symbol)).answered f = pure (f _) := rfl
    rw [answered_bind, hread, pure_bind]
    cases f (.fetchTrades exchange orderId symbol) <;> rfl
  · rfl

/-- What the reads after the first payload resolve to: the second look decides, then the trades, then what is known of
the filled amount. -/
inductive ResolvedAgain (setup : Setup) (exchange symbol : String) (f : (o : Op) → Except Failure (Ans o))
    (requested filled : Option ℚ) (orderId : String) : FillResolution N → Prop
  | refetch {r : FillResolution N} {refreshed : Order} (h : refreshed ∈ refetched exchange symbol f orderId)
      (hr : orderResolution requested "refetch." refreshed = some r) :
      ResolvedAgain setup exchange symbol f requested filled orderId r
  | trades {trades : List (ℚ × ℚ)} {price : N} {amount : ℚ}
      (hnot : ∀ refreshed ∈ refetched exchange symbol f orderId, ¬ Prices N refreshed)
      (h : trades ∈ tradesRead setup exchange symbol f orderId) (hvwap : vwap trades = some (price, amount)) :
      ResolvedAgain setup exchange symbol f requested filled orderId
        (resolved price "trades.vwap" (some amount) requested)
  | latest (hnot : ∀ refreshed ∈ refetched exchange symbol f orderId, ¬ Prices N refreshed)
      (hnone : ∀ trades ∈ tradesRead setup exchange symbol f orderId, (vwap trades : Option (N × ℚ)) = none) :
      ResolvedAgain setup exchange symbol f requested filled orderId
        (if ((refetched exchange symbol f orderId >>= fun order => nonNegative order.filled) <|> filled) = some 0
          then noFill else unresolved)

variable (setup exchange symbol f orderId requested) in
theorem resolveAgain_answered (filled : Option ℚ) :
    ∃ r : FillResolution N, (resolveAgain setup exchange symbol requested filled orderId).answered f = .ok r ∧
      ResolvedAgain setup exchange symbol f requested filled orderId r := by
  have hread : (tryCall (.fetchOrder exchange orderId symbol)).answered f = pure (f _) := rfl
  unfold resolveAgain
  rw [answered_bind, hread, pure_bind, ← refetched]
  dsimp only
  cases hresolved : (refetched exchange symbol f orderId >>= orderResolution requested "refetch." :
    Option (FillResolution N)) with
  | some r =>
    obtain ⟨refreshed, hrefreshed, hr⟩ := Option.bind_eq_some_iff.1 hresolved
    exact ⟨r, rfl, .refetch hrefreshed hr⟩
  | none =>
    have hnot : ∀ refreshed ∈ refetched exchange symbol f orderId, ¬ Prices N refreshed :=
      fun refreshed hrefreshed => not_prices (Option.bind_eq_none_iff.1 hresolved refreshed hrefreshed)
    rw [answered_bind, vwapFromTrades_answered]
    cases hvwap : (tradesRead setup exchange symbol f orderId >>= vwap : Option (N × ℚ)) with
    | some average =>
      obtain ⟨trades, htrades, haverage⟩ := Option.bind_eq_some_iff.1 hvwap
      exact ⟨_, rfl, .trades hnot htrades haverage⟩
    | none =>
      refine ⟨_, ?_, .latest hnot (Option.bind_eq_none_iff.1 hvwap)⟩
      change Prog.answered f (ite _ _ _) = _
      split <;> rfl

theorem evidence_priced {r : FillResolution N} {price : N} (hprice : r.price = some price)
    (hstatus : r.status = .confirmed ∨ r.status = .partlyFilled)
    (htaken : TakenFrom setup exchange symbol f order price) :
    Evidence setup exchange symbol f order r ↔ Positive price := by
  refine ⟨fun h => ?_, fun hpositive => ⟨fun hno => ?_, fun _ => ⟨price, hprice, hpositive, htaken⟩⟩⟩
  · obtain ⟨_, heq, hpositive, -⟩ := h.priced hstatus
    cases hprice.symm.trans heq
    exact hpositive
  · rw [hno] at hstatus
    rcases hstatus with hstatus | hstatus <;> cases hstatus

theorem evidence_unresolved : Evidence setup exchange symbol f order (unresolved : FillResolution N) := by
  refine ⟨fun hstatus => ?_, fun hstatus => ?_⟩
  · cases hstatus
  · rcases hstatus with h | h <;> cases h

theorem evidence_noFill : Evidence setup exchange symbol f order (noFill : FillResolution N) ↔
    ReportsZero setup exchange symbol f order :=
  ⟨fun h => h.none rfl, fun h => ⟨fun _ => h, fun hstatus => by rcases hstatus with h | h <;> cases h⟩⟩

theorem supportedAgain_zero (hnot : ∀ refreshed ∈ refetched exchange symbol f orderId, ¬ Prices N refreshed)
    (hnone : ∀ trades ∈ tradesRead setup exchange symbol f orderId, (vwap trades : Option (N × ℚ)) = none) :
    SupportedAgain setup exchange symbol f order N orderId ↔ (nonNegative order.filled = some 0 →
      (∃ refreshed ∈ refetched exchange symbol f orderId, nonNegative refreshed.filled ≠ none) ∨
      ∃ trades ∈ tradesRead setup exchange symbol f orderId, ∀ t ∈ trades, t.2 ≤ 0) := by
  refine ⟨fun h hzero => ?_, fun h => ⟨fun refreshed hrefreshed => ?_, fun _ trades htrades average haverage => ?_,
    fun hzero => ?_⟩⟩
  · rcases h.zero hzero with ⟨refreshed, hrefreshed, hfilled | hprices⟩ | ⟨trades, htrades, hcounted | hall⟩
    · exact .inl ⟨refreshed, hrefreshed, hfilled⟩
    · exact absurd hprices (hnot refreshed hrefreshed)
    · exact absurd (hnone trades htrades) hcounted
    · exact .inr ⟨trades, htrades, hall⟩
  · exact soundQuotient_of_not_prices (hnot refreshed hrefreshed)
  · rw [hnone trades htrades] at haverage
    cases haverage
  · exact (h hzero).imp (fun ⟨refreshed, hrefreshed, hfilled⟩ => ⟨refreshed, hrefreshed, .inl hfilled⟩)
      fun ⟨trades, htrades, hall⟩ => ⟨trades, htrades, .inr hall⟩

theorem evidence_again {r : FillResolution N} (hid : order.id = some orderId)
    (h : ResolvedAgain setup exchange symbol f requested (nonNegative order.filled) orderId r) :
    Evidence setup exchange symbol f order r ↔ SupportedAgain setup exchange symbol f order N orderId := by
  cases h with
  | @refetch _ refreshed hrefreshed hr =>
    obtain ⟨price, hprice, hsays, hstatus⟩ := orderResolution_some hr
    rw [evidence_priced hprice hstatus (.refetch hrefreshed hsays), hsays.positive_iff]
    refine ⟨fun h => ⟨fun refreshed' hrefreshed' => ?_, fun hnot => ?_, fun _ => ?_⟩,
      fun h => h.refetch refreshed hrefreshed⟩
    · cases hrefreshed.symm.trans hrefreshed'
      exact h
    · exact absurd ⟨price, hsays⟩ (hnot refreshed hrefreshed)
    · exact .inl ⟨refreshed, hrefreshed, .inr ⟨price, hsays⟩⟩
  | @trades trades price amount hnot htrades hvwap =>
    rw [evidence_priced rfl (resolved_status _ _ _ _) (.trades htrades hvwap)]
    refine ⟨fun h => ⟨fun refreshed hrefreshed => ?_, fun _ trades' htrades' average haverage => ?_, fun hzero => ?_⟩,
      fun h => h.trades hnot trades htrades (price, amount) hvwap⟩
    · exact soundQuotient_of_not_prices (hnot refreshed hrefreshed)
    · cases htrades.symm.trans htrades'
      cases hvwap.symm.trans haverage
      exact h
    · exact .inr ⟨trades, htrades, .inl (hvwap ▸ Option.some_ne_none _)⟩
  | latest hnot hnone =>
    rw [supportedAgain_zero hnot hnone]
    cases hlatest : refetched exchange symbol f orderId >>= fun order => nonNegative order.filled with
    | none =>
      -- the second look says nothing of the filled amount: what the first payload says stands
      have hsilent : ¬ ∃ refreshed ∈ refetched exchange symbol f orderId, nonNegative refreshed.filled ≠ none :=
        fun ⟨refreshed, hrefreshed, hfilled⟩ => hfilled (Option.bind_eq_none_iff.1 hlatest refreshed hrefreshed)
      by_cases hzero : nonNegative order.filled = some 0
      · rw [if_pos (by exact hzero), evidence_noFill]
        constructor
        · rintro ⟨id, hmem, ⟨refreshed, hrefreshed, hfilled⟩ | htrades⟩ _
          · cases hid.symm.trans hmem
            exact absurd ⟨refreshed, hrefreshed, hfilled ▸ Option.some_ne_none _⟩ hsilent
          · cases hid.symm.trans hmem
            exact .inr htrades
        · intro h
          exact ⟨orderId, hid, .inr ((h hzero).resolve_left hsilent)⟩
      · rw [if_neg (by exact hzero)]
        exact iff_of_true evidence_unresolved fun h => absurd h hzero
    | some amount =>
      obtain ⟨refreshed, hrefreshed, hfilled⟩ := Option.bind_eq_some_iff.1 hlatest
      have hsays : ∃ refreshed ∈ refetched exchange symbol f orderId, nonNegative refreshed.filled ≠ none :=
        ⟨refreshed, hrefreshed, hfilled ▸ Option.some_ne_none _⟩
      refine iff_of_true ?_ fun _ => .inl hsays
      by_cases hzero : amount = 0
      · rw [if_pos (by rw [hzero]; rfl), evidence_noFill]
        exact ⟨orderId, hid, .inl ⟨refreshed, hrefreshed, hzero ▸ hfilled⟩⟩
      · rw [if_neg (by exact fun h => hzero (Option.some.inj h))]
        exact evidence_unresolved

end

/-- **No fill is positive evidence**, and a price is positive and from a payload that does not say that nothing was
filled, exactly if the reads support it. -/
theorem resolution_evidence (setup : Setup) (exchange symbol : String) (f : (o : Op) → Except Failure (Ans o))
    (order : Order) (requested : Option ℚ) :
    ∃ r : FillResolution N, (resolveFillPrice setup exchange symbol order requested).answered f = .ok r ∧
      (Evidence setup exchange symbol f order r ↔ Supported setup exchange symbol f order N) := by
  unfold resolveFillPrice
  cases hfirst : (orderResolution requested "" order : Option (FillResolution N)) with
  | some r =>
    obtain ⟨price, hprice, hsays, hstatus⟩ := orderResolution_some hfirst
    refine ⟨r, rfl, ?_⟩
    rw [evidence_priced hprice hstatus (.order hsays), hsays.positive_iff]
    exact ⟨fun h => ⟨h, fun hno => absurd ⟨price, hsays⟩ hno⟩, And.left⟩
  | none =>
    have hno := not_prices hfirst
    cases hid : order.id with
    | none =>
      refine ⟨unresolved, rfl, iff_of_true evidence_unresolved ⟨soundQuotient_of_not_prices hno,
        fun _ orderId hmem => ?_⟩⟩
      rw [hid] at hmem
      cases hmem
    | some orderId =>
      obtain ⟨r, hanswered, hr⟩ := resolveAgain_answered requested setup exchange symbol f orderId (N := N)
        (nonNegative order.filled)
      refine ⟨r, hanswered, ?_⟩
      rw [evidence_again hid hr]
      refine ⟨fun h => ⟨soundQuotient_of_not_prices hno, fun _ id hmem => ?_⟩, fun h => h.2 hno orderId hid⟩
      cases hid.symm.trans hmem
      exact h

def accepted : Order :=
  { id := some "1", clientOrderId := none, status := some "open", filled := some 0, average := some 10 }

def readsFail (o : Op) : Except Failure (Ans o) := .error (.network "timeout")

/-- Every read fails, and the order is said not to have filled all the same. -/
theorem unread_no_fill : (resolveFillPrice (.bybit []) "bybit" "ABC" accepted none).answered readsFail = .ok noFill ∧
    ¬ ReportsZero (.bybit []) "bybit" "ABC" readsFail accepted := by
  refine ⟨by decide +kernel, fun ⟨orderId, _, h⟩ => ?_⟩
  rcases h with ⟨refreshed, h, -⟩ | ⟨trades, h, -⟩ <;> cases h

end Schurfer.Desk
