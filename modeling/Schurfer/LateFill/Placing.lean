import Schurfer.LateFill.Stops

/-!
# What the placement of a stop asks and passes on

Every order the settlement of an entry lists, and every stop it places, is of the entry's symbol; and the stop a
placement ends with is one the exchange has shown.
-/

namespace Schurfer.LateFill

open Orders Prog

variable {p : StopPlacement} {guard : FillGuard}

def OnSymbol (symbol : String) : Op → Prop
  | .fetchOrders symbol' _ _ => symbol' = symbol
  | .createStopMarketOrder symbol' _ _ _ _ => symbol' = symbol
  | _ => True

def Op.isQuiet : Op → Bool
  | .createTask _ _ | .record _ _ | .acquireLock _ | .releaseLock _ => false
  | _ => true

def shown : (o : Op) → Except Failure (Ans o) → List Order
  | .fetchOrders _ _ _, .ok orders => orders
  | .createStopMarketOrder _ _ _ _ _, .ok order => [order]
  | _, _ => []

section

variable (has : Has) {symbol : String} {P : Op → Prop}

theorem calls_list_of (hP : ∀ listing trigger, P (.fetchOrders symbol listing trigger)) :
    (list has symbol).Calls P := by
  unfold list listOrders
  split
  · trivial
  refine .step (hP _ _) fun openPlain => .step (hP _ _) fun openTrigger => ?_
  split
  · trivial
  · exact .step (hP _ _) fun _ => .step (hP _ _) fun _ => trivial

theorem calls_sleepFor (hsl : ∀ wait, P (.sleep wait)) (wait : ℚ) : (sleepFor wait).Calls P := by
  unfold sleepFor
  split
  · exact .perform (hsl _)
  · trivial

theorem calls_awaitTurn (hmo : P .monotonic) (hsl : ∀ wait, P (.sleep wait)) (started delay : ℚ) :
    (awaitTurn started delay).Calls P := by
  have hrm : (remaining started).Calls P := Calls.last hmo
  refine .step hmo fun now => ?_
  dsimp only
  split
  · refine .bind hrm fun left => ?_
    split
    · trivial
    · exact .step (hsl _) fun _ => .bind hrm fun _ => trivial
  · exact .bind hrm fun _ => trivial

theorem calls_orRaise {α : Type} (x : Except String α) : (orRaise x).Calls P := by
  unfold orRaise
  split <;> trivial

variable (hP : ∀ o, OnSymbol symbol o → o.isQuiet = true → P o)

include hP

theorem calls_list : (list has symbol).Calls P := calls_list_of has fun _ _ => hP _ rfl rfl

theorem calls_lookUp (clientOrderId : String) : (lookUp has symbol clientOrderId).Calls P :=
  .handle (.bind (calls_list has hP) fun _ => trivial) fun _ => trivial

theorem calls_entryStops (entryClientOrderId : String) : (entryStops has symbol entryClientOrderId).Calls P :=
  .handle (.bind (calls_list has hP) fun _ => trivial) fun _ => trivial

section

variable {r : StopRequest} (hr : r.symbol = symbol)

include hr

theorem calls_requestStop (p : StopPlacement) (resending : Bool) : (requestStop r p resending).Calls P := by
  refine .bind (.attempt (hP _ hr rfl)) fun answer => ?_
  split
  · split <;> trivial
  · trivial
  · split <;> trivial
  · trivial
  · exact .bind (calls_orRaise _) fun _ => trivial
  · trivial
  · trivial

theorem calls_lookAgain (p : StopPlacement) (unknown : Bool) : (lookAgain has r p unknown).Calls P := by
  subst hr
  unfold lookAgain
  split
  · refine .bind (calls_lookUp has hP _) fun found => ?_
    split
    · trivial
    · exact .bind (calls_orRaise _) fun _ => trivial
  · trivial

theorem calls_requestStops (started : ℚ) (delays : List ℚ) (p : StopPlacement) (unknown : Bool) :
    (requestStops has r started delays p unknown).Calls P := by
  induction delays generalizing p unknown with
  | nil => trivial
  | cons delay delays ih =>
    refine .bind (calls_awaitTurn (hP _ trivial rfl) (fun _ => hP _ trivial rfl) started delay) fun inTime => ?_
    split
    · refine .bind (calls_lookAgain has hP hr p unknown) fun looked => ?_
      split
      · trivial
      · refine .bind (calls_requestStop hP hr _ _) fun sent => ?_
        split
        · trivial
        · exact ih _ _
    · trivial

theorem calls_placeProtectiveStop (firstSequence : ℕ) : (placeProtectiveStop has r firstSequence).Calls P := by
  refine .step (hP _ trivial rfl) fun started => .bind (calls_orRaise _) fun id =>
    .bind (calls_requestStops has hP hr _ _ _ _) fun done => ?_
  split
  · exact .bind (calls_lookAgain has hP hr _ _) fun _ => trivial
  · trivial

end

theorem calls_stopTrigger (symbol' : String) (side : Side) (referencePrice initialSlPct : ℚ) :
    (stopTrigger symbol' side referencePrice initialSlPct).Calls P :=
  .perform (hP _ trivial rfl)

theorem calls_cover (hgr : guard.symbol = symbol) (order : Order) : (cover has guard order).Calls P := by
  have hvw : (guardView has guard).Calls P := by
    unfold guardView
    split
    · unfold stopsView
      rw [hgr]
      refine .bind (calls_entryStops has hP _) fun stops => ?_
      split
      · trivial
      · split <;> trivial
    · trivial
  refine .bind hvw fun view => ?_
  dsimp only
  split
  · refine .bind (calls_stopTrigger hP _ _ _ _) fun trigger =>
      .bind (calls_placeProtectiveStop has hP hgr _) fun placement => ?_
    split <;> trivial
  · trivial

omit hP in
theorem yields_cover (guard : FillGuard) (order : Order) :
    (cover has guard order).Yields (fun _ _ => ([] : List Unit)) (fun _ => True) fun g => g.symbol = guard.symbol := by
  refine .bind (.mono (fun view _ => ?_) (.of_true _))
  dsimp only
  split
  · refine .bind (.mono (fun trigger _ => ?_) (.of_true _))
    refine .bind (.mono (fun placement _ => ?_) (.of_true _))
    split <;> rfl
  · rfl

theorem calls_confirmCancel (clientOrderId : String) (started : ℚ) (looks : List ℚ)
    (hgr : guard.symbol = symbol) (latest : Order) :
    (confirmCancel has symbol clientOrderId started looks guard latest).Calls P := by
  induction looks generalizing guard latest with
  | nil => trivial
  | cons due looks ih =>
    refine .step (hP _ trivial rfl) fun now => .bind (calls_sleepFor (fun _ => hP _ trivial rfl) _) fun _ =>
      .bind (calls_lookUp has hP _) fun found => ?_
    split
    · exact ih hgr latest
    · split
      · trivial
      · exact .bind_yields (calls_cover has hP hgr _) (yields_cover has guard _) fun g hg => ih (hg.trans hgr) _

theorem calls_settleActiveEntry (hgr : guard.symbol = symbol) (order : Order) :
    (settleActiveEntry has symbol guard order).Calls P := by
  unfold settleActiveEntry
  split
  · trivial
  refine .bind_yields (calls_cover has hP hgr _) (yields_cover has guard _) fun g hg => ?_
  split
  · trivial
  · exact .bind (.attempt (hP _ trivial rfl)) fun _ => .step (hP _ trivial rfl) fun started =>
      calls_confirmCancel has hP _ _ _ (hg.trans hgr) _

end

section

variable (has : Has) {G : Order → Prop}

theorem yields_list (symbol : String) : (list has symbol).Yields shown G fun orders => ∀ o ∈ orders, G o := by
  unfold list listOrders
  split
  · trivial
  refine .bind (.perform fun openPlain hop => .bind (.perform fun openTrigger htr => ?_))
  split
  · trivial
  refine .bind (.perform fun closedPlain hclosed => ?_)
  refine .bind (.perform fun closedTrigger hbt => ?_)
  intro o ho
  rcases mem_foldl_merge ho with hnn | hls
  · cases hnn
  · simp only [List.mem_append] at hls
    rcases hls with ((h | h) | h) | h
    · exact hop o h
    · exact htr o h
    · exact hclosed o h
    · exact hbt o h

theorem yields_lookUp (symbol clientOrderId : String) : (lookUp has symbol clientOrderId).Yields shown G
      fun found => ∀ o, found = some o → G o ∧ o.linkId = some clientOrderId := by
  refine .handle (.bind (.mono (fun orders hor => ?_) (yields_list has symbol))) fun e => ?_
  · intro o ho
    have hlk := List.find?_some ho
    exact ⟨hor o (List.mem_of_find?_eq_some ho), of_decide_eq_true hlk⟩
  · exact fun o ho => by cases ho

theorem nextId_order (entryClientOrderId : String) (p : StopPlacement) :
    (p.nextId entryClientOrderId).1.order = p.order := by
  unfold StopPlacement.nextId
  dsimp only
  split <;> rfl

theorem settle_order {entryClientOrderId : String} {order o : Order}
    (h : (p.settle entryClientOrderId order).1.order = some o) : p.order = some o ∨ o = order := by
  unfold StopPlacement.settle at h
  split at h
  · exact .inr (Option.some.inj h).symm
  · rw [nextId_order] at h
    exact .inl h
  · exact .inl h

variable {r : StopRequest}

def Shown (G : Order → Prop) (p : StopPlacement) : Prop := ∀ o, p.order = some o → G o

theorem Shown.settle (hp : Shown G p) {order : Order} (hod : G order)
    (entryClientOrderId : String) : Shown G (p.settle entryClientOrderId order).1 := by
  intro o ho
  rcases settle_order ho with hold | rfl
  · exact hp o hold
  · exact hod

theorem yields_requestStop (hp : Shown G p) (resending : Bool) :
    (requestStop r p resending).Yields shown G fun sent => Shown G sent.placement := by
  refine .bind (.attempt fun answer han => ?_)
  split
  · rename_i response
    have hcn : Shown G { p with requests := p.requests + 1 } := hp
    have hsettled := hcn.settle (han response List.mem_cons_self) r.entryClientOrderId
    split
    · rename_i p' ended heq
      rw [heq] at hsettled
      exact hsettled
    · rename_i p' text heq
      rw [heq] at hsettled
      exact hsettled
  · exact hp
  · split <;> exact hp
  · exact hp
  · refine .bind (.mono (fun _ _ o ho => ?_) (.of_true _))
    rw [nextId_order] at ho
    exact hp o ho
  · exact hp
  · exact hp

theorem yields_lookAgain (hp : Shown G p) (unknown : Bool) :
    (lookAgain has r p unknown).Yields shown G fun looked => Shown G looked.placement := by
  unfold lookAgain
  split
  · refine .bind (.mono (fun found hfn => ?_) (yields_lookUp has _ _))
    split
    · exact hp
    · rename_i order
      exact .bind (.mono (fun _ _ => hp.settle (hfn order rfl).1 _) (.of_true _))
  · exact hp

theorem yields_requestStops (started : ℚ) (delays : List ℚ) (hp : Shown G p) (unknown : Bool) :
    (requestStops has r started delays p unknown).Yields shown G fun sent => Shown G sent.placement := by
  induction delays generalizing p unknown with
  | nil => exact hp
  | cons delay delays ih =>
    refine .bind (.mono (fun inTime _ => ?_) (.of_true _))
    split
    · refine .bind (.mono (fun looked hlk => ?_) (yields_lookAgain has hp unknown))
      split
      · exact hlk
      · refine .bind (.mono (fun sent hsn => ?_) (yields_requestStop hlk _))
        split
        · exact hsn
        · exact ih hsn _
    · exact hp

theorem yields_placeProtectiveStop (firstSequence : ℕ) :
    (placeProtectiveStop has r firstSequence).Yields shown G (Shown G) := by
  refine .bind (.mono (fun started _ => ?_) (.of_true _))
  refine .bind (.mono (fun id _ => ?_) (.of_true _))
  have hnn : Shown G ⟨none, id, firstSequence, 0, []⟩ := fun o ho => by cases ho
  refine .bind (.mono (fun done hdn => ?_) (yields_requestStops has started _ hnn false))
  split
  · exact .bind (.mono (fun last hlast => hlast) (yields_lookAgain has hdn true))
  · exact hdn

end

end Schurfer.LateFill
