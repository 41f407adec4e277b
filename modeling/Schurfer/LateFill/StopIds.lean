import Schurfer.LateFill.Placing
import Schurfer.Lib.Serial

/-!
# The ids a placement gives up

`place_protective_stop` goes on to a new id when the exchange shows the order of the old one ended without a fill, and
when it rejects the request. The second is no evidence for an id with a request of unknown outcome before it: that one
may have landed.
-/

namespace Schurfer.LateFill.StopIds

open Orders Prog Serial Threads

inductive Life
  | live
  | ended
deriving DecidableEq

def lifeOf (order : Order) : Life := if order.isTerminal then .ended else .live

/-- The stops the requests of a placement have created, by client order id, with the ids requested and those of a
request whose outcome is not known. -/
structure Venue where
  stops : String → Option Life := fun _ => none
  requested : List String := []
  unknown : List String := []

structure Chance where
  raises : Option Failure := none
  /-- requests of unknown outcome that now create their order -/
  lands : List String := []
  ends : List String := []
  order : Order := { id := none, clientOrderId := none, status := none, filled := none }
  listed : List Order := []
  now : ℚ := 0

namespace Venue

variable (s : Venue)

def moved (c : Chance) : Venue :=
  { s with stops := fun id => match s.stops id with
      | none => if id ∈ c.lands ∧ id ∈ s.unknown then some .live else none
      | some .live => if id ∈ c.ends then some .ended else some .live
      | some .ended => some .ended }

def shows (order : Order) : Bool :=
  match order.linkId with
  | some id => s.stops id = some (lifeOf order) || id ∉ s.requested
  | none => true

def isUnknown : Failure → Bool
  | .network _ | .taskConflict _ | .other _ => true
  | _ => false

def request (id : String) (c : Chance) : Except Failure Order × Venue :=
  match c.raises with
  | some e =>
    (.error e, { s with
      requested := id :: s.requested
      unknown := if isUnknown e then id :: s.unknown else s.unknown })
  | none =>
    if c.order.linkId = some id ∧ (s.stops id = none ∨ s.stops id = some (lifeOf c.order)) then
      (.ok c.order, { s with
        requested := id :: s.requested
        stops := Function.update s.stops id (some (lifeOf c.order)) })
    else (.error (.duplicateOrderId "duplicate"), { s with requested := id :: s.requested })

def answer : (o : Op) → Chance → Except Failure (Ans o) × Venue
  | .createStopMarketOrder _ _ _ _ id, c => (s.moved c).request id c
  | .fetchOrders _ _ _, c =>
    (match c.raises with
      | some e => .error e
      | none => .ok (c.listed.filter (s.moved c).shows), s.moved c)
  | .monotonic, c => (.ok c.now, s.moved c)
  | .sleep _, c => (.ok (), s.moved c)
  | _, c => (.error (.other "not a call of a placement"), s.moved c)

/-- No order of the id is on the exchange, and none can come. -/
def Settled (id : String) : Prop := s.stops id ≠ some .live ∧ (id ∈ s.unknown → s.stops id ≠ none)

/-- No other requested id can have a stop on the exchange. -/
def Only (id : String) : Prop := ∀ id' ∈ s.requested, id' ≠ id → s.Settled id'

end Venue

def world : World Venue Failure Op Ans Chance Unit where
  answer _ := Venue.answer
  env s _ := s
  crash _ s := s

def Permits (_ : List (Call Venue Failure Op Ans)) (s : Venue) : Op → Prop
  | .createStopMarketOrder _ _ _ _ id => s.Only id
  | _ => True

/-- The exchange does not reject a request of an id that an order was created for, or that had a request of unknown
outcome. A duplicate or another invalid order is not a rejection in this sense. -/
def NotRejected : Call Venue Failure Op Ans → Prop
  | ⟨s, .createStopMarketOrder _ _ _ _ id, .error (.exchange _)⟩ => s.stops id ≠ some .live ∧ id ∉ s.unknown
  | _ => True

structure Onward (s s' : Venue) : Prop where
  requested : s'.requested = s.requested
  settled : ∀ id, s.Settled id → s'.Settled id
  ended : ∀ id, s.stops id = some .ended → s'.stops id = some .ended

section

variable {s s' : Venue} {id : String} {c : Chance}

theorem Onward.refl (s : Venue) : Onward s s := ⟨rfl, fun _ h => h, fun _ h => h⟩

theorem Onward.trans {s'' : Venue} (h : Onward s s') (h' : Onward s' s'') : Onward s s'' :=
  ⟨h'.requested.trans h.requested, fun id hs => h'.settled id (h.settled id hs),
    fun id he => h'.ended id (h.ended id he)⟩

theorem Onward.only (h : Onward s s') (hs : s.Only id) : s'.Only id :=
  fun id' hid hne => h.settled id' (hs id' (h.requested ▸ hid) hne)

theorem onward_moved (s : Venue) (c : Chance) : Onward s (s.moved c) := by
  refine ⟨rfl, fun id hs => ?_, fun id he => ?_⟩
  · obtain ⟨hlive, hun⟩ := hs
    unfold Venue.Settled Venue.moved
    cases hid : s.stops id with
    | none =>
      have hno : id ∉ s.unknown := fun hmem => hun hmem hid
      simp [hid, hno]
    | some life =>
      cases life with
      | live => exact absurd hid hlive
      | ended => simp [hid]
  · simp [Venue.moved, he]

theorem settled_of_ended (h : s.stops id = some .ended) : s.Settled id := by
  unfold Venue.Settled
  rw [h]
  exact ⟨nofun, fun _ => nofun⟩

theorem Only.next (hs : s.Only id) (hst : id ∈ s.requested → s.Settled id) (id' : String) : s.Only id' := by
  intro x hx _
  by_cases heq : x = id
  · exact heq ▸ hst (heq ▸ hx)
  · exact hs x hx heq

theorem request_only (hs : s.Only id) (c : Chance) : (s.request id c).2.Only id := by
  intro x hx hne
  have hold : x ∈ id :: s.requested → s.Settled x := fun h => hs x ((List.mem_cons.1 h).resolve_left hne) hne
  revert hx
  unfold Venue.request
  split
  · intro hx
    refine ⟨(hold hx).1, fun hun => (hold hx).2 ?_⟩
    split at hun
    · exact (List.mem_cons.1 hun).resolve_left hne
    · exact hun
  · split
    · intro hx
      unfold Venue.Settled
      dsimp only
      rw [Function.update_of_ne hne]
      exact hold hx
    · exact hold

end

section

variable {s : Venue} {id : String} {p : StopPlacement} {r : StopRequest} {h : List (Call Venue Failure Op Ans)}
  {α : Type} (has : Has)

def Reads : Op → Prop
  | .createStopMarketOrder _ _ _ _ _ => False
  | _ => True

def Told (s : Venue) (order : Order) : Prop :=
  ∀ id, order.linkId = some id → order.isTerminal = true → id ∈ s.requested → s.stops id = some .ended

theorem reads_moved {o : Op} (ho : Reads o) (c : Chance) : (s.answer o c).2 = s.moved c := by
  cases o <;> first | rfl | cases ho

abbrev Does {α : Type} (post : Venue → Except Failure α → Prop) (p : Program α)
    (h : List (Call Venue Failure Op Ans)) (s : Venue) : Prop :=
  Meets world NotRejected Permits (fun _ => post) p h s

theorem does_reads {post : Venue → α → Prop} {q : Program α} (hq : q.Calls Reads)
    (hy : ∀ s', q.Yields shown (Told s') (post s')) :
    Does (fun s' r => Onward s s' ∧ ∀ b, r = .ok b → post s' b) q h s := by
  refine .of_yields Onward.refl (fun _ _ _ => Onward.trans) (fun h s o ho => ⟨?_, fun c => ?_⟩)
    (fun s s' order hs ht id hid hterm hreq => hs.ended id (ht id hid hterm (hs.requested ▸ hreq)))
    (fun s o c ho order hor => ?_) hq fun s' _ => hy s'
  · cases o <;> trivial
  · change Onward s (s.answer o c).2
    rw [reads_moved ho]
    exact onward_moved s c
  · change Told (s.answer o c).2 order
    rw [reads_moved ho]
    cases o with
    | fetchOrders symbol listing trigger =>
      intro id hid hterm hreq
      change order ∈ shown (.fetchOrders symbol listing trigger) (match c.raises with
        | some e => .error e
        | none => .ok (c.listed.filter (s.moved c).shows)) at hor
      split at hor
      · cases hor
      · have hsh := (List.mem_filter.1 hor).2
        unfold Venue.shows at hsh
        rw [hid] at hsh
        have hlife : lifeOf order = .ended := if_pos hterm
        simpa [hlife, hreq] using hsh
    | createStopMarketOrder => cases ho
    | _ => cases hor

theorem does_clock {q : Program α} (hq : q.Calls Reads) : Does (fun s' _ => Onward s s') q h s :=
  (does_reads hq fun _ => .of_true q).mono fun _ _ _ hr => hr.1

def Running (s : Venue) (p : StopPlacement) : Prop := s.Only p.clientOrderId ∧ p.order = none

def Done (s : Venue) (p : StopPlacement) : Prop :=
  s.Only p.clientOrderId ∧ ∀ o, p.order = some o → o.linkId = some p.clientOrderId ∧ stopState o = .resting

theorem Running.done (hp : Running s p) : Done s p :=
  ⟨hp.1, fun o ho => by rw [hp.2] at ho; cases ho⟩

theorem Running.nextId (hp : Running s p) (hst : p.clientOrderId ∈ s.requested → s.Settled p.clientOrderId)
    (entryClientOrderId : String) : Running s (p.nextId entryClientOrderId).1 :=
  ⟨Only.next hp.1 hst _, (nextId_order entryClientOrderId p).trans hp.2⟩

theorem Running.settle (hp : Running s p) {order : Order} (hid : order.linkId = some p.clientOrderId)
    (ht : Told s order) (entryClientOrderId : String) : Done s (p.settle entryClientOrderId order).1 ∧
      ((p.settle entryClientOrderId order).2 ≠ .ok true → Running s (p.settle entryClientOrderId order).1) := by
  cases hst : stopState order with
  | resting =>
    simp only [StopPlacement.settle, hst]
    refine ⟨⟨hp.1, fun o ho => ?_⟩, fun hne => absurd rfl hne⟩
    cases ho
    exact ⟨hid, hst⟩
  | noFill =>
    have hterm : order.isTerminal = true := by
      unfold stopState at hst
      split at hst
      · assumption
      · split at hst <;> cases hst
    have hfl : Running s (p.failed s!"stop {p.clientOrderId} ended with no fill") := hp
    have hnext := hfl.nextId (fun hreq => ?_) entryClientOrderId
    simp only [StopPlacement.settle, hst]
    · exact ⟨hnext.done, fun _ => hnext⟩
    · exact settled_of_ended (ht _ hid hterm hreq)
  | filling | terminalFill =>
    simp only [StopPlacement.settle, hst]
    exact ⟨Running.done hp, fun hne => absurd rfl hne⟩

theorem Does.bind {β : Type} {q : Program α} {f : α → Program β} {post' : Venue → Except Failure α → Prop}
    {post : Venue → Except Failure β → Prop} (hq : Does post' q h s)
    (hf : ∀ h' s' a, post' s' (.ok a) → Does post (f a) h' s') (he : ∀ s' e, post s' (.error e)) :
    Does post (q >>= f) h s := by
  refine Meets.bind (hq.mono fun h' s' r hr => ?_)
  cases r with
  | ok a => exact hf h' s' a hr
  | error e => exact he s' e

def Goes (s : Venue) (r : Except Failure Requests) : Prop :=
  ∀ sent, r = .ok sent →
    Done s sent.placement ∧ (sent.ended = false ∨ sent.unknown = true → Running s sent.placement)

theorem goes_error (s : Venue) (e : Failure) : Goes s (.error e) := fun _ heq => by cases heq

theorem goes_of_running {sent : Requests} (hp : Running s sent.placement) : Goes s (.ok sent) := by
  intro sent' heq
  cases heq
  exact ⟨hp.done, fun _ => hp⟩

theorem request_answer (hs : s.Only id) (c : Chance) : (s.request id c).2.Only id ∧
    (∀ order, (s.request id c).1 = .ok order → order.linkId = some id ∧ Told (s.request id c).2 order) ∧
    ∀ text, (s.request id c).1 = .error (.exchange text) → s.Settled id → (s.request id c).2.Settled id := by
  refine ⟨request_only hs c, fun order => ?_, fun text => ?_⟩
  · unfold Venue.request
    split
    · exact nofun
    · split
      · rename_i hor
        intro hok
        cases hok
        refine ⟨hor.1, fun id' hid hterm _ => ?_⟩
        obtain rfl : id = id' := Option.some.inj (hor.1.symm.trans hid)
        dsimp only
        rw [Function.update_self]
        exact congrArg some (if_pos hterm)
      · exact nofun
  · unfold Venue.request
    split
    · intro her hst
      obtain rfl := Except.error.inj her
      exact hst
    · split <;> exact nofun

theorem does_requestStop (hp : Running s p) (resending : Bool) : Does Goes (requestStop r p resending) h s := by
  refine .attempt_bind hp.1 fun c hc => ?_
  obtain ⟨honly, hok, hex⟩ := request_answer ((onward_moved s c).only hp.1) c
  have hrun : Running (world.answer 0 s (.createStopMarketOrder r.symbol r.stopSide r.amount r.triggerPrice
      p.clientOrderId) c).2 { p with requests := p.requests + 1 } := ⟨honly, hp.2⟩
  split
  · rename_i response heq
    obtain ⟨hid, htold⟩ := hok response heq
    obtain ⟨hdn, hru⟩ := hrun.settle hid htold r.entryClientOrderId
    split
    · rename_i q ended hst
      rw [hst] at hdn hru
      intro sent heq
      cases heq
      refine ⟨hdn, fun hnot => hru ?_⟩
      obtain rfl : ended = false := hnot.resolve_right Bool.false_ne_true
      exact nofun
    · rename_i q text hst
      rw [hst] at hru
      exact goes_of_running (hru nofun)
  · exact goes_of_running hrun
  · split
    · exact goes_of_running hrun
    · exact goes_of_running hrun
  · exact goes_of_running hrun
  · rename_i text heq
    rw [heq] at hc
    have hset := hex text heq ((onward_moved s c).settled _ ⟨hc.1, fun hmem => absurd hmem hc.2⟩)
    have hfl : Running _ (StopPlacement.failed { p with requests := p.requests + 1 } s!"rejected: {text}") := hrun
    have hnext := hfl.nextId (fun _ => hset) r.entryClientOrderId
    dsimp only
    cases (StopPlacement.nextId r.entryClientOrderId _).2 with
    | error => exact goes_error _ _
    | ok => exact goes_of_running hnext
  · exact goes_of_running hrun
  · exact goes_of_running hrun

theorem does_lookUp (symbol id : String) :
    Does (fun s' r => Onward s s' ∧ ∀ found, r = .ok found → ∀ o, found = some o → Told s' o ∧ o.linkId = some id)
      (lookUp has symbol id) h s := by
  have hrd : (lookUp has symbol id).Calls Reads :=
    .handle (.bind (calls_list_of has fun _ _ => trivial) fun _ => trivial) fun _ => trivial
  exact does_reads hrd fun s' => yields_lookUp has symbol id

theorem does_lookAgain (hp : Running s p) (unknown : Bool) : Does Goes (lookAgain has r p unknown) h s := by
  unfold lookAgain
  split
  · refine .bind (does_lookUp has r.symbol p.clientOrderId) (fun h' s' found hfn => ?_) goes_error
    obtain ⟨hon, hfn⟩ := hfn
    have hp' : Running s' p := ⟨hon.only hp.1, hp.2⟩
    split
    · exact goes_of_running hp'
    · rename_i order
      obtain ⟨htold, hid⟩ := hfn _ rfl order rfl
      obtain ⟨hdn, hru⟩ := hp'.settle hid htold r.entryClientOrderId
      dsimp only
      cases hst : (p.settle r.entryClientOrderId order).2 with
      | error => exact goes_error _ _
      | ok ended =>
        intro sent heq
        cases heq
        refine ⟨hdn, fun hnot => hru ?_⟩
        obtain rfl : ended = false := hnot.resolve_right Bool.false_ne_true
        rw [hst]
        exact nofun
  · exact goes_of_running hp

theorem does_requestStops (started : ℚ) (delays : List ℚ) (hp : Running s p) (unknown : Bool) :
    Does Goes (requestStops has r started delays p unknown) h s := by
  induction delays generalizing s p unknown h with
  | nil => exact goes_of_running hp
  | cons delay delays ih =>
    refine .bind (does_clock (calls_awaitTurn trivial (fun _ => trivial) started delay))
      (fun h1 s1 inTime hs1 => ?_) goes_error
    have hp1 : Running s1 p := ⟨hs1.only hp.1, hp.2⟩
    split
    · refine .bind (does_lookAgain has hp1 unknown) (fun h2 s2 looked hlk => ?_) goes_error
      split
      · exact hlk
      · rename_i hen
        have hru := (hlk looked rfl).2 (.inl (Bool.eq_false_iff.2 hen))
        refine .bind (does_requestStop hru looked.unknown) (fun h3 s3 sent hsn => ?_) goes_error
        split
        · exact hsn
        · rename_i hen'
          exact ih ((hsn sent rfl).2 (.inl (Bool.eq_false_iff.2 hen'))) sent.unknown
    · exact goes_of_running hp1

theorem does_placeProtectiveStop (r : StopRequest) (firstSequence : ℕ) :
    Does (fun s' r => ∀ p, r = .ok p → Done s' p) (placeProtectiveStop has r firstSequence) h {} := by
  have hne : ∀ (s' : Venue) (e : Failure), ∀ p : StopPlacement, Except.error e = .ok p → Done s' p :=
    fun _ _ _ heq => by cases heq
  refine .bind (does_clock (.perform trivial)) (fun h1 s1 started hs1 => ?_) hne
  refine .bind (does_clock (calls_orRaise _)) (fun h2 s2 id hs2 => ?_) hne
  have hst : Running s2 ⟨none, id, firstSequence, 0, []⟩ :=
    ⟨(hs1.trans hs2).only fun _ hid => absurd hid List.not_mem_nil, rfl⟩
  refine .bind (does_requestStops has started _ hst false) (fun h3 s3 done hdn => ?_) hne
  split
  · rename_i hun
    refine .bind (does_lookAgain has ((hdn done rfl).2 (.inr hun)) true) (fun h4 s4 last hlast => ?_) hne
    intro p heq
    cases heq
    exact (hlast last rfl).1
  · intro p heq
    cases heq
    exact (hdn done rfl).1

end

def placed (has : Has) (r : StopRequest) (firstSequence : ℕ) (choices : List Chance) :
    Serial.Done Venue Failure Op Ans StopPlacement :=
  exec world (placeProtectiveStop has r firstSequence) [] {} choices

/-- **No id whose outcome is unknown is given up**, as long as no request of such an id is rejected: at every request,
and when the placement returns, only the current id may have an order on the exchange. -/
theorem only_current_id (has : Has) (r : StopRequest) (firstSequence : ℕ) (choices : List Chance)
    (hanswers : ∀ c ∈ (placed has r firstSequence choices).history, NotRejected c) :
    CallsOk Permits (placed has r firstSequence choices).history ∧
    ∀ p, (placed has r firstSequence choices).result = some (.ok p) →
      (placed has r firstSequence choices).state.Only p.clientOrderId ∧
      ∀ o, p.order = some o → o.linkId = some p.clientOrderId ∧ stopState o = .resting := by
  obtain ⟨hcalls, hend⟩ := Meets.exec (does_placeProtectiveStop has r firstSequence)
    (fun n c hc => by simp at hc) hanswers
  exact ⟨hcalls, fun p hp => hend _ hp p rfl⟩

def sampleEntry : String := "0123456789abcdef0123456789abcdef"

def sampleRequest : StopRequest := ⟨"ABC/USDT:USDT", "buy", 5, 110, sampleEntry⟩

def restingStop (id : String) : Order :=
  { id := some id, clientOrderId := some id, status := some "open", filled := some 0 }

def resent (again : Chance) : List Chance :=
  [{}, {}, {}, { raises := some (.network "timeout") }, {}, {}, {}, {}, { raises := some (.network "timeout") }, again]

def returnedId (run : Serial.Done Venue Failure Op Ans StopPlacement) : Option String :=
  (run.result >>= Except.toOption).map StopPlacement.clientOrderId

def rejectedRun : Serial.Done Venue Failure Op Ans StopPlacement :=
  placed (fun _ => true) sampleRequest 1 (resent { raises := some (.exchange "insufficient balance") } ++
    [({ lands := [sampleEntry ++ "s1"] } : Chance), {}, {}, {}, { order := restingStop (sampleEntry ++ "s2") }])

/-- The second request is rejected for another reason than its id, and a stop of the next id is placed, though the
first request has created a stop that rests. -/
theorem rejected_resend_leaves_stop : rejectedRun.state.stops (sampleEntry ++ "s1") = some .live ∧
    returnedId rejectedRun = some (sampleEntry ++ "s2") := by
  decide +kernel

instance : DecidablePred NotRejected := fun c => by
  unfold NotRejected
  split <;> infer_instance

def duplicateRun : Serial.Done Venue Failure Op Ans StopPlacement :=
  placed (fun _ => true) sampleRequest 1 (resent { raises := some (.invalidOrder "duplicate") } ++
    [({ lands := [sampleEntry ++ "s1"] } : Chance), {}, {}, {}, {}, { listed := [restingStop (sampleEntry ++ "s1")] },
      {}, {}])

/-- When the second request is refused as a duplicate, the id is kept and its stop is found. -/
theorem duplicate_resend_finds_stop : returnedId duplicateRun = some (sampleEntry ++ "s1") ∧
    ∀ p, duplicateRun.result = some (.ok p) → duplicateRun.state.Only p.clientOrderId :=
  ⟨by decide +kernel, fun p hp => ((only_current_id _ _ _ _ (by decide +kernel)).2 p hp).1⟩

end Schurfer.LateFill.StopIds
