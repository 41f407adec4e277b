import Schurfer.EmergencyClose.Store

/-!
# An emergency close is single-flight

A pass sends only after it has followed every earlier close to its end, under the next free id, for what is left of
the owned quantity. The ids stay free because the rows under the task's own stem are numbered at most by how many rows
it has (`State.Numbered`).
-/

namespace Schurfer.EmergencyClose

open Orders Threads Serial List

variable {closes before after : List CloseOrder} {dec : ℚ → String} {amount contractSize : ℚ} {id : String} {o : Op}
  {close row : CloseOrder} {α : Type} {s : State}
  {post : Post State Failure Op Ans (Ans o)}

abbrev History := List (Call State Failure Op Ans)

def CloseOrder.isSettled (c : CloseOrder) : Bool := !c.isUnknown && !c.isActive && !c.isManual

structure State.Numbered (s : State) : Prop where
  ids : s.ids.Nodup
  numbers : ∀ row ∈ s.closes, startsWith row.clientOrderId (closePrefix s.task.entryClientOrderId) = true →
    ∃ n ≤ s.closes.length, row.clientOrderId = closePrefix s.task.entryClientOrderId ++ toString n

structure Evidence (history : History) (amount : ℚ) (clientOrderId : String) where
  openPlain : List Order
  openTrigger : List Order
  closedPlain : List Order
  closedTrigger : List Order
  positions : List PositionRow
  remainder : ℚ
  sizeUsd : ℚ
  contractSize : ℚ
  attemptId : ℕ
  owner : String
  rejectedSends : ℕ
  read : [⟨.fetchOrders .openOrders false, .ok openPlain⟩, ⟨.fetchOrders .openOrders true, .ok openTrigger⟩,
    ⟨.fetchOrders .closedOrders false, .ok closedPlain⟩, ⟨.fetchOrders .closedOrders true, .ok closedTrigger⟩,
    ⟨.fetchPositions, .ok positions⟩, ⟨.amountToPrecision remainder, .ok amount⟩,
    ⟨.recordCloseIntent clientOrderId amount sizeUsd contractSize, .ok attemptId⟩,
    ⟨.updateTask owner .sending remainder rejectedSends none false, .ok ()⟩] <:+ history.map (·.event)

def stopFilled (entryClientOrderId : String) (openPlain openTrigger closedPlain closedTrigger : List Order) : ℚ :=
  (((ordersWithPrefix ((openPlain ++ openTrigger ++ closedPlain ++ closedTrigger).foldl merge [])
    (stopPrefix entryClientOrderId)).filter (·.isTerminal)).map (·.filledOrZero)).sum

/-- A close may be sent: `earlier` are the rows before its own. -/
structure SendOk (history : History) (s : State) (side : String) (amount : ℚ) (clientOrderId : String) : Prop where
  runnable : s.task.status.isRunnable = true
  side : side = closeSide s.task.side
  positive : 0 < amount
  rows : ∃ earlier row, s.closes = earlier ++ [row] ∧
    row.clientOrderId = clientOrderId ∧ row.status = .pending ∧ row.requestedAmount = some amount ∧
    (∀ c ∈ earlier, c.isSettled = true) ∧ (∀ c ∈ earlier, c.clientOrderId ≠ clientOrderId) ∧
    ∃ e : Evidence history amount clientOrderId,
      e.remainder = s.task.ownedQuantity - closeFilled earlier -
        stopFilled s.task.entryClientOrderId e.openPlain e.openTrigger e.closedPlain e.closedTrigger ∧
      amount ≤ e.remainder ∧
      same (positionOf s.task e.positions).contracts e.remainder = true ∧
      (positionOf s.task e.positions).oppositeSide = false

def pre (history : History) (s : State) : Op → Prop
  | .updateTask _ _ _ _ _ _ => s.task.status.isRunnable = true
  | .createMarketOrder side amount clientOrderId => SendOk history s side amount clientOrderId
  | _ => True

abbrev PassOk {β : Type} (post : Post State Failure Op Ans β) : Program β → History → State → Prop :=
  Pass world State.Numbered pre post

theorem freshId_notMem (s : State) : s.freshId ∉ s.ids := by
  intro hmem
  unfold State.freshId at hmem
  cases hmax : s.ids.max? with
  | none =>
    rw [max?_eq_none_iff] at hmax
    rw [hmax] at hmem
    cases hmem
  | some m =>
    rw [hmax, Option.getD_some] at hmem
    have hle := (max?_eq_some_iff.1 hmax).2 _ hmem
    omega

theorem State.Numbered.add (hs : s.Numbered) (hid : row.attemptId ∉ s.ids)
    (hcn : startsWith row.clientOrderId (closePrefix s.task.entryClientOrderId) = true →
      ∃ n ≤ s.closes.length + 1, row.clientOrderId = closePrefix s.task.entryClientOrderId ++ toString n) :
    State.Numbered { s with closes := s.closes ++ [row] } := by
  refine ⟨?_, ?_⟩
  · change ((s.closes ++ [row]).map (·.attemptId)).Nodup
    rw [map_append, nodup_append]
    refine ⟨hs.ids, nodup_singleton _, ?_⟩
    intro a ha b hb heq
    obtain rfl := mem_singleton.1 hb
    have hrow : a = row.attemptId := heq
    rw [hrow] at ha
    exact hid ha
  · intro r hr hsm
    rw [length_append, length_singleton]
    rcases mem_append.1 hr with hr | hr
    · obtain ⟨n, hn, heq⟩ := hs.numbers r hr hsm
      exact ⟨n, Nat.le_succ_of_le hn, heq⟩
    · obtain rfl := mem_singleton.1 hr
      exact hcn hsm

theorem State.Numbered.link (hs : s.Numbered) (rows : List CloseOrder) : (s.link rows).Numbered := by
  induction rows generalizing s with
  | nil => exact hs
  | cons row rows ih =>
    unfold State.link
    split
    · rename_i hrow
      refine ih (hs.add hrow.1 fun hsm => ?_)
      exact ⟨1, Nat.le_add_left 1 _, hrow.2 hsm⟩
    · exact ih hs

theorem State.Numbered.mark (hs : s.Numbered) (attemptId : ℕ) (status : AttemptStatus)
    (orderId : Option String) (filled : Option ℚ) : (s.mark attemptId status orderId filled).Numbered := by
  have hkp : ∀ c : CloseOrder, (if c.attemptId = attemptId then c.mark status orderId filled else c).attemptId =
      c.attemptId ∧ (if c.attemptId = attemptId then c.mark status orderId filled else c).clientOrderId =
      c.clientOrderId := by
    intro c
    split <;> exact ⟨rfl, rfl⟩
  refine ⟨?_, ?_⟩
  · have hids : (s.mark attemptId status orderId filled).ids = s.ids := by
      unfold State.ids State.mark
      rw [map_map]
      exact map_congr_left fun c _ => (hkp c).1
    rw [hids]
    exact hs.ids
  · intro row hrow hsm
    obtain ⟨c, hc, rfl⟩ := mem_map.1 hrow
    rw [(hkp c).2] at hsm ⊢
    rw [State.mark, length_map]
    exact hs.numbers c hc hsm

theorem State.Numbered.update (hs : s.Numbered) (status : TaskStatus) (remainder : ℚ) (rejected : ℕ)
    (release : Bool) : (s.update status remainder rejected release).Numbered :=
  ⟨hs.ids, hs.numbers⟩

section

variable {c : Chance}

@[simp] theorem world_answer (i : ℕ) (s : State) (o : Op) (c : Chance) : world.answer i s o c = answer s o c := rfl

def Op.isMinor : Op → Bool
  | .updateTask _ _ _ _ _ _ => false
  | .recordCloseIntent _ _ _ _ => false
  | .createMarketOrder _ _ _ => false
  | _ => true

def Op.writesTask : Op → Bool
  | .updateTask _ _ _ _ _ _ => true
  | _ => false

theorem wrote_state (c : Chance) (s s' : State) (v : α) : (wrote c s s' v).2 = s ∨ (wrote c s s' v).2 = s' := by
  unfold wrote
  split
  · split
    · exact .inr rfl
    · exact .inl rfl
  · exact .inr rfl

theorem readAs_state (c : Chance) (s : State) (v : α) : (readAs c s v).2 = s := by
  unfold readAs
  split <;> rfl

theorem wrote_task {s' : State} (hts : s'.task = s.task) (v : α) : (wrote c s s' v).2.task = s.task := by
  rcases wrote_state c s s' v with h | h
  · rw [h]
  · rw [h]; exact hts

theorem State.link_task (s : State) (rows : List CloseOrder) : (s.link rows).task = s.task := by
  induction rows generalizing s with
  | nil => rfl
  | cons row rows ih =>
    unfold State.link
    split
    · exact ih _
    · exact ih s

theorem answer_task (ho : o.writesTask = false) (c : Chance) : (answer s o c).2.task = s.task := by
  cases o with
  | updateTask => cases ho
  | claim owner =>
    simp only [answer]
    split
    · refine wrote_task ?_ _
      rfl
    · rw [readAs_state]
  | linkLateCloses =>
    refine wrote_task ?_ _
    split
    · rfl
    · exact s.link_task _
  | recordCloseIntent | markClose =>
    refine wrote_task ?_ _
    rfl
  | _ => exact congrArg State.task (readAs_state c s _)

theorem answer_minor (ho : o.isMinor = true) (hs : s.Numbered) (c : Chance) : (answer s o c).2.Numbered := by
  have hwr : ∀ {α : Type} (s' : State) (v : α), s'.Numbered → (wrote c s s' v).2.Numbered := by
    intro α s' v hs'
    rcases wrote_state c s s' v with h | h
    · rw [h]; exact hs
    · rw [h]; exact hs'
  cases o with
  | updateTask | recordCloseIntent | createMarketOrder => cases ho
  | claim owner =>
    simp only [answer]
    split
    · exact hwr _ _ ⟨hs.ids, hs.numbers⟩
    · rw [readAs_state]; exact hs
  | linkLateCloses =>
    refine hwr _ _ ?_
    split
    · exact hs
    · exact hs.link _
  | markClose => exact hwr _ _ (hs.mark _ _ _ _)
  | _ => exact (readAs_state c s _).symm ▸ hs

end

structure Ready (task : Task) (s : State) : Prop where
  numbered : s.Numbered
  runnable : s.task.status.isRunnable = true
  entry : task.entryClientOrderId = s.task.entryClientOrderId
  owned : task.ownedQuantity = s.task.ownedQuantity
  side : task.side = s.task.side
  symbol : task.symbol = s.task.symbol

section

variable {ex : Executor} {task : Task} {h : History} {s' : State} {β : Type}

theorem Ready.of_task (hr : Ready task s) (hn : s'.Numbered) (ht : s'.task = s.task) : Ready task s' := by
  refine ⟨hn, ?_, ?_, ?_, ?_, ?_⟩
  · rw [ht]; exact hr.runnable
  · rw [ht]; exact hr.entry
  · rw [ht]; exact hr.owned
  · rw [ht]; exact hr.side
  · rw [ht]; exact hr.symbol

theorem pass_minor (ho : o.isMinor = true) (hr : Ready task s) (hps : ∀ c, Ready task (answer s o c).2 →
      post (h ++ [⟨s, o, (answer s o c).1⟩]) (answer s o c).2 (answer s o c).1) : PassOk post (call o) h s := by
  refine .perform ?_ fun c => ?_
  · cases o <;> trivial
  · have hn := answer_minor ho hr.numbered c
    have hw : o.writesTask = false := by cases o <;> trivial
    exact ⟨hn, hps c (hr.of_task hn (answer_task hw c))⟩

theorem pass_read (ho : o.isMinor = true) {value : Chance → Ans o}
    (hrd : ∀ c, answer s o c = readAs c s (value c)) (hr : Ready task s)
    (hok : ∀ c, post (h ++ [⟨s, o, .ok (value c)⟩]) s (.ok (value c))) (herr : ∀ h' e, post h' s (.error e)) :
    PassOk post (call o) h s := by
  refine pass_minor ho hr fun c _ => ?_
  rw [hrd c]
  unfold readAs
  split
  · exact herr _ _
  · exact hok c

theorem pass_set (hr : Ready task s) (status : TaskStatus) (error : Option String) (release : Bool)
    {post : Post State Failure Op Ans Outcome}
    (hok : post (h ++ [⟨s, .updateTask ex.owner status task.ownedRemainder task.rejectedSends error release,
        .ok ()⟩]) (s.update status task.ownedRemainder task.rejectedSends release) (.ok (.status status)))
    (herr : ∀ h' s' e, post h' s' (.error e)) : PassOk post (set ex task status error release) h s := by
  refine .bind (Pass.perform hr.runnable fun c => ?_)
  simp only [world, answer]
  split
  · cases hc : c.raises with
    | some e =>
      simp only [wrote, hc]
      split
      · exact ⟨hr.numbered.update _ _ _ _, herr _ _ _⟩
      · exact ⟨hr.numbered, herr _ _ _⟩
    | none =>
      simp only [wrote, hc]
      exact ⟨hr.numbered.update _ _ _ _, hok⟩
  · exact ⟨hr.numbered, herr _ _ _⟩

theorem pass_set_end (hr : Ready task s) (status : TaskStatus) (error : Option String) (release : Bool) :
    PassOk (fun _ _ _ => True) (set ex task status error release) h s :=
  pass_set hr status error release trivial fun _ _ _ => trivial

theorem pass_manual (hr : Ready task s) (reason : String) : PassOk (fun _ _ _ => True) (manual ex task reason) h s :=
  pass_set_end hr _ _ _

def listCalls (s : State) (openPlain openTrigger closedPlain closedTrigger : List Order) : History :=
  [⟨s, .fetchOrders .openOrders false, .ok openPlain⟩, ⟨s, .fetchOrders .openOrders true, .ok openTrigger⟩,
    ⟨s, .fetchOrders .closedOrders false, .ok closedPlain⟩,
    ⟨s, .fetchOrders .closedOrders true, .ok closedTrigger⟩]

theorem pass_list (hr : Ready task s) {post : Post State Failure Op Ans (List Order)}
    (hok : ∀ a b c d, post (h ++ listCalls s a b c d) s (.ok ((a ++ b ++ c ++ d).foldl merge [])))
    (herr : ∀ h' e, post h' s (.error e)) : PassOk post (list ex) h s := by
  unfold list listOrders
  split
  · exact herr _ _
  refine .bind (pass_read rfl (fun _ => rfl) hr (fun c1 => ?_) herr)
  refine .bind (pass_read rfl (fun _ => rfl) hr (fun c2 => ?_) herr)
  dsimp only
  split
  · exact herr _ _
  refine .bind (pass_read rfl (fun _ => rfl) hr (fun c3 => ?_) herr)
  refine .bind (pass_read rfl (fun _ => rfl) hr (fun c4 => ?_) herr)
  have hdn := hok c1.orders c2.orders c3.orders c4.orders
  unfold listCalls at hdn
  change post _ s (.ok _)
  simpa only [append_assoc, cons_append, nil_append] using hdn

def CloseOrder.bare (c : CloseOrder) : CloseOrder := { c with orderId := none }

def Agree (closes : List CloseOrder) (s : State) : Prop :=
  (closes.map (·.bare)).Perm (s.closes.map (·.bare))

theorem Agree.nodup (ha : Agree closes s) (hs : s.Numbered) : (closes.map (·.attemptId)).Nodup := by
  have hpr := ha.map (·.attemptId)
  rw [map_map, map_map] at hpr
  exact hpr.nodup_iff.2 hs.ids

theorem Agree.mark (ha : Agree (before ++ close :: after) s) (hs : s.Numbered) (status : AttemptStatus)
    (orderId orderId' : Option String) (filled : Option ℚ) : Agree (before ++ { close with
      status := status, orderId := orderId', filledAmount := filled <|> close.filledAmount } :: after)
      (s.mark close.attemptId status orderId filled) := by
  have hnd := ha.nodup hs
  -- marking by id touches this close alone among those the pass holds
  have hot : ∀ c ∈ before ++ after, c.attemptId ≠ close.attemptId := by
    intro c hc heq
    rw [map_append, map_cons, nodup_middle, nodup_cons, ← map_append] at hnd
    exact hnd.1 (heq ▸ mem_map_of_mem hc)
  let f : CloseOrder → CloseOrder := fun c =>
    if c.attemptId = close.attemptId then c.mark status none filled else c
  have hf : ∀ l : List CloseOrder, (∀ c ∈ l, c.attemptId ≠ close.attemptId) →
      (l.map (·.bare)).map f = l.map (·.bare) := by
    intro l hl
    rw [map_map]
    refine map_congr_left fun c hc => ?_
    exact if_neg (hl c hc)
  have hpa : (before ++ { close with
      status := status, orderId := orderId', filledAmount := filled <|> close.filledAmount } :: after).map
        (·.bare) = ((before ++ close :: after).map (·.bare)).map f := by
    simp only [map_append, map_cons]
    rw [hf before fun c hc => hot c (mem_append_left _ hc), hf after fun c hc => hot c (mem_append_right _ hc)]
    have hclose : f close.bare = close.bare.mark status none filled := if_pos rfl
    rw [hclose]
    rfl
  have hst : (s.mark close.attemptId status orderId filled).closes.map (·.bare) = (s.closes.map (·.bare)).map f := by
    rw [State.mark, map_map, map_map]
    refine map_congr_left fun c _ => ?_
    change (if c.attemptId = close.attemptId then c.mark status orderId filled else c).bare =
      if c.attemptId = close.attemptId then c.bare.mark status none filled else c.bare
    split <;> rfl
  unfold Agree
  rw [hpa, hst]
  exact ha.map f

theorem pass_follow (hr : Ready task s) (ha : Agree (before ++ close :: after) s) :
    PassOk (fun _ s' r => ∀ c, r = .ok c → Ready task s' ∧ Agree (before ++ c :: after) s') (follow ex close) h s := by
  have hkp : ∀ c, (Except.ok close : Except Failure CloseOrder) = .ok c →
      Ready task s ∧ Agree (before ++ c :: after) s := by
    rintro c hc
    cases hc
    exact ⟨hr, ha⟩
  unfold follow
  split
  · refine .bind (pass_list hr (fun a b c d => ?_) fun _ _ _ h => by cases h)
    dsimp only
    split
    · exact hkp
    · rename_i order _
      refine .bind (pass_minor rfl hr fun c hr' => ?_)
      simp only [answer] at hr' ⊢
      cases hc : c.raises with
      | some e =>
        simp only [wrote, hc]
        intro c' hc'
        cases hc'
      | none =>
        simp only [wrote, hc] at hr' ⊢
        rintro c' hc'
        cases hc'
        exact ⟨hr', ha.mark hr.numbered _ _ _ _⟩
  · exact hkp

theorem pass_followAll (hr : Ready task s) (ha : Agree (before ++ closes) s) :
    PassOk (fun _ s' r => ∀ cs, r = .ok cs → Ready task s' ∧ Agree (before ++ cs) s') (followAll ex closes) h s := by
  induction closes generalizing before h s with
  | nil =>
    rintro cs hcs
    cases hcs
    exact ⟨hr, ha⟩
  | cons close closes ih =>
    refine .bind (.mono (fun h1 s1 r1 h₁ok => ?_) (pass_follow hr ha))
    cases r1 with
    | error => exact nofun
    | ok close' =>
      obtain ⟨hr1, ha1⟩ := h₁ok close' rfl
      rw [← singleton_append, ← append_assoc] at ha1
      refine .bind (.mono (fun h2 s2 r2 h₂ok => ?_) (ih hr1 ha1))
      cases r2 with
      | error => exact nofun
      | ok rest =>
        obtain ⟨hr2, ha2⟩ := h₂ok rest rfl
        rintro cs hcs
        cases hcs
        refine ⟨hr2, ?_⟩
        rw [← singleton_append, ← append_assoc]
        exact ha2

theorem Agree.length (ha : Agree closes s) : closes.length = s.closes.length := by
  have hlen := List.Perm.length_eq ha
  rwa [length_map, length_map] at hlen

theorem Agree.settled (ha : Agree closes s) (hc : ∀ c ∈ closes, c.isSettled = true) :
    ∀ c ∈ s.closes, c.isSettled = true := by
  intro c hmem
  have hbr : c.bare ∈ closes.map (·.bare) := ha.mem_iff.2 (mem_map_of_mem hmem)
  obtain ⟨d, hd, heq⟩ := mem_map.1 hbr
  have hstatus : c.bare.isSettled = true := heq ▸ hc d hd
  exact hstatus

theorem closeFilled_bare (closes : List CloseOrder) : closeFilled (closes.map (·.bare)) = closeFilled closes := by
  unfold closeFilled
  rw [filter_map, map_map]
  rfl

theorem Agree.filled (ha : Agree closes s) : closeFilled closes = closeFilled s.closes := by
  rw [← closeFilled_bare closes, ← closeFilled_bare s.closes]
  exact ((List.Perm.filter _ ha).map _).sum_eq

section

variable (hr : Ready task s) (attemptId : ℕ)

include hr

theorem Ready.with_task {task' : Task}
    (hen : task'.entryClientOrderId = task.entryClientOrderId) (hon : task'.ownedQuantity = task.ownedQuantity)
    (hsd : task'.side = task.side) (hsy : task'.symbol = task.symbol) : Ready task' s :=
  ⟨hr.numbered, hr.runnable, hen.trans hr.entry, hon.trans hr.owned, hsd.trans hr.side, hsy.trans hr.symbol⟩

theorem pass_markClose (status : AttemptStatus) (orderId : Option String) (filled : Option ℚ)
    (error : Option String) {rest : Program β} (hrs : ∀ h' s', Ready task s' → PassOk (fun _ _ _ => True) rest h' s') :
    PassOk (fun _ _ _ => True) (do call (.markClose attemptId status orderId filled error); rest) h s := by
  refine .bind (pass_minor rfl hr fun c hr' => ?_)
  split
  · exact hrs _ _ hr'
  · trivial

theorem pass_sent (answer : Except Failure Order) :
    PassOk (fun _ _ _ => True) (sent ex task attemptId answer) h s := by
  have hun : ∀ e, PassOk (fun _ _ _ => True) (sendUnknown ex task attemptId e) h s := by
    intro e
    exact pass_markClose hr _ _ _ _ _ fun _ _ hr' => pass_set_end hr' _ _ _
  cases answer with
  | ok => exact pass_markClose hr _ _ _ _ _ fun _ _ hr' => pass_set_end hr' _ _ _
  | error e =>
    cases e with
    | network | other => exact hun _
    | exchange text =>
      refine pass_markClose hr _ _ _ _ _ fun _ _ hr' => ?_
      have hr'' : Ready { task with rejectedSends := task.rejectedSends + 1 } _ :=
        hr'.with_task rfl rfl rfl rfl
      dsimp only
      split
      · exact pass_manual hr'' _
      · exact pass_set_end hr'' _ _ _

theorem Ready.addIntent {clientOrderId : String}
    (hid : clientOrderId = closePrefix s.task.entryClientOrderId ++ toString (s.closes.length + 1))
    (amount : ℚ) (createdAt : Time) : Ready task (s.addIntent clientOrderId amount createdAt) := by
  refine ⟨hr.numbered.add (freshId_notMem s) fun _ => ⟨s.closes.length + 1, le_rfl, hid⟩, hr.runnable, hr.entry,
    hr.owned, hr.side, hr.symbol⟩

theorem Ready.update {status : TaskStatus} (hstatus : status.isRunnable = true)
    (remainder : ℚ) (rejected : ℕ) (release : Bool) : Ready task (s.update status remainder rejected release) :=
  ⟨hr.numbered.update _ _ _ _, hstatus, hr.entry, hr.owned, hr.side, hr.symbol⟩

end

theorem State.Numbered.next_free (hs : s.Numbered) (hrow : row ∈ s.closes) :
    row.clientOrderId ≠ closePrefix s.task.entryClientOrderId ++ toString (s.closes.length + 1) := by
  intro heq
  have hsm : startsWith row.clientOrderId (closePrefix s.task.entryClientOrderId) = true := by
    unfold startsWith
    rw [heq, String.toList_append, isPrefixOf_iff_prefix]
    exact prefix_append _ _
  obtain ⟨n, hn, hnum⟩ := hs.numbers row hrow hsm
  have hsame := sequence_inj (hnum.symm.trans heq)
  omega

structure Cleared (task : Task) (closes : List CloseOrder) (h : History) (s : State) : Prop where
  agree : Agree closes s
  settled : ∀ c ∈ closes, c.isSettled = true
  read : ∃ a b c d rows, listCalls s a b c d ++ [⟨s, .fetchPositions, .ok rows⟩] <:+ h ∧
    task.ownedRemainder = s.task.ownedQuantity - closeFilled s.closes -
      stopFilled s.task.entryClientOrderId a b c d ∧
    same (positionOf s.task rows).contracts task.ownedRemainder = true ∧
    (positionOf s.task rows).oppositeSide = false

section

variable (hr : Ready task s) {sizeUsd : ℚ}

include hr

theorem Cleared.sendOk (hc : Cleared task closes h s) (hpos : 0 < amount) (hle : amount ≤ task.ownedRemainder)
    (hid : id = closePrefix s.task.entryClientOrderId ++ toString (s.closes.length + 1)) (createdAt : Time) :
    SendOk (h ++ [⟨s, .amountToPrecision task.ownedRemainder, .ok amount⟩] ++
        [⟨s, .recordCloseIntent id amount sizeUsd contractSize, .ok s.freshId⟩] ++
        [⟨s.addIntent id amount createdAt,
          .updateTask ex.owner .sending task.ownedRemainder task.rejectedSends none false, .ok ()⟩])
      ((s.addIntent id amount createdAt).update .sending task.ownedRemainder task.rejectedSends false)
      (closeSide task.side) amount id := by
  obtain ⟨a, b, c, d, rows, ⟨front, hfr⟩, hrem, hsame, hopp⟩ := hc.read
  refine ⟨rfl, congrArg closeSide hr.side, hpos, s.closes, _, rfl, rfl, rfl, rfl, hc.agree.settled hc.settled, ?_, ?_⟩
  · intro row hrow
    rw [hid]
    exact hr.numbered.next_free hrow
  · refine ⟨⟨a, b, c, d, rows, task.ownedRemainder, sizeUsd, contractSize, s.freshId, ex.owner,
      task.rejectedSends, front.map (·.event), ?_⟩, hrem, hle, hsame, hopp⟩
    rw [← hfr]
    simp only [map_append, append_assoc]
    rfl

theorem pass_recordCloseIntent (hid : id = closePrefix s.task.entryClientOrderId ++ toString (s.closes.length + 1))
    {post : Post State Failure Op Ans ℕ}
    (hok : ∀ createdAt, post (h ++ [⟨s, .recordCloseIntent id amount sizeUsd contractSize, .ok s.freshId⟩])
      (s.addIntent id amount createdAt) (.ok s.freshId)) (herr : ∀ h' s' e, post h' s' (.error e)) :
    PassOk post (call (.recordCloseIntent id amount sizeUsd contractSize)) h s := by
  refine .perform trivial fun c => ?_
  have hr' := hr.addIntent hid amount c.now
  simp only [world_answer, answer, wrote]
  cases c.raises with
  | some e =>
    refine ⟨?_, herr _ _ _⟩
    dsimp only
    split
    · exact hr'.numbered
    · exact hr.numbered
  | none => exact ⟨hr'.numbered, hok c.now⟩

theorem pass_create {side : String} (hsn : SendOk h s side amount id)
    {post : Post State Failure Op Ans (Except Failure Order)}
    (hok : ∀ h' r, post h' s (.ok r)) : PassOk post (tryCall (.createMarketOrder side amount id)) h s := by
  refine .attempt hsn fun c => ?_
  simp only [world_answer, answer, readAs_state]
  exact ⟨hr.numbered, hok _ _⟩

theorem pass_send {position : Position}
    (hc : Cleared task closes h s) : PassOk (fun _ _ _ => True) (send ex task closes position dec) h s := by
  refine .bind (pass_read rfl (fun _ => rfl) hr (fun c1 => ?_) fun _ _ => trivial)
  dsimp only
  split
  · exact pass_manual hr _
  rename_i hpos
  split
  · trivial
  rename_i id hid
  have hid' : id = closePrefix s.task.entryClientOrderId ++ toString (s.closes.length + 1) := by
    rw [derived_ok hid, hr.entry, hc.agree.length]
    rfl
  refine .bind (pass_recordCloseIntent hr hid' (fun createdAt => ?_) fun _ _ _ => trivial)
  have hr1 := hr.addIntent hid' (min c1.rounded task.ownedRemainder) createdAt
  refine .bind (pass_set hr1 _ _ _ ?_ fun _ _ _ => trivial)
  have hr2 := hr1.update (rfl : TaskStatus.sending.isRunnable = true) task.ownedRemainder task.rejectedSends false
  exact .bind (pass_create hr2 (hc.sendOk hr (not_le.1 hpos) (min_le_right _ _) hid' createdAt)
    fun _ r => pass_sent hr2 _ r)

theorem Ready.positionOf_eq (rows : List PositionRow) : positionOf task rows = positionOf s.task rows := by
  unfold positionOf
  rw [hr.symbol, hr.side]

end

theorem settled_of (hmn : ¬closes.any (·.isManual) = true)
    (hun : closes.filter (·.isUnknown) = []) (hactive : ¬closes.any (·.isActive) = true) :
    ∀ c ∈ closes, c.isSettled = true := by
  intro c hc
  rw [Bool.not_eq_true, any_eq_false] at hmn hactive
  have hm := Bool.eq_false_of_not_eq_true (hmn c hc)
  have hu := Bool.eq_false_of_not_eq_true (filter_eq_nil_iff.1 hun c hc)
  have ha := Bool.eq_false_of_not_eq_true (hactive c hc)
  unfold CloseOrder.isSettled
  rw [hm, hu, ha]
  rfl

section

variable (hr : Ready task s)

include hr

theorem pass_followCloses :
    PassOk (fun _ s' r => ∀ cs, r = .ok cs → Ready task s' ∧ Agree cs s') (followCloses ex) h s := by
  refine .bind (pass_read rfl (fun _ => rfl) hr (fun c => ?_) nofun)
  have hld : Agree ([] ++ s.closes.insertionSort (·.attemptId ≤ ·.attemptId)) s :=
    (perm_insertionSort _ _).map _
  exact pass_followAll hr hld

theorem pass_cancelAll {rest : Program β} (orders : List Order) (hrs : ∀ h', PassOk (fun _ _ _ => True) rest h' s) :
    PassOk (fun _ _ _ => True) (do cancelAll orders; rest) h s := by
  have hca : PassOk (fun _ s' _ => s' = s) (cancelAll orders) h s := by
    induction orders generalizing h with
    | nil => rfl
    | cons order orders ih =>
      exact .bind (pass_read rfl (fun _ => rfl) hr (fun _ => ih) fun _ _ => rfl)
  refine .bind (.mono (fun h' s' r hs' => ?_) hca)
  subst hs'
  split
  · exact hrs _
  · trivial

theorem pass_decideSend (ha : Agree closes s) (hsettled : ∀ c ∈ closes, c.isSettled = true) :
    PassOk (fun _ _ _ => True) (decideSend ex task closes dec) h s := by
  refine .bind (pass_list hr (fun a b c d => ?_) fun _ _ => trivial)
  dsimp only
  split
  · exact pass_set_end hr _ _ _
  refine .bind (pass_read rfl (fun _ => rfl) hr (fun c1 => ?_) fun _ _ => trivial)
  have hr' : ∀ remainder, Ready { task with ownedRemainder := remainder } s :=
    fun _ => hr.with_task rfl rfl rfl rfl
  dsimp only
  split
  · exact pass_manual (hr' _) _
  rename_i hopp
  split
  · split
    · exact pass_cancelAll hr _ fun _ => pass_set_end (hr' _) _ _ _
    · exact pass_set_end (hr' _) _ _ _
  split
  · exact pass_manual (hr' _) _
  rename_i hrem
  rw [not_or, not_le, Bool.not_eq_false] at hrem
  refine pass_send (hr' _) ⟨ha, hsettled, a, b, c, d, c1.positions, ⟨h, (append_assoc _ _ _).symm⟩, ?_, ?_, ?_⟩
  · rw [← hr.owned, ← hr.entry, ← ha.filled]
    exact max_eq_right (le_of_lt (lt_max_iff.1 hrem.1 |>.resolve_left (lt_irrefl 0)))
  · rw [← hr.positionOf_eq]
    exact hrem.2
  · rw [← hr.positionOf_eq]
    exact Bool.eq_false_of_not_eq_true hopp

theorem pass_pass : PassOk (fun _ _ _ => True) (pass ex task dec) h s := by
  unfold pass
  split
  · exact pass_manual hr _
  refine .bind (pass_minor rfl hr fun c1 hr1 => ?_)
  split
  · split
    · exact pass_manual hr1 _
    · refine .bind (.mono (fun h2 s2 r2 hfl => ?_) (pass_followCloses hr1))
      cases r2 with
      | error => trivial
      | ok closes =>
        obtain ⟨hr2, ha2⟩ := hfl closes rfl
        dsimp only
        split
        · exact pass_manual hr2 _
        rename_i hmn
        split
        · refine .bind (pass_read rfl (fun _ => rfl) hr2 (fun c3 => ?_) fun _ _ => trivial)
          dsimp only
          split
          · exact pass_manual hr2 _
          · exact pass_set_end hr2 _ _ _
        · rename_i hun
          split
          · exact pass_set_end hr2 _ _ _
          · rename_i hactive
            exact pass_decideSend hr2 ha2 (settled_of hmn hun hactive)
  · trivial

theorem pass_claimed : PassOk (fun _ _ _ => True) (if ex.heldLease then pass ex task dec
      else do
        let acquired ← call .acquireLock
        if acquired then (pass ex task dec).ensure (call .releaseLock)
        else
          let _ ← set ex task task.status none true
          return .lockBusy) h s := by
  split
  · exact pass_pass hr
  refine .bind (pass_read rfl (fun _ => rfl) hr (fun c => ?_) fun _ _ => trivial)
  dsimp only
  split
  · refine .ensure (.mono (fun h' s' r _ => ?_) (pass_pass hr))
    -- the lock is released from whatever state the pass ended in
    refine .perform fun s1 _ hs1 => ⟨trivial, fun c' => ⟨?_, fun j hj h0 => absurd h0 hj, ?_⟩⟩
    · exact answer_minor rfl hs1 c'
    · split <;> trivial
  · refine .bind (pass_set hr _ _ _ trivial fun _ _ _ => trivial)

end

/-- **A pass**, from any state. -/
theorem pass_runPass (hs : s.Numbered) : PassOk (fun _ _ _ => True) (runPass ex dec) h s := by
  refine .bind (Pass.perform trivial fun c => ⟨answer_minor rfl hs c, ?_⟩)
  by_cases hcl : s.claimable ex.owner c.claimExpired = true
  · have hrun : s.task.status.isRunnable = true := by
      exact (Bool.and_eq_true_iff.1 hcl).1
    have hr : Ready s.task { s with claimOwner := some ex.owner } :=
      ⟨⟨hs.ids, hs.numbers⟩, hrun, rfl, rfl, rfl, rfl⟩
    simp only [world_answer, answer, if_pos hcl, wrote]
    cases c.raises with
    | some => trivial
    | none => exact pass_claimed hr
  · simp only [world_answer, answer, if_neg hcl, readAs]
    cases c.raises with
    | some | none => trivial

end

/-- The task as `create_task` leaves it: rows with ids of their own, adopted under outside ids. -/
structure State.Created (s : State) : Prop where
  ids : s.ids.Nodup
  outside : ∀ row ∈ s.closes, OutsideId s.task.entryClientOrderId row.clientOrderId

theorem State.Created.numbered (hs : s.Created) : s.Numbered := by
  refine ⟨hs.ids, fun row hrow hsm => ⟨1, ?_, hs.outside row hrow hsm⟩⟩
  exact length_pos_of_mem hrow

variable (dec : ℚ → String)

theorem happens_cases (s : State) (e : Event) : s.happens e = s ∨ ∃ status : TaskStatus, status.isRunnable = false ∧
      s.happens e = { s with task := { s.task with status := status } } := by
  obtain ⟨done⟩ := e
  by_cases hft : s.task.status = .confirmedFlat
  · refine .inr ⟨if done then .accounted else .manualRequired, ?_, if_pos hft⟩
    cases done <;> rfl
  · exact .inl (if_neg hft)

theorem sound : Serial.Sound world (fun ex => runPass ex dec) State.Numbered pre where
  env s e hs := by
    change (s.happens e).Numbered
    rcases happens_cases s e with heq | ⟨status, -, heq⟩
    · rw [heq]; exact hs
    · rw [heq]; exact ⟨hs.ids, hs.numbers⟩
  start ex s hs := pass_runPass hs

theorem stopped_call (h : History) (s : State) (o : Op) (c : Chance)
    (hpre : pre h s o) (hsp : s.task.status.isRunnable = false) :
    (world.answer 0 s o c).2.task.status.isRunnable = false := by
  cases hw : o.writesTask with
  | false =>
    rw [world_answer, answer_task hw]
    exact hsp
  | true =>
    cases o with
    | updateTask =>
      have hrun : s.task.status.isRunnable = true := hpre
      rw [hsp] at hrun
      cases hrun
    | _ => cases hw

theorem stopped_env (s : State) (e : Event) (hsp : s.task.status.isRunnable = false) :
    (world.env s e).task.status.isRunnable = false := by
  change (s.happens e).task.status.isRunnable = false
  rcases happens_cases s e with heq | ⟨status, hstatus, heq⟩
  · rw [heq]; exact hsp
  · rw [heq]; exact hstatus

def isCreate : Op → Bool
  | .createMarketOrder _ _ _ => true
  | _ => false

theorem create_runnable (hs : s.Numbered) (steps : List (Step Executor Chance Event))
    {c : Call State Failure Op Ans} (hc : c ∈ (run world (fun ex => runPass ex dec) s steps).1.flatten)
    (hcr : isCreate c.op = true) : c.before.task.status.isRunnable = true := by
  obtain ⟨history, hhs, hmem⟩ := mem_flatten.1 hc
  obtain ⟨n, hn⟩ := mem_iff_getElem?.1 hmem
  have hpre := ((sound dec).run hs steps).2 history hhs n c hn
  cases hop : c.op with
  | createMarketOrder side amount clientOrderId =>
    rw [hop] at hpre
    exact SendOk.runnable hpre
  | _ =>
    rw [hop] at hcr
    cases hcr

theorem stopped_lasts (hs : s.Numbered) (steps : List (Step Executor Chance Event)) :
    Lasting (fun s => s.task.status.isRunnable = false) s (run world (fun ex => runPass ex dec) s steps).1.flatten
      (run world (fun ex => runPass ex dec) s steps).2 :=
  (sound dec).lasting stopped_env stopped_call hs (Lasting.nil _ s) steps

/-- **The emergency close is single-flight.** In every run of passes over a created task, each market order was sent
with every earlier close settled, under a new id and on a row already written, for at most what is left of the owned
quantity; and none once the task has left the runnable statuses. -/
theorem create_only_when_settled (s : State) (hs : s.Created) (steps : List (Step Executor Chance Event)) :
    (∀ history ∈ (run world (fun ex => runPass ex dec) s steps).1, ∀ n c, history[n]? = some c →
      ∀ side amount clientOrderId, c.op = .createMarketOrder side amount clientOrderId →
        SendOk (history.take n) c.before side amount clientOrderId) ∧
    ((run world (fun ex => runPass ex dec) s steps).1.flatten.Pairwise fun c d =>
      c.before.task.status.isRunnable = false → isCreate d.op = false) ∧
    (∀ before after, steps = before ++ after →
      (run world (fun ex => runPass ex dec) s before).2.task.status.isRunnable = false →
      ∀ c ∈ (run world (fun ex => runPass ex dec) (run world (fun ex => runPass ex dec) s before).2
        after).1.flatten, isCreate c.op = false) := by
  have hno : ∀ {s : State}, s.Numbered → ∀ steps, ∀ c ∈ (run world (fun ex => runPass ex dec) s steps).1.flatten,
      c.before.task.status.isRunnable = false → isCreate c.op = false := by
    intro s hs steps c hc hstop
    by_contra hcreate
    have hrun := create_runnable dec hs steps hc (Bool.eq_true_of_not_eq_false hcreate)
    rw [hstop] at hrun
    cases hrun
  refine ⟨?_, ?_, ?_⟩
  · intro history hhistory n c hn side amount clientOrderId hop
    have hpre := ((sound dec).run hs.numbered steps).2 history hhistory n c hn
    rw [hop] at hpre
    exact hpre
  · refine List.Pairwise.imp_of_mem ?_ (stopped_lasts dec hs.numbered steps).calls
    intro c d _ hd hlast hstop
    exact hno hs.numbered steps d hd (hlast hstop)
  · intro before after _ hstop c hc
    have hs' := ((sound dec).run hs.numbered before).1
    exact hno hs' after c hc (((stopped_lasts dec hs' after).start hstop).1 c hc)

/-! A task of three contracts, one of them closed by the adopted close. The pass sends for the other
two, and the answer of the exchange is lost. -/

def sampleState : State where
  task :=
    { id := 7
      entryClientOrderId := "0123456789abcdef0123456789abcdef"
      exchange := "bybit"
      symbol := "BTC/USDT:USDT"
      side := .long
      tradeId := none
      ownedQuantity := 3
      ownedRemainder := 3
      status := .requested
      rejectedSends := 0 }
  claimOwner := none
  closes := [⟨1, "0123456789abcdef0123456789abcdefc1", .completed, some "x1", none, some 1, 0⟩]

def sampleExecutor : Executor where
  owner := "worker"
  configured := true
  has _ := true
  contractSize := none
  unknownDeadline := 0
  maxRejectedSends := 3
  heldLease := false

def sampleSteps : List (Step Executor Chance Event) :=
  [.pass sampleExecutor ([{}, {}, {}, {}, {}, {}, {}, {},
      { positions := [⟨some "BTC/USDT:USDT", some "long", some 2, some 100⟩] }, { rounded := 2 }, {}, {},
      { raises := some (.network "timed out") }, {}, {}, {}] : List Chance)]

theorem sampleSteps_settled : sampleState.Created ∧
    ((run world (fun ex => runPass ex fun _ => "") sampleState sampleSteps).1.flatten.any
      fun c => isCreate c.op) = true ∧
    ∀ history ∈ (run world (fun ex => runPass ex fun _ => "") sampleState sampleSteps).1, ∀ n c,
      history[n]? = some c → ∀ side amount clientOrderId, c.op = .createMarketOrder side amount clientOrderId →
        SendOk (history.take n) c.before side amount clientOrderId := by
  have hcreated : sampleState.Created := ⟨by decide +kernel, by decide +kernel⟩
  exact ⟨hcreated, by decide +kernel, (create_only_when_settled _ sampleState hcreated sampleSteps).1⟩

end Schurfer.EmergencyClose
