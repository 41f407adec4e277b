import Schurfer.Notifier.Consumer

/-!
# No notification is dropped

An entry that was handed out is never read again, so it has to be settled by the round that reads it.
-/

namespace Schurfer.Notifier

open Threads Serial List

variable {codec : Codec} {rows : Deliveries} {row : Delivery} {env : Envelope} {o : Op} {todo msgs : List Message}
  {id : ℕ} {α : Type} {key : Key}

abbrev History := List (Call State Failure Op Ans)

def Recorded (rows : Deliveries) (key : Key) : Prop := ∃ row, rows.lookup key = some row ∧ row.status = .delivered

variable (codec)

def State.Delivered (s : State) (data : Data) : Prop :=
  ∃ env, parseEnvelope codec data = some env ∧ Recorded s.deliveries env.key ∧ env.key ∈ s.sent

def State.Copied (s : State) (data : Data) : Prop := ∃ reason, (data.getD "", reason) ∈ s.dlq

def State.Settled (s : State) (data : Data) : Prop := s.Delivered codec data ∨ s.Copied data

/-- A later read of the loop can still return the entry. -/
def State.Returnable (s : State) (id : ℕ) : Prop := id ∉ s.stream.deleted ∧ (s.group.getD {}).next ≤ id

def ReadBy (h : History) (id : ℕ) : Prop :=
  ∃ c ∈ h, ∃ batch, c.event = ⟨.xreadgroup, .ok batch⟩ ∧ ∃ m ∈ batch, m.id = id

structure Work (s : State) (todo : List Message) : Prop where
  entries : ∀ id data, s.stream.log[id]? = some data →
    s.Returnable id ∨ s.Settled codec data ∨ (⟨id, data⟩ : Message) ∈ todo
  logged : ∀ m ∈ todo, s.stream.log[m.id]? = some m.data
  bounded : (s.group.getD {}).next ≤ s.stream.log.length
  sent : ∀ key, Recorded s.deliveries key → key ∈ s.sent

structure Held (h : History) (s : State) (todo : List Message) : Prop where
  work : Work codec s todo
  read : ∀ m ∈ todo, ReadBy h m.id

/-- The row of the key has as many attempts as there may be. -/
def Exhausted (s : State) (key : Key) : Prop :=
  match s.tx with
  | .active rows => maxRetries ≤ ((rows.lookup key).map Delivery.attemptCount).getD 0
  | _ => False

/-- The read is answered, no call of the transaction, of the rate limiter and to the dead-letter stream fails,
and a send fails only at the last attempt. The other calls may fail. -/
def Fine : Call State Failure Op Ans → Prop
  | ⟨_, .xreadgroup, r⟩ => r.isOk ∨ r = .error .redisNil
  | ⟨_, .begin, r⟩ => r.isOk
  | ⟨_, .upsert _ _ _, r⟩ => r.isOk
  | ⟨_, .wait, r⟩ => r.isOk
  | ⟨_, .updateAttempt _ _, r⟩ => r.isOk
  | ⟨s, .sendMessage key _ _, r⟩ => r.isOk ∨ Exhausted s key
  | ⟨_, .markDelivered _, r⟩ => r.isOk
  | ⟨_, .markFailed _ _, r⟩ => r.isOk
  | ⟨_, .commit, r⟩ => r.isOk
  | ⟨_, .dlqAdd _ _, r⟩ => r.isOk
  | _ => True

structure Ready (h : History) (s : State) (o : Op) : Prop where
  entries : ∀ id data, s.stream.log[id]? = some data → s.Returnable id ∨ s.Settled codec data ∨ ReadBy h id
  removes : ∀ id, o = .xack id ∨ o = .xdel id → ∀ data, s.stream.log[id]? = some data → s.Settled codec data

abbrev Ends (post : Post State Failure Op Ans Unit) : Script Unit → History → State → Prop :=
  Meets world Fine (Ready codec) post

variable {codec}

section

variable {h : History} {s s' : State} {rest : List Message} {msg : Message}

theorem ReadBy.snoc (hr : ReadBy h id) (c : Call State Failure Op Ans) : ReadBy (h ++ [c]) id := by
  obtain ⟨d, hd, hrs⟩ := hr
  exact ⟨d, mem_append_left _ hd, hrs⟩

theorem Held.ready (hs : Held codec h s todo) (hack : ∀ id, o ≠ .xack id) (hdel : ∀ id, o ≠ .xdel id) :
    Ready codec h s o := by
  refine ⟨fun id data hdt => ?_, fun id ho => ?_⟩
  · rcases hs.work.entries id data hdt with hret | hset | htd
    · exact .inl hret
    · exact .inr (.inl hset)
    · exact .inr (.inr (hs.read _ htd))
  · rcases ho with ho | ho
    · exact absurd ho (hack id)
    · exact absurd ho (hdel id)

theorem Held.snoc (hs : Held codec h s todo) (hwr : Work codec s' todo)
    (c : Call State Failure Op Ans) : Held codec (h ++ [c]) s' todo :=
  ⟨hwr, fun m hm => (hs.read m hm).snoc c⟩

theorem Held.settle (hs : Held codec h s (msg :: rest)) (hset : s.Settled codec msg.data) : Held codec h s rest := by
  refine ⟨⟨fun id data hdt => ?_, fun m hm => ?_, hs.work.bounded, hs.work.sent⟩, fun m hm => ?_⟩
  · rcases hs.work.entries id data hdt with hret | hset' | htd
    · exact .inl hret
    · exact .inr (.inl hset')
    · rcases mem_cons.1 htd with rfl | hmem
      · exact .inr (.inl hset)
      · exact .inr (.inr hmem)
  · exact hs.work.logged m (mem_cons_of_mem msg hm)
  · exact hs.read m (mem_cons_of_mem msg hm)

section

variable (hs : Work codec s todo)

include hs

theorem Work.grow (hst : s'.stream = s.stream)
    (hgr : (s'.group.getD {}).next = (s.group.getD {}).next) (hdlq : s.dlq ⊆ s'.dlq) (hsn : s.sent ⊆ s'.sent)
    (hkp : ∀ key, Recorded s.deliveries key → Recorded s'.deliveries key)
    (hrc : ∀ key, Recorded s'.deliveries key → key ∈ s'.sent) : Work codec s' todo := by
  refine ⟨fun id data hdt => ?_, ?_, ?_, hrc⟩
  · rw [hst] at hdt
    rcases hs.entries id data hdt with ⟨hdel, hnx⟩ | hset | htd
    · refine .inl ⟨?_, ?_⟩
      · rw [hst]
        exact hdel
      · rw [hgr]
        exact hnx
    · refine .inr (.inl ?_)
      rcases hset with ⟨env, henv, hrow, hkey⟩ | ⟨reason, hmem⟩
      · exact .inl ⟨env, henv, hkp _ hrow, hsn hkey⟩
      · exact .inr ⟨reason, hdlq hmem⟩
    · exact .inr (.inr htd)
  · rw [hst]
    exact hs.logged
  · rw [hst, hgr]
    exact hs.bounded

theorem Work.tx (tx : Tx) : Work codec { s with tx } todo :=
  hs.grow rfl rfl (fun _ h => h) (fun _ h => h) (fun _ h => h) hs.sent

theorem Work.dlq (letter : String × String) : Work codec { s with dlq := s.dlq ++ [letter] } todo :=
  hs.grow rfl rfl (subset_append_left _ _) (fun _ h => h) (fun _ h => h) hs.sent

theorem Work.send (key : Key) : Work codec { s with sent := s.sent ++ [key] } todo :=
  hs.grow rfl rfl (fun _ h => h) (subset_append_left _ _) (fun _ h => h) fun k hk => mem_append_left _ (hs.sent k hk)

theorem Work.ack (id : ℕ) : Work codec { s with group := s.group.map (·.ack id) } todo := by
  refine hs.grow rfl ?_ (fun _ h => h) (fun _ h => h) (fun _ h => h) hs.sent
  cases s.group <;> rfl

theorem Work.delete (hset : ∀ data, s.stream.log[id]? = some data → s.Settled codec data) :
    Work codec { s with stream := s.stream.delete id } todo := by
  refine ⟨fun id' data hdt => ?_, fun m hm => ?_, ?_, hs.sent⟩
  · have hlog : s.stream.log[id']? = some data := by
      rw [← Outbox.delete_log s.stream id]
      exact hdt
    rcases hs.entries id' data hlog with ⟨hdel, hnx⟩ | hsettled | htd
    · by_cases hid : id' ∈ (s.stream.delete id).deleted
      · rcases Outbox.mem_deleted_delete hid with rfl | hold
        · exact .inr (.inl (hset data hlog))
        · exact absurd hold hdel
      · exact .inl ⟨hid, hnx⟩
    · exact .inr (.inl hsettled)
    · exact .inr (.inr htd)
  · change (s.stream.delete id).log[m.id]? = some m.data
    rw [Outbox.delete_log]
    exact hs.logged m hm
  · change _ ≤ (s.stream.delete id).log.length
    rw [Outbox.delete_log]
    exact hs.bounded

end

end

structure InTx (s : State) (rows : Deliveries) : Prop where
  tx : s.tx = .active rows
  keeps : ∀ key, Recorded s.deliveries key → Recorded rows key
  sent : ∀ key, Recorded rows key → key ∈ s.sent

section

variable {s : State} {key k : Key}

theorem recorded_insert (h : Recorded (AList.insert key row rows) k) :
    (k = key ∧ row.status = .delivered) ∨ (k ≠ key ∧ Recorded rows k) := by
  obtain ⟨row', hlk, hstatus⟩ := h
  rw [Dict.lookup_insert_eq] at hlk
  split at hlk
  · rename_i hk
    cases hlk
    exact .inl ⟨hk, hstatus⟩
  · rename_i hk
    exact .inr ⟨hk, row', hlk, hstatus⟩

theorem Recorded.insert (h : Recorded rows k)
    (hkey : k = key → row.status = .delivered) : Recorded (AList.insert key row rows) k := by
  obtain ⟨row', hlk, hstatus⟩ := h
  by_cases hk : k = key
  · refine ⟨row, ?_, hkey hk⟩
    rw [Dict.lookup_insert_eq, if_pos hk]
  · refine ⟨row', ?_, hstatus⟩
    rw [Dict.lookup_insert_eq, if_neg hk]
    exact hlk

theorem InTx.insert (h : InTx s rows) (key : Key) (row : Delivery) (hsn : row.status = .delivered → key ∈ s.sent)
    (hkp : Recorded rows key → row.status = .delivered) :
    InTx { s with tx := .active (AList.insert key row rows) } (AList.insert key row rows) := by
  refine ⟨rfl, fun k hk => (h.keeps k hk).insert fun hkey => hkp (hkey ▸ h.keeps k hk), fun k hk => ?_⟩
  rcases recorded_insert hk with ⟨rfl, hstatus⟩ | ⟨-, hrow⟩
  · exact hsn hstatus
  · exact h.sent k hrow

theorem InTx.send (h : InTx s rows) (key : Key) : InTx { s with sent := s.sent ++ [key] } rows :=
  ⟨h.tx, h.keeps, fun k hk => mem_append_left _ (h.sent k hk)⟩

theorem status_of_recorded (hrow : rows.lookup key = some row) (hr : Recorded rows key) : row.status = .delivered := by
  obtain ⟨row', hlk, hstatus⟩ := hr
  obtain rfl : row = row' := Option.some.inj (hrow.symm.trans hlk)
  exact hstatus

end

section

variable {s s' : State} {c : Chance}

theorem effect_ok {fate : Fate} {failure : Failure} {a : α} (h : (fate.effect failure s s' a).1.isOk) :
    fate.effect failure s s' a = (.ok a, s') := by
  cases fate with
  | done => rfl
  | before | after => cases h

theorem effect_state (fate : Fate) (failure : Failure) (s s' : State) (a : α) :
    (fate.effect failure s s' a).2 = s ∨ (fate.effect failure s s' a).2 = s' := by
  cases fate with
  | done => exact .inr rfl
  | before => exact .inl rfl
  | after => exact .inr rfl

theorem execTx_ok {run : Deliveries → α × Deliveries} (htx : s.tx = .active rows)
    (h : (execTx s c run).1.isOk) : execTx s c run = (.ok (run rows).1, { s with tx := .active (run rows).2 }) := by
  unfold execTx at h ⊢
  rw [htx] at h ⊢
  dsimp only at h ⊢
  split at h
  · rfl
  · cases h

theorem commit_ok (htx : s.tx = .active rows) (h : (commit s c).1.isOk) :
    commit s c = (.ok (), { s with deliveries := rows, tx := .closed }) := by
  unfold commit at h ⊢
  rw [htx] at h ⊢
  exact effect_ok h

theorem updateRow_eq (set : Delivery → Delivery) (hrow : rows.lookup key = some row) :
    updateRow key set rows = ((), AList.insert key (set row) rows) := by
  unfold updateRow
  rw [hrow]

end

section

variable {h : History} {s s' : State} {rest : List Message} {msg : Message}
  {post : Post State Failure Op Ans Unit} {f : Except Failure (Ans o) → Script Unit} {a : Ans o}

theorem ends_call (hrd : Ready codec h s o) (han : ∀ c, Fine ⟨s, o, (answer s c o).1⟩ → answer s c o = (.ok a, s'))
    (hrs : Ends codec post (f (.ok a)) (h ++ [⟨s, o, .ok a⟩]) s') : Ends codec post (call o >>= f) h s := by
  refine .attempt_bind hrd fun c hc => ?_
  have he : world.answer 0 s o c = (.ok a, s') := han c hc
  rw [he]
  exact hrs

theorem ends_ignored (s' : State) (hrd : Ready codec h s o) (han : ∀ c, (answer s c o).2 = s ∨ (answer s c o).2 = s')
    (hrs : ∀ r s1, s1 = s ∨ s1 = s' → Ends codec post (f r) (h ++ [⟨s, o, r⟩]) s1) :
    Ends codec post (call o >>= f) h s :=
  .attempt_bind hrd fun c _ => hrs _ _ (han c)

abbrev leaves (codec : Codec) (rest : List Message) (h : History) (s : State) : Except Failure Unit → Prop
  | .ok _ => Held codec h s rest
  | .error _ => False

theorem ends_ackAndDel (hs : Held codec h s rest)
    (hset : ∀ data, s.stream.log[id]? = some data → s.Settled codec data) :
    Ends codec (leaves codec rest) (ackAndDel id) h s := by
  have hrd : ∀ {h : History} {s : State} {o : Op}, Held codec h s rest →
      (∀ data, s.stream.log[id]? = some data → s.Settled codec data) → o = .xack id ∨ o = .xdel id →
      Ready codec h s o := by
    intro h s o hs hset ho
    refine ⟨(hs.ready (o := .wait) nofun nofun).entries, fun id' ho' => ?_⟩
    obtain rfl : id' = id := by
      rcases ho with rfl | rfl <;> rcases ho' with ho' | ho' <;> cases ho' <;> rfl
    exact hset
  refine ends_ignored { s with group := s.group.map (·.ack id) } (hrd hs hset (.inl rfl))
    (fun c => effect_state _ _ _ _ _) fun r s1 hs1 => ?_
  have hs₁' : Held codec (h ++ [⟨s, .xack id, r⟩]) s1 rest ∧
      ∀ data, s1.stream.log[id]? = some data → s1.Settled codec data := by
    rcases hs1 with rfl | rfl
    · exact ⟨hs.snoc hs.work _, hset⟩
    · exact ⟨hs.snoc (hs.work.ack id) _, hset⟩
  refine ends_ignored { s1 with stream := s1.stream.delete id } (hrd hs₁'.1 hs₁'.2 (.inr rfl))
    (fun c => effect_state _ _ _ _ _) fun r' s2 hs2 => ?_
  rcases hs2 with rfl | rfl
  · exact hs₁'.1.snoc hs₁'.1.work _
  · exact hs₁'.1.snoc (hs₁'.1.work.delete hs₁'.2) _

section

variable (hs : Held codec h s (msg :: rest))

include hs

theorem ends_settled (hset : s.Settled codec msg.data) : Ends codec (leaves codec rest) (ackAndDel msg.id) h s := by
  refine ends_ackAndDel (hs.settle hset) fun data hdt => ?_
  rw [Option.some.inj (hdt.symm.trans (hs.work.logged msg mem_cons_self))]
  exact hset

theorem ends_moveToDLQ {reason : String} : Ends codec (leaves codec rest) (moveToDLQ msg reason) h s := by
  refine ends_call (hs.ready nofun nofun) (fun c hc => effect_ok hc) ?_
  refine ends_settled (hs.snoc (hs.work.dlq _) _) (.inr ⟨reason, ?_⟩)
  exact mem_append_right _ (mem_singleton_self _)

end

theorem Held.tx (hs : Held codec h s rest) (tx : Tx) (c : Call State Failure Op Ans) :
    Held codec (h ++ [c]) { s with tx } rest :=
  hs.snoc (hs.work.tx tx) c

theorem Work.commit (hs : Work codec s todo) (htx : InTx s rows) :
    Work codec { s with deliveries := rows, tx := .closed } todo :=
  hs.grow rfl rfl (fun _ h => h) (fun _ h => h) htx.keeps htx.sent

theorem ends_commit {f : Except Failure Unit → Script Unit} (hs : Held codec h s todo) (htx : InTx s rows)
    (hrs : ∀ h', Held codec h' { s with deliveries := rows, tx := .closed } todo →
      Ends codec post (f (.ok ())) h' { s with deliveries := rows, tx := .closed }) :
    Ends codec post (call .commit >>= f) h s :=
  ends_call (hs.ready nofun nofun) (fun _ hc => commit_ok htx.tx hc) (hrs _ (hs.snoc (hs.work.commit htx) _))

theorem ends_update {set : Delivery → Delivery}
    (hrd : Ready codec h s o) (hrow : rows.lookup key = some row) (han : ∀ c, Fine ⟨s, o, (answer s c o).1⟩ →
      answer s c o = (.ok a, { s with tx := .active (updateRow key set rows).2 }))
    (hrs : Ends codec post (f (.ok a)) (h ++ [⟨s, o, .ok a⟩])
      { s with tx := .active (AList.insert key (set row) rows) }) : Ends codec post (call o >>= f) h s := by
  refine ends_call hrd han ?_
  rw [updateRow_eq set hrow]
  exact hrs

section

variable (henv : parseEnvelope codec msg.data = some env) (hs : Held codec h s (msg :: rest)) (htx : InTx s rows)
  (hrow : rows.lookup env.key = some row) (hstatus : row.status ≠ .delivered)

include henv hs htx hrow hstatus

theorem ends_finish {sendErr : Except Failure Unit}
    (hse : sendErr = .ok () → env.key ∈ s.sent) (hlast : sendErr ≠ .ok () → maxRetries ≤ row.attemptCount) :
    Ends codec (leaves codec rest) (finish msg env.key row.attemptCount sendErr) h s := by
  cases sendErr with
  | ok u =>
    have hkey : env.key ∈ s.sent := hse rfl
    refine ends_update (hs.ready nofun nofun) hrow (fun c hc => execTx_ok htx.tx hc) ?_
    have htx' := htx.insert env.key { row with status := .delivered } (fun _ => hkey) fun _ => rfl
    refine ends_commit (hs.tx _ _) htx' fun h' hs' => ?_
    refine ends_settled hs' (.inl ⟨env, henv, ?_, hkey⟩)
    refine ⟨{ row with status := .delivered }, ?_, rfl⟩
    rw [Dict.lookup_insert_eq, if_pos rfl]
  | error e =>
    have hmax : maxRetries ≤ row.attemptCount := hlast nofun
    simp only [finish]
    rw [if_pos hmax]
    refine ends_update (hs.ready nofun nofun) hrow (fun c hc => execTx_ok htx.tx hc) ?_
    have htx' := htx.insert env.key { row with status := .failed, lastError := some e.text } nofun
      fun hr => absurd (status_of_recorded hrow hr) hstatus
    exact ends_commit (hs.tx _ _) htx' fun h' hs' => ends_moveToDLQ hs'

theorem ends_deliver : Ends codec (leaves codec rest) (deliver msg env row.attemptCount) h s := by
  refine ends_call (hs.ready nofun nofun) (fun c hc => effect_ok hc) ?_
  have hs1 := hs.snoc hs.work ⟨s, .wait, .ok ()⟩
  refine ends_update (hs1.ready nofun nofun) hrow (fun c hc => execTx_ok htx.tx hc) ?_
  have hs2 := hs1.tx (.active (AList.insert env.key { row with attemptCount := row.attemptCount + 1 } rows))
    ⟨s, .updateAttempt env.key (row.attemptCount + 1), .ok ()⟩
  have htx2 := htx.insert env.key { row with attemptCount := row.attemptCount + 1 }
    (fun h => absurd h hstatus) fun hr => absurd (status_of_recorded hrow hr) hstatus
  have hrow2 : (AList.insert env.key { row with attemptCount := row.attemptCount + 1 } rows).lookup env.key =
      some { row with attemptCount := row.attemptCount + 1 } := by
    rw [Dict.lookup_insert_eq, if_pos rfl]
  refine .attempt_bind (hs2.ready nofun nofun) fun c hc => ?_
  -- the send is answered, or the attempts are used up
  have hlast : c.fate ≠ .done → maxRetries ≤ row.attemptCount + 1 := by
    intro hft
    rcases hc with hc | hc
    · cases hf : c.fate with
      | done => exact absurd hf hft
      | before | after => simp [world, answer, Fate.effect, hf, Except.isOk, Except.toBool] at hc
    · simp only [Exhausted, hrow2] at hc
      exact hc
  have hsn := hs2.snoc (hs2.work.send env.key)
  have hkey : env.key ∈ s.sent ++ [env.key] := mem_append_right _ (mem_singleton_self _)
  cases hf : c.fate with
  | done =>
    simp only [world, answer, Fate.effect, hf]
    exact ends_finish henv (hsn _) (htx2.send env.key) hrow2 hstatus (fun _ => hkey) fun h => absurd rfl h
  | before =>
    simp only [world, answer, Fate.effect, hf]
    exact ends_finish henv (hs2.snoc hs2.work _) htx2 hrow2 hstatus nofun fun _ => hlast (by rw [hf]; nofun)
  | after =>
    simp only [world, answer, Fate.effect, hf]
    exact ends_finish henv (hsn _) (htx2.send env.key) hrow2 hstatus nofun fun _ => hlast (by rw [hf]; nofun)

end

theorem upsertRow_lookup (key : Key) (hash : ℕ) (rows : Deliveries) :
    (upsertRow key hash rows).2.lookup key = some (upsertRow key hash rows).1 := by
  unfold upsertRow
  split
  · assumption
  · rw [Dict.lookup_insert_eq, if_pos rfl]

theorem InTx.upsert (htx : InTx s rows) (key : Key) (hash : ℕ) :
    InTx { s with tx := .active (upsertRow key hash rows).2 } (upsertRow key hash rows).2 := by
  unfold upsertRow
  split
  · exact ⟨rfl, htx.keeps, htx.sent⟩
  · rename_i hnn
    refine htx.insert key _ nofun fun hr => ?_
    obtain ⟨row, hrow, -⟩ := hr
    rw [hnn] at hrow
    cases hrow

theorem ends_handle (henv : parseEnvelope codec msg.data = some env)
    (hs : Held codec h s (msg :: rest)) (htx : InTx s rows) :
    Ends codec (leaves codec rest) (handle codec msg env) h s := by
  refine ends_call (hs.ready nofun nofun) (fun c hc => execTx_ok htx.tx hc) ?_
  have htx1 := htx.upsert env.key (codec.payloadHash env.payload)
  have hrow := upsertRow_lookup env.key (codec.payloadHash env.payload) rows
  generalize upsertRow env.key (codec.payloadHash env.payload) rows = out at htx1 hrow ⊢
  obtain ⟨row, rows1⟩ := out
  have hs1 := hs.tx (.active rows1) ⟨s, .upsert env msg.id (codec.payloadHash env.payload), .ok row⟩
  dsimp only
  split
  · exact ends_commit hs1 htx1 fun h' hs' => ends_moveToDLQ hs'
  · split
    · rename_i hdl
      have hrc : Recorded rows1 env.key := ⟨row, hrow, hdl⟩
      exact ends_commit hs1 htx1 fun h' hs' => ends_settled hs' (.inl ⟨env, henv, hrc, htx1.sent _ hrc⟩)
    · rename_i hstatus
      exact ends_deliver henv hs1 htx1 hrow hstatus

theorem ends_processMessage (hs : Held codec h s (msg :: rest)) :
    Ends codec (leaves codec rest) (processMessage codec msg) h s := by
  unfold processMessage
  cases henv : parseEnvelope codec msg.data with
  | none => exact ends_moveToDLQ hs
  | some env =>
    refine ends_call (hs.ready nofun nofun) (fun c hc => effect_ok hc) ?_
    have htx : InTx { s with tx := .active s.deliveries } s.deliveries := ⟨rfl, fun _ h => h, hs.work.sent⟩
    refine .bind (.mono (fun h' s' r hs' => ?_) (ends_handle henv (hs.tx _ _) htx))
    cases r with
    | error => exact hs'.elim
    | ok u =>
      refine ends_ignored { s' with tx := .closed } (hs'.ready nofun nofun) (fun c => .inr ?_) fun r s1 hs1 => ?_
      · rcases effect_state c.fate .database { s' with tx := .closed } { s' with tx := .closed } () with h | h
          <;> exact h
      · rcases hs1 with rfl | rfl
        · exact hs'.snoc hs'.work _
        · exact hs'.tx _ _

theorem ends_processAll (hs : Held codec h s msgs) : Ends codec (leaves codec []) (processAll codec msgs) h s := by
  induction msgs generalizing h s with
  | nil => exact hs
  | cons msg msgs ih =>
    refine .bind (.mono (fun h' s' r hs' => ?_) (ends_processMessage hs))
    cases r with
    | ok => exact ih hs'
    | error => exact hs'.elim

theorem mem_insertSorted {x m : Message} {sorted : List Message} :
    m ∈ insertSorted codec x sorted ↔ m = x ∨ m ∈ sorted := by
  induction sorted with
  | nil => simp [insertSorted]
  | cons y sorted ih =>
    unfold insertSorted
    split
    · rw [mem_cons, ih, mem_cons]
      exact or_left_comm
    · rw [mem_cons]

theorem mem_sortBySeverity {m : Message} : m ∈ sortBySeverity codec msgs ↔ m ∈ msgs := by
  have hfl : ∀ sorted : List Message,
      m ∈ msgs.foldl (fun sorted x => insertSorted codec x sorted) sorted ↔ m ∈ msgs ∨ m ∈ sorted := by
    induction msgs with
    | nil => simp
    | cons x msgs ih =>
      intro sorted
      rw [foldl_cons, ih, mem_insertSorted, mem_cons]
      tauto
  unfold sortBySeverity
  rw [mem_reverse, hfl]
  simp

theorem Work.read (hs : Work codec s []) {g : Outbox.Group} (hg : s.group = some g) (count : ℕ) :
    Work codec { s with group := some (g.deliver (s.stream.newEntries g count)) }
      ((s.stream.newEntries g count).map fun e => ⟨e.1, e.2⟩) := by
  have hnx : (s.group.getD {}).next = g.next := by rw [hg]; rfl
  refine ⟨fun id data hdt => ?_, fun m hm => ?_, ?_, hs.sent⟩
  · rcases hs.entries id data hdt with ⟨hdel, hle⟩ | hset | htd
    · by_cases hmem : (id, data) ∈ s.stream.newEntries g count
      · exact .inr (.inr (mem_map.2 ⟨(id, data), hmem, rfl⟩))
      · exact .inl ⟨hdel, Outbox.next_le_of_not_read ⟨hdt, hdel⟩ (hnx ▸ hle) hmem⟩
    · exact .inr (.inl hset)
    · cases htd
  · obtain ⟨e, he, rfl⟩ := mem_map.1 hm
    exact (Outbox.mem_newEntries he).1
  · exact Outbox.deliver_next_le (hnx ▸ hs.bounded) count

theorem xreadgroup_fine {c : Chance} (hc : (xreadgroup s c).1.isOk = true ∨ (xreadgroup s c).1 = .error .redisNil) :
    (∃ e, xreadgroup s c = (.error e, s)) ∨ ∃ g, s.group = some g ∧ xreadgroup s c =
      (.ok ((s.stream.newEntries g 50).map fun e => ⟨e.1, e.2⟩),
        { s with group := some (g.deliver (s.stream.newEntries g 50)) }) := by
  unfold xreadgroup at hc ⊢
  cases hg : s.group with
  | none => exact .inl ⟨.redis, rfl⟩
  | some g =>
    simp only [hg] at hc ⊢
    by_cases hem : s.stream.newEntries g 50 = []
    · rw [if_pos hem]
      exact .inl ⟨_, rfl⟩
    · rw [if_neg hem] at hc ⊢
      refine .inr ⟨g, rfl, ?_⟩
      rcases hc with hc | hc
      · exact effect_ok hc
      · cases hf : c.fate <;> simp [Fate.effect, hf] at hc

theorem ends_read (hs : Work codec s []) : Ends codec (leaves codec []) (Round.read.program codec) [] s := by
  have hhl : ∀ {h : History}, Held codec h s [] := ⟨hs, nofun⟩
  refine .attempt_bind (hhl.ready nofun nofun) fun c hc => ?_
  have hre : world.answer 0 s .xreadgroup c = xreadgroup s c := rfl
  rw [hre] at hc ⊢
  rcases xreadgroup_fine hc with ⟨e, he⟩ | ⟨g, hg, hok⟩
  · rw [he]
    exact hhl
  · rw [hok]
    have hwr := hs.read hg 50
    refine ends_processAll ⟨⟨fun id data hdt => ?_, fun m hm => ?_, hwr.bounded, hwr.sent⟩, fun m hm => ?_⟩
    · exact (hwr.entries id data hdt).imp_right (·.imp_right mem_sortBySeverity.2)
    · exact hwr.logged m (mem_sortBySeverity.1 hm)
    · exact ⟨_, mem_singleton_self _, _, rfl, m, mem_sortBySeverity.1 hm, rfl⟩

theorem ends_setupGroup (hs : Work codec s []) :
    Ends codec (leaves codec []) (Round.setupGroup.program codec) [] s := by
  have hhl : Held codec [] s [] := ⟨hs, nofun⟩
  refine .attempt_bind (hhl.ready nofun nofun) fun c _ => ?_
  refine hhl.snoc ?_ _
  change Work codec (xgroupCreate s c).2 []
  unfold xgroupCreate
  cases hg : s.group with
  | some => exact hs
  | none =>
    rcases effect_state c.fate .redis s { s with group := some {} } () with h | h
    · rw [h]
      exact hs
    · rw [h]
      refine hs.grow rfl ?_ (fun _ h => h) (fun _ h => h) (fun _ h => h) hs.sent
      rw [hg]
      rfl

theorem ends_round (round : Round) (hs : Work codec s []) :
    Ends codec (fun _ s' _ => Work codec s' []) (round.program codec) [] s := by
  have hlv : ∀ h' s' r, leaves codec [] h' s' r → Work codec s' [] := by
    intro h' s' r hr
    cases r with
    | ok => exact Held.work hr
    | error => exact hr.elim
  cases round with
  | setupGroup => exact .mono hlv (ends_setupGroup hs)
  | read => exact .mono hlv (ends_read hs)

theorem Work.happens (hs : Work codec s []) (e : Event) : Work codec (s.happens e) [] := by
  cases e with
  | enqueue data =>
    refine ⟨fun id data' hdt => ?_, nofun, ?_, hs.sent⟩
    · have hdel : ∀ id, s.stream.log.length ≤ id → id ∉ s.stream.deleted :=
        fun id hle hmem => absurd (s.stream.inside id hmem) (not_lt.2 hle)
      by_cases hid : id < s.stream.log.length
      · refine hs.entries id data' ?_
        rw [← getElem?_append_left hid]
        exact hdt
      · exact .inl ⟨hdel id (not_lt.1 hid), hs.bounded.trans (not_lt.1 hid)⟩
    · change _ ≤ (s.stream.log ++ [data]).length
      rw [length_append]
      exact Nat.le_add_right_of_le hs.bounded

end

def State.start (deliveries : Deliveries) (sent : List Key) : State := ⟨.empty, none, [], deliveries, .closed, sent⟩

def consumerRun (codec : Codec) (s : State) (steps : List (Step Round Chance Event)) : List History × State :=
  run world (Round.program codec) s steps

/-- **No notification is dropped**, in the runs whose rounds all come to their end with fine answers; and only what is
settled is acknowledged and deleted. -/
theorem nothing_dropped (codec : Codec) (deliveries : Deliveries) (sent : List Key)
    (steps : List (Step Round Chance Event)) (hsent : ∀ key, Recorded deliveries key → key ∈ sent)
    (hended : Ended world (Round.program codec) (State.start deliveries sent) steps)
    (hfine : ∀ c ∈ (consumerRun codec (State.start deliveries sent) steps).1.flatten, Fine c) :
    (∀ id data, (consumerRun codec (State.start deliveries sent) steps).2.stream.log[id]? = some data →
      (consumerRun codec (State.start deliveries sent) steps).2.Returnable id ∨
      (consumerRun codec (State.start deliveries sent) steps).2.Settled codec data) ∧
    ∀ history ∈ (consumerRun codec (State.start deliveries sent) steps).1, ∀ n c, history[n]? = some c →
      (∀ id data, c.before.stream.log[id]? = some data →
        c.before.Returnable id ∨ c.before.Settled codec data ∨ ReadBy (history.take n) id) ∧
      ∀ id, c.op = .xack id ∨ c.op = .xdel id → ∀ data, c.before.stream.log[id]? = some data →
        c.before.Settled codec data := by
  have hstart : Work codec (State.start deliveries sent) [] :=
    ⟨nofun, nofun, Nat.zero_le _, hsent⟩
  obtain ⟨hend, hcalls⟩ := Meets.run (fun s e hs => Work.happens hs e) (fun round s hs => ends_round round hs)
    hstart hended hfine
  refine ⟨fun id data hdata => ?_, fun history hh n c hc => ?_⟩
  · rcases hend.entries id data hdata with hret | hset | htodo
    · exact .inl hret
    · exact .inr hset
    · cases htodo
  · exact ⟨(hcalls history hh n c hc).entries, (hcalls history hh n c hc).removes⟩

instance (s : State) (key : Key) : Decidable (Exhausted s key) := by
  unfold Exhausted
  split <;> infer_instance

instance : DecidablePred Fine := fun c => by
  unfold Fine
  split <;> infer_instance

def sampleEnvelope : Envelope := ⟨1, "n1", "k1", "scanner", "alert", "critical", 0, ⟨"pump", []⟩⟩

def sampleCodec : Codec := ⟨fun _ => some sampleEnvelope, fun _ => 0⟩

def sampleSteps (send commit : Chance) : List (Step Round Chance Event) :=
  [.pass .setupGroup [{}], .env (.enqueue (some "pump")),
    .pass .read ([{}, {}, {}, {}, {}, send, {}, commit] ++ List.replicate 4 ({} : Chance))]

/-- A send that fails leaves the notification to a retry that never comes: it is not read again, not recorded and
not copied. A commit that fails after the send leaves it deleted without a record. -/
theorem failed_send_drops :
    (let s := (consumerRun sampleCodec (State.start ∅ []) (sampleSteps { fate := .before, error := "timeout" } {})).2
     s.stream.log[0]? = some (some "pump") ∧ ¬ s.Returnable 0 ∧ ¬ s.Settled sampleCodec (some "pump")) ∧
    let s := (consumerRun sampleCodec (State.start ∅ []) (sampleSteps {} { fate := .before })).2
    s.stream.log[0]? = some (some "pump") ∧ 0 ∈ s.stream.deleted ∧ ¬ s.Settled sampleCodec (some "pump") := by
  refine ⟨⟨by rfl, ?_, ?_⟩, by rfl, by decide +kernel, ?_⟩
  · rintro ⟨-, hnext⟩
    revert hnext
    decide +kernel
  · rintro (⟨env, -, -, hsent⟩ | ⟨reason, hmem⟩)
    · cases hsent
    · cases hmem
  · rintro (⟨env, henv, ⟨row, hrow, -⟩, -⟩ | ⟨reason, hmem⟩)
    · cases hrow
    · cases hmem

/-- With a send and a commit that succeed, the notification is delivered. -/
theorem sent_is_delivered :
    Ended world (Round.program sampleCodec) (State.start ∅ []) (sampleSteps {} {}) ∧
    (∀ c ∈ (consumerRun sampleCodec (State.start ∅ []) (sampleSteps {} {})).1.flatten, Fine c) ∧
    ((consumerRun sampleCodec (State.start ∅ []) (sampleSteps {} {})).2.Returnable 0 ∨
      (consumerRun sampleCodec (State.start ∅ []) (sampleSteps {} {})).2.Settled sampleCodec (some "pump")) := by
  have hended : Ended world (Round.program sampleCodec) (State.start ∅ []) (sampleSteps {} {}) :=
    ⟨Option.some_ne_none _, Option.some_ne_none _, trivial⟩
  have hfine : ∀ c ∈ (consumerRun sampleCodec (State.start ∅ []) (sampleSteps {} {})).1.flatten, Fine c := by
    decide +kernel
  have hsent : ∀ key, Recorded ∅ key → key ∈ ([] : List Key) := by
    rintro key ⟨row, hrow, -⟩
    cases hrow
  exact ⟨hended, hfine, (nothing_dropped sampleCodec ∅ [] (sampleSteps {} {}) hsent hended hfine).1 0 _ (by rfl)⟩

end Schurfer.Notifier
