import Schurfer.Decisions.Writer

/-!
# The decision outbox loses nothing

Every entry of the stream is still there, or its row is stored, or it is a dead letter. An entry that is
there is still to be handed out or pending.
-/

namespace Schurfer.Decisions

open Threads List

variable {formats : Formats} {attempts : Attempts} {batch : List (ℕ × Data)} {data : Data} {id : ℕ} {s' s : State}
  {fate : Fate} {key reason : String} {m : Move Task Chance Event} {α : Type} {o : Op} {text : Text} {c : Chance}

def State.Stored (formats : Formats) (s : State) (data : Data) : Prop :=
  ∃ row uuid, rowFromPayload formats data = .ok row ∧ formats.uuid row.decisionId = some uuid ∧
    uuid ∈ s.rows.map Prod.fst

def State.Parked (s : State) (data : Data) : Prop := ∃ reason, (data.getD (.malformed ""), reason) ∈ s.dlq

def State.writers (s : State) : Outbox.Group := s.group.getD {}

structure Kept (formats : Formats) (s : State) : Prop where
  kept : ∀ id data, s.stream.log[id]? = some data → id ∈ s.stream.deleted → s.Stored formats data ∨ s.Parked data
  oneRow : (s.rows.map Prod.fst).Nodup
  covered : s.stream.Covers s.writers

structure Grown (s s' : State) : Prop where
  log : s.stream.log <+: s'.stream.log
  rows : s.rows <+: s'.rows
  dlq : s.dlq <+: s'.dlq

theorem Grown.refl (s : State) : Grown s s := ⟨prefix_refl _, prefix_refl _, prefix_refl _⟩

theorem Grown.trans {s1 s2 s3 : State} (h1 : Grown s1 s2) (h2 : Grown s2 s3) : Grown s1 s3 :=
  ⟨h1.log.trans h2.log, h1.rows.trans h2.rows, h1.dlq.trans h2.dlq⟩

theorem Grown.entry (h : Grown s s') (hdt : s.stream.log[id]? = some data) : s'.stream.log[id]? = some data := by
  obtain ⟨rest, hrs⟩ := h.log
  rw [← hrs, List.getElem?_append_left (List.getElem?_eq_some_iff.1 hdt).1]
  exact hdt

theorem State.Stored.grown (hs : s.Stored formats data) (h : Grown s s') : s'.Stored formats data := by
  obtain ⟨row, uuid, hrow, hud, hmem⟩ := hs
  exact ⟨row, uuid, hrow, hud, (h.rows.map Prod.fst).subset hmem⟩

theorem State.Parked.grown (hs : s.Parked data) (h : Grown s s') : s'.Parked data := by
  obtain ⟨reason, hmem⟩ := hs
  exact ⟨reason, h.dlq.subset hmem⟩

theorem grown_xadd (s : State) (data : Data) : Grown s (s.xadd data) :=
  ⟨prefix_append _ _, prefix_refl _, prefix_refl _⟩

theorem Kept.xadd (hs : Kept formats s) (data : Data) : Kept formats (s.xadd data) := by
  refine ⟨fun id data' hdt hdel => ?_, hs.oneRow, hs.covered.add data⟩
  refine hs.kept id data' ?_ hdel
  rw [← getElem?_append_left (s.stream.inside id hdel)]
  exact hdt

theorem Grown.of_eq (hst : s'.stream = s.stream) (hrw : s'.rows = s.rows) (hdlq : s'.dlq = s.dlq) : Grown s s' := by
  refine ⟨?_, ?_, ?_⟩
  · rw [hst]
  · rw [hrw]
  · rw [hdlq]

theorem Kept.of_eq (hs : Kept formats s) (hst : s'.stream = s.stream) (hrw : s'.rows = s.rows)
    (hdlq : s'.dlq = s.dlq) (hgp : s'.group = s.group) : Kept formats s' := by
  cases s'
  subst hst hrw hdlq hgp
  exact ⟨hs.kept, hs.oneRow, hs.covered⟩

theorem grown_insert (s : State) (uuid : ℕ) (row : Row) : Grown s (s.insert uuid row) := by
  refine ⟨prefix_refl _, ?_, prefix_refl _⟩
  unfold State.insert
  split
  · exact prefix_refl _
  · exact prefix_append _ _

theorem mem_rows_insert (s : State) (uuid : ℕ) (row : Row) : uuid ∈ (s.insert uuid row).rows.map Prod.fst := by
  unfold State.insert
  split
  · assumption
  · rw [map_append]
    exact mem_append_right _ (mem_singleton_self uuid)

theorem Kept.insert (hs : Kept formats s) (uuid : ℕ) (row : Row) : Kept formats (s.insert uuid row) := by
  refine ⟨fun id data hdt hdel => ?_, ?_, hs.covered⟩
  · exact (hs.kept id data hdt hdel).imp (·.grown (grown_insert s uuid row)) (·.grown (grown_insert s uuid row))
  · unfold State.insert
    split
    · exact hs.oneRow
    · rename_i hnew
      rw [map_append, nodup_append']
      refine ⟨hs.oneRow, nodup_singleton _, ?_⟩
      intro u hu hu'
      obtain rfl : u = uuid := mem_singleton.1 hu'
      exact hnew hu

theorem grown_park (s : State) (text : Text) (reason : String) : Grown s (s.park text reason) :=
  ⟨prefix_refl _, prefix_refl _, prefix_append _ _⟩

theorem Kept.park (hs : Kept formats s) (text : Text) (reason : String) : Kept formats (s.park text reason) := by
  refine ⟨fun id data hdt hdel => ?_, hs.oneRow, hs.covered⟩
  exact (hs.kept id data hdt hdel).imp_right (·.grown (grown_park s text reason))

theorem Kept.regroup (hs : Kept formats s) {g : Outbox.Group} (hg : s.stream.Covers g) :
    Kept formats { s with group := some g } :=
  ⟨hs.kept, hs.oneRow, hg⟩

theorem writers_xack (s : State) (id : ℕ) : (s.xack id).writers = s.writers.ack id := by
  unfold State.xack State.writers
  cases s.group <;> rfl

theorem grown_xdel (s : State) (id : ℕ) : Grown s (s.xdel id) := by
  refine ⟨?_, prefix_refl _, prefix_refl _⟩
  change s.stream.log <+: (s.stream.delete id).log
  rw [Outbox.delete_log]

theorem grown_xack_xdel (s : State) (id : ℕ) : Grown s ((s.xack id).xdel id) :=
  ⟨(grown_xdel s id).log, prefix_refl _, prefix_refl _⟩

theorem Kept.xdel (hs : Kept formats s)
    (hid : ∀ data, s.stream.log[id]? = some data → s.Stored formats data ∨ s.Parked data) :
    Kept formats (s.xdel id) := by
  refine ⟨fun id' data hdata hdel => ?_, hs.oneRow, hs.covered.delete id⟩
  have hlog : s.stream.log[id']? = some data := by
    rw [← Outbox.delete_log s.stream id]
    exact hdata
  rcases Outbox.mem_deleted_delete hdel with rfl | hdel
  · exact hid data hlog
  · exact hs.kept id' data hlog hdel

theorem Kept.xack_xdel (hs : Kept formats s)
    (hid : ∀ data, s.stream.log[id]? = some data → s.Stored formats data ∨ s.Parked data) :
    Kept formats ((s.xack id).xdel id) := by
  refine ⟨(hs.xdel hid).kept, hs.oneRow, ?_⟩
  have hcovered := hs.covered.settle id
  rw [← writers_xack] at hcovered
  exact hcovered

def pre (formats : Formats) (task : Task) (s : State) : Op → Prop
  | .xaddSeen text seenKey _ => ∃ d, task = .write d ∧ text = d.payload ∧ d.seenKey = some seenKey
  | .ackDel id => ∀ data, s.stream.log[id]? = some data → s.Stored formats data
  | .toDlq text _ id => ∀ data, s.stream.log[id]? = some data → text = data.getD (.malformed "")
  | _ => True

def contract (formats : Formats) : Contract State Failure Op Ans Task where
  inv := Kept formats
  rely _ := Grown
  pre _ task _ := pre formats task

/-- No `XDEL` fails whose `XACK` took effect: the dead-letter script does not stop between the two, and a transaction
in which the second fails has the first fail too. -/
def Unbroken (_ : ℕ) (_ : State) (o : Op) (c : Chance) : Prop :=
  match o with
  | .toDlq _ _ _ => c.fate ≠ .stops 2
  | .ackDel _ => ∀ failing, c.fate = .fails failing → 1 ∈ failing → 0 ∈ failing
  | _ => True

theorem single_state (fate : Fate) (error : Failure) (s s' : State) (a : α) :
    (fate.single error s s' a).2 = s ∨ (fate.single error s s' a).2 = s' := by
  cases fate with
  | done => exact .inr rfl
  | before => exact .inl rfl
  | after => exact .inr rfl
  | stops | fails => exact .inl rfl

theorem script_state (fate : Fate) (s : State) (commands : List (State → State)) :
    ∃ n, (fate = .stops n ∨ n = 0 ∨ n = commands.length) ∧
      (fate.script s commands).2 = (commands.take n).foldl (fun s command => command s) s := by
  cases fate with
  | done | after => exact ⟨commands.length, .inr (.inr rfl), by rw [take_length]; rfl⟩
  | before | fails => exact ⟨0, .inr (.inl rfl), rfl⟩
  | stops n => exact ⟨n, .inl rfl, rfl⟩

theorem exec_state (fate : Fate) (s : State) (id : ℕ) :
    let s' := (fate.exec s [(·.xack id), (·.xdel id)]).2
    s' = s ∨ s' = s.xdel id ∨ s' = (s.xack id).xdel id ∨
      s' = s.xack id ∧ ∃ failing, fate = .fails failing ∧ 0 ∉ failing ∧ 1 ∈ failing := by
  cases fate with
  | done | after => exact .inr (.inr (.inl rfl))
  | before | stops => exact .inl rfl
  | fails failing => by_cases hack : 0 ∈ failing <;> by_cases hdel : 1 ∈ failing <;> simp [Fate.exec, hack, hdel]

structure Leaves (formats : Formats) (s s' : State) : Prop where
  kept : Kept formats s'
  grown : Grown s s'

theorem Leaves.refl (hs : Kept formats s) : Leaves formats s s := ⟨hs, .refl s⟩

theorem Leaves.trans {s1 s2 s3 : State} (h1 : Leaves formats s1 s2) (h2 : Leaves formats s2 s3) :
    Leaves formats s1 s3 :=
  ⟨h2.kept, h1.grown.trans h2.grown⟩

section

variable (hs : Kept formats s)

include hs

theorem single_leaves (h : Leaves formats s s') (fate : Fate)
    (error : Failure) (a : α) : Leaves formats s (fate.single error s s' a).2 := by
  rcases single_state fate error s s' a with he | he
  · rw [he]
    exact .refl hs
  · rw [he]
    exact h

theorem Kept.leaves_xadd (data : Data) : Leaves formats s (s.xadd data) :=
  ⟨hs.xadd data, grown_xadd s data⟩

theorem xaddSeen_leaves (text : Text) (seenKey : String) (fate : Fate) :
    Leaves formats s (fate.script s [(·.xadd (some text)), (·.setSeen seenKey)]).2 := by
  obtain ⟨n, -, hn⟩ := script_state fate s [(·.xadd (some text)), (·.setSeen seenKey)]
  rw [hn]
  have hadd := hs.leaves_xadd (some text)
  match n with
  | 0 => exact .refl hs
  | 1 => exact hadd
  | n + 2 =>
    rw [take_of_length_le (by simp)]
    exact hadd.trans ⟨hadd.kept.of_eq rfl rfl rfl rfl, .of_eq rfl rfl rfl⟩

theorem toDlq_leaves
    (hid : ∀ data, s.stream.log[id]? = some data → text = data.getD (.malformed "")) (hft : fate ≠ .stops 2) :
    Leaves formats s (fate.script s [(·.park text reason), (·.xack id), (·.xdel id)]).2 := by
  obtain ⟨n, hn, hstt⟩ := script_state fate s [(·.park text reason), (·.xack id), (·.xdel id)]
  rw [hstt]
  have hpr : Leaves formats s (s.park text reason) := ⟨hs.park text reason, grown_park s text reason⟩
  match n with
  | 0 => exact .refl hs
  | 1 => exact hpr
  | 2 =>
    rcases hn with hn | hn | hn
    · exact absurd hn hft
    · cases hn
    · cases hn
  | n + 3 =>
    rw [take_of_length_le (by simp)]
    refine hpr.trans ⟨hpr.kept.xack_xdel fun data hdt => .inr ⟨reason, ?_⟩, grown_xack_xdel _ id⟩
    rw [← hid data hdt]
    exact mem_append_right _ (mem_singleton_self _)

theorem ackDel_leaves (hid : ∀ data, s.stream.log[id]? = some data → s.Stored formats data)
    (hok : ∀ failing, fate = .fails failing → 1 ∈ failing → 0 ∈ failing) :
    Leaves formats s (fate.exec s [(·.xack id), (·.xdel id)]).2 := by
  obtain heq | heq | heq | ⟨-, failing, hfate, hack, hdel⟩ := exec_state fate s id
  · rw [heq]
    exact .refl hs
  · rw [heq]
    exact ⟨hs.xdel fun data hdata => .inl (hid data hdata), grown_xdel s id⟩
  · rw [heq]
    exact ⟨hs.xack_xdel fun data hdata => .inl (hid data hdata), grown_xack_xdel s id⟩
  · exact absurd (hok failing hfate hdel) hack

theorem group_leaves {g g' : Outbox.Group} (hg : s.group = some g)
    (hcv : s.stream.Covers g → s.stream.Covers g') : Leaves formats s { s with group := some g' } := by
  have h := hs.covered
  unfold State.writers at h
  rw [hg] at h
  exact ⟨hs.regroup (hcv h), .of_eq rfl rfl rfl⟩

theorem answer_leaves {task : Task} (hpre : pre formats task s o)
    {i : ℕ} (hok : Unbroken i s o c) : Leaves formats s (answer formats s o c).2 := by
  cases o with
  | xadd => exact single_leaves hs (hs.leaves_xadd _) _ _ _
  | xaddSeen text seenKey seenTtl => exact xaddSeen_leaves hs text seenKey _
  | connect => exact single_leaves hs (.refl hs) _ _ _
  | xgroupCreate =>
    change Leaves formats s (xgroupCreate s c).2
    unfold xgroupCreate
    split
    · exact .refl hs
    · exact single_leaves hs ⟨hs.regroup (.fresh _), .of_eq rfl rfl rfl⟩ _ _ _
  | xautoclaim =>
    change Leaves formats s (xautoclaim s c).2
    unfold xautoclaim
    split
    · exact .refl hs
    · rename_i g hg
      exact single_leaves hs (group_leaves hs hg fun h => h.claim c.idle) _ _ _
  | xreadgroup =>
    change Leaves formats s (xreadgroup s c).2
    unfold xreadgroup
    split
    · exact .refl hs
    · rename_i g hg
      exact single_leaves hs (group_leaves hs hg fun h => h.readNew readCount) _ _ _
  | insert row =>
    change Leaves formats s (insertRow s c formats row).2
    unfold insertRow
    split
    · exact .refl hs
    · rename_i uuid _
      exact single_leaves hs ⟨hs.insert uuid row, grown_insert s uuid row⟩ _ _ _
  | ackDel => exact ackDel_leaves hs hpre hok
  | toDlq => exact toDlq_leaves hs hpre hok

end

noncomputable abbrev unbroken (formats : Formats) : World State Failure Op Ans Chance Event :=
  (world formats).guard Unbroken .redis

theorem kept : Threads.Kept (unbroken formats) (contract formats) fun _ => True := by
  refine Threads.Kept.guard (K := contract formats) Failure.redis (fun _ => .refl)
    (fun _ _ _ _ => .trans) ?_ ?_
  · intro i task h s o c hok hinv hpre
    have hlv := answer_leaves hinv hpre hok
    exact ⟨hlv.kept, fun _ _ => hlv.grown⟩
  · intro i task h s o c hok _ hinv hpre
    exact (answer_leaves hinv hpre hok).grown

section

variable {i : ℕ} {c : Chance}

theorem unbroken_answer (formats : Formats) (i : ℕ) (s : State) (o : Op) (c : Chance) :
    (unbroken formats).answer i s o c = answer formats s o c ∨
      (unbroken formats).answer i s o c = (.error .redis, s) := by
  by_cases hok : Unbroken i s o c
  · exact .inl (guard_answer hok)
  · exact .inr (guard_answer_not hok)

theorem ok_answer {a : Ans o} (h : ((unbroken formats).answer i s o c).1 = .ok a) :
    (unbroken formats).answer i s o c = answer formats s o c := by
  rcases unbroken_answer formats i s o c with he | he
  · exact he
  · rw [he] at h
    cases h

theorem single_ok {error : Failure} {a b : α}
    (h : (fate.single error s s' a).1 = .ok b) : b = a ∧ (fate.single error s s' a).2 = s' := by
  cases fate with
  | done => exact ⟨(Except.ok.inj h).symm, rfl⟩
  | before | after | stops | fails => cases h

def Logged (s : State) (batch : List (ℕ × Data)) : Prop := ∀ e ∈ batch, s.stream.log[e.1]? = some e.2

theorem xautoclaim_logged (h : (xautoclaim s c).1 = .ok batch) : Logged (xautoclaim s c).2 batch := by
  unfold xautoclaim at h ⊢
  split at h
  · cases h
  · rename_i g hg
    obtain ⟨rfl, hstt⟩ := single_ok h
    rw [hstt]
    exact fun e he => (Outbox.mem_idleEntries he).1

theorem xreadgroup_logged (h : (xreadgroup s c).1 = .ok batch) : Logged (xreadgroup s c).2 batch := by
  unfold xreadgroup at h ⊢
  split at h
  · cases h
  · rename_i g hg
    obtain ⟨rfl, hstt⟩ := single_ok h
    rw [hstt]
    exact fun e he => (Outbox.mem_newEntries he).1

theorem insertRow_stored {row : Row} (hrow : rowFromPayload formats data = .ok row)
    (h : (insertRow s c formats row).1 = .ok ()) : (insertRow s c formats row).2.Stored formats data := by
  unfold insertRow at h ⊢
  split at h
  · cases h
  · rename_i uuid hud
    rw [(single_ok h).2]
    exact ⟨row, uuid, hrow, hud, mem_rows_insert s uuid row⟩

end

abbrev History := List (Call State Failure Op Ans)

abbrev Goes (formats : Formats) (i : ℕ) (task : Task) {β : Type} (post : Post State Failure Op Ans β) :
    Script β → History → State → Prop :=
  Safe (unbroken formats) (contract formats) i task post

section

variable {i rounds : ℕ} {task : Task} {h : History}

abbrev ends {β : Type} (s : State) (_ : History) (s' : State) (_ : Except Failure β) : Prop :=
  Grown s s'

section

variable {post : Post State Failure Op Ans (Ans o)} {post' : Post State Failure Op Ans (Except Failure (Ans o))}
  (hpre : ∀ s1, Grown s s1 → pre formats task s1 o)

include hpre

theorem goes_attempt (hps : ∀ h' s1 c, Grown s s1 → Grown s1 ((unbroken formats).answer i s1 o c).2 →
      post' h' ((unbroken formats).answer i s1 o c).2 (.ok ((unbroken formats).answer i s1 o c).1)) :
    Goes formats i task post' (Prog.attempt o) h s := by
  refine kept.attempt fun s1 hgr hinv => ⟨hpre s1 hgr, fun c _ => ?_⟩
  exact hps _ s1 c hgr (kept.own i task h s1 o c trivial hinv (hpre s1 hgr))

theorem goes_perform (hps : ∀ h' s1 c, Grown s s1 → Grown s1 ((unbroken formats).answer i s1 o c).2 →
      post h' ((unbroken formats).answer i s1 o c).2 ((unbroken formats).answer i s1 o c).1) :
    Goes formats i task post (Prog.perform o) h s := by
  refine kept.perform fun s1 hgr hinv => ⟨hpre s1 hgr, fun c _ => ?_⟩
  exact hps _ s1 c hgr (kept.own i task h s1 o c trivial hinv (hpre s1 hgr))

theorem goes_settle : Goes formats i task (ends s) (settle attempts id o) h s := by
  refine .bind (goes_attempt hpre fun h' s1 c h1 h2 => ?_)
  cases ((unbroken formats).answer i s1 o c).1 with
  | ok | error => exact h1.trans h2

end

theorem goes_toDlq (hdt : s.stream.log[id]? = some data) :
    Goes formats i task (ends s) (toDlq attempts id data reason) h s := by
  refine goes_settle fun s1 hgr data' hdt' => ?_
  obtain rfl : data' = data := Option.some.inj (hdt'.symm.trans (hgr.entry hdt))
  rfl

theorem goes_handle (hdt : s.stream.log[id]? = some data) :
    Goes formats i task (ends s) (handle formats id data attempts) h s := by
  unfold handle
  cases hrow : rowFromPayload formats data with
  | error e =>
    cases e with
    | attributeError => exact .refl s
    | valueError | keyError | typeError => exact goes_toDlq hdt
  | ok row =>
    refine .bind (goes_attempt (fun _ _ => trivial) fun h' s1 c h1 h2 => ?_)
    have h₂' := h1.trans h2
    have hdt' := h₂'.entry hdt
    have hmn : ∀ {β : Type} {p : Script β} {h' : History} {s' : State}, Grown s s' →
        Goes formats i task (ends s') p h' s' → Goes formats i task (ends s) p h' s' :=
      fun hg => .mono fun _ _ _ hr => hg.trans hr
    cases ha : ((unbroken formats).answer i s1 (.insert row) c).1 with
    | ok _ =>
      refine hmn h₂' (goes_settle fun s2 hgr data2 hdt2 => ?_)
      obtain rfl : data2 = data := Option.some.inj (hdt2.symm.trans (hgr.entry hdt'))
      refine State.Stored.grown ?_ hgr
      have hsame := ok_answer ha
      rw [hsame] at ha ⊢
      exact insertRow_stored hrow ha
    | error e =>
      have hcn : ∀ reason : String, Goes formats i task (ends s)
          (if maxAttempts ≤ (attempts.lookup id).getD 0 + 1 then
            toDlq (attempts.insert id ((attempts.lookup id).getD 0 + 1)) id data reason
          else return (attempts.insert id ((attempts.lookup id).getD 0 + 1), none)) h'
          ((unbroken formats).answer i s1 (.insert row) c).2 := by
        intro reason
        split
        · exact hmn h₂' (goes_toDlq hdt')
        · exact h₂'
      cases e with
      | operational => exact h₂'
      | value | redis | busyGroup | database => exact hcn _

theorem goes_handleAll (hbt : Logged s batch) :
    Goes formats i task (ends s) (handleAll formats batch attempts) h s := by
  induction batch generalizing s attempts h with
  | nil => exact .refl s
  | cons e batch ih =>
    refine .bind (.mono (fun h' s' r hgr => ?_) (goes_handle (hbt _ mem_cons_self)))
    cases r with
    | error => exact hgr
    | ok out =>
      obtain ⟨attempts', failed⟩ := out
      cases failed with
      | some => exact hgr
      | none =>
        have hrs : Logged s' batch := fun e he => hgr.entry (hbt e (mem_cons_of_mem _ he))
        exact .mono (fun _ _ _ hr => hgr.trans hr) (ih hrs)

theorem goes_readBatch : Goes formats i task
    (fun _ s' r => Grown s s' ∧ ∀ batch, r = .ok batch → Logged s' batch) readBatch h s := by
  refine .bind (goes_perform (fun _ _ => trivial) fun h' s1 c h1 h2 => ?_)
  cases ha : ((unbroken formats).answer i s1 .xautoclaim c).1 with
  | error => exact ⟨h1.trans h2, nofun⟩
  | ok claimed =>
    dsimp only
    split
    · refine ⟨h1.trans h2, fun batch hbt => ?_⟩
      cases hbt
      have hsame := ok_answer ha
      rw [hsame] at ha ⊢
      exact xautoclaim_logged ha
    · refine goes_perform (fun _ _ => trivial) fun h'' s2 c' h3 h4 => ⟨(h1.trans h2).trans (h3.trans h4), ?_⟩
      intro batch ha'
      have hsame := ok_answer ha'
      rw [hsame] at ha' ⊢
      exact xreadgroup_logged ha'

theorem goes_drain : Goes formats i task (ends s) (drain formats rounds attempts) h s := by
  induction rounds generalizing s attempts h with
  | zero => exact .refl s
  | succ rounds ih =>
    refine .bind (.outcome (.mono (fun h' s' r hr => ?_) goes_readBatch))
    cases r with
    | error => exact hr.1
    | ok batch =>
      refine .bind (.mono (fun h'' s'' r' hgr => ?_) (goes_handleAll (hr.2 batch rfl)))
      have hgr' := hr.1.trans hgr
      cases r' with
      | error => exact hgr'
      | ok out =>
        obtain ⟨attempts', failed⟩ := out
        cases failed with
        | some => exact hgr'
        | none => exact .mono (fun _ _ _ h => hgr'.trans h) ih

theorem goes_ensureGroup : Goes formats i task (ends s) ensureGroup h s := by
  refine .bind (goes_attempt (fun _ _ => trivial) fun h' s1 c h1 h2 => ?_)
  cases ((unbroken formats).answer i s1 .xgroupCreate c).1 with
  | ok => exact h1.trans h2
  | error e => cases e <;> exact h1.trans h2

theorem goes_runDecisionWriter :
    Goes formats i task (fun _ _ _ => True) (runDecisionWriter formats rounds attempts) h s := by
  induction rounds generalizing s attempts h with
  | zero => trivial
  | succ rounds ih =>
    refine .bind (goes_attempt (fun _ _ => trivial) fun h' s1 c _ _ => ?_)
    cases ((unbroken formats).answer i s1 .connect c).1 with
    | error => exact ih
    | ok _ =>
      refine .bind (.mono (fun h'' s2 r _ => ?_) goes_ensureGroup)
      cases r with
      | error => trivial
      | ok failed =>
        cases failed with
        | some => exact ih
        | none =>
          refine .bind (.mono (fun h3 s3 r _ => ?_) goes_drain)
          cases r with
          | error => trivial
          | ok left =>
            cases left with
            | some => exact ih
            | none => trivial

theorem goes_check {e : Except ParseError Unit} {p : Script Unit} (hp : Goes formats i task (fun _ _ _ => True) p h s) :
    Goes formats i task (fun _ _ _ => True) (do check e; p) h s := by
  cases e with
  | ok => exact hp
  | error => trivial

theorem goes_writeDecision (d : Decision) : Goes formats i (.write d) (fun _ _ _ => True) (writeDecision d) h s := by
  refine goes_check (goes_check (goes_check ?_))
  split
  · rename_i seenKey hkey
    exact goes_perform (fun _ _ => ⟨d, rfl, rfl, hkey⟩) fun _ _ _ _ _ => trivial
  · exact goes_perform (fun _ _ => trivial) fun _ _ _ _ _ => trivial

theorem sound (formats : Formats) : Sound (unbroken formats)
    (guardMain (Task.program formats) (fun _ => True) .redis) (contract formats) (fun _ _ _ _ _ => True) where
  refl _ := .refl
  trans _ _ _ _ := .trans
  env s e hs := by
    cases e with
    | backlog data => exact ⟨Kept.xadd hs data, fun _ => grown_xadd s data⟩
    | expire => exact ⟨Kept.of_eq hs rfl rfl rfl rfl, fun _ => .of_eq rfl rfl rfl⟩
  crash i s hs := ⟨hs, fun _ _ => .refl s⟩
  start i task s hs := by
    have hma : guardMain (Task.program formats) (fun _ => True) .redis task = task.program formats := if_pos trivial
    rw [hma]
    cases task with
    | write d => exact goes_writeDecision d
    | writer => exact goes_runDecisionWriter

end

theorem single_seen (hsn : s'.seen = s.seen) (fate : Fate) (error : Failure) (a : α) :
    (fate.single error s s' a).2.seen = s.seen := by
  rcases single_state fate error s s' a with he | he
  · rw [he]
  · rw [he]
    exact hsn

theorem xaddSeen_seen {seenKey : String} (hnew : key ∉ s.seen)
    (hset : key ∈ (fate.script s [(·.xadd (some text)), (·.setSeen seenKey)]).2.seen) :
    key = seenKey ∧
      (fate.script s [(·.xadd (some text)), (·.setSeen seenKey)]).2.stream = s.stream.add (some text) := by
  obtain ⟨n, -, hn⟩ := script_state fate s [(·.xadd (some text)), (·.setSeen seenKey)]
  rw [hn] at hset ⊢
  match n with
  | 0 => exact absurd hset hnew
  | 1 => exact absurd hset hnew
  | n + 2 =>
    rw [take_of_length_le (by simp)] at hset ⊢
    refine ⟨?_, rfl⟩
    have hmem : key ∈ if seenKey ∈ s.seen then s.seen else s.seen ++ [seenKey] := hset
    split at hmem
    · exact absurd hmem hnew
    · rcases mem_append.1 hmem with hold | hlast
      · exact absurd hold hnew
      · exact mem_singleton.1 hlast

theorem toDlq_seen (fate : Fate) (text : Text) (reason : String) (id : ℕ) :
    (fate.script s [(·.park text reason), (·.xack id), (·.xdel id)]).2.seen = s.seen := by
  obtain ⟨n, -, hn⟩ := script_state fate s [(·.park text reason), (·.xack id), (·.xdel id)]
  rw [hn]
  match n with
  | 0 => rfl
  | 1 => rfl
  | 2 => rfl
  | n + 3 =>
    rw [take_of_length_le (by simp)]
    rfl

theorem answer_seen_eq (ho : ∀ text seenKey seenTtl, o ≠ .xaddSeen text seenKey seenTtl) (c : Chance) :
    (answer formats s o c).2.seen = s.seen := by
  cases o with
  | xaddSeen text seenKey seenTtl => exact absurd rfl (ho text seenKey seenTtl)
  | xadd =>
    refine single_seen ?_ _ _ _
    rfl
  | ackDel id =>
    change (c.fate.exec s [(·.xack id), (·.xdel id)]).2.seen = s.seen
    obtain heq | heq | heq | ⟨heq, -⟩ := exec_state c.fate s id <;> rw [heq] <;> rfl
  | connect => exact single_seen rfl _ _ _
  | toDlq => exact toDlq_seen _ _ _ _
  | xgroupCreate =>
    change (xgroupCreate s c).2.seen = s.seen
    unfold xgroupCreate
    split
    · rfl
    · refine single_seen ?_ _ _ _
      rfl
  | xautoclaim =>
    change (xautoclaim s c).2.seen = s.seen
    unfold xautoclaim
    split
    · rfl
    · refine single_seen ?_ _ _ _
      rfl
  | xreadgroup =>
    change (xreadgroup s c).2.seen = s.seen
    unfold xreadgroup
    split
    · rfl
    · refine single_seen ?_ _ _ _
      rfl
  | insert row =>
    change (insertRow s c formats row).2.seen = s.seen
    unfold insertRow
    split
    · rfl
    · refine single_seen ?_ _ _ _
      rfl

theorem answer_seen (hnew : key ∉ s.seen)
    (hset : key ∈ (answer formats s o c).2.seen) : ∃ text seenTtl, o = .xaddSeen text key seenTtl ∧
      (answer formats s o c).2.stream = s.stream.add (some text) := by
  by_cases ho : ∀ text seenKey seenTtl, o ≠ .xaddSeen text seenKey seenTtl
  · rw [answer_seen_eq ho] at hset
    exact absurd hset hnew
  · push Not at ho
    obtain ⟨text, seenKey, seenTtl, rfl⟩ := ho
    obtain ⟨rfl, hst⟩ := xaddSeen_seen hnew hset
    exact ⟨text, seenTtl, rfl, hst⟩

def reached (formats : Formats) (moves : List (Move Task Chance Event)) : Config State Failure Op Ans Task Unit :=
  Config.run (world formats) (Task.program formats) ⟨State.init, []⟩ moves

def AllUnbroken (formats : Formats) (moves : List (Move Task Chance Event)) : Prop :=
  Config.AllAllowed (world formats) (Task.program formats) Unbroken (fun _ => True) ⟨State.init, []⟩ moves

structure Lossless (formats : Formats) (s : State) : Prop where
  kept : ∀ id data, s.stream.log[id]? = some data →
    s.stream.Has id data ∨ s.Stored formats data ∨ s.Parked data
  oneRow : (s.rows.map Prod.fst).Nodup
  claimable : ∀ id data, s.stream.Has id data → ∀ g, s.group = some g → g.next ≤ id ∨ id ∈ g.pending

theorem Kept.lossless (hs : Kept formats s) : Lossless formats s where
  kept id data hdt := by
    by_cases hdel : id ∈ s.stream.deleted
    · exact .inr (hs.kept id data hdt hdel)
    · exact .inl ⟨hdt, hdel⟩
  oneRow := hs.oneRow
  claimable id data hhas g hg := by
    have h := hs.covered.held id data hhas
    unfold State.writers at h
    rw [hg] at h
    exact h

theorem kept_init : Kept formats State.init :=
  ⟨nofun, nodup_nil, .fresh _⟩

section

variable {moves : List (Move Task Chance Event)} {n : ℕ}

theorem reached_take_succ (hm : moves[n]? = some m) :
    reached formats (moves.take (n + 1)) =
      (reached formats (moves.take n)).step (world formats) (Task.program formats) m := by
  unfold reached Config.run
  rw [take_add_one, hm, foldl_append]
  rfl

theorem step_seen (hok : AllUnbroken formats moves) (hm : moves[n]? = some m)
    (hnew : key ∉ (reached formats (moves.take n)).state.seen)
    (hset : key ∈ (reached formats (moves.take (n + 1))).state.seen) : ∃ d : Decision, d.seenKey = some key ∧
      (reached formats (moves.take (n + 1))).state.stream =
        (reached formats (moves.take n)).state.stream.add (some d.payload) := by
  obtain ⟨hcfg, -⟩ := (sound formats).before kept_init hok hm
  rw [reached_take_succ hm] at hset ⊢
  change ConfigOk _ _ _ (reached formats (moves.take n)) at hcfg
  generalize reached formats (moves.take n) = cfg at hcfg hnew hset ⊢
  cases m with
  | start => exact absurd hset hnew
  | env e =>
    cases e with
    | backlog => exact absurd hset hnew
    | expire => exact absurd (mem_of_mem_filter hset) hnew
  | crash i =>
    refine absurd hset ?_
    simp only [Config.step]
    split <;> exact hnew
  | call i c =>
    rcases Config.step_call_cases (world formats) (Task.program formats) cfg i c with hsame | ⟨task, h, o, k, ht, hstt⟩
    · rw [hsame] at hset
      exact absurd hset hnew
    · rw [hstt] at hset ⊢
      obtain ⟨text, seenTtl, rfl, hst⟩ := answer_seen hnew hset
      obtain ⟨d, -, rfl, hkey⟩ := hcfg.next_pre ht
      exact ⟨d, hkey, hst⟩

/-- **The decision outbox loses nothing and stores each decision once**, in the runs in which no `XDEL` fails whose
`XACK` took effect. -/
theorem outbox_lossless (formats : Formats) (moves : List (Move Task Chance Event)) (hok : AllUnbroken formats moves) :
    Lossless formats (reached formats moves).state ∧
    ∀ (n : ℕ) (key : String), n < moves.length → key ∉ (reached formats (moves.take n)).state.seen →
      key ∈ (reached formats (moves.take (n + 1))).state.seen → ∃ d : Decision, d.seenKey = some key ∧
        (reached formats (moves.take (n + 1))).state.stream =
          (reached formats (moves.take n)).state.stream.add (some d.payload) := by
  refine ⟨Kept.lossless ((sound formats).of_allowed kept_init hok).inv, fun n key hn hnew hset => ?_⟩
  exact step_seen hok (getElem?_eq_getElem hn) hnew hset

end

def Whole : Move Task Chance Event → Prop
  | .call _ c => c.fate = .done
  | _ => True

instance : DecidablePred Whole := fun m => by
  unfold Whole
  split <;> infer_instance

theorem allUnbroken_of_whole (moves : List (Move Task Chance Event)) (cfg : Config State Failure Op Ans Task Unit)
    (hwh : ∀ m ∈ moves, Whole m) :
    cfg.AllAllowed (world formats) (Task.program formats) Unbroken (fun _ => True) moves := by
  induction moves generalizing cfg with
  | nil => trivial
  | cons m moves ih =>
    refine ⟨?_, ih _ fun m' hm' => hwh m' (mem_cons_of_mem m hm')⟩
    cases m with
    | start | env | crash => trivial
    | call i c =>
      intro task h o k _
      have hdone : c.fate = .done := hwh (.call i c) mem_cons_self
      cases o with
      | toDlq | ackDel => simp [Unbroken, hdone]
      | _ => trivial

def sampleFormats : Formats := ⟨fun _ => true, fun _ => none⟩

def sampleDecision : Decision :=
  { base := "PEPE", exchange := "bybit", action := "skip", reason := "liquidity", decisionId := "1",
    now := "2026-01-01" }

def sampleMoves (fate : Fate) : List (Move Task Chance Event) :=
  let refused : Chance := { error := .database "invalid input for uuid" }
  let claims : Chance := { idle := [0] }
  [.start (.write sampleDecision), .call 0 {}, .start (.writer 6), .call 1 {}, .call 1 {}, .call 1 {}, .call 1 {},
    .call 1 refused, .call 1 claims, .call 1 refused, .call 1 claims, .call 1 refused, .call 1 claims, .call 1 refused,
    .call 1 claims, .call 1 refused, .call 1 { fate }]

/-- `XDEL` fails after `XACK`: the decision is a dead letter, and its entry is still in the stream, neither to be
handed out nor pending. -/
theorem dead_letter_stays :
    (reached sampleFormats (sampleMoves (.stops 2))).state.stream.Has 0 (some sampleDecision.payload) ∧
    (reached sampleFormats (sampleMoves (.stops 2))).state.Parked (some sampleDecision.payload) ∧
    ∃ g, (reached sampleFormats (sampleMoves (.stops 2))).state.group = some g ∧ ¬ (g.next ≤ 0 ∨ 0 ∈ g.pending) := by
  refine ⟨⟨by rfl, by decide +kernel⟩, ⟨"invalid input for uuid", by decide +kernel⟩, ⟨⟨1, []⟩, by rfl, by decide⟩⟩

/-- The script that runs to its end takes the entry out of the stream. -/
theorem dead_letter_leaves :
    AllUnbroken sampleFormats (sampleMoves .done) ∧
    (reached sampleFormats (sampleMoves .done)).state.Parked (some sampleDecision.payload) ∧
    Lossless sampleFormats (reached sampleFormats (sampleMoves .done)).state := by
  have hok : AllUnbroken sampleFormats (sampleMoves .done) := allUnbroken_of_whole _ _ (by decide)
  exact ⟨hok, ⟨"invalid input for uuid", by decide +kernel⟩, (outbox_lossless sampleFormats (sampleMoves .done) hok).1⟩

end Schurfer.Decisions
