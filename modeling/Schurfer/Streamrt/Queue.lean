import Schurfer.Streamrt.Runtime

/-!
# Nothing is lost silently

`log` lists what a shard put on the queue and what it dropped, and `May` says what it may do after a log: an event
passes only when every drop has been reported, and after a report of a lost state the subscription is confirmed before
anything else.
-/

namespace Schurfer.Streamrt

open GoTime Threads List Streamrt.Runtime Connection

variable {κ X : Type} {s : Shard} {drops : List Event} {e : Event} {role : Role} {symbols : List String}

inductive Entry
  | delivered (role : Role) (e : Event)
  | dropped (role : Role) (e : Event)

open Entry

abbrev ShardCall (κ : Type) := Call (Runtime κ) Empty Op Op.Ans

def entry : ShardCall κ → Option Entry
  | ⟨_, .send role e, .ok true⟩ => some (.delivered role e)
  | ⟨_, .countDrop role e, _⟩ => some (.dropped role e)
  | _ => none

def log (h : List (ShardCall κ)) : List Entry := h.filterMap entry

def Entry.op : Entry → Op
  | .delivered role e => .send role e
  | .dropped role e => .countDrop role e

def Entry.sent : Entry → Option Event
  | .delivered _ e => some e
  | .dropped _ _ => none

def Entry.emitted : Entry → Option Event
  | .delivered .event e => some e
  | .dropped .event e => some e
  | _ => none

def Entry.isDrop : Entry → Bool
  | .dropped _ _ => true
  | .delivered _ _ => false

def Entry.reports : Entry → ℕ
  | .delivered (.report _) (.lifecycle l) => l.dropped
  | _ => 0

def Entry.owe (drops : List Event) : Entry → List Event
  | .delivered (.report _) _ => []
  | .delivered _ _ => drops
  | .dropped _ e => drops ++ [e]

def unreported (log : List Entry) : List Event := log.foldl owe []

def Entry.awaits : Entry → Option String
  | .delivered (.report session) (.lifecycle l) => if l.droppedState ∧ session ≠ "" then some session else none
  | _ => none

def awaiting (log : List Entry) : Option String := log.getLast?.bind awaits

@[simp] theorem unreported_nil : unreported [] = [] := rfl

@[simp] theorem awaiting_nil : awaiting [] = none := rfl

@[simp] theorem unreported_snoc (log : List Entry) (x : Entry) : unreported (log ++ [x]) = x.owe (unreported log) := by
  simp [unreported]

@[simp] theorem awaiting_snoc (log : List Entry) (x : Entry) : awaiting (log ++ [x]) = x.awaits := by
  simp [awaiting]

structure Describes (l : Lifecycle) (drops : List Event) : Prop where
  kind : l.kind = .overflow
  dropped : l.dropped = drops.length
  unset : l.droppedFrom = 0 → ∀ t, .trade t ∉ drops
  range : ∀ t, .trade t ∈ drops → l.droppedFrom ≤ t.eventAt ∧ t.eventAt ≤ l.droppedTo
  state : l.droppedState = true ↔ ∃ x, .lifecycle x ∈ drops ∧ x.kind ≠ .heartbeat

def Confirms (session : String) (e : Event) : Prop :=
  ∃ l, e = .lifecycle l ∧ l.kind = .subscribed ∧ l.sessionId = session

def May (symbols : List String) (log : List Entry) : Op → Prop
  | .now => True
  | .send .event _ => awaiting log = none ∧ unreported log = []
  | .countDrop .event _ => awaiting log = none
  | .send (.report _) e =>
    awaiting log = none ∧ ∃ l, e = .lifecycle l ∧ l.symbols = symbols ∧ Describes l (unreported log)
  | .countDrop (.report _) _ => False
  | .send .confirm e => ∃ session, awaiting log = some session ∧ Confirms session e
  | .countDrop .confirm e => ∃ session, awaiting log = some session ∧ Confirms session e

def shards (κ : Type) : Contract (Runtime κ) Empty Op Op.Ans Connection where
  inv _ := True
  rely _ _ _ := True
  pre _ c h _ o := May c.symbols (log h) o

structure Noted (s : Shard) (drops : List Event) : Prop where
  unset : s.owedFrom = 0 → ∀ t, .trade t ∉ drops
  range : ∀ t, .trade t ∈ drops → s.owedFrom ≤ t.eventAt ∧ t.eventAt ≤ s.owedTo
  state : s.owedState = true ↔ ∃ x, .lifecycle x ∈ drops ∧ x.kind ≠ .heartbeat

theorem Noted.fresh (s : Shard) (time : ℤ) : Noted (s.fresh time) [] where
  unset _ t ht := by cases ht
  range t ht := by cases ht
  state := by simp [Shard.fresh]

theorem Noted.note_trade (h : Noted s drops) (t : Trade) : Noted (s.note (.trade t)) (drops ++ [.trade t]) := by
  have hpos := lt_trans unixEpoch_pos t.eventAt_epoch
  simp only [Shard.note]
  refine ⟨?_, ?_, ?_⟩
  · -- the time of a trade is set
    intro hzr
    dsimp only at hzr
    split at hzr <;> omega
  · intro u hu
    dsimp only
    rcases mem_append.1 hu with hu | hu
    · have hrn := h.range u hu
      -- zero stands for a start that is not set, so an earlier drop has set it
      have hset : s.owedFrom ≠ 0 := fun hzr => h.unset hzr u hu
      constructor
      · split <;> omega
      · split <;> omega
    · obtain rfl : u = t := by simpa using hu
      constructor
      · split <;> omega
      · split <;> omega
  · rw [h.state]
    simp

theorem Noted.note_lifecycle (h : Noted s drops) (l : Lifecycle) :
    Noted (s.note (.lifecycle l)) (drops ++ [.lifecycle l]) := by
  have htrade : ∀ t, Event.trade t ∈ drops ++ [.lifecycle l] → Event.trade t ∈ drops := by
    intro t ht
    simpa using ht
  by_cases hkind : l.kind = .heartbeat
  · simp only [Shard.note, hkind, ne_eq, not_true_eq_false, if_false]
    refine ⟨fun hzr t ht => h.unset hzr t (htrade t ht), fun t ht => h.range t (htrade t ht), ?_⟩
    rw [h.state]
    constructor
    · rintro ⟨x, hx, hne⟩
      exact ⟨x, mem_append_left _ hx, hne⟩
    · rintro ⟨x, hx, hne⟩
      rcases mem_append.1 hx with hx | hx
      · exact ⟨x, hx, hne⟩
      · obtain rfl : x = l := by simpa using hx
        exact absurd hkind hne
  · simp only [Shard.note, ne_eq, hkind, not_false_eq_true, if_true]
    refine ⟨fun hzr t ht => h.unset hzr t (htrade t ht), fun t ht => h.range t (htrade t ht), ?_⟩
    exact ⟨fun _ => ⟨l, by simp, hkind⟩, fun _ => rfl⟩

theorem Noted.note (h : Noted s drops) (e : Event) : Noted (s.note e) (drops ++ [e]) := by
  cases e with
  | trade t => exact h.note_trade t
  | lifecycle l => exact h.note_lifecycle l

structure Owes (s : Shard) (drops : List Event) : Prop where
  owed : s.owed = drops.length
  noted : drops ≠ [] → Noted s drops

theorem Owes.nil (h : s.owed = 0) : Owes s [] := ⟨h, fun hne => absurd rfl hne⟩

theorem Owes.eq_nil (h : Owes s drops) (hzr : s.owed = 0) : drops = [] :=
  eq_nil_of_length_eq_zero (h.owed ▸ hzr)

theorem Owes.describes (h : Owes s drops) (hpos : 0 < s.owed) (time : ℤ) : Describes (s.overflow time) drops := by
  have hne : drops ≠ [] := by
    rintro rfl
    have hod := h.owed
    simp only [length_nil] at hod
    omega
  have hnt := h.noted hne
  exact ⟨rfl, h.owed, hnt.unset, hnt.range, hnt.state⟩

structure SameConnection (s s' : Shard) : Prop where
  symbols : s'.symbols = s.symbols
  session : s'.subscribedSession = s.subscribedSession

theorem SameConnection.refl (s : Shard) : SameConnection s s := ⟨rfl, rfl⟩

theorem SameConnection.trans {s1 s2 s3 : Shard} (h : SameConnection s1 s2) (h' : SameConnection s2 s3) :
    SameConnection s1 s3 :=
  ⟨h'.symbols.trans h.symbols, h'.session.trans h.session⟩

theorem sameConnection_note (s : Shard) (e : Event) (n : ℕ) : SameConnection s { s.note e with owed := n } := by
  cases e with
  | trade => exact ⟨rfl, rfl⟩
  | lifecycle l =>
    simp only [Shard.note]
    split <;> exact ⟨rfl, rfl⟩

section

variable {consumer : Consumer κ X} {i : ℕ} {c : Connection} {h : List (ShardCall κ)} {r : Runtime κ}

theorem log_snoc (h : List (ShardCall κ)) (x : ShardCall κ) : log (h ++ [x]) = log h ++ (entry x).toList := by
  simp only [log, filterMap_append, filterMap_cons, filterMap_nil]
  cases entry x <;> rfl

theorem safe_now {post : List (ShardCall κ) → Runtime κ → Except Empty ℤ → Prop}
    (hps : ∀ h' r' time, log h' = log h → post h' r' (.ok time)) :
    Safe (streamWorld consumer) (shards κ) i c post now h r := by
  refine .perform fun r1 _ _ => ⟨trivial, fun time => ⟨trivial, fun _ _ => trivial, ?_⟩⟩
  refine hps _ r1 time ?_
  rw [log_snoc]
  exact append_nil _

theorem safe_send {post : List (ShardCall κ) → Runtime κ → Except Empty Bool → Prop}
    (hmay : May c.symbols (log h) (.send role e))
    (hsn : ∀ h' r', log h' = log h ++ [.delivered role e] → post h' r' (.ok true))
    (hfl : ∀ h' r', log h' = log h → post h' r' (.ok false)) :
    Safe (streamWorld consumer) (shards κ) i c post (send role e) h r := by
  refine .perform fun r1 _ _ => ⟨hmay, fun time => ⟨trivial, fun _ _ => trivial, ?_⟩⟩
  by_cases hfree : r1.events.length < r1.capacity
  · have han : (streamWorld consumer).answer i r1 (.send role e) time =
        (.ok true, { r1 with events := r1.events ++ [(i, e)] }) := if_pos hfree
    rw [han]
    exact hsn _ _ (log_snoc _ _)
  · have han : (streamWorld consumer).answer i r1 (.send role e) time = (.ok false, r1) := if_neg hfree
    rw [han]
    refine hfl _ _ ?_
    rw [log_snoc]
    exact append_nil _

theorem safe_countDrop {post : List (ShardCall κ) → Runtime κ → Except Empty Unit → Prop}
    (hmay : May c.symbols (log h) (.countDrop role e))
    (hps : ∀ h' r', log h' = log h ++ [.dropped role e] → post h' r' (.ok ())) :
    Safe (streamWorld consumer) (shards κ) i c post (countDrop role e) h r :=
  .perform fun _ _ _ => ⟨hmay, fun _ => ⟨trivial, fun _ _ => trivial, hps _ _ (log_snoc _ _)⟩⟩

theorem safe_drop {post : List (ShardCall κ) → Runtime κ → Except Empty Shard → Prop}
    (hmay : May c.symbols (log h) (.countDrop role e)) (hos : Owes s (unreported (log h)))
    (hps : ∀ h' r' s', log h' = log h ++ [.dropped role e] → Owes s' (unreported (log h')) →
      SameConnection s s' → post h' r' (.ok s')) :
    Safe (streamWorld consumer) (shards κ) i c post (s.drop role e) h r := by
  -- what follows once the notes are those of the drops so far
  have hco : ∀ (h1 : List (ShardCall κ)) (r1 : Runtime κ) (s1 : Shard), log h1 = log h →
      s1.owed = (unreported (log h)).length → Noted s1 (unreported (log h)) → SameConnection s s1 →
      Safe (streamWorld consumer) (shards κ) i c post
        (countDrop role e >>= fun _ => pure { s1.note e with owed := s1.owed + 1 }) h1 r1 := by
    intro h1 r1 s1 hlog hod hnt hsame
    refine .bind (safe_countDrop (hlog ▸ hmay) fun h2 r2 hlog2 => ?_)
    rw [hlog] at hlog2
    refine hps h2 r2 _ hlog2 ?_ (hsame.trans (sameConnection_note s1 e _))
    rw [hlog2, unreported_snoc]
    refine ⟨?_, fun _ => ?_⟩
    · simp [owe, hod]
    · have hno := hnt.note e
      exact ⟨hno.unset, hno.range, hno.state⟩
  unfold Shard.drop
  by_cases hzr : s.owed = 0
  · have hnil := hos.eq_nil hzr
    rw [if_pos hzr, map_eq_pure_bind, bind_assoc]
    refine .bind (safe_now fun h1 r1 time hlog => ?_)
    refine hco h1 r1 (s.fresh time) hlog ?_ ?_ ⟨rfl, rfl⟩
    · rw [hnil]
      exact hzr
    · rw [hnil]
      exact Noted.fresh s time
  · have hne : unreported (log h) ≠ [] := by
      intro hnil
      exact hzr (by rw [hos.owed, hnil]; rfl)
    rw [if_neg hzr]
    exact hco h r s rfl hos.owed (hos.noted hne) (.refl s)

structure Ready (s : Shard) (log : List Entry) : Prop where
  owes : Owes s (unreported log)
  settled : awaiting log = none

structure After (e : Event) (log log' : List Entry) : Prop where
  emitted : log'.filterMap Entry.emitted = log.filterMap Entry.emitted ++ [e]

theorem After.dropped {log log1 : List Entry} (h : log1.filterMap Entry.emitted = log.filterMap Entry.emitted) :
    After e log (log1 ++ [.dropped .event e]) :=
  ⟨by rw [filterMap_append, h]; rfl⟩

theorem After.delivered {log log1 : List Entry}
    (h : log1.filterMap Entry.emitted = log.filterMap Entry.emitted) : After e log (log1 ++ [.delivered .event e]) :=
  ⟨by rw [filterMap_append, h]; rfl⟩

variable {q : Shard} {log0 : List Entry} {post : List (ShardCall κ) → Runtime κ → Except Empty Shard → Prop}

section

variable (hrd : Ready s (log h)) (hsame : SameConnection q s)
  (hem : (log h).filterMap Entry.emitted = log0.filterMap Entry.emitted)
  (hps : ∀ h' r' s', Ready s' (log h') → SameConnection q s' → After e log0 (log h') → post h' r' (.ok s'))

include hrd hsame hem hps

theorem safe_drop_event : Safe (streamWorld consumer) (shards κ) i c post (s.drop .event e) h r := by
  refine safe_drop hrd.settled hrd.owes fun h1 r1 s1 hlog hos hsame1 => ?_
  refine hps h1 r1 s1 ⟨hos, ?_⟩ (hsame.trans hsame1) ?_
  · rw [hlog, awaiting_snoc]
    rfl
  · rw [hlog]
    exact .dropped hem

theorem safe_pass (hzr : s.owed = 0) : Safe (streamWorld consumer) (shards κ) i c post (s.pass e) h r := by
  have hnil := hrd.owes.eq_nil hzr
  refine .bind (safe_send ⟨hrd.settled, hnil⟩ (fun h1 r1 hlog => ?_) fun h1 r1 hlog => ?_)
  · refine hps h1 r1 s ⟨?_, ?_⟩ hsame ?_
    · rw [hlog, unreported_snoc, hnil]
      exact Owes.nil hzr
    · rw [hlog, awaiting_snoc]
      rfl
    · rw [hlog]
      exact .delivered hem
  · rw [← hlog] at hrd hem
    exact safe_drop_event hrd hsame hem hps

end

theorem safe_emit (hrd : Ready s (log h)) (hsy : s.symbols = c.symbols)
    (hps : ∀ h' r' s', Ready s' (log h') → SameConnection s s' → After e (log h) (log h') → post h' r' (.ok s')) :
    Safe (streamWorld consumer) (shards κ) i c post (emit s e) h r := by
  unfold emit
  by_cases hpos : 0 < s.owed
  · rw [if_pos hpos]
    refine .bind (safe_now fun h1 r1 time hlog1 => ?_)
    refine .bind (safe_send ?_ (fun h2 r2 hlog2 => ?_) fun h2 r2 hlog2 => ?_)
    · rw [hlog1]
      exact ⟨hrd.settled, _, rfl, hsy, hrd.owes.describes hpos time⟩
    · -- the report went out
      rw [hlog1] at hlog2
      have hem : (log h2).filterMap Entry.emitted = (log h).filterMap Entry.emitted := by
        rw [hlog2, filterMap_append]
        exact append_nil _
      have hos : Owes { s with owed := 0 } (unreported (log h2)) := by
        rw [hlog2, unreported_snoc]
        exact Owes.nil rfl
      by_cases hlive : (s.owedState && decide (s.subscribedSession ≠ "")) = true
      · -- the subscription has to be confirmed
        rw [if_pos hlive]
        simp only [Bool.and_eq_true, decide_eq_true_eq] at hlive
        have haw : awaiting (log h2) = some s.subscribedSession := by
          rw [hlog2, awaiting_snoc]
          exact if_pos hlive
        refine .bind (safe_now fun h3 r3 time' hlog3 => ?_)
        have hcn : Confirms s.subscribedSession
            (.lifecycle (({ s with owed := 0 } : Shard).confirmation time')) := ⟨_, rfl, rfl, rfl⟩
        rw [← hlog3] at hem hos haw
        refine .bind (safe_send ⟨_, haw, hcn⟩ (fun h4 r4 hlog4 => ?_) fun h4 r4 hlog4 => ?_)
        · have hrd4 : Ready { s with owed := 0 } (log h4) := by
            rw [hlog4]
            exact ⟨by rw [unreported_snoc]; exact hos, by rw [awaiting_snoc]; rfl⟩
          refine safe_pass (q := s) hrd4 ⟨rfl, rfl⟩ ?_ hps rfl
          rw [hlog4, filterMap_append, hem]
          exact append_nil _
        · -- neither the confirmation nor the event found a place
          rw [← hlog4] at hem hos haw
          refine .bind (safe_drop ⟨_, haw, hcn⟩ hos fun h5 r5 s5 hlog5 hos5 hsame5 => ?_)
          refine safe_drop_event (q := s) ⟨hos5, ?_⟩ ⟨hsame5.symbols, hsame5.session⟩ ?_ hps
          · rw [hlog5, awaiting_snoc]
            rfl
          · rw [hlog5, filterMap_append, hem]
            exact append_nil _
      · rw [if_neg hlive]
        have hsettled : awaiting (log h2) = none := by
          rw [hlog2, awaiting_snoc]
          refine if_neg fun hbt => hlive ?_
          simpa [Shard.overflow] using hbt
        exact safe_pass (q := s) ⟨hos, hsettled⟩ ⟨rfl, rfl⟩ hem hps rfl
    · -- the report found no place, so the event is dropped without a try
      rw [hlog1] at hlog2
      rw [← hlog2] at hrd hps
      exact safe_drop_event hrd (.refl s) rfl hps
  · rw [if_neg hpos]
    exact safe_pass hrd (.refl s) rfl hps (by omega)

theorem safe_runShard {done : List Event} (work : List Work) (hrd : Ready s (log h))
    (hsy : s.symbols = c.symbols) (hdn : (log h).filterMap Entry.emitted = done) :
    Safe (streamWorld consumer) (shards κ) i c (fun h' _ res => ∀ s', res = .ok s' → Ready s' (log h') ∧
      (log h').filterMap Entry.emitted = done ++ work.filterMap Work.event) (runShard s work) h r := by
  -- on the work that is left; between two pieces of it the shard is ready
  induction work generalizing h r s done with
  | nil =>
    intro s' hs'
    cases hs'
    exact ⟨hrd, by rw [hdn]; exact (append_nil _).symm⟩
  | cons w work ih =>
    cases w with
    | session id => exact ih ⟨⟨hrd.owes.owed, fun hne =>
        have hnt := hrd.owes.noted hne
        ⟨hnt.unset, hnt.range, hnt.state⟩⟩, hrd.settled⟩ hsy hdn
    | emit e =>
      refine .bind (safe_emit hrd hsy fun h1 r1 s1 hrd1 hsame haf => ?_)
      refine .mono (fun h' r' res hres s' hs' => ?_)
        (ih hrd1 (hsame.symbols.trans hsy) (haf.emitted.trans (by rw [hdn])))
      obtain ⟨hrd', hlog⟩ := hres s' hs'
      exact ⟨hrd', by rw [hlog, append_assoc]; rfl⟩

end

theorem shards_sound (consumer : Consumer κ X) : Sound (streamWorld consumer) main (shards κ)
    fun _ c h _ res => ∀ s, res = .ok s → Ready s (log h) ∧
      (log h).filterMap Entry.emitted = c.work.filterMap Work.event where
  refl _ _ := trivial
  trans _ _ _ _ _ _ := trivial
  env _ _ _ := ⟨trivial, fun _ => trivial⟩
  crash _ _ _ := ⟨trivial, fun _ _ => trivial⟩
  start i c r _ := by
    have hsf : Safe (streamWorld consumer) (shards κ) i c (fun h' _ res => ∀ s', res = .ok s' → Ready s' (log h') ∧
        (log h').filterMap Entry.emitted = [] ++ c.work.filterMap Work.event) c.main [] r :=
      safe_runShard c.work ⟨Owes.nil rfl, rfl⟩ rfl rfl
    exact hsf

theorem may_of_log {h : List (ShardCall κ)} (hcl : ∀ n x, h[n]? = some x → May symbols (log (h.take n)) x.op)
    {pre post : List Entry} {x : Entry} (hlog : log h = pre ++ x :: post) : May symbols pre x.op := by
  obtain ⟨h1, h2, rfl, hpre, hrs⟩ := filterMap_eq_append_iff.1 hlog
  -- the call of the entry, after calls that left no entry
  obtain ⟨h3, y, h4, rfl, hnn, hy, -⟩ := filterMap_eq_cons_iff.1 hrs
  have hop : y.op = x.op := by
    revert hy
    obtain ⟨before, op, answer⟩ := y
    cases op with
    | now => intro hy; cases hy
    | countDrop role e =>
      intro hy
      cases hy
      rfl
    | send role e =>
      match answer with
      | .ok true =>
        intro hy
        cases hy
        rfl
      | .ok false => intro hy; cases hy
  have hmay := hcl (h1 ++ h3).length y (by simp [← append_assoc])
  have htk : (h1 ++ (h3 ++ y :: h4)).take (h1 ++ h3).length = h1 ++ h3 := by
    rw [← append_assoc, take_left]
  have hsk : log (h1 ++ h3) = pre := by
    unfold log
    rw [filterMap_append, hpre, filterMap_eq_nil_iff.2 hnn, append_nil]
  rw [htk, hsk, hop] at hmay
  exact hmay

def Runtime.stream (r : Runtime κ) (i : ℕ) : List Event :=
  ((r.taken ++ r.events).filter fun x => x.1 = i).map Prod.snd

theorem stream_receive (consumer : Consumer κ X) (r : Runtime κ) (x : Receive X) (i : ℕ) :
    (r.receive consumer x).stream i = r.stream i := by
  cases x with
  | act => rfl
  | next =>
    unfold receive
    cases hen : r.events with
    | nil => rfl
    | cons y rest =>
      simp only [stream, hen, append_assoc, cons_append, nil_append]

theorem stream_answer (r : Runtime κ) (i j : ℕ) (o : Op) (time : ℤ) : (r.answer i o time).2.stream j = r.stream j ++
      if j = i then ((entry ⟨r, o, (r.answer i o time).1⟩).bind sent).toList else [] := by
  cases o with
  | now => simp [answer, entry]
  | countDrop => simp [answer, entry, sent, stream]
  | send role e =>
    by_cases hfree : r.events.length < r.capacity
    · have han : r.answer i (.send role e) time = (.ok true, { r with events := r.events ++ [(i, e)] }) := if_pos hfree
      rw [han]
      by_cases hj : j = i
      · subst hj
        simp [stream, entry, sent, filter_append]
      · have hi : i ≠ j := Ne.symm hj
        simp [stream, filter_append, hj, hi]
    · have han : r.answer i (.send role e) time = (.ok false, r) := if_neg hfree
      rw [han]
      simp [entry]

structure Streamed (cfg : Config (Runtime κ) Empty Op Op.Ans Connection Shard) : Prop where
  thread : ∀ i t, cfg.threads[i]? = some t → cfg.state.stream i = (log t.history).filterMap sent
  none : ∀ i, cfg.threads.length ≤ i → cfg.state.stream i = []

theorem Streamed.step (consumer : Consumer κ X) {cfg : Config (Runtime κ) Empty Op Op.Ans Connection Shard}
    (hcfg : Streamed cfg) (m : Move Connection ℤ (Receive X)) :
    Streamed (cfg.step (streamWorld consumer) main m) := by
  cases m with
  | start c =>
    refine ⟨fun i t ht => ?_, fun i hi => hcfg.none i ?_⟩
    · rcases getElem?_snoc ht with ⟨-, ht⟩ | ⟨rfl, rfl⟩
      · exact hcfg.thread i t ht
      · exact hcfg.none _ le_rfl
    · simp only [Config.step, length_append, length_singleton] at hi
      omega
  | env x =>
    have hst : ∀ i, ((streamWorld consumer).env cfg.state x).stream i = cfg.state.stream i :=
      stream_receive consumer cfg.state x
    exact ⟨fun i t ht => (hst i).trans (hcfg.thread i t ht), fun i hi => (hst i).trans (hcfg.none i hi)⟩
  | crash i =>
    simp only [Config.step]
    split
    · rename_i c h p hthread
      refine ⟨fun j t ht => ?_, fun j hj => hcfg.none j (by simpa using hj)⟩
      rcases getElem?_set_cases ht with ⟨rfl, rfl⟩ | ⟨-, ht⟩
      · exact hcfg.thread j ⟨c, h, some p⟩ hthread
      · exact hcfg.thread j t ht
    · exact hcfg
  | call i time =>
    simp only [Config.step]
    split
    · rename_i c h o k hthread
      have hlt := (List.getElem?_eq_some_iff.1 hthread).1
      have han := fun j => stream_answer cfg.state i j o time
      refine ⟨fun j t ht => (han j).trans ?_, fun j hj => (han j).trans ?_⟩
      · rcases getElem?_set_cases ht with ⟨rfl, rfl⟩ | ⟨hj, ht⟩
        · rw [if_pos rfl, hcfg.thread j _ hthread, log_snoc, filterMap_append]
          congr 1
          show _ = filterMap sent (entry ⟨cfg.state, o, (cfg.state.answer j o time).1⟩).toList
          cases entry ⟨cfg.state, o, (cfg.state.answer j o time).1⟩ with
          | none => rfl
          | some x => cases hsn : x.sent <;> simp [hsn]
        · rw [if_neg hj, append_nil]
          exact hcfg.thread j t ht
      · have hj' : cfg.threads.length ≤ j := by simpa using hj
        rw [if_neg (by omega), append_nil]
        exact hcfg.none j hj'
    · exact hcfg

def Runtime.new (capacity : ℕ) (consumer : κ) : Runtime κ where
  capacity := capacity
  consumer := consumer

theorem streamed_run (consumer : Consumer κ X) (capacity : ℕ) (k : κ) (moves : List (Move Connection ℤ (Receive X))) :
    Streamed (Config.run (streamWorld consumer) main ⟨Runtime.new capacity k, []⟩ moves) := by
  have hrun : ∀ (moves : List (Move Connection ℤ (Receive X)))
      (cfg : Config (Runtime κ) Empty Op Op.Ans Connection Shard), Streamed cfg →
      Streamed (cfg.run (streamWorld consumer) main moves) := by
    intro moves
    induction moves with
    | nil => exact fun cfg hcfg => hcfg
    | cons m moves ih => exact fun cfg hcfg => ih _ (hcfg.step consumer m)
  exact hrun moves _ ⟨fun i t ht => by simp at ht, fun i _ => rfl⟩

theorem mem_unreported {pre mid : List Entry} (hmid : ∀ session x, .delivered (.report session) x ∉ mid) :
    e ∈ unreported (pre ++ .dropped role e :: mid) := by
  induction mid using reverseRecOn with
  | nil => simp [owe]
  | append_singleton mid x ih =>
    rw [← cons_append, ← append_assoc, unreported_snoc]
    have hmem := ih fun session y hy => hmid session y (mem_append_left _ hy)
    match x with
    | .delivered (.report session) y => exact absurd (by simp) (hmid session y)
    | .delivered .event y => exact hmem
    | .delivered .confirm y => exact hmem
    | .dropped role' y => exact mem_append_left _ hmem

theorem reports_add_unreported {log : List Entry}
    (hds : ∀ pre session e post, log = pre ++ .delivered (.report session) e :: post →
      ∃ l, e = .lifecycle l ∧ Describes l (unreported pre)) :
    (log.map reports).sum + (unreported log).length = log.countP isDrop := by
  induction log using reverseRecOn with
  | nil => rfl
  | append_singleton log x ih =>
    have hlog := ih fun pre session e post h => hds pre session e (post ++ [x]) (by rw [h]; simp)
    rw [map_append, sum_append, unreported_snoc, countP_append]
    match x with
    | .delivered (.report session) e =>
      obtain ⟨l, rfl, hl⟩ := hds log session e [] rfl
      have hdr := hl.dropped
      simp only [map_cons, map_nil, reports, sum_singleton, owe, length_nil,
        countP_cons, countP_nil, isDrop]
      simp
      omega
    | .delivered .event e =>
      simp [reports, owe, isDrop]
      omega
    | .delivered .confirm e =>
      simp [reports, owe, isDrop]
      omega
    | .dropped role e =>
      simp [reports, owe, isDrop]
      omega

/-- How the events that a shard put on the queue relate to those it emitted. -/
structure Accounted (emitted : List Event) (owed : ℕ) (stream : List Event) (log : List Entry) : Prop where
  /-- What the shard put on the queue, in order. -/
  stream : stream = log.filterMap sent
  /-- Every emitted event was delivered or dropped, in the order of emission. -/
  emitted : log.filterMap Entry.emitted = emitted
  /-- What else was delivered is a report of all drops since the one before it, -/
  reported : ∀ pre session e post, log = pre ++ .delivered (.report session) e :: post →
    ∃ l, e = .lifecycle l ∧ Describes l (unreported pre)
  /-- or the confirmation of a subscription. -/
  confirms : ∀ e, .delivered .confirm e ∈ log → ∃ session, Confirms session e
  /-- No event passes a drop that was not reported. -/
  between : ∀ pre role e mid e' post, log = pre ++ .dropped role e :: (mid ++ .delivered .event e' :: post) →
    ∃ session x, .delivered (.report session) x ∈ mid
  /-- Every drop is reported or owed, and none twice. -/
  counted : (log.map reports).sum + owed = log.countP isDrop
  /-- A live subscription is confirmed right after a report of a lost state, or its confirmation is dropped. -/
  confirmed : ∀ pre session l post, log = pre ++ .delivered (.report session) (.lifecycle l) :: post →
    l.droppedState = true → session ≠ "" → ∃ e rest, Confirms session e ∧
      (post = .delivered .confirm e :: rest ∨ post = .dropped .confirm e :: rest)

theorem confirmed_of_may {log : List Entry} (hsettled : awaiting log = none)
    (hmay : ∀ pre x post, log = pre ++ x :: post → May symbols pre x.op) {pre post : List Entry} {session : String}
    {l : Lifecycle} (hlog : log = pre ++ .delivered (.report session) (.lifecycle l) :: post)
    (hstt : l.droppedState = true) (hlive : session ≠ "") : ∃ e rest, Confirms session e ∧
      (post = .delivered .confirm e :: rest ∨ post = .dropped .confirm e :: rest) := by
  have haw : awaiting (pre ++ [.delivered (.report session) (.lifecycle l)]) = some session := by
    rw [awaiting_snoc]
    exact if_pos ⟨hstt, hlive⟩
  cases post with
  | nil =>
    -- the log does not end there
    rw [hlog, haw] at hsettled
    cases hsettled
  | cons x rest =>
    have hnx := hmay (pre ++ [.delivered (.report session) (.lifecycle l)]) x rest (by rw [hlog]; simp)
    match x with
    | .delivered .event e => rw [op, May, haw] at hnx; cases hnx.1
    | .delivered (.report _) e => rw [op, May, haw] at hnx; cases hnx.1
    | .dropped .event e => rw [op, May, haw] at hnx; cases hnx
    | .dropped (.report _) e => exact hnx.elim
    | .delivered .confirm e =>
      obtain ⟨session', heq, hcn⟩ := hnx
      obtain rfl := Option.some.inj (haw.symm.trans heq)
      exact ⟨e, rest, hcn, .inl rfl⟩
    | .dropped .confirm e =>
      obtain ⟨session', heq, hcn⟩ := hnx
      obtain rfl := Option.some.inj (haw.symm.trans heq)
      exact ⟨e, rest, hcn, .inr rfl⟩

/-- **The bounded queue never loses an event silently**: once a shard's emissions are through, they are accounted for.
-/
theorem emit_accounted (consumer : Consumer κ X) (capacity : ℕ) (k : κ)
    (moves : List (Move Connection ℤ (Receive X))) (i : ℕ) (c : Connection) (h : List (ShardCall κ)) (s : Shard)
    (hreturned : (Config.run (streamWorld consumer) Connection.main ⟨Runtime.new capacity k, []⟩ moves).threads[i]? =
      some ⟨c, h, some (.ret s)⟩) :
    Accounted (c.work.filterMap Work.event) s.owed
      ((Config.run (streamWorld consumer) Connection.main ⟨Runtime.new capacity k, []⟩ moves).state.stream i)
      (log h) := by
  have hthread := ((shards_sound consumer).reached (s := new capacity k) trivial moves).threads i _ hreturned
  have hmay : ∀ pre x post, log h = pre ++ x :: post → May c.symbols pre x.op :=
    fun pre x post hlog => may_of_log hthread.calls hlog
  obtain ⟨_, -, hpost⟩ := hthread.safe _ rfl
  obtain ⟨hready, hemitted⟩ := hpost s rfl
  have hreported : ∀ pre session e post, log h = pre ++ .delivered (.report session) e :: post →
      ∃ l, e = .lifecycle l ∧ Describes l (unreported pre) := by
    intro pre session e post hlog
    obtain ⟨-, l, rfl, -, hdescribes⟩ := hmay pre _ post hlog
    exact ⟨l, rfl, hdescribes⟩
  refine ⟨(streamed_run consumer capacity k moves).thread i _ hreturned, hemitted, hreported, ?_, ?_, ?_, ?_⟩
  · intro e he
    obtain ⟨pre, post, hlog⟩ := append_of_mem he
    obtain ⟨session, -, hconfirms⟩ := hmay pre _ post hlog
    exact ⟨session, hconfirms⟩
  · intro pre role e mid e' post hlog
    by_contra hnone
    push Not at hnone
    obtain ⟨-, hnil⟩ := hmay (pre ++ .dropped role e :: mid) (.delivered .event e') post (by rw [hlog]; simp)
    have hmem : e ∈ unreported (pre ++ .dropped role e :: mid) := mem_unreported hnone
    rw [hnil] at hmem
    cases hmem
  · rw [hready.owes.owed]
    exact reports_add_unreported hreported
  · exact fun pre session l post hlog => confirmed_of_may hready.settled hmay hlog

/-! Three trades through a queue of one place. -/

def sampleTrade (n : ℕ) : Trade where
  exchange := "bybit"
  symbol := "AAAUSDT"
  tradeId := "t"
  side := .buy
  price := 1
  size := 1
  notional := 1
  eventAt := unixEpoch + 1 + n
  receivedAt := unixEpoch + 1 + n
  seq := 0
  eventAt_epoch := by omega

def idleConsumer : Consumer Unit Empty := ⟨fun _ _ => (), fun _ x => x.elim⟩

def threeTrades : List (Move Connection ℤ (Receive Empty)) :=
  [.start ⟨0, ["AAAUSDT"], [.emit (.trade (sampleTrade 0)), .emit (.trade (sampleTrade 1)),
      .emit (.trade (sampleTrade 2))]⟩,
    .call 0 1, .call 0 1, .call 0 1, .call 0 1, .env .next, .call 0 1, .call 0 1, .call 0 1, .call 0 1, .call 0 1]

theorem threeTrades_accounted : ∃ c h s, (Config.run (streamWorld idleConsumer) Connection.main
      ⟨Runtime.new 1 (), []⟩ threeTrades).threads[0]? = some ⟨c, h, some (.ret s)⟩ ∧
    Accounted (c.work.filterMap Work.event) s.owed ((Config.run (streamWorld idleConsumer) Connection.main
      ⟨Runtime.new 1 (), []⟩ threeTrades).state.stream 0) (log h) ∧ s.owed = 1 :=
  ⟨_, _, _, rfl, emit_accounted idleConsumer 1 () threeTrades 0 _ _ _ rfl, rfl⟩

end Schurfer.Streamrt
