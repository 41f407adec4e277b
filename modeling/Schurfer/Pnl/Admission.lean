import Schurfer.Pnl.Tracker

/-!
# No entry on stale journal figures

The lease in Redis is *legit*: the journal is what transactions made of the journal its snapshot was read from. A tick
and a check rely on the journal only getting later.
-/

namespace Schurfer.Pnl

open Threads Journal.Later

variable {snapshot : Option Origin} {o : Op} {lease : Option PnlLease}

abbrev History := List (Call State Failure Op Ans)

/-- The lease was built from a snapshot without a blocker, of a journal the current one is later
than. A lease without a generation admits nothing where there is a database. -/
def LeaseText.Legit (j : Journal) : LeaseText → Prop
  | .encoded lease origin => ∀ generation, lease.generation = some generation →
      ∃ o, origin = some o ∧ o.snapshot.generation = generation ∧ o.snapshot.blocker = none ∧
        o.journal.PaperClean ∧ o.journal.Later j
  | .malformed => True

theorem LeaseText.Legit.later {j j' : Journal} {text : LeaseText} (h : text.Legit j) (hj : j.Later j') :
    text.Legit j' := by
  cases text with
  | malformed => trivial
  | encoded lease origin =>
    intro generation hgen
    obtain ⟨o, ho, hog, hb, hcl, hlater⟩ := h generation hgen
    exact ⟨o, ho, hog, hb, hcl, hlater.trans hj⟩

/-- What the check found: the lease it read, with its origin, and the state it read the generation
in. -/
def FreshAdmission (history : History) : Prop :=
  ∃ (before : State) (lease : PnlLease) (origin : Origin) (read : State),
    history = [⟨before, .getLease, .ok (some (.encoded lease (some origin)))⟩,
      ⟨read, .pnlGeneration, .ok (some read.journal.generation)⟩] ∧
    lease.generation = some origin.snapshot.generation ∧
    origin.snapshot.blocker = none ∧
    read.journal.inputs origin.startOfDay = origin.journal.inputs origin.startOfDay

def contract : Contract State Failure Op Ans Job where
  inv s := s.journal.PaperClean ∧ ∀ text ∈ s.lease, text.Legit s.journal
  rely _ s s' := s.journal.Later s'.journal
  pre _ _ _ _ _ := True

def outcome (_ : ℕ) (job : Job) (history : History) (_ : State) (r : Except Failure (Option RiskCheck)) : Prop :=
  ∀ limit check, job = .check true limit → r = .ok (some check) → check.allowed = true →
    FreshAdmission history

section

variable {i : ℕ} {job : Job} {h : History} {s : State} {post : Post State Failure Op Ans
  (Ans o)}

theorem safe_call
    (hca : ∀ s1, s.journal.Later s1.journal → contract.inv s1 → ∀ c, (answer s1 o c).2.journal = s1.journal ∧
      (∀ text ∈ (answer s1 o c).2.lease, text.Legit s1.journal) ∧
      post (h ++ [⟨s1, o, (answer s1 o c).1⟩]) (answer s1 o c).2 (answer s1 o c).1) :
    Safe world contract i job post (call o) h s := by
  refine .perform fun s1 hrl hinv => ⟨trivial, fun c => ?_⟩
  obtain ⟨hjr, hls, hps⟩ := hca s1 hrl hinv c
  refine ⟨⟨?_, ?_⟩, fun j _ => ?_, hps⟩
  · exact hjr ▸ hinv.1
  · exact hjr ▸ hls
  · change s1.journal.Later (answer s1 o c).2.journal
    rw [hjr]
    exact refl s1.journal

def Op.isQuiet : Op → Bool
  | .setLease _ _ => false
  | _ => true

theorem answer_quiet (hq : o.isQuiet = true) (s : State) (c : Chance) :
    (answer s o c).2.journal = s.journal ∧ ∀ text ∈ (answer s o c).2.lease, text ∈ s.lease := by
  cases o with
  | setLease => simp [Op.isQuiet] at hq
  | deleteLease | setDailyPnl =>
    simp only [answer, wrote]
    split
    · split <;> simp
    · simp
  | _ => simp [answer, readAs]

theorem safe_quiet (hq : o.isQuiet = true)
    (hps : ∀ h' s' r, s.journal.Later s'.journal → post h' s' r) : Safe world contract i job post (call o) h s := by
  refine safe_call fun s1 hlater hinv c => ?_
  obtain ⟨hjr, hls⟩ := answer_quiet hq s1 c
  refine ⟨hjr, fun text ht => hinv.2 text (hls text ht), hps _ _ _ ?_⟩
  rw [hjr]
  exact hlater

theorem answer_setLease (s : State) (lease : PnlLease) (origin : Option Origin) (c : Chance) :
    (answer s (.setLease lease origin) c).2 = s ∨
      (answer s (.setLease lease origin) c).2 = { s with lease := some (.encoded lease origin) } := by
  simp only [answer, wrote]
  split
  · split
    · exact .inr rfl
    · exact .inl rfl
  · exact .inr rfl

def SnapshotOk (s : State) (snapshot : Option Origin) : Prop :=
  ∀ o ∈ snapshot, o.snapshot.blocker = none ∧ o.journal.PaperClean ∧ o.journal.Later s.journal

theorem SnapshotOk.later {s s' : State} (hs : SnapshotOk s snapshot)
    (hlater : s.journal.Later s'.journal) : SnapshotOk s' snapshot := by
  intro o ho
  obtain ⟨hb, hcl, hj⟩ := hs o ho
  exact ⟨hb, hcl, hj.trans hlater⟩

theorem safe_setLease (hs : SnapshotOk s snapshot) (dailyPnl : ℚ) {post : Post State Failure Op Ans Unit}
    (hps : ∀ h' s' r, s.journal.Later s'.journal → post h' s' r) : Safe world contract i job post
      (call (.setLease ⟨snapshot.map (·.snapshot.generation), dailyPnl⟩ snapshot)) h s := by
  refine safe_call fun s1 hlater hinv c => ?_
  have hlg : LeaseText.Legit s1.journal (.encoded ⟨snapshot.map (·.snapshot.generation), dailyPnl⟩ snapshot) := by
    intro generation hgen
    obtain ⟨o, ho, hog⟩ := Option.map_eq_some_iff.1 hgen
    obtain ⟨hb, hcl, hj⟩ := hs.later hlater o ho
    exact ⟨o, ho, hog, hb, hcl, hj⟩
  rcases answer_setLease s1 ⟨snapshot.map (·.snapshot.generation), dailyPnl⟩ snapshot c with hsame | hnew
  · rw [hsame]
    exact ⟨rfl, hinv.2, hps _ _ _ hlater⟩
  · rw [hnew]
    refine ⟨rfl, fun text ht => ?_, hps _ _ _ hlater⟩
    cases ht
    exact hlg

theorem safe_read {value : State → Chance → Ans o} (hre : ∀ s c, answer s o c = readAs c s (value s c))
    (hok : ∀ s1 c, s.journal.Later s1.journal → contract.inv s1 →
      post (h ++ [⟨s1, o, .ok (value s1 c)⟩]) s1 (.ok (value s1 c))) (hrs : ∀ s1 h', post h' s1 (.error .raised)) :
    Safe world contract i job post (call o) h s := by
  refine safe_call fun s1 hlater hinv c => ?_
  rw [hre s1 c]
  refine ⟨rfl, hinv.2, ?_⟩
  unfold readAs
  cases c.raises with
  | true => exact hrs s1 _
  | false => exact hok s1 c hlater hinv

end

section

variable {i : ℕ} {job : Job} {h : History} {s : State} {database : Bool}

abbrev Harmless (i : ℕ) (job : Job) (p : Program Unit) (h : History) (s : State) : Prop :=
  Safe world contract i job (fun _ _ _ => True) p h s

theorem harmless_quiet (hq : o.isQuiet = true) : Safe world contract i job (fun _ _ _ => True) (call o) h s :=
  safe_quiet hq fun _ _ _ _ => trivial

theorem harmless_publish (hs : SnapshotOk s snapshot)
    (unrealized : ℚ) : Harmless i job (publish database snapshot unrealized) h s := by
  refine .bind (safe_quiet rfl fun h1 s1 r hlater => ?_)
  cases r with
  | error => trivial
  | ok _ =>
  refine .bind (safe_setLease (hs.later hlater) _ fun h2 s2 r _ => ?_)
  cases r with
  | error => trivial
  | ok _ =>
  cases database with
  | false => trivial
  | true =>
  refine .bind (safe_quiet rfl fun h3 s3 r _ => ?_)
  cases r with
  | error => trivial
  | ok pending =>
  cases pending with
  | true => exact harmless_quiet rfl
  | false =>
  refine .bind (safe_quiet rfl fun h4 s4 r _ => ?_)
  cases r with
  | error => trivial
  | ok current =>
  simp only
  split
  · exact harmless_quiet rfl
  · trivial

theorem harmless_tick : Harmless i job (tick database) h s := by
  refine .bind (safe_quiet rfl fun h1 s1 r _ => ?_)
  cases r with
  | error => trivial
  | ok found =>
  simp only
  split
  · exact harmless_quiet rfl
  split
  · exact harmless_publish (fun o ho => by simp at ho) _
  refine .bind (safe_read (fun _ _ => rfl) (fun s2 c _ hinv => ?_) fun _ _ => trivial)
  simp only
  split
  · exact harmless_quiet rfl
  rename_i origin hor
  -- the snapshot is of the journal at this call
  have hjr : origin.journal = s2.journal := by
    split at hor
    · rw [← Option.some.inj hor]
    · simp at hor
  refine .bind (safe_quiet rfl fun h3 s3 r hlater => ?_)
  cases r with
  | error => trivial
  | ok pending =>
  cases pending with
  | true => exact harmless_quiet rfl
  | false =>
  simp only [Bool.false_eq_true, if_false]
  split
  · exact harmless_quiet rfl
  · rename_i hbl
    refine harmless_publish (fun o ho => ?_) _
    cases ho
    exact ⟨not_not.1 hbl, hjr ▸ hinv.1, hjr ▸ hlater⟩

theorem pnlLeaseFlag_some {current : Option ℤ} {flag : String} (h : pnlLeaseFlag lease current true = some flag) :
    ∃ l generation, lease = some l ∧ l.generation = some generation ∧ current = some generation := by
  unfold pnlLeaseFlag at h
  split at h
  · cases h
  rename_i l
  rw [if_neg (by simp)] at h
  split at h
  · rename_i generation now hgen
    split at h
    · rename_i heq
      exact ⟨l, generation, rfl, hgen, by rw [heq]⟩
    · cases h
  · cases h

theorem leaseAdmits_allowed {current : Option ℤ} {limit : ℚ}
    (h : (leaseAdmits lease current true limit).allowed = true) :
    ∃ l generation, lease = some l ∧ l.generation = some generation ∧ current = some generation := by
  have hfl : pnlLeaseFlag lease current true = some "1" := by
    by_contra hne
    have hrd : checkPnlDataAvailable (pnlLeaseFlag lease current true) = .refused .pnlNotFresh :=
      if_pos hne
    unfold leaseAdmits at h
    rw [hrd] at h
    cases h
  exact pnlLeaseFlag_some hfl

theorem LeaseText.Legit.current {j : Journal} (hj : j.PaperClean) {lease : PnlLease} {origin : Option Origin}
    (h : (LeaseText.encoded lease origin).Legit j) (hgen : lease.generation = some j.generation) :
    ∃ o, origin = some o ∧ lease.generation = some o.snapshot.generation ∧ o.snapshot.blocker = none ∧
      j.inputs o.startOfDay = o.journal.inputs o.startOfDay := by
  obtain ⟨o, ho, hog, hb, hcl, hlater⟩ := h j.generation hgen
  refine ⟨o, ho, by rw [hgen, hog], hb, ?_⟩
  exact inputs_eq_of_view hcl hj (hlater.2 hog.symm) o.startOfDay

theorem safe_check (limit : ℚ) : Safe world contract i (.check true limit) (outcome i (.check true limit))
    (Job.program (.check true limit)) [] s := by
  have hvc : ∀ (h : History) (s : State) (e : Failure),
      outcome i (.check true limit) h s (.error e) := by
    intro h s e limit' check _ hr
    simp at hr
  unfold Job.program pnlAdmitsEntry
  simp only [map_eq_pure_bind, bind_assoc, if_true]
  refine .bind (safe_read (fun _ _ => rfl) (fun s1 c1 _ hinv1 => ?_) fun _ _ => hvc _ _ _)
  refine .bind (safe_read (fun _ _ => rfl) (fun s2 c2 hlater hinv2 => ?_) fun _ _ => hvc _ _ _)
  intro limit' check _ hr hal
  cases hr
  obtain ⟨l, generation, hl, hln, hcur⟩ := leaseAdmits_allowed hal
  cases hte : s1.lease with
  | none => simp [hte, LeaseText.decode] at hl
  | some text =>
  cases text with
  | malformed => simp [hte, LeaseText.decode] at hl
  | encoded lease origin =>
  have hls : lease = l := by simpa [hte, LeaseText.decode] using hl
  have hgen : generation = s2.journal.generation := by
    split at hcur
    · exact (Option.some.inj hcur).symm
    · simp at hcur
  -- the lease read was legit, and the journal only got later since
  have hlg := (hinv1.2 _ hte).later hlater
  obtain ⟨o, rfl, hog, hb, hin⟩ := hlg.current hinv2.1 (by rw [hls, hln, hgen])
  refine ⟨s1, lease, o, s2, ?_, hog, hb, hin⟩
  rw [hcur, hgen]
  rfl

end

theorem State.happens_later (s : State) (e : Event) (hinv : contract.inv s) :
    contract.inv (s.happens e) ∧ s.journal.Later (s.happens e).journal := by
  cases e with
  | commit changes =>
    simp only [State.happens]
    split
    · rename_i journal hap
      have hlater := Journal.applyAll_later hap
      split
      · rename_i hcl
        exact ⟨⟨hcl, fun text ht => (hinv.2 text ht).later hlater⟩, hlater⟩
      · exact ⟨hinv, refl _⟩
    · exact ⟨hinv, refl _⟩
  | loseLease => exact ⟨⟨hinv.1, fun text ht => by simp [State.happens] at ht⟩, refl _⟩
  | garbleLease =>
    refine ⟨⟨hinv.1, fun text ht => ?_⟩, refl _⟩
    cases ht
    trivial

theorem outcome_other {i : ℕ} {job : Job} {h : History} {s : State}
    {r : Except Failure (Option RiskCheck)} (hjob : ∀ limit, job ≠ .check true limit) : outcome i job h s r :=
  fun limit _ heq => absurd heq (hjob limit)

theorem contract_sound : Sound world Job.program contract outcome where
  refl _ s := refl s.journal
  trans _ _ _ _ h h' := h.trans h'
  env s e hinv := ⟨(s.happens_later e hinv).1, fun _ => (s.happens_later e hinv).2⟩
  crash _ s hinv := ⟨hinv, fun _ _ => refl s.journal⟩
  start i job s _ := by
    cases job with
    | tick database =>
      refine .bind (.mono (fun h s r _ => ?_) harmless_tick)
      cases r with
      | ok | error => exact outcome_other nofun
    | check database limit =>
      cases database with
      | true => exact safe_check limit
      | false =>
        refine .bind (.bind (safe_quiet rfl fun h s r _ => ?_))
        cases r with
        | ok | error => exact outcome_other (i := i) (s := s) nofun

def runFrom (journal : Journal) (moves : List (Move Job Chance Event)) :
    Config State Failure Op Ans Job (Option RiskCheck) :=
  Config.run world Job.program ⟨⟨journal, none, none⟩, []⟩ moves

def admitted (cfg : Config State Failure Op Ans Job (Option RiskCheck)) (i : ℕ) : Bool :=
  match cfg.threads[i]? with
  | some ⟨.check true _, _, some (.ret (some check))⟩ => check.allowed
  | _ => false

/-- **No entry is admitted on stale journal figures.** A check with a database that admits read a lease built from a
snapshot without a blocker, and read the generation in a state in which every input of the tracker was as in that
snapshot. -/
theorem admitted_on_current_figures (journal : Journal) (hclean : journal.PaperClean)
    (moves : List (Move Job Chance Event)) (i : ℕ) (h : admitted (runFrom journal moves) i = true) :
    ∃ thread, (runFrom journal moves).threads[i]? = some thread ∧ FreshAdmission thread.history := by
  have hinv : contract.inv ⟨journal, none, none⟩ := ⟨hclean, fun text ht => by simp at ht⟩
  have hok := contract_sound.reached hinv moves
  unfold admitted at h
  split at h
  · rename_i limit history check hthread
    refine ⟨_, hthread, ?_⟩
    obtain ⟨s, -, hsafe⟩ := (hok.threads i _ hthread).safe _ rfl
    exact hsafe limit check rfl rfl h
  · cases h

/-! A tick publishes, a trade opens, and a check admits. -/

def sampleJournal : Journal where
  trades := [⟨⟨.closed, some (-3), .liveExchangeCostsV1, .complete⟩, 1, some (seconds 50), none⟩]
  closeFills := []
  incidents := [⟨1, .resolved⟩]
  generation := 4
  constraints := by decide

def sampleChance : Chance where
  raises := false
  applied := true
  readable := true
  positions := [1, -2]
  failed := []
  pending := false
  startOfDay := seconds 10

def sampleMoves : List (Move Job Chance Event) :=
  .start (.tick true) :: List.replicate 7 (.call 0 sampleChance) ++
    [.env (.commit [.insertTrade ⟨⟨.open, none, .liveExchangeCostsV1, .pending⟩, 2, none, none⟩]),
      .start (.check true 50), .call 1 sampleChance, .call 1 sampleChance]

theorem sampleMoves_admitted : ∃ thread, (runFrom sampleJournal sampleMoves).threads[1]? = some thread ∧
    FreshAdmission thread.history :=
  admitted_on_current_figures sampleJournal (by decide) sampleMoves 1 (by decide +kernel)

end Schurfer.Pnl
