import Schurfer.Protection.Entries

/-!
# The stops the monitor cancels

A tick takes the stops of every tracked instrument without a position in its snapshot for left over. The snapshot may
be incomplete and is soon out of date.
-/

namespace Schurfer.Protection

open Desk Orders Threads Prog List Function Ensures
open LateFill (Failure)

variable {live : List Pair} {exchange : String} {exchanges : List String} {pair : Pair} {shown : String → Prop}

section

variable {setup : Setup} {i : ℕ} {job : Job} {s : State} (n : Incident) (symbol : String) (price : ℚ)

structure SeenBy (i : ℕ) (exchange : String) (shown : String → Prop) (s : State) : Prop where
  bound : s.seen i exchange ≤ s.orders.length
  entries : ∀ e ∈ s.orders.take (s.seen i exchange), e.isEntry = true → e.exchange = exchange →
    e.left = 0 ∨ shown (baseOf e.symbol)

theorem SeenBy.mono {shown' : String → Prop} (himp : ∀ base, shown base → shown' base)
    (h : SeenBy i exchange shown s) : SeenBy i exchange shown' s :=
  ⟨h.bound, fun e he hen hexchange => (h.entries e he hen hexchange).imp_right (himp _)⟩

theorem SeenBy.of_none (hse : s.seen i exchange = 0) (shown : String → Prop) : SeenBy i exchange shown s := by
  refine ⟨?_, fun e he => ?_⟩
  · rw [hse]
    exact Nat.zero_le _
  · rw [hse] at he
    cases he

theorem SeenBy.onward {s s' : State} (hs : Onward s s')
    (hse : s'.seen i exchange = s.seen i exchange) (h : SeenBy i exchange shown s) : SeenBy i exchange shown s' := by
  refine ⟨?_, fun e' he' hen hexchange => ?_⟩
  · rw [hse]
    exact h.bound.trans hs.orders.length_le
  · rw [hse] at he'
    obtain ⟨e, he, hsh⟩ := hs.orders.mem_take_of_le h.bound he'
    rw [hsh.symbol]
    exact (h.entries e he (hsh.isEntry ▸ hen) (hsh.exchange ▸ hexchange)).imp_left hsh.left_eq_zero

def ListedBase (exchange : String) (listed : List OpenPosition) (base : String) : Prop :=
  ∃ p ∈ listed, p.exchange = exchange ∧ p.base = base

def Snapping (i : ℕ) (exchanges : List String) (s s' : State) : Prop :=
  Onward s s' ∧ ∀ exchange ∉ exchanges, s'.seen i exchange = s.seen i exchange

theorem snapping (exchanges : List String) : Along contract i (Snapping i exchanges) :=
  ⟨fun s => ⟨.refl s, fun _ _ => rfl⟩,
    fun _ _ _ h h' => ⟨h.1.trans h'.1, fun exchange hne => (h'.2 exchange hne).trans (h.2 exchange hne)⟩,
    fun _ _ h => ⟨h.toOnward, fun _ _ => congrFun h.seen _⟩⟩

theorem answer_snapshot (exchange : String) (c : Chance) :
    (answer i s (.fetchPositions .snapshot exchange) c).2.orders = s.orders ∧ (∀ other, other ≠ exchange →
        (answer i s (.fetchPositions .snapshot exchange) c).2.seen i other = s.seen i other) ∧
      (((answer i s (.fetchPositions .snapshot exchange) c).1 = .ok (s.positions exchange) ∧
          (answer i s (.fetchPositions .snapshot exchange) c).2.seen i exchange = s.orders.length) ∨
        ((∃ e, (answer i s (.fetchPositions .snapshot exchange) c).1 = .error e) ∧
          (answer i s (.fetchPositions .snapshot exchange) c).2.seen i exchange = 0)) := by
  have hup : ∀ (n : ℕ) (other : String), other ≠ exchange →
      update s.seen i (update (s.seen i) exchange n) i other = s.seen i other := by
    intro n other hne
    rw [update_self, update_of_ne hne]
  have hown : ∀ n : ℕ, update s.seen i (update (s.seen i) exchange n) i exchange = n := by
    intro n
    rw [update_self, update_self]
  unfold answer
  split
  · exact ⟨rfl, fun other hne => hup _ other hne, .inl ⟨rfl, hown _⟩⟩
  · rename_i e _
    have hln : ¬ (c.lands = true ∧ mayLand e (.fetchPositions .snapshot exchange) = true) := fun h => by cases h.2
    simp only [if_neg hln]
    exact ⟨rfl, fun other hne => hup _ other hne, .inr ⟨⟨e, rfl⟩, hown _⟩⟩

structure Snapshot (i : ℕ) (exchanges : List String) (out : List OpenPosition × List String) (s : State) : Prop where
  positions : ∀ p ∈ out.1, p.exchange ∈ exchanges
  failed : ∀ exchange ∈ out.2, exchange ∈ exchanges ∧ s.seen i exchange = 0
  seen : ∀ exchange ∈ exchanges, SeenBy i exchange (ListedBase exchange out.1) s

theorem does_snapshot (hnd : exchanges.Nodup) :
    Does setup i job (Snapping i exchanges) (fun s' out => Snapshot i exchanges out s')
      (fetchAllPositions .snapshot exchanges) s := by
  induction exchanges generalizing s with
  | nil =>
    refine .ret (snapping []) ⟨fun p hp => ?_, fun exchange h => ?_, fun exchange h => ?_⟩
    · cases hp
    · cases h
    · cases h
  | cons exchange exchanges ih =>
    obtain ⟨hnew, hrs⟩ := nodup_cons.1 hnd
    have hR := snapping (i := i) (exchange :: exchanges)
    have hrd : Does setup i job (Snapping i (exchange :: exchanges)) (fun s' answer => match answer with
        | .ok positions => SeenBy i exchange
          (ListedBase exchange ((positions.filter (·.contracts ≠ 0)).map fun p => ⟨exchange, p⟩)) s'
        | .error _ => s'.seen i exchange = 0) (tryCall (.fetchPositions .snapshot exchange)) s := by
      refine .attempt_answer (kept setup) hR (fun _ _ _ _ => trivial) (fun _ _ => trivial)
        fun s1 c _ hinv => ⟨⟨?_, fun other hne => ?_⟩, ?_⟩
      · exact answer_onward hinv (show Permitted i job s1 (.fetchPositions .snapshot exchange) from trivial)
      · exact (answer_snapshot exchange c).2.1 other fun heq => hne (heq ▸ mem_cons_self)
      · obtain ⟨hor, -, ⟨hok, hse⟩ | ⟨⟨e, her⟩, hse⟩⟩ := answer_snapshot (i := i) (s := s1) exchange c
        · rw [world_answer, hok]
          refine ⟨(hse.trans (congrArg length hor).symm).le, fun e he hen hexchange => ?_⟩
          have hmem : e ∈ s1.orders := hor ▸ mem_of_mem_take he
          refine (flat_or_listed hinv.book.left_nonneg hmem hen).imp_right fun ⟨p, hp, hsy⟩ => ?_
          rw [hexchange] at hp
          exact ⟨⟨exchange, p⟩, mem_map.2 ⟨p, hp, rfl⟩, rfl, congrArg baseOf hsy⟩
        · rw [world_answer, her]
          exact hse
    refine .bind hR hrd fun answer s1 _ hse => ?_
    have hfn : ∀ s', Snapping i exchanges s1 s' → Snapping i (exchange :: exchanges) s1 s' :=
      fun s' h => ⟨h.1, fun other hne => h.2 other fun hmem => hne (mem_cons_of_mem _ hmem)⟩
    refine .bind hR (.carry hfn (ih hrs)) fun rest s2 _ haf => ?_
    obtain ⟨hs2, hsn⟩ := haf
    have hsame := hs2.2 exchange hnew
    cases answer with
    | ok positions =>
      refine .ret hR ⟨fun p hp => ?_, fun other hmem => ?_, fun other hmem => ?_⟩
      · rcases mem_append.1 hp with hp | hp
        · obtain ⟨x, -, rfl⟩ := mem_map.1 hp
          exact mem_cons_self
        · exact mem_cons_of_mem _ (hsn.positions p hp)
      · obtain ⟨hin, hzr⟩ := hsn.failed other hmem
        exact ⟨mem_cons_of_mem _ hin, hzr⟩
      · rcases mem_cons.1 hmem with rfl | htl
        · exact (SeenBy.onward hs2.1 hsame hse).mono fun _ ⟨p, hp, h⟩ => ⟨p, mem_append_left _ hp, h⟩
        · exact (hsn.seen other htl).mono fun _ ⟨p, hp, h⟩ => ⟨p, mem_append_right _ hp, h⟩
    | error e =>
      have hzr : s2.seen i exchange = 0 := hsame.trans hse
      refine .ret hR ⟨fun p hp => ?_, fun other hmem => ?_, fun other hmem => ?_⟩
      · exact mem_cons_of_mem _ (hsn.positions p hp)
      · rcases mem_cons.1 hmem with rfl | htl
        · exact ⟨mem_cons_self, hzr⟩
        · obtain ⟨hin, hzr'⟩ := hsn.failed other htl
          exact ⟨mem_cons_of_mem _ hin, hzr'⟩
      · rcases mem_cons.1 hmem with rfl | htl
        · exact .of_none hzr _
        · exact hsn.seen other htl

/-- Of the orders that were seen, every entry that holds anything is of a live pair. -/
def Watched (i : ℕ) (exchanges : List String) (live : List Pair) (s : State) : Prop :=
  ∀ exchange ∈ exchanges, SeenBy i exchange (fun base => (exchange, base) ∈ live) s

theorem Snapshot.watched {out : List OpenPosition × List String}
    (h : Snapshot i exchanges out s) : Watched i exchanges (livePairs out.1 out.2) s := by
  intro exchange hmem
  by_cases hfl : exchange ∈ out.2
  · exact .of_none (h.failed exchange hfl).2 _
  · refine (h.seen exchange hmem).mono fun base ⟨p, hp, hsame, hbs⟩ => ?_
    refine mem_map.2 ⟨p, mem_filter.2 ⟨hp, ?_⟩, Prod.ext hsame hbs⟩
    simpa only [decide_eq_true_eq, hsame] using hfl

theorem Watched.steady {s s' : State} (hs : Steady i s s')
    (h : Watched i exchanges live s) : Watched i exchanges live s' :=
  fun exchange hmem => (h exchange hmem).onward hs.1 (congrFun hs.2 exchange)

theorem steady_calls {α : Type} {p : Program α} (hp : p.Calls Calm) :
    Does setup i job (Steady i) (fun _ _ => True) p s :=
  (lawful_calls hp).weaken fun _ => Steady.of_rely

theorem lawful_checkExit (p : OpenPosition) : Does setup i job (Steady i) (fun _ _ => True) (checkExit setup p) s := by
  refine .bind steady (steady_calls (.perform trivial)) fun reason s1 _ _ => ?_
  split
  · exact .ret steady trivial
  rename_i reason
  have hpair : pairOf p.exchange (baseOf p.position.symbol) =
      CloseRequest.pair ⟨p.exchange, p.base, p.position.symbol, reason⟩ := rfl
  refine .bind steady (lawful_closePosition hpair) fun result s2 _ _ => ?_
  split
  · refine steady_calls (.step trivial fun _ => ?_)
    split
    · trivial
    · exact .bind (calm_of_booking (books_journalExit _ _ _ _)) fun _ => .perform trivial
  · exact .ret steady trivial

theorem lawful_checkExits (failed : List String) (blocked : List Pair) (positions : List OpenPosition) :
    Does setup i job (Steady i) (fun _ _ => True) (checkExits setup failed blocked positions) s := by
  induction positions generalizing s with
  | nil => exact .ret steady trivial
  | cons p positions ih =>
    unfold checkExits
    split
    · exact ih
    · refine .bind steady (.handle steady (lawful_checkExit p) fun _ _ _ => .ret steady trivial)
        fun _ s1 _ _ => ih

theorem Watched.flat {id : String} (hs : Orderly s)
    (hwt : Watched i setup.exchanges live s) (hexchange : pair.1 ∈ setup.exchanges) (hdd : pair ∉ live)
    (hkey : s.stopKeys pair = some id) (hse : ∀ o ∈ s.orders, o.key = (pair.1, id) → ∀ e ∈ s.orders, o.Protects e →
      e ∈ s.orders.take (s.seen i pair.1)) : Guarded IsFlat s pair.1 id := by
  obtain ⟨o, ho, hnm, hsame⟩ := hs.stops pair id hkey
  refine ⟨o, ho, hnm, fun e he hpt => isFlat_of_zero ?_⟩
  have hpair : e.pair = pair := (hs.book.protects_pair ho he hpt).trans hsame
  have hen := hpt.2.1
  refine ((hwt pair.1 hexchange).entries e (hse o ho hnm e he hpt) hen
    (congrArg Prod.fst hpair)).resolve_right fun hlive => hdd ?_
  have hbs : baseOf e.symbol = pair.2 := (hs.upper e he hen).symm.trans (congrArg Prod.snd hpair)
  rwa [hbs] at hlive

theorem does_getReconciledKey (hdd : pair ∉ live) (hwt : Watched i setup.exchanges live s) :
    Does setup i job (Rely i) (fun s' raw => ∀ id, raw = some id → pair.1 ∈ setup.exchanges →
      Guarded IsFlat s' pair.1 id) (call (.getStopKey .reconcile pair)) s := by
  refine does_own (.getStopKey .reconcile pair) trivial (fun _ _ _ => trivial)
    fun s1 c raw hs1 hinv hsettled han hmv id hid hexchange => ?_
  unfold answer at han
  split at han
  · cases han
    have hft := (hwt.steady (.of_rely hs1)).flat hinv hexchange hdd hid (hsettled id hid)
    exact hft.isFlat_onward hmv.toOnward
  · cases han

theorem lawful_reconcileOne (hdd : pair ∉ live)
    (hwt : Watched i setup.exchanges live s) : Lawful setup i job (reconcileOne setup pair) s := by
  refine bind along (does_getReconciledKey hdd hwt) fun raw s1 _ hft => ?_
  split
  · exact lawful_ret
  rename_i id hid
  split
  · exact lawful_ret
  rename_i hexchange
  have hft1 := hft id (Option.filter_eq_some_iff.1 hid).1 (not_not.1 hexchange)
  split
  · exact lawful_ret
  refine Lawful.step trivial fun order s2 hs2 => ?_
  split
  · refine lawful_cancelTerminalStop fun id' hid' => ?_
    cases hid'
    exact hft1.isFlat_onward hs2.toOnward
  · exact lawful_calls (calm_of_booking (books_reconcileFilled _ _ _ _ _))

theorem lawful_reconcileEach (pairs : List Pair) (hwt : Watched i setup.exchanges live s) :
    Lawful setup i job (reconcileEach setup live pairs) s := by
  induction pairs generalizing s with
  | nil => exact lawful_ret
  | cons pair pairs ih =>
    unfold reconcileEach
    split
    · exact ih hwt
    · rename_i hdd
      refine bind along (handle along (lawful_reconcileOne hdd hwt) fun _ _ _ => lawful_ret)
        fun _ s1 hs1 _ => ih (hwt.steady (.of_rely hs1))

theorem lawful_tick : Does setup i job Onward (fun _ _ => True) (tick setup) s := by
  refine .bind onward (.weaken (fun _ h => h.toOnward)
    (.handle along lawful_recoverCloseAttempts fun _ _ _ => lawful_ret)) fun blocked s1 _ _ => ?_
  refine .bind onward (.weaken (fun _ h => h.1) (does_snapshot setup.nodup)) fun snapshot s2 _ hsn => ?_
  refine .bind onward (.carry (fun _ h => h.1) (lawful_checkExits _ _ _)) fun _ s3 _ het => ?_
  have hwt := hsn.watched.steady het.1
  refine bind onward (weaken (fun _ h => h.toOnward) (handle along ?_ fun _ _ _ => lawful_ret))
    fun _ s4 _ _ => ?_
  · refine Lawful.step trivial fun pairs s4 hs4 => ?_
    exact lawful_reconcileEach pairs (hwt.steady (.of_rely hs4))
  · refine weaken (fun _ h => h.toOnward) (lawful_calls (Calls.handle ?_ fun _ => trivial))
    exact Calls.step trivial fun keys => calm_of_booking (books_retryEach keys)

theorem lawful_manualClosePosition {base : String} (hpr : Proper setup (.close exchange base)) :
    Does setup i job Onward (fun _ _ => True) (manualClosePosition setup exchange base) s := by
  unfold manualClosePosition
  split
  · exact .ret onward trivial
  split
  · exact .ret onward trivial
  rename_i symbol hsy
  have hpair : pairOf exchange (baseOf symbol) = CloseRequest.pair ⟨exchange, base, symbol, "manual"⟩ := by
    unfold CloseRequest.pair pairOf
    rw [hpr symbol hsy]
  refine .bind onward (.weaken (fun _ h => h.1) (lawful_closePosition hpair)) fun result s1 _ _ => ?_
  refine .weaken (fun _ h => h.toOnward) (lawful_calls ?_)
  split
  · split
    · exact .perform trivial
    · refine .step trivial fun tradeId => ?_
      split
      · exact .bind (calm_of_booking (books_commitAndUntrack _ _ _ _)) fun _ => .perform trivial
      · exact .perform trivial
  · trivial

theorem calm_bumpAttemptOrEscalate : (bumpAttemptOrEscalate n).Calls Calm := by
  unfold bumpAttemptOrEscalate
  split <;> exact .perform trivial

theorem calm_commitIncident (t : ℕ) (price : ℚ) : (commitIncident n t price).Calls Calm := by
  refine .bind (calm_of_booking (books_commitAndUntrack _ _ _ _)) fun _ => .step trivial fun _ => ?_
  split
  · exact .last trivial
  · trivial

theorem calm_completeClose (resolved : Option ℚ) : (completeClose n symbol price resolved).Calls Calm := by
  refine .bind ?_ fun tradeId => ?_
  · unfold incidentTradeId
    split
    · trivial
    · exact .perform trivial
  split
  · trivial
  split
  · exact calm_commitIncident _ _ _
  split
  · trivial
  refine .step trivial fun aggregate => ?_
  split
  · trivial
  split
  · exact calm_commitIncident _ _ _
  · trivial

theorem calm_completeOpenIncident (filled : Option ℚ) : (completeOpenIncident n symbol price filled).Calls Calm := by
  refine .bind ((notes_completeOpen _ _).mono fun _ => calm_of_note) fun tradeId => ?_
  split
  · trivial
  · exact .perform trivial

theorem calm_resolveIncident : (resolveIncident setup n symbol).Calls Calm := by
  refine .bind (calm_of_look (looks_resolveFillPrice _ _ _ _ _)) fun resolution => ?_
  split
  · exact calm_bumpAttemptOrEscalate n
  · exact calm_bumpAttemptOrEscalate n
  split
  · trivial
  have hrs : ∀ completed : Bool, Prog.Calls (ε := Failure) Calm (if completed = true then do
      let _ ← call (.markResolved n.id)
      return ()
    else bumpAttemptOrEscalate n) := by
    intro completed
    split
    · exact .last trivial
    · exact calm_bumpAttemptOrEscalate n
  unfold completeIncident
  split
  · exact .bind (calm_completeClose _ _ _ _) hrs
  · exact .bind (calm_completeOpenIncident _ _ _ _) hrs

theorem calm_processReady : (processReady setup n).Calls Calm := by
  unfold processReady
  split
  · exact calm_bumpAttemptOrEscalate n
  split
  · exact calm_bumpAttemptOrEscalate n
  unfold awaitOrder
  split
  · refine .bind (.attempt trivial) fun answer => ?_
    split
    · exact calm_bumpAttemptOrEscalate n
    split
    · exact calm_resolveIncident _ _
    · trivial
  · exact calm_resolveIncident _ _

theorem calm_incidentTick : (incidentTick setup).Calls Calm := by
  have hone : ∀ n : Incident, (processOne setup n).Calls Calm := by
    intro n
    unfold processOne
    split
    · exact calm_processReady n
    refine .step trivial fun waiting => ?_
    split
    · trivial
    · exact calm_processReady n
  refine .step trivial fun incidents => ?_
  induction incidents with
  | nil => trivial
  | cons n incidents ih => exact .bind (.handle (hone n) fun _ => trivial) fun _ => ih

theorem lawful_main (hpr : Proper setup job) : Does setup i job Onward (fun _ _ => True) (main setup job) s := by
  cases job with
  | tick => exact lawful_tick
  | place => exact .bind onward (lawful_placeOrder hpr) fun _ _ _ _ => .ret onward trivial
  | close => exact lawful_manualClosePosition hpr
  | incidents => exact .weaken (fun _ h => h.toOnward) (lawful_calls calm_incidentTick)

end

theorem contract_sound (setup : Setup) : Sound (world.guard (Settled setup) refused)
    (guardMain (main setup) (Proper setup) refused) contract fun _ _ _ _ _ => True where
  refl := (kept setup).refl
  trans := (kept setup).trans
  env _ e hs := hs.env e
  crash i _ hs := hs.crash i
  start i job s _ := by
    by_cases hpr : Proper setup job
    · have hmn : guardMain (main setup) (Proper setup) refused job = main setup job := if_pos hpr
      rw [hmn]
      exact (lawful_main hpr).safe []
    · have hmn : guardMain (main setup) (Proper setup) refused job = .raise refused := if_neg hpr
      rw [hmn]
      trivial

theorem orderly_start : Orderly start where
  book := ⟨by simp [start], by simp [start], by simp [start], by simp [start]⟩
  upper := by simp [start]
  ids := by simp [start]
  tags := by simp [start]
  stops := by simp [start]
  rows := ⟨by simp [start], by simp [start]⟩
  closes := by simp [start]
  completed := by simp [start]

def cancelled : Op → Option (String × String)
  | .cancelOrder exchange (some orderId) _ => some (exchange, orderId)
  | _ => none

/-- When a tick sends the cancel of an order, every entry that order was placed for is flat, up to the tolerance
of a close. -/
def CancelsFlat (cfg : Config State Failure Op Ans Job Unit) : Prop :=
  ∀ t ∈ cfg.threads, t.arg = .tick → ∀ c ∈ t.history, ∀ key ∈ cancelled c.op,
    ∀ o ∈ c.before.orders, o.key = key → ∀ e ∈ c.before.orders, o.Protects e → e.left ≤ closeTolerance e.executed

instance (cfg : Config State Failure Op Ans Job Unit) : Decidable (CancelsFlat cfg) := by
  unfold CancelsFlat
  infer_instance

/-- **The monitor cancels no stop of a live position**, in every run of ticks, entries, closes and incident ticks
in which every job is `Proper` and every call `Settled` where it is made. -/
theorem cancels_flat (setup : Setup) (moves : List (Move Job Chance Event))
    (hsettled : (⟨start, []⟩ : Config State Failure Op Ans Job Unit).AllAllowed world (main setup) (Settled setup)
      (Proper setup) moves) : CancelsFlat (run setup moves) := by
  have hok := (contract_sound setup).of_allowed orderly_start hsettled
  intro t ht htick c hc key hkey
  obtain ⟨i, hi⟩ := mem_iff_getElem?.1 ht
  obtain ⟨n, hn⟩ := mem_iff_getElem?.1 hc
  have hpre : Permitted i t.arg c.before c.op := (hok.threads i t hi).calls n c hn
  unfold cancelled at hkey
  split at hkey
  · rename_i exchange orderId symbol hop
    cases hkey
    rw [hop] at hpre
    exact hpre htick
  · cases hkey

/-! Runs of one entry with its stop. -/

def oneMarket : Setup := .bybit [⟨"BTCUSDT", "BTC/USDT:USDT", "BTC", "USDT", "USDT", "swap", true⟩]

def buyTwo : List (Move Job Chance Event) :=
  [.start (.place ⟨"bybit", "BTC", "BTC/USDT:USDT", .long, 10⟩), .call 0 {}, .call 0 {}, .call 0 {},
    .call 0 { admitted := some (2, 100) }, .call 0 { text := "0123456789abcdef0123456789abcdef" }, .call 0 {},
    .call 0 {}, .call 0 { text := "1", amount := 2, report := fun _ => { filled := some 2, average := some 100 } },
    .call 0 {}, .call 0 {}, .call 0 { amount := 90 }, .call 0 {}, .call 0 {}, .call 0 {},
    .call 0 { text := "2", status := "open" }] ++ List.replicate 8 (.call 0 {})

def tickWith (snapshot : Chance) : List (Move Job Chance Event) :=
  [.start .tick, .call 1 {}, .call 1 snapshot, .call 1 { pairs := [("bybit", "BTC")] }, .call 1 {}, .call 1 {},
    .call 1 {}]

def stopFilled : Move Job Chance Event := .env (.fillStop "bybit" "2" 2 "open")

theorem stopFilled_cancels_flat :
    (run oneMarket (buyTwo ++ stopFilled :: tickWith {})).threads.map
        (fun t => t.history.filterMap fun c => cancelled c.op) = [[], [("bybit", "2")]] ∧
      CancelsFlat (run oneMarket (buyTwo ++ stopFilled :: tickWith {})) :=
  ⟨by decide +kernel, cancels_flat oneMarket _ (by decide +kernel)⟩

/-- **A tick that could not read the exchange cancels the stop of a live position**: it takes every instrument
of the exchange for vanished. -/
theorem failedSnapshot_cancels : ¬ ∀ (setup : Setup) (moves : List (Move Job Chance Event)),
    CancelsFlat (run setup moves) := by
  intro hclaim
  have hlive : ¬ CancelsFlat (run oneMarket (buyTwo ++ tickWith { failure := some (.network "timeout") })) := by
    decide +kernel
  exact hlive (hclaim _ _)

end Schurfer.Protection
