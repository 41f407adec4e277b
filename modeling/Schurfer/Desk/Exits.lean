import Schurfer.Desk.CloseAttempts

/-!
# One close at a time

The exits of a tick skip the pairs its recovery blocked. A close may leave its own attempt outstanding, so two
positions of one base would be closed one on top of the other.
-/

namespace Schurfer.Desk

open Orders LateFill Prog List Calls

variable {R : TickCall → Prop} {rows : List AttemptRow} {s : State} {α : Type} {p : Program α}

/-- No two open positions of an exchange are of one base, in upper case. -/
def OnePerBase (m : TickCall) : Prop :=
  match m.op with
  | .fetchPositions .snapshot exchange =>
    (((m.chance.1.foldl env m.before).positions exchange).filter (·.contracts ≠ 0)).Pairwise
      fun p p' => baseOf p'.symbol ≠ (baseOf p.symbol).toUpper
  | _ => True

instance (m : TickCall) : Decidable (OnePerBase m) := by
  unfold OnePerBase
  split <;> infer_instance

def Apart (p p' : OpenPosition) : Prop := (p'.exchange, p'.base) ≠ pairOf p.exchange p.base

theorem quiet_run (hp : p.Calls Quiet) : Ticks R (fun _ s' => s'.attempts = s.attempts) p s :=
  .of_calls (Q := fun s' => s'.attempts = s.attempts)
    (fun s1 _ c hquiet hs _ => ⟨submitsAlone_other (not_market_of_quiet hquiet) c,
      (tickAnswer_quiet hquiet s1 c).trans hs⟩) hp rfl

theorem runs_fetchAllPositions {exchanges : List String} (hnd : exchanges.Nodup) :
    Ticks OnePerBase (fun r s' => s'.attempts = s.attempts ∧ ∃ out, r = .ok out ∧
      out.1.Pairwise Apart ∧ ∀ p ∈ out.1, p.exchange ∈ exchanges)
      (fetchAllPositions .snapshot exchanges) s := by
  induction exchanges generalizing s with
  | nil => exact ⟨rfl, _, rfl, .nil, fun p hp => by simp at hp⟩
  | cons exchange exchanges ih =>
    obtain ⟨hnew, hrs⟩ := nodup_cons.1 hnd
    refine .bind (.attempt fun c hR => ⟨submitsAlone_other (by simp) c, ?_⟩)
    have hquiet : (Op.fetchPositions .snapshot exchange).isQuiet = true := rfl
    have hs1 := tickAnswer_quiet hquiet s c
    have hls : ∀ positions, (tickAnswer s (.fetchPositions .snapshot exchange) c).1 = .ok positions →
        positions = (c.1.foldl env s).positions exchange := by
      intro positions hok
      simp only [tickAnswer, answer] at hok
      split at hok
      · exact (Except.ok.inj hok).symm
      · cases hok
    have hap : (((c.1.foldl env s).positions exchange).filter (·.contracts ≠ 0)).Pairwise
        fun p p' => baseOf p'.symbol ≠ (baseOf p.symbol).toUpper := hR
    generalize (tickAnswer s (.fetchPositions .snapshot exchange) c).2 = s1 at hs1
    refine .bind (.mono (fun r s2 hr => ?_) (ih hrs))
    obtain ⟨hs2, out, rfl, hpr, hmem⟩ := hr
    cases han : (tickAnswer s (.fetchPositions .snapshot exchange) c).1 with
    | error e =>
      exact ⟨hs2.trans hs1, _, rfl, hpr, fun p hp => mem_cons_of_mem exchange (hmem p hp)⟩
    | ok positions =>
      refine ⟨hs2.trans hs1, _, rfl, pairwise_append.2 ⟨?_, hpr, ?_⟩, ?_⟩
      · rw [pairwise_map, hls positions han]
        exact hap.imp fun hne heq => hne (congrArg Prod.snd heq)
      · -- another exchange
        intro p hp p' hp' heq
        obtain ⟨x, -, rfl⟩ := mem_map.1 hp
        have hexchange : p'.exchange = exchange := congrArg Prod.fst heq
        exact hnew (hexchange ▸ hmem p' hp')
      · intro p hp
        rcases mem_append.1 hp with hp | hp
        · obtain ⟨x, -, rfl⟩ := mem_map.1 hp
          exact mem_cons_self
        · exact mem_cons_of_mem exchange (hmem p hp)

structure Added (pair : Pair) (rows rows' : List AttemptRow) : Prop where
  bound : ∀ row ∈ rows', row.id ≤ rows'.length
  outstanding : ∀ row ∈ rows', row.outstanding = true →
    row.pair = pair ∨ ∃ old ∈ rows, old.outstanding = true ∧ old.pair = row.pair

structure Ready (w : CloseWork) (rows rows' : List AttemptRow) : Prop where
  bound : ∀ row ∈ rows', row.id ≤ rows'.length
  own : ∀ id, w.attemptId = some id → ∀ row ∈ rows', row.id = id → row.pair = w.request.pair
  outstanding : ∀ row ∈ rows', row.outstanding = true →
    (row.pair = w.request.pair ∧ row.clientOrderId = w.clientOrderId) ∨
      ∃ old ∈ rows, old.outstanding = true ∧ old.pair = row.pair

def AfterSend (w : CloseWork) (o : Op) : Prop := Quiet o ∨ ∃ id, w.attemptId = some id ∧ o.marks = some id

section

variable (w : CloseWork) (order : Order)

theorem afterSend_of_quiet (hp : p.Calls Quiet) : p.Calls (AfterSend w) :=
  hp.mono fun _ hquiet => .inl hquiet

theorem calls_markClose (filled : ℚ) (v : CloseVolume) : (markClose w filled v).Calls (AfterSend w) := by
  refine calls_onAttempt fun id hid => ?_
  split
  · exact .perform (.inr ⟨id, hid, rfl⟩)
  · exact .step (.inr ⟨id, hid, rfl⟩) fun _ => trivial
  · trivial

theorem calls_bookClose (price : ℚ) (v : CloseVolume) : (bookClose w order price v).Calls (AfterSend w) := by
  unfold bookClose
  split
  · trivial
  refine .bind (afterSend_of_quiet w ?_) fun aggregate => ?_
  · unfold recordLeg
    split
    · trivial
    · exact .perform rfl
  · split
    · exact afterSend_of_quiet w (quiet_of_aside (calls_deferClose w _ _ _))
    · refine .bind (calls_markClose w _ v) fun _ => ?_
      split
      · exact .bind (afterSend_of_quiet w (quiet_of_aside (calls_dropStop w))) fun _ => trivial
      · exact .step (.inl rfl) fun _ => trivial

theorem calls_classifyClose (resolution : FillResolution) (v : CloseVolume) :
    (classifyClose w order resolution v).Calls (AfterSend w) := by
  unfold classifyClose
  split
  · exact .step (.inl rfl) fun _ => trivial
  split
  · exact afterSend_of_quiet w (quiet_of_aside (calls_deferClose w _ _ _))
  split
  · trivial
  · exact calls_bookClose w order _ v

theorem calls_settleClose (setup : Setup) (order : Order) : (settleClose setup w order).Calls (AfterSend w) := by
  have hrs : (settleFill setup w order).Calls (AfterSend w) := by
    refine .bind (afterSend_of_quiet w (quiet_of_aside (calls_resolveFillPrice setup _ _ _ _)))
      fun resolution => ?_
    split
    · split
      · exact .bind (calls_onAttempt fun id hid => .perform (.inr ⟨id, hid, rfl⟩)) fun _ => trivial
      · trivial
    · exact .bind (afterSend_of_quiet w (quiet_of_aside (calls_closeVolume w resolution))) fun v =>
        calls_classifyClose w order resolution v
  unfold settleClose
  split
  · exact .bind (calls_onAttempt fun id hid => .perform (.inr ⟨id, hid, rfl⟩)) fun _ => hrs
  · exact hrs

variable {w}

structure Sent (w : CloseWork) (rows rows' : List AttemptRow) : Prop extends Added w.request.pair rows rows' where
  own : ∀ id, w.attemptId = some id → ∀ row ∈ rows', row.id = id → row.pair = w.request.pair

theorem Ready.sent {rows' : List AttemptRow} (h : Ready w rows rows') : Sent w rows rows' where
  bound := h.bound
  own := h.own
  outstanding row hrow hout := by
    rcases h.outstanding row hrow hout with ⟨hpair, -⟩ | hold
    · exact .inl hpair
    · exact .inr hold

theorem Sent.touched {rows' rows'' : List AttemptRow} {id : ℕ} (h : Sent w rows rows')
    (hid : w.attemptId = some id) (htc : Touched id rows' rows'') : Sent w rows rows'' where
  bound row hrow := by
    obtain ⟨old, hold, hsame, -⟩ := htc.mem row hrow
    rw [hsame.id, htc.length]
    exact h.bound old hold
  own id' hid' row hrow hrid := by
    obtain ⟨old, hold, hsame, -⟩ := htc.mem row hrow
    rw [hsame.pair]
    exact h.own id' hid' old hold (hsame.id.symm.trans hrid)
  outstanding row hrow hout := by
    obtain ⟨old, hold, hsame, hstatus⟩ := htc.mem row hrow
    by_cases hrid : row.id = id
    · rw [hsame.pair]
      exact .inl (h.own id hid old hold (hsame.id.symm.trans hrid))
    · rw [hsame.outstanding (hstatus hrid)] at hout
      rw [hsame.pair]
      exact h.outstanding old hold hout

theorem market_attempts (order : MarketOrder) (c : List Event × Chance) :
    (tickAnswer s (.createMarketOrder order) c).2.attempts = s.attempts := by
  have hpl : ∀ (t : State) (c : Chance), (placeMarket t c order).attempts = t.attempts := by
    intro t c
    unfold placeMarket
    split
    · rfl
    · split <;> rfl
  have hen := events_attempts s c.1
  rcases answer_attempts_cases 0 (c.1.foldl env s) (.createMarketOrder order) c.2 with hcl | hcl
  · exact (hcl.trans (hpl _ c.2)).trans hen
  · exact hcl.trans hen

theorem added_submitClose (setup : Setup) (hrd : Ready w rows s.attempts)
    (hbs : baseOf w.request.symbol = w.request.base)
    (hclear : ∀ row ∈ rows, row.outstanding = true → row.pair ≠ (w.request.exchange, w.request.base)) :
    Ticks R (fun _ s' => Added w.request.pair rows s'.attempts) (submitClose setup w) s := by
  have hrs : ∀ {α : Type} {p : Program α} {s' : State}, p.Calls (AfterSend w) → Sent w rows s'.attempts →
      Ticks R (fun _ s'' => Added w.request.pair rows s''.attempts) p s' := by
    intro α p s' hp hsn
    refine .mono (fun _ _ h => h.toAdded) (.of_calls (Q := fun s'' => Sent w rows s''.attempts)
      (fun s1 o c ho hs1 _ => ?_) hp hsn)
    rcases ho with hquiet | ⟨id, hid, hmr⟩
    · exact ⟨submitsAlone_other (not_market_of_quiet hquiet) c, tickAnswer_quiet hquiet s1 c ▸ hs1⟩
    · exact ⟨submitsAlone_other (not_market_of_marks hmr) c, hs1.touched hid (tickAnswer_marks hmr s1 c)⟩
  refine .bind (.attempt fun c _ => ⟨?_, ?_⟩)
  · intro order heq row hrow hout hpair
    cases heq
    rcases hrd.outstanding row hrow hout with ⟨-, hown⟩ | ⟨old, hold, hold_out, hold_pair⟩
    · exact hown
    · rw [← hold_pair, hbs] at hpair
      exact absurd hpair (hclear old hold hold_out)
  · refine hrs ?_ ((market_attempts _ c).symm ▸ hrd.sent)
    split
    · exact calls_settleClose w setup _
    all_goals exact .bind (calls_onAttempt fun id hid => .perform (.inr ⟨id, hid, rfl⟩)) fun _ => trivial

end

def NewClose.row (n : NewClose) (id : ℕ) : AttemptRow :=
  { id, clientOrderId := n.clientOrderId, exchange := n.exchange, base := n.base, symbol := n.symbol
    requestedAmount := n.requestedAmount, tradeId := n.tradeId, context := some n.context }

theorem createCloseAttempt_cases (s : State) (n : NewClose) (c : List Event × Chance) :
    ∃ answered, (tickAnswer s (.createCloseAttempt n) c).1 = .ok answered ∧
      ((tickAnswer s (.createCloseAttempt n) c).2.attempts = s.attempts ∧ answered = none ∨
        (tickAnswer s (.createCloseAttempt n) c).2.attempts = s.attempts ++ [n.row (s.attempts.length + 1)] ∧
          (answered = none ∨ answered = some (s.attempts.length + 1))) := by
  have hen := events_attempts s c.1
  have hef : (effect 0 (c.1.foldl env s) c.2 (.createCloseAttempt n)).attempts = s.attempts ∧
        (c.1.foldl env s).clientIdUsed n.clientOrderId = true ∨
      (effect 0 (c.1.foldl env s) c.2 (.createCloseAttempt n)).attempts =
        s.attempts ++ [n.row (s.attempts.length + 1)] := by
    simp only [effect]
    split
    · rename_i hus
      exact .inl ⟨hen, hus⟩
    · refine .inr ?_
      simp only [State.addAttempt, hen]
      rfl
  simp only [tickAnswer, answer]
  split
  · refine ⟨_, rfl, ?_⟩
    rcases hef with ⟨hrw, hus⟩ | hrw
    · exact .inl ⟨hrw, if_pos hus⟩
    · refine .inr ⟨hrw, ?_⟩
      rw [hen]
      split
      · exact .inl rfl
      · exact .inr rfl
  · refine ⟨none, rfl, ?_⟩
    split
    · rcases hef with ⟨hrw, -⟩ | hrw
      · exact .inl ⟨hrw, rfl⟩
      · exact .inr ⟨hrw, .inl rfl⟩
    · exact .inl ⟨hen, rfl⟩

section

variable (setup : Setup) {r : CloseRequest}

structure Clear (r : CloseRequest) (rows : List AttemptRow) : Prop where
  bound : ∀ row ∈ rows, row.id ≤ rows.length
  base : baseOf r.symbol = r.base
  clear : ∀ row ∈ rows, row.outstanding = true → row.pair ≠ (r.exchange, r.base)

theorem Clear.added (h : Clear r rows) : Added r.pair rows rows where
  bound := h.bound
  outstanding row hrow hout := .inr ⟨row, hrow, hout, rfl⟩

theorem Added.after {β : Type} {f : α → Program β}
    (hp : p.Calls Quiet) (hadd : Added r.pair rows s.attempts) (hrs : ∀ a s', s'.attempts = s.attempts →
      Ticks R (fun _ s'' => Added r.pair rows s''.attempts) (f a) s') :
    Ticks R (fun _ s'' => Added r.pair rows s''.attempts) (p >>= f) s := by
  refine .bind (.mono (fun out s' hs' => ?_) (quiet_run hp))
  cases out with
  | error => exact hs' ▸ hadd
  | ok a => exact hrs a s' hs'

theorem added_closeFound (side : Side) (contracts : ℚ) (hclear : Clear r s.attempts) :
    Ticks R (fun _ s' => Added r.pair s.attempts s'.attempts)
      (closeFound setup r side contracts) s := by
  refine Added.after (perform rfl) hclear.added fun sl s1 hs1 => ?_
  have htr := quiet_of_aside (aside_of_look (looks_trackedTradeId r))
  refine Added.after htr (hs1 ▸ hclear.added) fun tradeId s2 hs2 => ?_
  refine Added.after (perform rfl) (hs2.trans hs1 ▸ hclear.added) fun clientOrderId s3 hs3 => ?_
  have hrw : s3.attempts = s.attempts := hs3.trans (hs2.trans hs1)
  refine Runs.bind (Runs.perform fun c _ => ⟨submitsAlone_other (by simp) c, ?_⟩)
  set n : NewClose := ⟨clientOrderId, r.exchange, r.base.toUpper, r.symbol,
    setup.amountToPrecision r.exchange r.symbol contracts, tradeId, ⟨r.reason, side, nonEmpty sl⟩⟩ with hn
  obtain ⟨answered, han, hcs⟩ := createCloseAttempt_cases s3 n c
  rw [han]
  generalize (tickAnswer s3 (.createCloseAttempt n) c).2 = s4 at hcs
  have hrd : Ready ⟨r, side, setup.amountToPrecision r.exchange r.symbol contracts, nonEmpty sl, tradeId,
      clientOrderId, answered⟩ s.attempts s4.attempts := by
    rw [hrw] at hcs
    rcases hcs with ⟨hsame, rfl⟩ | ⟨hnew, hid⟩
    · rw [hsame]
      refine ⟨hclear.bound, fun id hid => ?_, fun row hrow hout => .inr ⟨row, hrow, hout, rfl⟩⟩
      cases hid
    · rw [hnew]
      refine ⟨fun row hrow => ?_, fun id hown row hrow hrid => ?_, fun row hrow hout => ?_⟩
      · rw [length_append, length_singleton]
        rcases mem_append.1 hrow with hrow | hrow
        · exact (hclear.bound row hrow).trans (Nat.le_succ _)
        · rw [mem_singleton.1 hrow]
          exact le_refl _
      · rcases mem_append.1 hrow with hrow | hrow
        · -- an older row has a smaller id
          have hlt : id = s.attempts.length + 1 := by
            rcases hid with rfl | rfl
            · cases hown
            · exact (Option.some.inj hown).symm
          have hle := hclear.bound row hrow
          omega
        · rw [mem_singleton.1 hrow]
          rfl
      · rcases mem_append.1 hrow with hrow | hrow
        · exact .inr ⟨row, hrow, hout, rfl⟩
        · rw [mem_singleton.1 hrow]
          exact .inl ⟨rfl, rfl⟩
  cases answered with
  | some => exact added_submitClose setup hrd hclear.base hclear.clear
  | none =>
    refine Added.after (r := r) (perform rfl) hrd.sent.toAdded fun _ s5 hs5 => ?_
    exact added_submitClose setup (hs5 ▸ hrd) hclear.base hclear.clear

theorem added_closeLocked (hclear : Clear r s.attempts) :
    Ticks R (fun _ s' => Added r.pair s.attempts s'.attempts) (closeLocked setup r) s := by
  unfold closeLocked
  split
  · exact hclear.added
  refine Added.after ?_ hclear.added fun active s1 hs1 => ?_
  · exact bind (attempt rfl) fun _ => trivial
  rw [← hs1] at hclear ⊢
  split
  · exact hclear.added
  refine Added.after (perform rfl) hclear.added fun positions s2 hs2 => ?_
  rw [← hs2] at hclear ⊢
  split
  · exact hclear.added
  split
  · exact hclear.added
  · exact added_closeFound setup _ _ hclear

theorem added_closePosition (hclear : Clear r s.attempts) :
    Ticks R (fun _ s' => Added r.pair s.attempts s'.attempts) (closePosition setup r) s := by
  refine Added.after (perform rfl) hclear.added fun locked s1 hs1 => ?_
  rw [← hs1] at hclear ⊢
  split
  · refine Runs.ensure (Runs.mono (fun out s2 hs2 => ?_) (added_closeLocked setup hclear))
    refine Runs.mono (fun released s3 hs3 => ?_) (quiet_run (perform rfl))
    cases released with
    | ok | error => exact hs3 ▸ hs2
  · exact hclear.added

theorem added_checkExit {p : OpenPosition} (hbn : ∀ row ∈ s.attempts, row.id ≤ s.attempts.length)
    (hclear : ∀ row ∈ s.attempts, row.outstanding = true → row.pair ≠ (p.exchange, p.base)) :
    Ticks R (fun _ s' => Added (pairOf p.exchange p.base) s.attempts s'.attempts)
      (checkExit setup p) s := by
  have hrq : ∀ reason, Clear ⟨p.exchange, p.base, p.position.symbol, reason⟩ s.attempts :=
    fun _ => ⟨hbn, rfl, hclear⟩
  refine Added.after (perform rfl) (hrq "").added fun reason s1 hs1 => ?_
  cases reason with
  | none => exact hs1 ▸ (hrq "").added
  | some reason =>
    have hclose := added_closePosition (R := R) setup (hs1 ▸ hrq reason)
    rw [hs1] at hclose
    refine .bind (.mono (fun result s2 hs2 => ?_) hclose)
    cases result with
    | error => exact hs2
    | ok result =>
      -- the keys and the journal leave the attempts alone
      refine .mono (fun _ _ hs3 => ?_) (quiet_run (?_ : Calls Quiet _))
      · exact hs3 ▸ hs2
      split
      · refine .step rfl fun _ => ?_
        split
        · trivial
        · exact .bind (quiet_of_booking (books_journalExit _ _ _ _)) fun _ => .perform rfl
      · trivial

end

theorem alone_checkExits (setup : Setup) (failed : List String) (blocked done : List Pair)
    {positions : List OpenPosition} (hap : positions.Pairwise Apart)
    (hdn : ∀ p ∈ positions, (p.exchange, p.base) ∉ done) (hbn : ∀ row ∈ s.attempts, row.id ≤ s.attempts.length)
    (hcv : ∀ row ∈ s.attempts, row.outstanding = true → row.pair ∈ blocked ∨ row.pair ∈ done) :
    Ticks R (fun _ _ => True) (checkExits setup failed blocked positions) s := by
  induction positions generalizing done s with
  | nil => trivial
  | cons p positions ih =>
    obtain ⟨hfr, hap⟩ := pairwise_cons.1 hap
    have hrs : ∀ q ∈ positions, (q.exchange, q.base) ∉ done := fun q hq =>
      hdn q (mem_cons_of_mem p hq)
    unfold checkExits
    split
    · exact ih done hap hrs hbn hcv
    · rename_i hgo
      have hclear : ∀ row ∈ s.attempts, row.outstanding = true → row.pair ≠ (p.exchange, p.base) := by
        intro row hrow hout heq
        rcases hcv row hrow hout with hin | hin
        · exact hgo (.inr (heq ▸ hin))
        · exact hdn p mem_cons_self (heq ▸ hin)
      have hgn : ∀ s1 : State, Added (pairOf p.exchange p.base) s.attempts s1.attempts →
          Ticks R (fun _ _ => True) (checkExits setup failed blocked positions) s1 := by
        intro s1 hs1
        refine ih (pairOf p.exchange p.base :: done) hap (fun q hq hin => ?_) hs1.bound fun row hrow hout => ?_
        · rcases mem_cons.1 hin with heq | hin
          · exact hfr q hq heq
          · exact hrs q hq hin
        · rcases hs1.outstanding row hrow hout with hpair | ⟨old, hold, hold_out, hold_pair⟩
          · exact .inr (hpair ▸ mem_cons_self)
          · rw [← hold_pair]
            exact (hcv old hold hold_out).imp_right (mem_cons_of_mem _)
      -- an exit that raises is like one that ends
      refine .bind (.handle (.mono (fun out s1 hs1 => ?_) (added_checkExit setup hbn hclear)))
      cases out with
      | ok | error => exact hgn s1 hs1

theorem calls_reconcileOne (setup : Setup) (pair : Pair) : (reconcileOne setup pair).Calls Quiet := by
  refine .step rfl fun raw => ?_
  split
  · trivial
  split
  · trivial
  split
  · trivial
  refine .step rfl fun order => ?_
  split
  · exact quiet_of_aside (calls_cancelTerminalStop _ _ _ _)
  · exact quiet_of_booking (books_reconcileFilled setup _ _ _ _)

theorem calls_reconcileEach (setup : Setup) (live pairs : List Pair) :
    (reconcileEach setup live pairs).Calls Quiet := by
  induction pairs with
  | nil => trivial
  | cons pair pairs ih =>
    unfold reconcileEach
    split
    · exact ih
    · exact .bind ((calls_reconcileOne setup pair).handle fun _ => trivial) fun _ => ih

def twoMarkets : Setup := .bybit [⟨"BTCUSDT", "BTC/USDT:USDT", "BTC", "USDT", "USDT", "swap", true⟩,
  ⟨"ETHUSDT", "ETH/USDT:USDT", "ETH", "USDT", "USDT", "swap", true⟩]

def lostClose : State where
  orders := [⟨"bybit", "1", "e1", "BTC/USDT:USDT", .entry .long, 2, 2, 2, "closed"⟩,
    ⟨"bybit", "2", "e2", "ETH/USDT:USDT", .entry .long, 3, 3, 3, "closed"⟩]
  attempts := [⟨1, "c1", "bybit", "BTC", "BTC/USDT:USDT", .accepted, some "7", 2, none, none,
    some ⟨"take_profit", .long, none⟩⟩]

def plain : List Event × Chance := ([], ({} : Chance))

def exitFires : List Event × Chance := ([], { reason := some "take_profit" })

def blockedFirst : List (List Event × Chance) :=
  List.replicate 5 plain ++ exitFires :: List.replicate 6 plain ++
    [([], { text := "c2" }), plain, ([], { text := "8", amount := 3 })]

def failedLoad : List (List Event × Chance) :=
  [([], { failure := some (.network "timeout") }), plain, exitFires] ++ List.replicate 6 plain ++
    [([], { text := "c2" }), plain, ([], { text := "8", amount := 2 })]

end Schurfer.Desk
