import Schurfer.Burst.Bars
import Schurfer.Lib.Txn

/-!
# Gaps

A minute is complete when no gap overlaps it. A lifecycle event leaves the gaps of a symbol as they are, opens one, adds
a closed one, or closes the open one (`onLifecycle_cases`).
-/

namespace Schurfer.Burst

open GoTime Streamrt List

variable {s : SymbolState}

def Gap.Overlaps (g : Gap) (start : ℤ) : Prop := g.from' < start + minute ∧ (g.to' = 0 ∨ start < g.to')

namespace SymbolState

theorem complete_eq_false_iff {start : ℤ} : s.complete start = false ↔ ∃ g ∈ s.gaps, g.Overlaps start := by
  simp only [complete, Gap.Overlaps, all_eq_false, Bool.not_eq_true', Bool.not_eq_false, Bool.and_eq_true,
    Bool.or_eq_true, decide_eq_true_eq]

theorem gapOpen_iff : s.gapOpen = true ↔ ∃ closed g, s.gaps = closed ++ [g] ∧ g.to' = 0 := by
  unfold gapOpen
  constructor
  · intro h
    split at h
    · rename_i g hlast
      obtain ⟨closed, hgp⟩ := getLast?_eq_some_iff.1 hlast
      exact ⟨closed, g, hgp, by simpa using h⟩
    · cases h
  · rintro ⟨closed, g, hgp, hop⟩
    simp [hgp, hop]

theorem closeGap_gaps (time : ℤ) {closed : List Gap} {g : Gap} (hgp : s.gaps = closed ++ [g])
    (hop : g.to' = 0) : (s.closeGap time).gaps = closed ++ [{ g with to' := time }] := by
  have hgap : s.gapOpen = true := gapOpen_iff.2 ⟨closed, g, hgp, hop⟩
  unfold closeGap
  rw [if_pos hgap]
  simp only [hgp, length_append, length_singleton, Nat.add_sub_cancel]
  clear hgap hgp
  induction closed with
  | nil => rfl
  | cons first closed ih => exact congrArg (first :: ·) ih

theorem closeGap_of_not_open (time : ℤ) (h : s.gapOpen = false) : s.closeGap time = s := by
  unfold closeGap
  rw [h]
  rfl

variable (config : Config) (l : Lifecycle)

theorem onLifecycle_cases (s : SymbolState) :
    ((s.onLifecycle config l).gaps = s.gaps ∧ (l.kind = .overflow → s.gapOpen = true)) ∨
    (l.kind = .disconnected ∧
      (s.onLifecycle config l).gaps = s.gaps ++ [⟨disconnectedFrom l - config.lagAllowance, 0⟩]) ∨
    (l.kind = .overflow ∧ ∃ to', (to' = 0 ∨ to' = overflowTo l + 1) ∧
      (s.onLifecycle config l).gaps = s.gaps ++ [⟨overflowFrom config l, to'⟩]) ∨
    ((l.kind = .subscribed ∨ l.kind = .heartbeat) ∧ s.gapOpen = true ∧ ∃ closed g, s.gaps = closed ++ [g] ∧ g.to' = 0 ∧
      (s.onLifecycle config l).gaps = closed ++ [{ g with to' := l.at' }]) := by
  have hclose : ∀ time, (s.closeGap time).gaps = s.gaps ∨ s.gapOpen = true ∧ ∃ closed g, s.gaps = closed ++ [g] ∧
      g.to' = 0 ∧ (s.closeGap time).gaps = closed ++ [{ g with to' := time }] := by
    intro time
    cases hop : s.gapOpen with
    | false => exact .inl (by rw [closeGap_of_not_open time hop])
    | true =>
      obtain ⟨closed, g, hgp, hzr⟩ := gapOpen_iff.1 hop
      exact .inr ⟨rfl, closed, g, hgp, hzr, closeGap_gaps time hgp hzr⟩
  unfold onLifecycle
  cases hkind : l.kind with
  | connected => exact .inl ⟨rfl, nofun⟩
  | disconnected =>
    dsimp only [openGap]
    split
    · exact .inl ⟨rfl, nofun⟩
    · exact .inr (.inl ⟨rfl, rfl⟩)
  | subscribed =>
    rcases hclose l.at' with hsame | hclosed
    · exact .inl ⟨hsame, nofun⟩
    · exact .inr (.inr (.inr ⟨.inl rfl, hclosed⟩))
  | heartbeat =>
    rcases hclose l.at' with hsame | hclosed
    · exact .inl ⟨hsame, nofun⟩
    · exact .inr (.inr (.inr ⟨.inr rfl, hclosed⟩))
  | overflow =>
    dsimp only [openGap]
    by_cases hop : s.gapOpen = true
    · refine .inl ⟨?_, fun _ => hop⟩
      split <;> rfl
    · refine .inr (.inr (.inl ⟨rfl, ?_⟩))
      split
      · exact ⟨0, .inl rfl, rfl⟩
      · exact ⟨overflowTo l + 1, .inr rfl, rfl⟩

theorem gaps_disconnected {config : Config} {l : Lifecycle} (hkind : l.kind = .disconnected) (n : ℕ) (s : SymbolState) :
    (∀ g ∈ ((onLifecycle config l)^[n] s).gaps, g ∈ s.gaps ∨ g.from' = disconnectedFrom l - config.lagAllowance) ∧
    ∀ g ∈ s.gaps, g ∈ ((onLifecycle config l)^[n] s).gaps := by
  refine Function.Iterate.rec (fun s' : SymbolState =>
    (∀ g ∈ s'.gaps, g ∈ s.gaps ∨ g.from' = disconnectedFrom l - config.lagAllowance) ∧ ∀ g ∈ s.gaps, g ∈ s'.gaps)
    ⟨fun g hg => .inl hg, fun g hg => hg⟩ (fun s' hs' => ?_) n
  rcases onLifecycle_cases config l s' with ⟨heq, -⟩ | ⟨-, heq⟩ | ⟨hov, -⟩ | ⟨hcl, -⟩
  · rw [heq]
    exact hs'
  · rw [heq]
    refine ⟨fun g hg => ?_, fun g hg => mem_append_left _ (hs'.2 g hg)⟩
    rcases mem_append.1 hg with hg | hg
    · exact hs'.1 g hg
    · obtain rfl := mem_singleton.1 hg
      exact .inr rfl
  · rw [hkind] at hov
    cases hov
  · rw [hkind] at hcl
    rcases hcl with h | h <;> cases h

/-- The event confirms that the symbol's stream was delivered through `time`. -/
def AliveAt (symbol : String) (time : ℤ) (l : Lifecycle) : Prop :=
  symbol ∈ l.symbols ∧ (l.kind = .heartbeat ∧ l.lastFrameAt = time ∨ l.kind = .subscribed ∧ l.at' = time)

theorem alive_onLifecycle (s : SymbolState) :
    (s.onLifecycle config l).aliveThrough = s.aliveThrough ∨
      l.kind = .heartbeat ∧ l.lastFrameAt = (s.onLifecycle config l).aliveThrough ∨
      l.kind = .subscribed ∧ l.at' = (s.onLifecycle config l).aliveThrough := by
  have hop : ∀ from', (s.openGap from').aliveThrough = s.aliveThrough := by
    intro from'
    unfold openGap
    split <;> rfl
  have hclose : ∀ time, (s.closeGap time).aliveThrough = s.aliveThrough := by
    intro time
    unfold closeGap
    split <;> rfl
  unfold onLifecycle
  cases hkind : l.kind with
  | connected => exact .inl rfl
  | disconnected => exact .inl (hop _)
  | subscribed =>
    simp only [alive, hclose]
    split
    · exact .inr (.inr ⟨trivial, rfl⟩)
    · exact .inl rfl
  | heartbeat =>
    simp only [alive, hclose]
    split
    · exact .inr (.inl ⟨trivial, rfl⟩)
    · exact .inl rfl
  | overflow =>
    dsimp only
    split
    · exact .inl (hop _)
    · split <;> exact .inl rfl

theorem alive_input {e : Engine} {symbol : String} (h : (e.state symbol).Orderly) (x : Engine.Input) :
    ((e.input x).state symbol).aliveThrough = (e.state symbol).aliveThrough ∨
      ∃ l, x = .event (.lifecycle l) ∧ AliveAt symbol ((e.input x).state symbol).aliveThrough l := by
  rcases e.state_input x symbol with heq | ⟨l, rfl, hmem, heq⟩ | ⟨t, arrival, -, heq⟩ | ⟨now, stats, -, heq⟩
  · exact .inl (by rw [heq])
  · rw [heq]
    have hkp := Function.Iterate.rec (fun s : SymbolState =>
        s.aliveThrough = (e.state symbol).aliveThrough ∨ AliveAt symbol s.aliveThrough l) (.inl rfl)
      (f := onLifecycle e.config l) (fun s hs => ?_) (l.symbols.count symbol)
    · rcases hkp with hsame | hal
      · exact .inl hsame
      · exact .inr ⟨l, rfl, hal⟩
    · rcases alive_onLifecycle e.config l s with hsame | hal
      · rw [hsame]
        exact hs
      · exact .inr ⟨hmem, hal⟩
  · exact .inl (by rw [heq]; exact ((e.state symbol).onTrade_frame t arrival).1.alive)
  · exact .inl (by rw [heq]; exact (h.tick e.config symbol now stats).2.1)

end SymbolState

open SymbolState

def engineAt (config : Config) (inputs : List Engine.Input) (n : ℕ) : Engine :=
  Run.stateAt Engine.input { config } inputs n

def symbolAt (config : Config) (inputs : List Engine.Input) (symbol : String) (n : ℕ) : SymbolState :=
  (engineAt config inputs n).state symbol

section

variable (config : Config) (inputs : List Engine.Input) (symbol : String)

variable {inputs} in
theorem engineAt_succ {n : ℕ} {x : Engine.Input} (hx : inputs[n]? = some x) :
    engineAt config inputs (n + 1) = (engineAt config inputs n).input x := Run.stateAt_succ hx

variable (n : ℕ)

theorem config_engineAt : (engineAt config inputs n).config = config :=
  Run.invariant (I := fun e : Engine => e.config = config) rfl (fun _ x _ h => (Engine.config_input _ x).trans h) n

theorem orderly_symbolAt : (symbolAt config inputs symbol n).Orderly := by
  have hnew : (({ config } : Engine).state symbol).Orderly := orderly_new
  exact Run.invariant (I := fun e : Engine => (e.state symbol).Orderly) hnew (fun _ x _ h => h.input x) n

theorem alive_symbolAt : (symbolAt config inputs symbol n).aliveThrough = 0 ∨
    ∃ i < n, ∃ l, inputs[i]? = some (.event (.lifecycle l)) ∧
      AliveAt symbol (symbolAt config inputs symbol n).aliveThrough l := by
  induction n with
  | zero => exact .inl rfl
  | succ n ih =>
    have her : (symbolAt config inputs symbol (n + 1)).aliveThrough = (symbolAt config inputs symbol n).aliveThrough →
        (symbolAt config inputs symbol (n + 1)).aliveThrough = 0 ∨ ∃ i < n + 1, ∃ l,
          inputs[i]? = some (.event (.lifecycle l)) ∧
          AliveAt symbol (symbolAt config inputs symbol (n + 1)).aliveThrough l := by
      intro hsame
      rw [hsame]
      rcases ih with hzr | ⟨i, hi, l, hl, hal⟩
      · exact .inl hzr
      · exact .inr ⟨i, by omega, l, hl, hal⟩
    cases hx : inputs[n]? with
    | none =>
      refine her ?_
      unfold symbolAt engineAt
      rw [Run.stateAt_of_length_le hx]
    | some x =>
      have hnx : symbolAt config inputs symbol (n + 1) = ((engineAt config inputs n).input x).state symbol := by
        unfold symbolAt
        rw [engineAt_succ config hx]
      have hod : (symbolAt config inputs symbol n).Orderly := orderly_symbolAt config inputs symbol n
      rcases alive_input hod x with hsame | ⟨l, rfl, hal⟩
      · exact her (by rw [hnx]; exact hsame)
      · exact .inr ⟨n, by omega, l, hx, by rw [hnx]; exact hal⟩

variable {config : CheckedConfig}

variable (config) in
theorem due_le (hclosed : s.gapOpen = false) (now : ℤ) :
    s.due config now + minute ≤ s.aliveThrough - config.lagAllowance := by
  have hgr := config.grace_nonneg
  unfold due
  dsimp only
  split
  · have hle := truncate_le (s.aliveThrough - config.lagAllowance - minute - config.grace)
    omega
  · rename_i hlm
    have hle := truncate_le (now - minute - config.grace)
    -- no gap is open, so the clock is the limit only where it is the earlier one
    have hnow : now ≤ s.aliveThrough - config.lagAllowance := by
      by_contra hlt
      exact hlm ⟨by rw [hclosed]; rfl, by omega⟩
    omega

/-- A break is reported with a last frame no earlier than any delivery that was confirmed before. -/
def Consistent (symbol : String) (inputs : List Engine.Input) : Prop :=
  ∀ (j : ℕ) (l : Lifecycle), inputs[j]? = some (.event (.lifecycle l)) → l.kind = .disconnected → symbol ∈ l.symbols →
    ∀ i < j, ∀ (l' : Lifecycle) (time : ℤ), inputs[i]? = some (.event (.lifecycle l')) → AliveAt symbol time l' →
      time ≤ l.lastFrameAt

variable {inputs symbol} in
theorem final_behind_alive {k : ℕ} {now start : ℤ} (hti : inputs[k]? = some (.tick now))
    (hclosed : (symbolAt config inputs symbol k).gapOpen = false)
    (hbf : (symbolAt config inputs symbol k).finalThrough < start)
    (hfinal : start ≤ (symbolAt config inputs symbol (k + 1)).finalThrough) :
    start + minute ≤ (symbolAt config inputs symbol k).aliveThrough - config.lagAllowance := by
  have hod : (symbolAt config inputs symbol k).Orderly := orderly_symbolAt config inputs symbol k
  have hst : symbolAt config inputs symbol (k + 1) = ((engineAt config inputs k).input (.tick now)).state symbol := by
    unfold symbolAt
    rw [engineAt_succ config hti]
  have htc : ∃ stats, symbolAt config inputs symbol (k + 1) =
      ((symbolAt config inputs symbol k).tick config (config : Config).bounded symbol now stats).2.2 := by
    rcases (engineAt config inputs k).state_input (.tick now) symbol with
      heq | ⟨_, h, _⟩ | ⟨_, _, h, _⟩ | ⟨_, stats, h, heq⟩
    · have hsame : (symbolAt config inputs symbol (k + 1)).finalThrough =
          (symbolAt config inputs symbol k).finalThrough := by rw [hst, heq]; rfl
      omega
    · cases h
    · cases h
    · cases h
      refine ⟨stats, ?_⟩
      rw [hst, heq, config_engineAt]
      rfl
  obtain ⟨stats, htc⟩ := htc
  obtain ⟨-, -, -, hor, -⟩ := hod.tick config symbol now stats
  rw [← htc] at hor
  have hle := due_le config hclosed now
  omega

variable {inputs symbol} in
/-- **A break found late never touches a minute that was final before**: one that a tick made final while no gap was
open is as complete after a later disconnect as before. -/
theorem final_unbroken (hconsistent : Consistent symbol inputs) {k : ℕ} {now start : ℤ}
    (htick : inputs[k]? = some (.tick now)) (hclosed : (symbolAt config inputs symbol k).gapOpen = false)
    (hbefore : (symbolAt config inputs symbol k).finalThrough < start)
    (hfinal : start ≤ (symbolAt config inputs symbol (k + 1)).finalThrough) {j : ℕ} {l : Lifecycle} (hlater : k < j)
    (hbreak : inputs[j]? = some (.event (.lifecycle l))) (hkind : l.kind = .disconnected)
    (hsymbol : symbol ∈ l.symbols) :
    (∀ g ∈ (symbolAt config inputs symbol (j + 1)).gaps,
      g ∈ (symbolAt config inputs symbol j).gaps ∨ start + minute ≤ g.from') ∧
    (symbolAt config inputs symbol (j + 1)).complete start = (symbolAt config inputs symbol j).complete start := by
  have hlag := config.lagAllowance_nonneg
  have hpos := minute_pos
  have hnonneg := (orderly_symbolAt config inputs symbol k).final_nonneg
  have hbehind := final_behind_alive htick hclosed hbefore hfinal
  -- the delivery that was confirmed is no later than the last frame of the break
  have halive : (symbolAt config inputs symbol k).aliveThrough ≤ l.lastFrameAt := by
    rcases alive_symbolAt config inputs symbol k with hzero | ⟨i, hi, l', hl', h⟩
    · omega
    · exact hconsistent j l hbreak hkind hsymbol i (by omega) l' _ hl' h
  have hfrom : start + minute ≤ disconnectedFrom l - config.lagAllowance := by
    have hset : l.lastFrameAt ≠ 0 := by omega
    unfold disconnectedFrom
    rw [if_neg hset]
    omega
  have hstate : symbolAt config inputs symbol (j + 1) =
      (onLifecycle config l)^[l.symbols.count symbol] (symbolAt config inputs symbol j) := by
    have hfold := Engine.state_foldl_onLifecycle l l.symbols (engineAt config inputs j) symbol
    rw [config_engineAt] at hfold
    unfold symbolAt
    rw [engineAt_succ config hbreak]
    exact hfold
  obtain ⟨hopened, hkept⟩ :=
    @gaps_disconnected config l hkind (l.symbols.count symbol) (symbolAt config inputs symbol j)
  rw [← hstate] at hopened hkept
  have hgaps : ∀ g ∈ (symbolAt config inputs symbol (j + 1)).gaps,
      g ∈ (symbolAt config inputs symbol j).gaps ∨ start + minute ≤ g.from' := by
    intro g hg
    rcases hopened g hg with hold | hnew
    · exact .inl hold
    · exact .inr (hnew ▸ hfrom)
  refine ⟨hgaps, ?_⟩
  -- the same gaps overlap the minute
  rw [Bool.eq_iff_iff, ← not_iff_not, Bool.not_eq_true, Bool.not_eq_true, complete_eq_false_iff, complete_eq_false_iff]
  constructor
  · rintro ⟨g, hg, hoverlaps⟩
    rcases hgaps g hg with hold | hfar
    · exact ⟨g, hold, hoverlaps⟩
    · have hlt := hoverlaps.1
      omega
  · rintro ⟨g, hg, hoverlaps⟩
    exact ⟨g, hkept g hg, hoverlaps⟩

end

/-! A quiet stream that breaks after its first minutes are final. -/

def noon : ℤ := unixEpoch + 720 * minute

def quietTrade : Streamrt.Trade where
  exchange := "bybit"
  symbol := "AAAUSDT"
  tradeId := "t"
  side := .buy
  price := 1
  size := 1
  notional := 1
  eventAt := noon + second
  receivedAt := noon + second
  seq := 0
  eventAt_epoch := by decide

def quietLifecycle (kind : LifecycleKind) (time lastFrameAt : ℤ) : Lifecycle where
  kind := kind
  shard := 0
  symbols := ["AAAUSDT"]
  at' := time
  lastFrameAt := lastFrameAt

def lateBreak : List Engine.Input :=
  [.event (.lifecycle (quietLifecycle .subscribed noon 0)),
    .event (.trade quietTrade),
    .event (.lifecycle (quietLifecycle .heartbeat (noon + 3 * minute) (noon + 3 * minute))),
    .tick (noon + 4 * minute),
    .event (.lifecycle (quietLifecycle .disconnected (noon + 5 * minute) (noon + 3 * minute)))]

theorem lateBreak_consistent : Consistent "AAAUSDT" lateBreak := by
  intro j l hl hkind _ i hi l' time hl' hal
  -- the only disconnect is the last input
  have hlast : j = 4 ∧ l = quietLifecycle .disconnected (noon + 5 * minute) (noon + 3 * minute) := by
    rcases j with _ | _ | _ | _ | _ | j
    · cases hl
      cases hkind
    · cases hl
    · cases hl
      cases hkind
    · cases hl
    · cases hl
      exact ⟨rfl, rfl⟩
    · cases hl
  obtain ⟨rfl, rfl⟩ := hlast
  rcases i with _ | _ | _ | _ | i
  · cases hl'
    rcases hal.2 with ⟨h, -⟩ | ⟨-, rfl⟩
    · cases h
    · decide
  · cases hl'
  · cases hl'
    rcases hal.2 with ⟨-, rfl⟩ | ⟨h, -⟩
    · decide
    · cases h
  · cases hl'
  · omega

theorem lateBreak_spares_noon :
    (∀ g ∈ (symbolAt hyp030 lateBreak "AAAUSDT" 5).gaps,
      g ∈ (symbolAt hyp030 lateBreak "AAAUSDT" 4).gaps ∨ noon + minute ≤ g.from') ∧
    (symbolAt hyp030 lateBreak "AAAUSDT" 5).complete noon = (symbolAt hyp030 lateBreak "AAAUSDT" 4).complete noon :=
  final_unbroken (k := 3) (l := quietLifecycle .disconnected (noon + 5 * minute) (noon + 3 * minute))
    lateBreak_consistent rfl (by decide +kernel) (by decide +kernel) (by decide +kernel) (by decide) rfl rfl (by decide)

end Schurfer.Burst
