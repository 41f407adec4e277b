import Schurfer.Journal.Model
import Schurfer.Lib.Arith

/-!
# The trailing extreme

`evaluate_exit` decides one tick of a position, and `check_exit` stores the best price it returns, for seven days. An
exit on the age of the position or on its take profit returns before the extreme is moved on. Prices and minutes are
rational numbers; what is computed from them is a number of any arithmetic. `bestPrice_isBest` says when the stored
price is the running extreme.
-/

namespace Schurfer.ExitPolicy

open List Arith

structure ExitParams where
  initialSlPct : ℚ
  activationPct : ℚ
  trailPct : ℚ
  trailTightenPct : ℚ
  tightenAfterMin : ℚ
  maxHoldMin : ℚ
  noProgressMin : Option ℚ := none
  takeProfitPct : Option ℚ := none

inductive ExitReason (N : Type)
  | maxHold (age : ℚ)
  | takeProfit (move : N)
  | noProgress (age : ℚ)
  | initialSl (move : N)
  | trailingStop (trail : ℚ) (profit : N)

structure ExitEvaluation (N : Type) where
  reason : Option (ExitReason N)
  bestPrice : Option ℚ

inductive ZeroDivision
  | zeroDivision

section

variable {N : Type} [Arith N]

def movePct (side : Side) (entryPrice currentPrice : ℚ) : N :=
  match side with
  | .short => mul (div (sub (ofRat entryPrice) (ofRat currentPrice)) (ofRat entryPrice)) (ofRat 100)
  | .long => mul (div (sub (ofRat currentPrice) (ofRat entryPrice)) (ofRat entryPrice)) (ofRat 100)

def better (side : Side) (best currentPrice : ℚ) : ℚ :=
  match side with
  | .short => min best currentPrice
  | .long => max best currentPrice

variable (N) in
def stopped (side : Side) (best trail currentPrice : ℚ) : Bool :=
  match side with
  | .short => le (mul (ofRat best) (add (ofRat 1) (div (ofRat trail) (ofRat 100)))) (ofRat currentPrice : N)
  | .long => le (ofRat currentPrice : N) (mul (ofRat best) (sub (ofRat 1) (div (ofRat trail) (ofRat 100))))

def beforeActivation (params : ExitParams) (elapsedMin : ℚ) (move : N) (currentPrice : ℚ) : ExitEvaluation N :=
  if params.noProgressMin.getD params.maxHoldMin ≤ elapsedMin then ⟨some (.noProgress elapsedMin), none⟩
  else if le move (ofRat (-params.initialSlPct)) then ⟨some (.initialSl move), none⟩
  else if le (ofRat params.activationPct) move then ⟨none, some currentPrice⟩
  else ⟨none, none⟩

def trailing (side : Side) (params : ExitParams) (elapsedMin : ℚ) (move : N) (best currentPrice : ℚ) :
    ExitEvaluation N :=
  let newBest := better side best currentPrice
  let advanced := if newBest ≠ best then some newBest else none
  let trail := if params.tightenAfterMin ≤ elapsedMin then params.trailTightenPct else params.trailPct
  if stopped N side newBest trail currentPrice then ⟨some (.trailingStop trail move), advanced⟩
  else ⟨none, advanced⟩

def takesProfit (params : ExitParams) (move : N) : Bool := params.takeProfitPct.any fun pct => le (ofRat pct) move

def evaluateExit (side : Side) (entryPrice currentPrice elapsedMin : ℚ) (bestPrice : Option ℚ)
    (params : ExitParams) : Except ZeroDivision (ExitEvaluation N) :=
  if params.maxHoldMin ≤ elapsedMin then .ok ⟨some (.maxHold elapsedMin), none⟩
  else if entryPrice = 0 then .error .zeroDivision
  else
    let move := movePct side entryPrice currentPrice
    if takesProfit params move then .ok ⟨some (.takeProfit move), none⟩
    else
      match bestPrice with
      | none => .ok (beforeActivation params elapsedMin move currentPrice)
      | some best => .ok (trailing side params elapsedMin move best currentPrice)

end

structure Position where
  side : Side
  entryPrice : ℚ
  params : ExitParams

/-- The seconds at which the stored price is read and the new one is stored are those of Redis. -/
structure Tick where
  price : ℚ
  elapsedMin : ℚ
  readAt : ℚ
  storedAt : ℚ

structure Stored where
  price : ℚ
  expiresAt : ℚ
deriving DecidableEq

def keyTtl : ℚ := 86400 * 7

def get (stored : Option Stored) (now : ℚ) : Option ℚ := (stored.filter (now < ·.expiresAt)).map Stored.price

namespace Position

variable (N : Type) [Arith N] (p : Position)

def checkExit (stored : Option Stored) (tick : Tick) : Option Stored :=
  match (evaluateExit p.side p.entryPrice tick.price tick.elapsedMin (get stored tick.readAt) p.params :
    Except ZeroDivision (ExitEvaluation N)) with
  | .ok evaluation => (evaluation.bestPrice.map (⟨·, tick.storedAt + keyTtl⟩)) <|> stored
  | .error _ => stored

/-- The stored best price after the ticks, none at first. A tick that returned a reason is followed by others:
the close may have failed. -/
def bestPrice (ticks : List Tick) : Option Stored := ticks.foldl (p.checkExit N) none

/-- The tick closes neither on the age of the position nor on its take profit. -/
def Trails (tick : Tick) : Prop :=
  tick.elapsedMin < p.params.maxHoldMin ∧
    takesProfit p.params (movePct p.side p.entryPrice tick.price : N) = false

def IsBest (prices : List ℚ) (best : ℚ) : Prop :=
  match p.side with
  | .short => IsLeast {x | x ∈ prices} best
  | .long => IsGreatest {x | x ∈ prices} best

variable {N p} {best : ℚ} {prices : List ℚ} {tick : Tick} {stored : Stored}

theorem get_some (hlive : tick.readAt < stored.expiresAt) : get (some stored) tick.readAt = some stored.price := by
  simp [get, hlive]

theorem checkExit_none (h : p.checkExit N none tick = some stored) :
    stored.price = tick.price ∧ p.entryPrice ≠ 0 := by
  unfold checkExit evaluateExit at h
  split at h
  · rename_i evaluation heval
    split at heval
    · cases heval
      cases h
    split at heval
    · cases heval
    rename_i hentry
    dsimp only at heval
    split at heval
    · cases heval
      cases h
    · cases heval
      refine ⟨?_, hentry⟩
      unfold beforeActivation at h
      split at h
      · cases h
      split at h
      · cases h
      split at h
      · cases h
        rfl
      · cases h
  · cases h

theorem checkExit_trails (hentry : p.entryPrice ≠ 0) (hlive : tick.readAt < stored.expiresAt) (ht : p.Trails N tick) :
    ∃ next, p.checkExit N (some stored) tick = some next ∧ next.price = better p.side stored.price tick.price := by
  have hbest : ∀ move : N, (trailing p.side p.params tick.elapsedMin move stored.price tick.price).bestPrice =
      if better p.side stored.price tick.price ≠ stored.price then some (better p.side stored.price tick.price)
      else none := by
    intro move
    simp only [trailing, apply_ite ExitEvaluation.bestPrice, ite_self]
  unfold checkExit evaluateExit
  rw [if_neg (not_le.2 ht.1), if_neg hentry, get_some hlive]
  rw [if_neg (Bool.eq_false_iff.1 ht.2)]
  dsimp only
  rw [hbest]
  split
  · exact ⟨_, rfl, rfl⟩
  · rename_i hsame
    exact ⟨stored, rfl, (not_not.1 hsame).symm⟩

/-- A tick that closes on the age or on the take profit leaves the stored price. -/
theorem checkExit_closes (hentry : p.entryPrice ≠ 0) (ht : ¬ p.Trails N tick) (before : Option Stored) :
    p.checkExit N before tick = before := by
  unfold checkExit evaluateExit
  by_cases hage : p.params.maxHoldMin ≤ tick.elapsedMin
  · rw [if_pos hage]
    rfl
  · have hprofit : takesProfit p.params (movePct p.side p.entryPrice tick.price : N) = true :=
      Bool.not_eq_false _ ▸ fun hfalse => ht ⟨not_le.1 hage, hfalse⟩
    rw [if_neg hage, if_neg hentry]
    rw [if_pos hprofit]
    rfl

theorem IsBest.singleton (price : ℚ) : p.IsBest [price] price := by
  unfold IsBest
  split <;> simp [IsLeast, IsGreatest, lowerBounds, upperBounds]

theorem IsBest.snoc (h : p.IsBest prices best) (price : ℚ) :
    p.IsBest (prices ++ [price]) (better p.side best price) := by
  have hset : {x | x ∈ prices ++ [price]} = insert price {x | x ∈ prices} := by
    ext x
    simp [or_comm]
  unfold IsBest better at *
  rw [hset]
  split at h
  · rw [min_comm]
    exact h.insert price
  · rw [max_comm]
    exact h.insert price

theorem IsBest.unique {best' : ℚ} (h : p.IsBest prices best) (h' : p.IsBest prices best') : best = best' := by
  unfold IsBest at h h'
  cases hside : p.side with
  | short =>
    rw [hside] at h h'
    exact IsLeast.unique h h'
  | long =>
    rw [hside] at h h'
    exact IsGreatest.unique h h'

/-- **One tick keeps the extreme** exactly if it trails, or its price is no better than the stored one. -/
theorem checkExit_isBest (hentry : p.entryPrice ≠ 0) (hlive : tick.readAt < stored.expiresAt)
    (h : p.IsBest prices stored.price) :
    (∃ next, p.checkExit N (some stored) tick = some next ∧ p.IsBest (prices ++ [tick.price]) next.price) ↔
      (p.Trails N tick ∨ better p.side stored.price tick.price = stored.price) := by
  by_cases ht : p.Trails N tick
  · obtain ⟨next, hnext, hprice⟩ := checkExit_trails hentry hlive ht
    exact iff_of_true ⟨next, hnext, hprice ▸ h.snoc tick.price⟩ (.inl ht)
  · rw [checkExit_closes hentry ht]
    constructor
    · rintro ⟨next, hnext, hbest⟩
      cases hnext
      exact .inr ((h.snoc tick.price).unique hbest)
    · rintro (htrails | hsame)
      · exact absurd htrails ht
      · exact ⟨stored, rfl, by simpa only [hsame] using h.snoc tick.price⟩

variable (N p)

/-- After each tick from the one that activates the trailing on, the stored price is the best of all since then, and
the next tick still finds it. -/
def Runs (before : List Tick) (tick : Tick) (after : List Tick) : Prop :=
  ∀ done, done <+: after → ∃ stored, p.bestPrice N (before ++ tick :: done) = some stored ∧
    p.IsBest (tick.price :: done.map Tick.price) stored.price ∧
    ∀ t, done ++ [t] <+: after → t.readAt < stored.expiresAt

/-- Each later tick comes before the stored price has expired; and if it closes on the age or on the take profit, its
price is no better than the stored one. -/
def Undisturbed (before : List Tick) (tick : Tick) (after : List Tick) : Prop :=
  ∀ done t, done ++ [t] <+: after → ∀ stored ∈ p.bestPrice N (before ++ tick :: done),
    t.readAt < stored.expiresAt ∧ (p.Trails N t ∨ better p.side stored.price t.price = stored.price)

end Position

variable {N : Type} [Arith N]

/-- **The trailing extreme is the true running extreme** from the tick that activates the trailing on, exactly if it is
undisturbed. -/
theorem bestPrice_isBest (p : Position) {before : List Tick} {tick : Tick} (hnone : p.bestPrice N before = none)
    (hactive : p.bestPrice N (before ++ [tick]) ≠ none) (after : List Tick) :
    p.Runs N before tick after ↔ p.Undisturbed N before tick after := by
  obtain ⟨first, hfirst⟩ := Option.ne_none_iff_exists'.1 hactive
  have hstep : ∀ done t, p.bestPrice N (before ++ tick :: (done ++ [t])) =
      p.checkExit N (p.bestPrice N (before ++ tick :: done)) t := fun done t => by
    rw [← cons_append, ← append_assoc]
    exact foldl_concat ..
  have hchecked : p.checkExit N none tick = some first := by
    rw [← hnone, ← hfirst]
    exact (foldl_concat ..).symm
  obtain ⟨hprice, hentry⟩ := Position.checkExit_none hchecked
  constructor
  · intro hruns done t hpre stored hstored
    obtain ⟨s, hs, hbest, htimely⟩ := hruns done ((prefix_append done [t]).trans hpre)
    cases hs.symm.trans hstored
    obtain ⟨next, hnext, hbest', -⟩ := hruns (done ++ [t]) hpre
    rw [hstep, hs] at hnext
    rw [map_append, ← cons_append] at hbest'
    exact ⟨htimely t hpre, (Position.checkExit_isBest hentry (htimely t hpre) hbest).1 ⟨next, hnext, hbest'⟩⟩
  · intro hund done
    induction done using reverseRecOn with
    | nil =>
      intro _
      refine ⟨first, hfirst, ?_, fun t hpre => (hund [] t hpre first hfirst).1⟩
      rw [hprice]
      exact .singleton tick.price
    | append_singleton done t ih =>
      intro hpre
      obtain ⟨stored, hstored, hbest, -⟩ := ih ((prefix_append done [t]).trans hpre)
      obtain ⟨hlive, hkeeps⟩ := hund done t hpre stored hstored
      obtain ⟨next, hnext, hbest'⟩ := (Position.checkExit_isBest hentry hlive hbest).2 hkeeps
      have hrun : p.bestPrice N (before ++ tick :: (done ++ [t])) = some next := by rw [hstep, hstored, hnext]
      refine ⟨next, hrun, ?_, fun t' hpre' => (hund _ t' hpre' next hrun).1⟩
      rw [map_append, ← cons_append]
      exact hbest'

def mediumParams : ExitParams where
  initialSlPct := 10
  activationPct := 12
  trailPct := 15
  trailTightenPct := 10
  tightenAfterMin := 120
  maxHoldMin := 240
  noProgressMin := some 60

def samplePosition : Position := ⟨.short, 100, mediumParams⟩

/-- A tick of a position opened at zero, in seconds. -/
def tickAt (price second : ℚ) : Tick := ⟨price, second / 60, second, second⟩

/-- A short of 100 trails from 80 on, and a tick at 70 moves the extreme on. -/
theorem trails_to_seventy : samplePosition.Runs ℚ [] (tickAt 80 1800) [tickAt 70 1860] := by
  refine (bestPrice_isBest samplePosition rfl (by decide +kernel) _).2 fun done t hpre stored hstored => ?_
  obtain ⟨rfl, rfl⟩ : done = [] ∧ t = tickAt 70 1860 := by
    cases done with
    | nil => simpa using hpre
    | cons _ done => cases done <;> simp at hpre
  obtain rfl : stored = ⟨80, 606600⟩ := Option.some.inj (hstored.symm.trans (by decide +kernel))
  exact ⟨by decide +kernel, .inl ⟨by decide +kernel, rfl⟩⟩

/-- At the maximal age the tick at 70 closes, and the extreme stays at 80. If the close fails, the next tick trails
from a price that is not the lowest. -/
theorem max_hold_keeps_eighty : samplePosition.bestPrice ℚ [tickAt 80 1800] = some ⟨80, 606600⟩ ∧
    samplePosition.bestPrice ℚ [tickAt 80 1800, tickAt 70 14400] = some ⟨80, 606600⟩ ∧
    ¬ samplePosition.IsBest [80, 70] 80 := by
  refine ⟨by decide +kernel, by decide +kernel, fun h => ?_⟩
  have hle : (80 : ℚ) ≤ 70 := h.2 (mem_cons_of_mem 80 mem_cons_self)
  exact absurd hle (by decide +kernel)

end Schurfer.ExitPolicy
