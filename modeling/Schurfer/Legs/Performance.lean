import Schurfer.Journal.Model
import Schurfer.Lib.Except

/-!
# The figures of a closed trade

`calculate_performance`, and the three ways `close_trade_in` accounts for a close. Amounts are exact.
-/

namespace Schurfer.Legs

structure Performance where
  grossReturnPct : ℚ
  netReturnPct : Option ℚ
  grossPnlUsd : ℚ
  netPnlUsd : Option ℚ
  feesUsd : ℚ
  fundingUsd : ℚ
  slippageUsd : Option ℚ
  status : AccountingStatus
  error : Option String

def takerFeeBpsPerSide : ℚ := 10

def fundingCostBpsPer8h : ℚ := 5

def grossReturnPct (side : Side) (entryPrice exitPrice : ℚ) : ℚ :=
  match side with
  | .short => (entryPrice - exitPrice) / entryPrice * 100
  | .long => (exitPrice - entryPrice) / entryPrice * 100

def missingSlippage (entrySlippageBps exitSlippageBps : Option ℚ) : List String :=
  (if entrySlippageBps = none then ["entry_slippage_bps"] else []) ++
    (if exitSlippageBps = none then ["exit_slippage_bps"] else [])

def calculatePerformance (positionUsd entryPrice exitPrice : ℚ) (side : Side) (durationMinutes : ℚ)
    (entrySlippageBps exitSlippageBps : Option ℚ) : Except Exn Performance := do
  Except.raiseIf (positionUsd ≤ 0) (Exn.valueError "position_usd must be finite and positive")
  Except.raiseIf (entryPrice ≤ 0) (Exn.valueError "entry_price must be finite and positive")
  Except.raiseIf (exitPrice ≤ 0) (Exn.valueError "exit_price must be finite and positive")
  Except.raiseIf (durationMinutes < 0) (Exn.valueError "duration_minutes must be finite and non-negative")
  let grossReturn := grossReturnPct side entryPrice exitPrice
  let grossPnl := positionUsd * grossReturn / 100
  let fees := positionUsd * (takerFeeBpsPerSide + takerFeeBpsPerSide) / 10000
  let funding := positionUsd * (fundingCostBpsPer8h * durationMinutes / 480) / 10000
  match entrySlippageBps, exitSlippageBps with
  | some entrySlippage, some exitSlippage => do
    Except.raiseIf (entrySlippage < 0) (Exn.valueError "entry_slippage_bps must be finite and non-negative")
    Except.raiseIf (exitSlippage < 0) (Exn.valueError "exit_slippage_bps must be finite and non-negative")
    let slippage := positionUsd * (entrySlippage + exitSlippage) / 10000
    let netPnl := grossPnl - fees - funding - slippage
    return {
      grossReturnPct := grossReturn
      netReturnPct := some (netPnl / positionUsd * 100)
      grossPnlUsd := grossPnl
      netPnlUsd := some netPnl
      feesUsd := fees
      fundingUsd := funding
      slippageUsd := some slippage
      status := .complete
      error := none }
  | _, _ =>
    return {
      grossReturnPct := grossReturn
      netReturnPct := none
      grossPnlUsd := grossPnl
      netPnlUsd := none
      feesUsd := fees
      fundingUsd := funding
      slippageUsd := none
      status := .incomplete
      error := some ("missing " ++ ", ".intercalate (missingSlippage entrySlippageBps exitSlippageBps)) }

structure Accounting where
  grossPnlUsd : ℚ
  grossPnlPct : ℚ
  netPnlUsd : Option ℚ
  netPnlPct : Option ℚ
  feesUsd : ℚ
  fundingUsd : ℚ
  slippageUsd : Option ℚ
  pnlUsd : Option ℚ
  pnlPct : Option ℚ
  status : AccountingStatus
  error : Option String

def Accounting.outcome (a : Accounting) : Outcome := .of (a.netPnlPct.getD a.grossPnlPct)

def paperAccounting (p : Performance) : Accounting where
  grossPnlUsd := round4 p.grossPnlUsd
  grossPnlPct := round4 p.grossReturnPct
  netPnlUsd := p.netPnlUsd.map round4
  netPnlPct := p.netReturnPct.map round4
  feesUsd := round4 p.feesUsd
  fundingUsd := round4 p.fundingUsd
  slippageUsd := p.slippageUsd.map round4
  pnlUsd := p.netPnlUsd.map round4
  pnlPct := p.netReturnPct.map round4
  status := p.status
  error := p.error

def liveAccounting (sizeUsd : ℚ) (p : Performance) : Accounting :=
  let pnlUsd := round4 (round4 p.grossPnlUsd - round4 p.feesUsd - round4 p.fundingUsd)
  { grossPnlUsd := round4 p.grossPnlUsd
    grossPnlPct := round4 p.grossReturnPct
    netPnlUsd := none
    netPnlPct := none
    feesUsd := round4 p.feesUsd
    fundingUsd := round4 p.fundingUsd
    slippageUsd := none
    pnlUsd := some pnlUsd
    pnlPct := some (round4 (pnlUsd / sizeUsd * 100))
    status := .pending
    error := some "estimated costs until the exchange executions are read" }

def legacyAccounting (sizeUsd grossReturn : ℚ) : Accounting :=
  let grossPnl := round4 (sizeUsd * grossReturn / 100)
  { grossPnlUsd := grossPnl
    grossPnlPct := round4 grossReturn
    netPnlUsd := none
    netPnlPct := none
    feesUsd := 0
    fundingUsd := 0
    slippageUsd := none
    pnlUsd := some grossPnl
    pnlPct := some (round4 grossReturn)
    status := .legacy
    error := none }

end Schurfer.Legs
