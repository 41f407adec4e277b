import Mathlib.Algebra.Order.Field.Rat
import Mathlib.Tactic

/-!
# The journal's rows

The columns of `app.trades` and `app.live_order_attempts` that the modelled transactions read. Every amount
(`Decimal`, `numeric`) is an exact rational.
-/

namespace Schurfer

instance pairLawfulBEq : LawfulBEq (String × String) := inferInstance

abbrev Time := ℤ

def millis (n : ℤ) : ℤ := 1000 * n

def seconds (n : ℤ) : ℤ := 1000000 * n

def round4 (x : ℚ) : ℚ :=
  let scaled := x * 10000
  let below := scaled.floor
  let rest := scaled - below
  if rest < 1 / 2 ∨ rest = 1 / 2 ∧ below % 2 = 0 then below / 10000 else (below + 1) / 10000

/-- `math.isclose`, with the tolerances two readings of one fill are compared at. -/
def isClose (a b : ℚ) : Bool := |a - b| ≤ max (1 / 10 ^ 9 * max |a| |b|) (1 / 10 ^ 12)

inductive Outcome
  | win
  | loss
  | breakeven

def Outcome.of (value : ℚ) : Outcome := if 0 < value then .win else if value < 0 then .loss else .breakeven

inductive Side
  | long
  | short
deriving DecidableEq

namespace Side

def text : Side → String
  | long => "long"
  | short => "short"

def ofText : String → Option Side
  | "long" => some long
  | "short" => some short
  | _ => none

end Side

inductive Datum
  | null
  | text (s : String)
  | number (n : ℤ)
  | decimal (q : ℚ)
  | time (t : Time)
deriving DecidableEq

abbrev Detail := List (String × Datum)

inductive Exn
  | valueError (message : String)
  | lookupError (message : String)
  | assertionError
  | raised (message : String)
  | violated (constraint : String)
deriving DecidableEq

def quoted (s : String) : String := s!"'{s}'"

def shown : Option ℕ → String
  | none => "None"
  | some n => toString n

def isLowerHex (c : Char) : Bool := c.isDigit || ('a' ≤ c && c ≤ 'f')

def isHexOf (n : ℕ) (s : String) : Bool := s.toList.length = n && s.toList.all isLowerHex

inductive TradeStatus
  | «open»
  | closed
  | cancelled
deriving DecidableEq

inductive AccountingVersion
  | legacyPriceOnlyV1
  | paperConservativeCostsV1
  | liveExchangeCostsV1
deriving DecidableEq

inductive AccountingStatus
  | legacy
  | pending
  | incomplete
  | complete
  | operatorSettled
deriving DecidableEq

structure Trade where
  status : TradeStatus
  pnlUsd : Option ℚ
  accountingVersion : AccountingVersion
  accountingStatus : AccountingStatus

inductive AttemptStatus
  | pending
  | accepted
  | partlyFilled
  | completed
  | failed
  | submissionUnknown
  | noFill
  | manualRequired
deriving DecidableEq

inductive Operation
  | entry
  | close
deriving DecidableEq

structure Attempt where
  operation : Operation
  clientOrderId : String
  exchange : String
  nativeMarketId : Option String
  side : Side
  tradeId : Option ℕ

end Schurfer
