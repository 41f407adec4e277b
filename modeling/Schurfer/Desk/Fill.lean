import Schurfer.Desk.Calls
import Schurfer.Lib.Arith

/-!
# What an order was filled at

`fill_price.py`. A price is never made up, and an order that says it filled nothing has no price. Prices are numbers of
any arithmetic, since a quotient of doubles may be infinite or zero; amounts are exact.
-/

namespace Schurfer.Desk

open Orders LateFill

inductive FillStatus
  | confirmed
  | partlyFilled
  | noFill
  | unresolved
deriving DecidableEq

structure FillResolution (N : Type := ℚ) where
  status : FillStatus
  price : Option N
  source : String
  filledAmount : Option ℚ
deriving DecidableEq

def positive (value : Option ℚ) : Option ℚ := value.filter (0 < ·)

def nonNegative (value : Option ℚ) : Option ℚ := value.filter (0 ≤ ·)

section

variable {N : Type} [Arith N]

open Arith

def fromOrderFields (order : Order) : Option (N × String) × Option ℚ :=
  let filled := nonNegative order.filled
  match positive order.average, positive order.price, positive order.cost, positive filled with
  | some average, _, _, _ => (some (ofRat average, "order.average"), filled)
  | none, some price, _, _ => (some (ofRat price, "order.price"), filled)
  | none, none, some cost, some amount => (some (div (ofRat cost) (ofRat amount), "order.cost_filled"), filled)
  | none, none, _, _ => (none, filled)

def partialFillTolerance : ℚ := 1 / 1000

def statusFor (filledAmount requestedAmount : Option ℚ) : FillStatus :=
  match filledAmount, requestedAmount with
  | some filled, some requested =>
    if filled < requested * (1 - partialFillTolerance) then .partlyFilled else .confirmed
  | _, _ => .confirmed

def resolved (price : N) (source : String) (filledAmount requestedAmount : Option ℚ) : FillResolution N :=
  { status := statusFor filledAmount requestedAmount, price := some price, source, filledAmount }

def unresolved : FillResolution N := ⟨.unresolved, none, "unresolved", none⟩

def noFill : FillResolution N := ⟨.noFill, none, "no_fill", some 0⟩

def orderResolution (requestedAmount : Option ℚ) (look : String) (order : Order) : Option (FillResolution N) :=
  match fromOrderFields order with
  | (some (price, source), filled) =>
    if filled = some 0 then none else some (resolved price (look ++ source) filled requestedAmount)
  | (none, _) => none

def vwap (trades : List (ℚ × ℚ)) : Option (N × ℚ) :=
  let counted := trades.filter fun t => 0 < t.1 && 0 < t.2
  let amount := (counted.map Prod.snd).sum
  let totalCost := counted.foldl (fun cost t => add cost (mul (ofRat t.1) (ofRat t.2))) (ofRat 0)
  let totalAmount := counted.foldl (fun amount t => add amount (ofRat t.2)) (ofRat 0)
  if amount ≤ 0 then none else some (div totalCost totalAmount, amount)

variable (setup : Setup) (exchange symbol : String)

def vwapFromTrades (orderId : String) : Program (Option (N × ℚ)) :=
  if setup.hasFetchTrades exchange then do
    let trades ← tryCall (.fetchTrades exchange orderId symbol)
    match trades with
    | .ok trades => return vwap trades
    | .error _ => return none
  else return none

def resolveAgain (requestedAmount filled : Option ℚ) (orderId : String) : Program (FillResolution N) := do
  let answer ← tryCall (.fetchOrder exchange orderId symbol)
  let refreshed := answer.toOption
  match refreshed >>= orderResolution requestedAmount "refetch." with
  | some resolution => return resolution
  | none =>
    let fromTrades ← vwapFromTrades setup exchange symbol orderId
    match fromTrades with
    | some (price, amount) => return resolved price "trades.vwap" (some amount) requestedAmount
    | none =>
      let latest := (refreshed >>= fun order => nonNegative order.filled) <|> filled
      if latest = some 0 then return noFill else return unresolved

def resolveFillPrice (order : Order) (requestedAmount : Option ℚ) : Program (FillResolution N) :=
  match orderResolution requestedAmount "" order with
  | some resolution => return resolution
  | none =>
    match order.id with
    | none => return unresolved
    | some orderId => resolveAgain setup exchange symbol requestedAmount (nonNegative order.filled) orderId

theorem fromOrderFields_filled (order : Order) :
    (fromOrderFields order : Option (N × String) × Option ℚ).2 = nonNegative order.filled := by
  unfold fromOrderFields
  dsimp only
  split <;> rfl

theorem orderResolution_filled {requested : Option ℚ} {look : String} {order : Order} {r : FillResolution N}
    (h : orderResolution requested look order = some r) : r.filledAmount = nonNegative order.filled := by
  have hfl := fromOrderFields_filled (N := N) order
  unfold orderResolution at h
  split at h
  · rename_i price source filled hfi
    rw [hfi] at hfl
    split at h
    · cases h
    · cases h
      exact hfl
  · cases h

end

end Schurfer.Desk
