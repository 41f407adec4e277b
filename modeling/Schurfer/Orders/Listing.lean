import Schurfer.Journal.Model
import Schurfer.Lib.Prog

/-!
# Order ids and exchange orders

`order_ids.py` and `exchange_orders.py`. A lookup that finds nothing proves nothing.
-/

namespace Schurfer.Orders

open List

def maxSequence : ℕ := 999

def isEntryClientOrderId (value : String) : Bool := isHexOf 32 value

variable (entryClientOrderId : String)

def stopPrefix : String := entryClientOrderId ++ "s"

def closePrefix : String := entryClientOrderId ++ "c"

def derived (entryClientOrderId kind : String) (sequence : ℕ) : Except String String :=
  if isEntryClientOrderId entryClientOrderId = false then
    .error "entry clientOrderId must be 32 lowercase hex characters"
  else if sequence < 1 ∨ maxSequence < sequence then
    .error s!"derived order sequence must be in 1..{maxSequence}"
  else .ok (entryClientOrderId ++ kind ++ toString sequence)

def stopClientOrderId (sequence : ℕ) : Except String String :=
  derived entryClientOrderId "s" sequence

def closeClientOrderId (sequence : ℕ) : Except String String :=
  derived entryClientOrderId "c" sequence

theorem derived_ok {entry kind id : String} {n : ℕ} (h : derived entry kind n = .ok id) :
    id = entry ++ kind ++ toString n := by
  unfold derived at h
  split at h
  · cases h
  split at h
  · cases h
  · exact (Except.ok.inj h).symm

theorem sequence_inj {stem : String} {m n : ℕ} (h : stem ++ toString m = stem ++ toString n) : m = n := by
  have hls := congrArg String.toList h
  rw [String.toList_append, String.toList_append, append_cancel_left_eq,
    Nat.toString_eq_ofList_toDigits, Nat.toString_eq_ofList_toDigits, String.toList_ofList,
    String.toList_ofList] at hls
  have hrd := congrArg (fun digits => Nat.ofDigitChars 10 digits 0) hls
  simpa only [Nat.ofDigitChars_toDigits (by decide : 1 < 10) (by decide : 10 ≤ 10)] using hrd

structure Order where
  id : Option String
  clientOrderId : Option String
  infoClientOrderId : Option String := none
  infoClientOid : Option String := none
  infoOrderLinkId : Option String := none
  status : Option String
  filled : Option ℚ
  amount : Option ℚ := none
  average : Option ℚ := none
  price : Option ℚ := none
  cost : Option ℚ := none
deriving DecidableEq

def nonEmpty (s : Option String) : Option String := s.filter (· ≠ "")

def Order.linkId (order : Order) : Option String :=
  nonEmpty order.clientOrderId <|> nonEmpty order.infoClientOrderId <|> nonEmpty order.infoClientOid <|>
    order.infoOrderLinkId

def Order.statusText (order : Order) : String := (order.status.getD "").toLower

def noFillStatuses : List String := ["canceled", "cancelled", "rejected", "expired"]

def Order.isTerminal (order : Order) : Bool := order.statusText ∈ "closed" :: noFillStatuses

def Order.filledOrZero (order : Order) : ℚ := order.filled.getD 0

def attemptStateFromOrder (order : Order) : AttemptStatus × Option ℚ × Option String :=
  match order.filled with
  | some filled =>
    if 0 < filled then
      -- a fill that may still grow leaves the attempt unresolved
      if order.isTerminal then (.completed, some filled, none) else (.accepted, some filled, none)
    else if order.isTerminal ∧ filled = 0 then (.noFill, some filled, none)
    else if order.isTerminal then
      (.manualRequired, some filled, some "terminal exchange order omitted filled amount")
    else (.accepted, some filled, none)
  | none =>
    if order.isTerminal then
      (.manualRequired, none, some "terminal exchange order omitted filled amount")
    else (.accepted, none, none)

inductive Listing
  | openOrders
  | closedOrders
deriving DecidableEq

def Listing.capability : Listing → String
  | .openOrders => "fetchOpenOrders"
  | .closedOrders => "fetchClosedOrders"

def Order.key (order : Order) : Option String := nonEmpty order.id <|> nonEmpty order.linkId

def moreComplete (seen order : Order) : Order :=
  if seen.filledOrZero < order.filledOrZero ∨
      (seen.filledOrZero = order.filledOrZero ∧ seen.isTerminal = false ∧ order.isTerminal = true) then order
  else seen

def merge (orders : List Order) (order : Order) : List Order :=
  if order.key ≠ none ∧ orders.any (·.key = order.key) then
    orders.map fun seen => if seen.key = order.key then moreComplete seen order else seen
  else orders ++ [order]

section

variable {ε Op : Type} {Ans : Op → Type}

def listOrders (has : Listing → Bool) (cannot : String → ε)
    (fetch : Listing → Bool → Prog ε Op Ans (List Order)) : Prog ε Op Ans (List Order) := do
  if has .openOrders = false then throw (cannot Listing.openOrders.capability)
  else
    let openPlain ← fetch .openOrders false
    let openTrigger ← fetch .openOrders true
    if has .closedOrders = false then throw (cannot Listing.closedOrders.capability)
    else
      let closedPlain ← fetch .closedOrders false
      let closedTrigger ← fetch .closedOrders true
      return (openPlain ++ openTrigger ++ closedPlain ++ closedTrigger).foldl merge []

end

def findByClientOrderId (orders : List Order) (wanted : String) : Option Order :=
  orders.find? (·.linkId = some wanted)

def startsWith (text stem : String) : Bool := stem.toList.isPrefixOf text.toList

def ordersWithPrefix (orders : List Order) (stem : String) : List Order :=
  orders.filter fun order => startsWith (order.linkId.getD "") stem

theorem mem_moreComplete (seen order : Order) : moreComplete seen order = seen ∨ moreComplete seen order = order := by
  unfold moreComplete
  split
  · exact .inr rfl
  · exact .inl rfl

theorem mem_merge {orders : List Order} {order x : Order} (hx : x ∈ merge orders order) : x ∈ orders ∨ x = order := by
  unfold merge at hx
  split at hx
  · obtain ⟨seen, hsn, rfl⟩ := mem_map.1 hx
    split
    · rcases mem_moreComplete seen order with heq | heq
      · rw [heq]; exact .inl hsn
      · exact .inr heq
    · exact .inl hsn
  · rcases mem_append.1 hx with hx | hx
    · exact .inl hx
    · exact .inr (mem_singleton.1 hx)

theorem mem_foldl_merge {listed orders : List Order} {x : Order} (hx : x ∈ listed.foldl merge orders) :
    x ∈ orders ∨ x ∈ listed := by
  induction listed generalizing orders with
  | nil => exact .inl hx
  | cons order listed ih =>
    rcases ih hx with hx | hx
    · rcases mem_merge hx with hx | rfl
      · exact .inl hx
      · exact .inr mem_cons_self
    · exact .inr (mem_cons_of_mem _ hx)

end Schurfer.Orders
