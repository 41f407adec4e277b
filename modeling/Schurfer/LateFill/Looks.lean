import Schurfer.LateFill.Growth
import Schurfer.LateFill.Placing

/-!
# What a recovery needs, and what it sees

When a recovery may create a task and when it may record a fill as completed, and what its looks at the exchange
prove.
-/

namespace Schurfer.LateFill

open Orders Threads EmergencyClose List

abbrev History := List (Call State Failure Op Ans)

variable {symbol id : String} {post : Post State Failure Op Ans (List Order)} {has : Has}
  {orders : List Order} {o : Op}

def Op.isLock : Op → Bool
  | .acquireLock _ | .releaseLock _ => true
  | _ => false

variable (attempt : Attempt)

/-- The history is one hold of the attempt's lock: taken first and not let go. -/
def UnderLock (h : History) : Prop :=
  ∃ s₀ rest, h = ⟨s₀, .acquireLock (orderLockKey attempt), .ok true⟩ :: rest ∧ ∀ c ∈ rest, c.op.isLock = false

structure FreeRead (h : History) : Prop where
  trade : ∃ c ∈ h, c.op = .readOpenTrade attempt.identity.exchange attempt.identity.symbol ∧
    c.before.openTrade attempt.identity.exchange attempt.identity.symbol = false
  attempts : ∃ c ∈ h,
    c.op = .readOtherUnresolvedAttempt attempt.identity.exchange attempt.base attempt.attemptId ∧
    c.before.otherUnresolvedAttempt attempt.identity.exchange attempt.base attempt.attemptId = false
  tasks : ∃ c ∈ h, c.op = .readOtherActiveTask attempt.identity.exchange attempt.base attempt.attemptId ∧
    c.before.otherActiveTask attempt.identity.exchange attempt.base attempt.attemptId = false

/-- A read of the history found a competitor. -/
def CompetitorRead (h : History) : Prop :=
  ∃ c ∈ h,
    (c.op = .readOpenTrade attempt.identity.exchange attempt.identity.symbol ∧
      c.before.openTrade attempt.identity.exchange attempt.identity.symbol = true) ∨
    (c.op = .readOtherUnresolvedAttempt attempt.identity.exchange attempt.base attempt.attemptId ∧
      c.before.otherUnresolvedAttempt attempt.identity.exchange attempt.base attempt.attemptId = true) ∨
    (c.op = .readOtherActiveTask attempt.identity.exchange attempt.base attempt.attemptId ∧
      c.before.otherActiveTask attempt.identity.exchange attempt.base attempt.attemptId = true)

def Listed (symbol : String) (h : History) (orders : List Order) : Prop :=
  ∃ openPlain openTrigger closedPlain closedTrigger,
    [⟨.fetchOrders symbol .openOrders false, .ok openPlain⟩,
      ⟨.fetchOrders symbol .openOrders true, .ok openTrigger⟩,
      ⟨.fetchOrders symbol .closedOrders false, .ok closedPlain⟩,
      ⟨.fetchOrders symbol .closedOrders true, .ok closedTrigger⟩] <:+ h.map (·.event) ∧
    orders = (openPlain ++ openTrigger ++ closedPlain ++ closedTrigger).foldl merge []

structure Ended (order : Order) (s : State) : Prop where
  onExchange : order ∈ s.orders
  linkId : order.linkId = some attempt.clientOrderId
  terminal : order.isTerminal = true

structure CreateOk (h : History) (s : State) (spec : TaskSpec) (adopted : List AdoptedClose) : Prop where
  source : spec = taskSpec attempt spec.ownedQuantity
  fill : 0 < spec.ownedQuantity ∧ ∃ order, Ended attempt order s ∧ order.filled = some spec.ownedQuantity
  locked : UnderLock attempt h
  free : FreeRead attempt h
  closes : ∃ orders, Listed attempt.identity.symbol h orders ∧
    adopted = (ordersWithPrefix orders (closePrefix attempt.clientOrderId)).map adoptedClose

def RecordOk (h : History) (s : State) (order : Order) : Prop :=
  ∀ filled error, attemptStateFromOrder order = (.completed, some filled, error) → 0 < filled →
    s.hasTask attempt.attemptId = true ∨ UnderLock attempt h ∧ CompetitorRead attempt h

def pre (r : Request) (h : History) (s : State) : Op → Prop
  | .createTask spec adopted => CreateOk r.attempt h s spec adopted
  | .record attempt order => attempt = r.attempt ∧ RecordOk r.attempt h s order
  | _ => True

def contract : Contract State Failure Op Ans Request where
  inv := OneTask
  rely _ := Grows
  pre _ := pre

abbrev SafeIn (i : ℕ) (r : Request) {β : Type} (post : Post State Failure Op Ans β) :
    Program β → History → State → Prop :=
  Safe world contract i r post

structure Goes (h : History) (s : State) (h' : History) (s' : State) : Prop where
  history : ∃ more, h' = h ++ more ∧ ∀ c ∈ more, c.op.isLock = false
  grows : Grows s s'

section

variable {i : ℕ} {r : Request} {h h' h'' : History} {s s' s'' : State} {β : Type} {guard : FillGuard} {order : Order}

theorem Goes.refl (h : History) (s : State) : Goes h s h s :=
  ⟨⟨[], (append_nil h).symm, fun _ hc => absurd hc not_mem_nil⟩, .refl s⟩

theorem Goes.trans (h1 : Goes h s h' s') (h2 : Goes h' s' h'' s'') : Goes h s h'' s'' := by
  obtain ⟨more1, rfl, hlc1⟩ := h1.history
  obtain ⟨more2, rfl, hlc2⟩ := h2.history
  refine ⟨⟨more1 ++ more2, append_assoc _ _ _, fun c hc => ?_⟩, h1.grows.trans h2.grows⟩
  rcases mem_append.1 hc with hc | hc
  · exact hlc1 c hc
  · exact hlc2 c hc

section

variable (hg : Goes h s h' s')

include hg

theorem Goes.rely (hrl : Grows s' s'') : Goes h s h' s'' :=
  ⟨hg.history, hg.grows.trans hrl⟩

theorem Goes.call (ho : o.isLock = false) (answer : Except Failure (Ans o))
    (hrl : Grows s' s'') : Goes h s (h' ++ [⟨s', o, answer⟩]) s'' := by
  refine hg.trans ⟨⟨[⟨s', o, answer⟩], rfl, fun c hc => ?_⟩, hrl⟩
  obtain rfl := mem_singleton.1 hc
  exact ho

theorem Goes.mem {c : Call State Failure Op Ans} (hc : c ∈ h) : c ∈ h' := by
  obtain ⟨more, rfl, -⟩ := hg.history
  exact mem_append_left _ hc

theorem Goes.underLock {attempt : Attempt} (hl : UnderLock attempt h) : UnderLock attempt h' := by
  obtain ⟨more, rfl, hmr⟩ := hg.history
  obtain ⟨s0, rest, rfl, hrs⟩ := hl
  refine ⟨s0, rest ++ more, rfl, fun c hc => ?_⟩
  rcases mem_append.1 hc with hc | hc
  · exact hrs c hc
  · exact hmr c hc

end

theorem isLock_of_quiet (ho : o.isQuiet = true) : o.isLock = false := by
  cases o <;> trivial

theorem pre_of_quiet (ho : o.isQuiet = true) (r : Request) (h : History) (s : State) : pre r h s o := by
  cases o <;> trivial

theorem safe_call {post : Post State Failure Op Ans (Ans o)} (hpre : ∀ s1, Grows s s1 → pre r h s1 o)
    (hps : ∀ s1 c, Grows s s1 → post (h ++ [⟨s1, o, (answer i s1 o c).1⟩]) (answer i s1 o c).2 (answer i s1 o c).1) :
    SafeIn i r post (call o) h s := by
  refine .perform fun s1 hs1 hinv => ⟨hpre s1 hs1, fun c => ⟨answer_oneTask hinv i o c, ?_, hps s1 c hs1⟩⟩
  exact fun j _ => answer_grows i s1 o c

theorem safe_quiet {p : Program β} (hp : p.Calls (·.isQuiet = true)) :
    SafeIn i r (fun h' s' _ => Goes h s h' s') p h s := by
  refine .of_calls (Q := fun h' s' => Goes h s h' s') (fun _ _ _ hg => hg.rely) ?_ hp (Goes.refl h s)
  intro h' s' o ho hg hinv
  refine ⟨pre_of_quiet ho r h' s', fun c => ⟨answer_oneTask hinv i o c, fun j _ => answer_grows i s' o c, ?_⟩⟩
  exact hg.call (isLock_of_quiet ho) _ (answer_grows i s' o c)

def Real (orders : List Order) (s : State) : Prop := ∀ order ∈ orders, order.isTerminal = true → order ∈ s.orders

theorem Real.grows (hr : Real orders s) (hg : Grows s s') : Real orders s' :=
  fun order ho ht => hg.orders order (hr order ho ht) ht

theorem safe_fetch {listing : Listing} {trigger : Bool} (hok : ∀ s1 orders, Grows s s1 → Real orders s1 →
      post (h ++ [⟨s1, .fetchOrders symbol listing trigger, .ok orders⟩]) s1 (.ok orders))
    (herr : ∀ h' s' e, Goes h s h' s' → post h' s' (.error e)) :
    SafeIn i r post (call (.fetchOrders symbol listing trigger)) h s := by
  refine safe_call (fun _ _ => trivial) fun s1 c hs1 => ?_
  have hgs : Goes h s h s1 := (Goes.refl h s).rely hs1
  simp only [answer, wrote]
  cases c.raises with
  | some e =>
    refine herr _ _ _ (hgs.call rfl _ ?_)
    dsimp only
    split <;> exact .refl s1
  | none =>
    refine hok s1 _ hs1 fun order ho _ => ?_
    exact of_decide_eq_true (mem_filter.1 ho).2

theorem safe_list
    (hok : ∀ h' s' orders, Goes h s h' s' → Real orders s' → Listed symbol h' orders → post h' s' (.ok orders))
    (herr : ∀ h' s' e, Goes h s h' s' → post h' s' (.error e)) : SafeIn i r post (list has symbol) h s := by
  unfold list listOrders
  split
  · exact herr _ _ _ (Goes.refl h s)
  refine .bind (safe_fetch (fun s1 a hg1 ha => ?_) herr)
  have g1 := ((Goes.refl h s).rely hg1).call (o := .fetchOrders symbol .openOrders false) rfl (.ok a) (.refl s1)
  refine .bind (safe_fetch (fun s2 b hg2 hb => ?_) fun h' s' e hg => herr h' s' e (g1.trans hg))
  have g2 := (g1.rely hg2).call (o := .fetchOrders symbol .openOrders true) rfl (.ok b) (.refl s2)
  dsimp only
  split
  · exact herr _ _ _ g2
  refine .bind (safe_fetch (fun s3 c hg3 hc => ?_) fun h' s' e hg => herr h' s' e (g2.trans hg))
  have g3 := (g2.rely hg3).call (o := .fetchOrders symbol .closedOrders false) rfl (.ok c) (.refl s3)
  refine .bind (safe_fetch (fun s4 d hg4 hd => ?_) fun h' s' e hg => herr h' s' e (g3.trans hg))
  have g4 := (g3.rely hg4).call (o := .fetchOrders symbol .closedOrders true) rfl (.ok d) (.refl s4)
  refine hok _ s4 _ g4 ?_ ⟨a, b, c, d, ⟨h.map (·.event), ?_⟩, rfl⟩
  · intro order ho ht
    rcases mem_foldl_merge ho with ho | ho
    · cases ho
    simp only [mem_append] at ho
    rcases ho with ((ho | ho) | ho) | ho
    · exact ((ha.grows hg2).grows hg3).grows hg4 order ho ht
    · exact (hb.grows hg3).grows hg4 order ho ht
    · exact hc.grows hg4 order ho ht
    · exact hd order ho ht
  · simp only [map_append, append_assoc]
    rfl

theorem find_spec (hfi : findByClientOrderId orders id = some order) : order.linkId = some id ∧ order ∈ orders := by
  have hln := find?_some hfi
  exact ⟨of_decide_eq_true hln, mem_of_find?_eq_some hfi⟩

theorem safe_lookUp {post : Post State Failure Op Ans (Option Order)}
    (hfn : ∀ h' s' order, Goes h s h' s' → order.linkId = some id → Real [order] s' → post h' s' (.ok (some order)))
    (hnn : ∀ h' s', Goes h s h' s' → post h' s' (.ok none)) : SafeIn i r post (lookUp has symbol id) h s := by
  refine .handle (.bind (safe_list (fun h' s' orders hg hre _ => ?_) fun h' s' e hg => hnn h' s' hg))
  dsimp only
  cases hfi : findByClientOrderId orders id with
  | none => exact hnn h' s' hg
  | some order =>
    obtain ⟨hln, hmem⟩ := find_spec hfi
    refine hfn h' s' order hg hln fun x hx ht => ?_
    obtain rfl := mem_singleton.1 hx
    exact hre _ hmem ht

abbrev Quiet (p : Program β) : Prop := p.Calls (·.isQuiet = true)

theorem safe_quiet_bind {γ : Type} {p : Program γ} (hp : Quiet p) {f : γ → Program β}
    {post : Post State Failure Op Ans β} (hf : ∀ h' s' a, Goes h s h' s' → SafeIn i r post (f a) h' s')
    (herr : ∀ h' s' e, Goes h s h' s' → post h' s' (.error e)) : SafeIn i r post (p >>= f) h s := by
  refine .bind (.mono (fun h' s' x hg => ?_) (safe_quiet hp))
  cases x with
  | ok a => exact hf h' s' a hg
  | error e => exact herr h' s' e hg

def SettledOk (id : String) (s : State) : Settled → Prop
  | ⟨some order, _, _⟩ => order ∈ s.orders ∧ order.linkId = some id ∧ order.isTerminal = true
  | ⟨none, latest, _⟩ => latest.isTerminal = false

abbrev settlePost (id : String) (h : History) (s : State) : Post State Failure Op Ans Settled :=
  fun h' s' x => Goes h s h' s' ∧ ∀ out, x = .ok out → SettledOk id s' out

theorem settlePost.error (hg : Goes h s h' s') (e : Failure) : settlePost id h s h' s' (.error e) :=
  ⟨hg, fun out hout => by cases hout⟩

theorem settlePost.ok (hg : Goes h s h' s') {out : Settled}
    (hout : SettledOk id s' out) : settlePost id h s h' s' (.ok out) := by
  refine ⟨hg, fun out' heq => ?_⟩
  cases heq
  exact hout

theorem safe_confirmCancel {started : ℚ} {looks : List ℚ}
    {latest : Order} (hlt : latest.isTerminal = false) (hg : Goes h s h' s') :
    SafeIn i r (settlePost id h s) (confirmCancel has symbol id started looks guard latest) h' s' := by
  induction looks generalizing h' s' guard latest with
  | nil => exact .ok hg hlt
  | cons due looks ih =>
    refine safe_quiet_bind (.perform rfl) (fun h1 s1 now hg1 => ?_) fun _ _ e hg1 => .error (hg.trans hg1) e
    refine safe_quiet_bind (calls_sleepFor (fun _ => rfl) _) (fun h2 s2 _ hg2 => ?_)
      fun _ _ e hg2 => .error ((hg.trans hg1).trans hg2) e
    have g2 := (hg.trans hg1).trans hg2
    refine .bind (safe_lookUp (fun h3 s3 order hg3 hln hre => ?_) fun h3 s3 hg3 => ?_)
    · dsimp only
      split
      · rename_i htr
        exact .ok (g2.trans hg3) ⟨hre order mem_cons_self htr, hln, htr⟩
      · rename_i hactive
        refine safe_quiet_bind (calls_cover has (fun _ _ ho => ho) rfl order) (fun h4 s4 guard' hg4 => ?_)
          fun _ _ e hg4 => .error ((g2.trans hg3).trans hg4) e
        exact ih (Bool.eq_false_of_not_eq_true hactive) ((g2.trans hg3).trans hg4)
    · exact ih hlt (g2.trans hg3)

theorem safe_settleActiveEntry
    (hactive : order.isTerminal = false) (hln : order.linkId = some id) (hg : Goes h s h' s') :
    SafeIn i r (settlePost id h s) (settleActiveEntry has symbol guard order) h' s' := by
  unfold settleActiveEntry
  rw [hactive]
  refine safe_quiet_bind (calls_cover has (fun _ _ ho => ho) rfl order) (fun h1 s1 guard' hg1 => ?_)
    fun _ _ e hg1 => .error (hg.trans hg1) e
  rw [hln]
  refine safe_quiet_bind (.attempt rfl) (fun h2 s2 _ hg2 => ?_) fun _ _ e hg2 => .error ((hg.trans hg1).trans hg2) e
  refine safe_quiet_bind (.perform rfl) (fun h3 s3 started hg3 => ?_)
    fun _ _ e hg3 => .error (((hg.trans hg1).trans hg2).trans hg3) e
  exact safe_confirmCancel hactive (((hg.trans hg1).trans hg2).trans hg3)

end

end Schurfer.LateFill
