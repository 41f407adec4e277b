import Schurfer.LateFill.Looks

/-!
# A late fill ends owned, by one task

Any number of recoveries, side by side and stopped at any point. What a recovery decided under the lock still holds
when it acts, because nothing it relies on goes away.
-/

namespace Schurfer.LateFill

open Orders Threads EmergencyClose List

variable {attempt : Attempt} {order : Order} {locked : Locked} {has : Has}

section

variable {i : ℕ} {r : Request} {h h' : History} {s s' : State}

theorem Ended.grows (he : Ended attempt order s) (hg : Grows s s') : Ended attempt order s' :=
  ⟨hg.orders order he.onExchange he.terminal, he.linkId, he.terminal⟩

theorem quiet_referencePrice (symbol : String) (order : Order) : Quiet (referencePrice symbol order) := by
  unfold referencePrice
  split
  · trivial
  · exact .bind (.perform rfl) fun _ => trivial

theorem quiet_adoptExisting (has : Has) (guard : FillGuard) : Quiet (adoptExisting has guard) :=
  .bind (calls_entryStops has (fun _ _ ho => ho) _) fun _ => trivial

def SettleOk (attempt : Attempt) (s : State) : Except Failure (Option (Order × Bool)) → Prop
  | .ok (some (order, true)) => order.isTerminal = false
  | .ok (some (order, false)) => Ended attempt order s
  | _ => True

theorem safe_settle (hactive : order.isTerminal = false) (hln : order.linkId = some attempt.clientOrderId) :
    SafeIn i r (fun h' s' x => Goes h s h' s' ∧ SettleOk attempt s' x) (settle has attempt order locked) h s := by
  refine safe_quiet_bind (quiet_referencePrice _ _) (fun h1 s1 price hg1 => ?_) fun _ _ _ hg => ⟨hg, trivial⟩
  cases price with
  | none => exact ⟨hg1, trivial⟩
  | some price =>
    refine safe_quiet_bind (quiet_adoptExisting has _) (fun h2 s2 guard hg2 => ?_)
      fun _ _ _ hg => ⟨hg1.trans hg, trivial⟩
    cases guard with
    | none => exact ⟨hg1.trans hg2, trivial⟩
    | some guard =>
      refine .bind (.mono (fun h3 s3 x hsettled => ?_) (safe_settleActiveEntry hactive hln (hg1.trans hg2)))
      obtain ⟨hg3, hok⟩ := hsettled
      cases x with
      | error => exact ⟨hg3, trivial⟩
      | ok out =>
        obtain ⟨settled, latest, guard'⟩ := out
        have hout := hok _ rfl
        cases settled with
        | some => exact ⟨hg3, ⟨hout.1, hout.2.1, hout.2.2⟩⟩
        | none => exact ⟨hg3, hout⟩

structure ReadOk (attempt : Attempt) (h : History) (locked : Locked) : Prop where
  free : locked.competitor = none → FreeRead attempt h
  held : locked.competitor ≠ none → CompetitorRead attempt h

theorem ReadOk.goes (hr : ReadOk attempt h locked) (hg : Goes h s h' s') : ReadOk attempt h' locked := by
  refine ⟨fun hnn => ?_, fun hsm => ?_⟩
  · obtain ⟨⟨c1, hc1, hop1⟩, ⟨c2, hc2, hop2⟩, ⟨c3, hc3, hop3⟩⟩ := hr.free hnn
    exact ⟨⟨c1, hg.mem hc1, hop1⟩, ⟨c2, hg.mem hc2, hop2⟩, ⟨c3, hg.mem hc3, hop3⟩⟩
  · obtain ⟨c, hc, hop⟩ := hr.held hsm
    exact ⟨c, hg.mem hc, hop⟩

theorem safe_read {o : Op} (ho : o.isQuiet = true) {value : State → Ans o}
    (hrd : ∀ s c, answer i s o c = wrote c s s (.ok (value s))) {post : Post State Failure Op Ans (Ans o)}
    (hok : ∀ s1, Goes h s (h ++ [⟨s1, o, .ok (value s1)⟩]) s1 →
      post (h ++ [⟨s1, o, .ok (value s1)⟩]) s1 (.ok (value s1)))
    (herr : ∀ h' s' e, Goes h s h' s' → post h' s' (.error e)) : SafeIn i r post (call o) h s := by
  refine safe_call (fun s1 _ => pre_of_quiet ho r h s1) fun s1 c hs1 => ?_
  have hgs : ∀ x, Goes h s (h ++ [⟨s1, o, x⟩]) s1 := fun x =>
    ((Goes.refl h s).rely hs1).call (isLock_of_quiet ho) x (.refl s1)
  rw [hrd s1 c]
  unfold wrote
  cases c.raises with
  | some e =>
    rw [ite_self]
    exact herr _ _ _ (hgs _)
  | none => exact hok s1 (hgs _)

theorem readOk_of {s1 s2 s3 : State} {x1 : Except Failure Bool} {x2 : Except Failure Bool} {x3 : Except Failure Bool}
    (h1 : ⟨s1, .readOpenTrade attempt.identity.exchange attempt.identity.symbol, x1⟩ ∈ h)
    (h2 : ⟨s2, .readOtherUnresolvedAttempt attempt.identity.exchange attempt.base attempt.attemptId, x2⟩ ∈ h)
    (h3 : ⟨s3, .readOtherActiveTask attempt.identity.exchange attempt.base attempt.attemptId, x3⟩ ∈ h)
    (hc : locked.competitor = competitorOf (s1.openTrade attempt.identity.exchange attempt.identity.symbol)
      (s2.otherUnresolvedAttempt attempt.identity.exchange attempt.base attempt.attemptId)
      (s3.otherActiveTask attempt.identity.exchange attempt.base attempt.attemptId)) : ReadOk attempt h locked := by
  unfold competitorOf at hc
  split at hc
  · rename_i htrade
    exact ⟨fun hnn => absurd (hc.symm.trans hnn) (Option.some_ne_none _), fun _ => ⟨_, h1, .inl ⟨rfl, htrade⟩⟩⟩
  rename_i htrade
  split at hc
  · rename_i hat
    exact ⟨fun hnn => absurd (hc.symm.trans hnn) (Option.some_ne_none _), fun _ => ⟨_, h2, .inr (.inl ⟨rfl, hat⟩)⟩⟩
  rename_i hat
  split at hc
  · rename_i hts
    exact ⟨fun hnn => absurd (hc.symm.trans hnn) (Option.some_ne_none _), fun _ => ⟨_, h3, .inr (.inr ⟨rfl, hts⟩)⟩⟩
  rename_i hts
  refine ⟨fun _ => ⟨⟨_, h1, rfl, ?_⟩, ⟨_, h2, rfl, ?_⟩, ⟨_, h3, rfl, ?_⟩⟩, fun hsm => absurd hc hsm⟩
  · exact Bool.eq_false_of_not_eq_true htrade
  · exact Bool.eq_false_of_not_eq_true hat
  · exact Bool.eq_false_of_not_eq_true hts

theorem safe_readLocked {post : Post State Failure Op Ans (Option Locked)}
    (hlc : ∀ h' s' locked, Goes h s h' s' → ReadOk attempt h' locked → post h' s' (.ok (some locked)))
    (hnn : ∀ h' s', Goes h s h' s' → post h' s' (.ok none)) (herr : ∀ h' s' e, Goes h s h' s' → post h' s' (.error e)) :
    SafeIn i r post (readLocked attempt) h s := by
  refine safe_quiet_bind (.perform rfl) (fun h0 s0 row hg0 => ?_) herr
  cases row with
  | none => exact hnn _ _ hg0
  | some row =>
    refine .bind (safe_read rfl (fun _ _ => rfl) (fun s1 hg1 => ?_) fun _ _ e hg => herr _ _ e (hg0.trans hg))
    refine .bind (safe_read rfl (fun _ _ => rfl) (fun s2 hg2 => ?_)
      fun _ _ e hg => herr _ _ e ((hg0.trans hg1).trans hg))
    refine .bind (safe_read rfl (fun _ _ => rfl) (fun s3 hg3 => ?_)
      fun _ _ e hg => herr _ _ e (((hg0.trans hg1).trans hg2).trans hg))
    refine hlc _ _ _ (((hg0.trans hg1).trans hg2).trans hg3) ?_
    exact readOk_of (hg3.mem (hg2.mem (mem_append_right h0 (mem_singleton.2 rfl))))
      (hg3.mem (mem_append_right _ (mem_singleton.2 rfl)))
      (mem_append_right _ (mem_singleton.2 rfl)) rfl

theorem completed_spec {filled : ℚ} {error : Option String}
    (h : attemptStateFromOrder order = (.completed, some filled, error)) :
    order.filled = some filled ∧ order.isTerminal = true := by
  unfold attemptStateFromOrder at h
  cases hfl : order.filled with
  | none =>
    rw [hfl] at h
    dsimp only at h
    split at h <;> cases h
  | some f =>
    rw [hfl] at h
    dsimp only at h
    split at h
    · split at h
      · rename_i htr
        cases h
        exact ⟨rfl, htr⟩
      · cases h
    split at h
    · cases h
    split at h <;> cases h

theorem safe_record (hrc : ∀ s1, Grows s s1 → RecordOk r.attempt h s1 order) :
    SafeIn i r (fun _ _ _ => True) (call (.record r.attempt order)) h s :=
  safe_call (fun s1 hs1 => ⟨rfl, hrc s1 hs1⟩) fun _ _ _ => trivial

theorem recordOk_active (hactive : order.isTerminal = false) : RecordOk attempt h s order := by
  intro filled error hst _
  rw [(completed_spec hst).2] at hactive
  cases hactive

section

variable (hlo : UnderLock r.attempt h)

include hlo

theorem safe_own (hrd : ReadOk r.attempt h locked) (hen : Ended r.attempt order s) :
    SafeIn i r (fun _ _ _ => True) (own has r.attempt order locked) h s := by
  unfold own
  split
  · rename_i filled error hst
    split
    · rename_i hzr
      refine safe_record fun _ _ f e hf hpos => ?_
      rw [hst] at hf
      cases hf
      exact absurd hpos (not_lt.2 hzr)
    rename_i hpos
    split
    · rename_i hhl
      exact safe_record fun _ _ _ _ _ _ => .inr ⟨hlo, hrd.held hhl⟩
    rename_i hfree
    refine .bind (safe_list (fun h1 s1 orders hg1 _ hls => ?_) fun _ _ _ _ => trivial)
    -- the fill was read before the closes were listed, and is still the order's
    have hcr : ∀ s2, Grows s1 s2 → CreateOk r.attempt h1 s2 (taskSpec r.attempt filled)
        ((ordersWithPrefix orders (closePrefix r.attempt.clientOrderId)).map adoptedClose) := fun s2 hg2 =>
      ⟨rfl, ⟨not_le.1 hpos, order, (hen.grows hg1.grows).grows hg2, (completed_spec hst).1⟩,
        hg1.underLock hlo, (hrd.goes hg1).free (not_ne_iff.1 hfree), orders, hls, rfl⟩
    refine .bind (safe_call hcr fun s2 c _ => ?_)
    simp only [answer, wrote]
    cases c.raises with
    | some => trivial
    | none =>
      cases hok : (s2.createTask (taskSpec r.attempt filled) _).1 with
      | error => trivial
      | ok task =>
        refine safe_record fun s3 hg3 _ _ _ _ => .inl (hg3.tasks _ ?_)
        exact createTask_ok hok
  · rename_i hnot
    refine safe_record fun _ _ f e hf _ => ?_
    exact absurd hf (hnot f e)

theorem safe_resolveFound (hrd : ReadOk r.attempt h locked) (hln : order.linkId = some r.attempt.clientOrderId)
    (hrl : Real [order] s) : SafeIn i r (fun _ _ _ => True) (resolveFound has r.attempt order locked) h s := by
  have hsm : ∀ {h s} {p : Program Attempt}, SafeIn i r (fun _ _ _ => True) p h s →
      SafeIn i r (fun _ _ _ => True) (some <$> p) h s := by
    intro h s p hp
    rw [map_eq_pure_bind]
    refine .bind (.mono (fun _ _ x _ => ?_) hp)
    split <;> trivial
  unfold resolveFound
  split
  · rename_i htr
    exact hsm (safe_own hlo hrd ⟨hrl order mem_cons_self htr, hln, htr⟩)
  · rename_i hactive
    refine .bind (.mono (fun h1 s1 x hx => ?_) (safe_settle (Bool.eq_false_of_not_eq_true hactive) hln))
    obtain ⟨hg, hsettled⟩ := hx
    cases x with
    | error => trivial
    | ok out =>
      rcases out with _ | ⟨order', _ | _⟩
      · trivial
      · exact hsm (safe_own (hg.underLock hlo) (hrd.goes hg) hsettled)
      · exact hsm (safe_record fun _ _ => recordOk_active hsettled)

theorem safe_resolveLocked : SafeIn i r (fun _ _ _ => True) (resolveLocked has r.attempt) h s := by
  refine .bind (safe_readLocked (fun h1 s1 locked hg1 hrd => ?_) (fun _ _ _ => trivial) fun _ _ _ _ => trivial)
  dsimp only
  split
  · trivial
  · refine .bind (safe_lookUp (fun h2 s2 order hg2 hln hrl => ?_) fun _ _ _ => trivial)
    exact safe_resolveFound (hg2.underLock (hg1.underLock hlo)) (hrd.goes hg2) hln hrl

end

theorem safe_resolve (i : ℕ) (r : Request) (s : State) : SafeIn i r (fun _ _ _ => True) (resolve r) [] s := by
  unfold resolve
  split
  · refine .bind (safe_call (fun _ _ => trivial) fun s1 c _ => ?_)
    cases han : (answer i s1 (.acquireLock (orderLockKey r.attempt)) c).1 with
    | error => trivial
    | ok acquired =>
      cases acquired with
      | false => trivial
      | true =>
        have hlo : UnderLock r.attempt ([] ++ [⟨s1, .acquireLock (orderLockKey r.attempt), .ok true⟩]) :=
          ⟨s1, [], rfl, fun _ hc => absurd hc not_mem_nil⟩
        refine .handle (.ensure (.mono (fun h' s' x _ => ?_) (safe_resolveLocked hlo)))
        refine safe_call (fun _ _ => trivial) fun s2 c2 _ => ?_
        split
        · cases x <;> trivial
        · trivial
  · trivial

end

theorem sound : Sound world resolve contract fun _ _ _ _ _ => True where
  refl _ := .refl
  trans _ _ _ _ h1 h2 := h1.trans h2
  env _ e hs := ⟨(happens_ok hs e).1, fun _ => (happens_ok hs e).2⟩
  crash _ _ hs := ⟨hs, fun _ _ => .of_eq rfl rfl⟩
  start i r s _ := safe_resolve i r s

def sampleAttempt : Attempt where
  identity := ⟨"bybit", "BTC/USDT:USDT", "BTCUSDT", "linear", .long⟩
  attemptId := 5
  base := "BTC"
  clientOrderId := "0123456789abcdef0123456789abcdef"
  orderId := none
  status := .submissionUnknown
  filledAmount := none
  tradeId := none

def sampleEntry : Order :=
  { id := some "e1", clientOrderId := some "0123456789abcdef0123456789abcdef", status := some "closed",
    filled := some 3, amount := some 3 }

def sampleClose : Order :=
  { id := some "e2", clientOrderId := some "0123456789abcdef0123456789abcdefc1", status := some "closed",
    filled := some 1, amount := some 3 }

def sampleState : State where
  locks _ := none
  orders := [sampleEntry, sampleClose]
  attempts := [⟨5, true, "0123456789abcdef0123456789abcdef", "bybit", "BTC", .submissionUnknown, none, some 3, none,
    none, none, none⟩]
  trades := []
  tasks := []

def sampleMoves : List (Move Request Chance Event) :=
  let plain : Chance := {}
  let listing : List Chance := [plain, plain, { listed := [sampleEntry, sampleClose] }, plain]
  .start ⟨fun _ => true, true, sampleAttempt⟩ ::
    (List.replicate 5 plain ++ listing ++ listing ++ List.replicate 3 plain).map (Move.call 0)

end Schurfer.LateFill
