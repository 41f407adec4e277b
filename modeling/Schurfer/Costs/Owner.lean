import Schurfer.Costs.Model
import Schurfer.Orders.Listing

/-!
# Derived order ids name their entry

All entry ids have one length, so an id derived from one of them splits in one way only: 32 hex characters, the letter
of its kind, the digits of its sequence. The letter `c` is a hex character too, but at its place no entry id has one.
-/

namespace Schurfer.Costs

open List Orders

inductive Kind
  | stop
  | close

def Kind.letter : Kind → Char
  | .stop => 's'
  | .close => 'c'

def Kind.clientOrderId : Kind → String → ℕ → Except String String
  | .stop => stopClientOrderId
  | .close => closeClientOrderId

variable {kind : Kind} {entry e id : String} {n : ℕ}

theorem length_entry (h : isEntryClientOrderId entry = true) : entry.toList.length = 32 := by
  rw [isEntryClientOrderId, isHexOf, Bool.and_eq_true, decide_eq_true_eq] at h
  exact h.1

theorem clientOrderId_ok (h : kind.clientOrderId entry n = .ok id) : isEntryClientOrderId entry = true ∧
    id.toList = entry.toList ++ kind.letter :: Nat.toDigits 10 n := by
  have hd : derived entry (String.singleton kind.letter) n = .ok id := by
    cases kind <;> exact h
  refine ⟨?_, ?_⟩
  · by_contra hno
    rw [derived, if_pos (Bool.eq_false_iff.2 hno)] at hd
    cases hd
  · rw [derived_ok hd]
    simp

theorem splits_once {k : Kind} {m : ℕ} (hl : entry.toList.length = e.toList.length)
    (h : entry.toList ++ kind.letter :: Nat.toDigits 10 n = e.toList ++ k.letter :: Nat.toDigits 10 m) :
    kind = k ∧ entry = e ∧ n = m := by
  obtain ⟨hentry, htail⟩ := append_inj h hl
  obtain ⟨hletter, hdigits⟩ := cons.inj htail
  refine ⟨?_, String.toList_inj.1 hentry, ?_⟩
  · cases kind <;> cases k <;> first | rfl | cases hletter
  · have hread := congrArg (fun digits => Nat.ofDigitChars 10 digits 0) hdigits
    simpa using hread

theorem isDigits_toDigits (n : ℕ) : isDigits (Nat.toDigits 10 n) = true := by
  rw [isDigits, Bool.and_eq_true, decide_eq_true_eq, all_eq_true]
  exact ⟨Nat.toDigits_ne_nil, fun c hc => Nat.isDigit_of_mem_toDigits (by decide) (by decide) hc⟩

theorem isDerivedFrom_iff (hid : id.toList = entry.toList ++ kind.letter :: Nat.toDigits 10 n)
    (hl : entry.toList.length = e.toList.length) : isDerivedFrom id e = true ↔ e = entry := by
  constructor
  · intro h
    rw [isDerivedFrom, Bool.and_eq_true, Bool.or_eq_true, isPrefixOf_iff_prefix, isPrefixOf_iff_prefix] at h
    have he : e.toList <+: id.toList := by
      rcases h.1 with hp | hp <;> rw [String.toList_append] at hp
      · exact (prefix_append _ _).trans hp
      · exact (prefix_append _ _).trans hp
    rw [hid] at he
    have hle := prefix_of_prefix_length_le he (prefix_append _ _) hl.ge
    exact String.toList_inj.1 (hle.eq_of_length hl.symm)
  · rintro rfl
    have hdrop : id.toList.drop (e.length + 1) = Nat.toDigits 10 n := by
      rw [hid, ← String.length_toList, ← drop_drop, drop_left]
      rfl
    rw [isDerivedFrom, hdrop, isDigits_toDigits, Bool.and_true, Bool.or_eq_true, isPrefixOf_iff_prefix,
      isPrefixOf_iff_prefix, hid, String.toList_append, String.toList_append]
    cases kind with
    | stop => exact .inl ⟨Nat.toDigits 10 n, by simp [Kind.letter]⟩
    | close => exact .inr ⟨Nat.toDigits 10 n, by simp [Kind.letter]⟩

/-- **A derived order id identifies its entry, its kind and its sequence**, is no entry id, and is attributed to its
own entry only among any entries. -/
theorem derived_ids_identify (h : kind.clientOrderId entry n = .ok id) :
    (∀ k e m, Kind.clientOrderId k e m = .ok id → kind = k ∧ entry = e ∧ n = m) ∧
    (∀ e, isEntryClientOrderId e = true → id ≠ e) ∧
    ∀ (row : Execution) (orderIds clientOrderIds entries : List String), row.orderLinkId = some id →
      (∀ orderId ∈ given row.orderId, orderId ∉ orderIds) → id ∉ clientOrderIds →
      (∀ e ∈ entries, isEntryClientOrderId e = true) →
      (ownedBy row orderIds clientOrderIds entries = true ↔ entry ∈ entries) := by
  obtain ⟨hentry, hid⟩ := clientOrderId_ok h
  have hl : ∀ e, isEntryClientOrderId e = true → entry.toList.length = e.toList.length := fun e he =>
    (length_entry hentry).trans (length_entry he).symm
  have hne : ∀ e, isEntryClientOrderId e = true → id ≠ e := by
    rintro e he rfl
    have hlen := congrArg length hid
    rw [length_append, length_cons, ← hl id he] at hlen
    omega
  refine ⟨fun k e m hk => ?_, hne, fun row orderIds clientOrderIds entries hlink hno hnot hall => ?_⟩
  · obtain ⟨he, hid'⟩ := clientOrderId_ok hk
    exact splits_once (hl e he) (hid.symm.trans hid')
  · have hgiven : given row.orderLinkId = some id := by
      have hempty : id ≠ "" := by
        rintro rfl
        exact append_ne_nil_of_right_ne_nil _ (cons_ne_nil _ _) hid.symm
      rw [hlink, given, Option.filter_some, if_pos (decide_eq_true hempty)]
    have hfree : (decide (∃ orderId ∈ given row.orderId, orderId ∈ orderIds)) = false :=
      decide_eq_false fun ⟨o, ho, hmem⟩ => hno o ho hmem
    rw [ownedBy, hgiven, hfree, Bool.false_or, Bool.or_eq_true, Bool.or_eq_true, decide_eq_true_eq, decide_eq_true_eq,
      any_eq_true]
    constructor
    · rintro ((hc | he) | ⟨e, he, hfrom⟩)
      · exact absurd hc hnot
      · exact absurd rfl (hne id (hall id he))
      · rwa [← (isDerivedFrom_iff hid (hl e (hall e he))).1 hfrom]
    · intro hmem
      exact .inr ⟨entry, hmem, (isDerivedFrom_iff hid rfl).2 rfl⟩

def stopRow : Execution :=
  ⟨"x1", .trade, some "o7", some "11111111111111111111111111111111s12", some "Sell", 1, some 9, some 9, 0, none, 0⟩

theorem stopRow_owned : Kind.clientOrderId .stop "11111111111111111111111111111111" 12 =
      .ok "11111111111111111111111111111111s12" ∧
    ownedBy stopRow ["o1"] ["c1"] ["22222222222222222222222222222222", "11111111111111111111111111111111"] = true := by
  have hid : Kind.clientOrderId .stop "11111111111111111111111111111111" 12 =
      .ok "11111111111111111111111111111111s12" := by decide +kernel
  refine ⟨hid, ((derived_ids_identify hid).2.2 stopRow _ _ _ rfl ?_ ?_ ?_).2 ?_⟩ <;> decide +kernel

end Schurfer.Costs
