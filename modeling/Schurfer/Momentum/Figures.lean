import Mathlib.Data.List.Sort
import Schurfer.Momentum.Engine

/-!
# The figures of one side

What the figures of a side have to be for a list of trades (`SideAccount`).
-/

namespace Schurfer.Momentum

open List HistogramBucket

variable {h : List HistogramBucket} {b : HistogramBucket} {i : ℕ} {l : List ℚ} (notionalUsd value : ℚ)

def InBucket (i : ℕ) (notionalUsd : ℚ) : Prop :=
  (∀ lower ∈ (histogramBoundsUsd.take i).getLast?, lower ≤ notionalUsd) ∧
    ∀ upper ∈ histogramBoundsUsd[i]?, notionalUsd < upper

instance (i : ℕ) (notionalUsd : ℚ) : Decidable (InBucket i notionalUsd) := inferInstanceAs (Decidable (_ ∧ _))

def HistogramBucket.bump (notionalUsd : ℚ) (b : HistogramBucket) : HistogramBucket :=
  { b with count := b.count + 1, notionalUsd := b.notionalUsd + notionalUsd }

theorem addToHistogram_getElem? (h : List HistogramBucket) (i : ℕ) :
    (addToHistogram notionalUsd h)[i]? = h[i]?.map fun b =>
      if (∀ b' ∈ h.take i, b'.holds notionalUsd = false) ∧ b.holds notionalUsd then b.bump notionalUsd else b := by
  induction h generalizing i with
  | nil => rfl
  | cons b h ih =>
    unfold addToHistogram
    cases hb : b.holds notionalUsd with
    | true =>
      cases i with
      | zero => simp [hb, bump]
      | succ => simp [hb]
    | false =>
      cases i with
      | zero => simp [hb]
      | succ => simp [hb, ih]

theorem forall_le_iff_getLast (hl : l.Pairwise (· < ·)) (q : ℚ) : (∀ x ∈ l, x ≤ q) ↔ ∀ x ∈ l.getLast?, x ≤ q := by
  refine ⟨fun h x hx => h x (mem_of_getLast? hx), fun h x hx => ?_⟩
  rcases eq_nil_or_concat l with rfl | ⟨init, last, rfl⟩
  · cases hx
  · rw [concat_eq_append] at hl hx h
    have hlast : last ≤ q := h last (by simp)
    rcases mem_append.1 hx with hx | hx
    · exact ((pairwise_append.1 hl).2.2 x hx last mem_cons_self).le.trans hlast
    · rw [mem_singleton.1 hx]
      exact hlast

theorem histogramBoundsUsd_rising : histogramBoundsUsd.Pairwise (· < ·) := by decide +kernel

def Bounded (h : List HistogramBucket) : Prop :=
  h.map HistogramBucket.upperBoundUsd = (List.range (histogramBoundsUsd.length + 1)).map (histogramBoundsUsd[·]?)

theorem bounded_newHistogram : Bounded newHistogram := rfl

section

variable (hbn : Bounded h)

include hbn

theorem Bounded.length : h.length = histogramBoundsUsd.length + 1 := by
  rw [← length_map upperBoundUsd, hbn, length_map, length_range]

theorem Bounded.getElem?
    (hb : h[i]? = some b) : i ≤ histogramBoundsUsd.length ∧ b.upperBoundUsd = histogramBoundsUsd[i]? := by
  obtain ⟨hi, -⟩ := List.getElem?_eq_some_iff.1 hb
  rw [hbn.length] at hi
  have hmap : (h.map upperBoundUsd)[i]? = some b.upperBoundUsd := by rw [getElem?_map, hb]; rfl
  rw [hbn, getElem?_map, getElem?_range hi] at hmap
  exact ⟨Nat.lt_succ_iff.1 hi, (Option.some.inj hmap).symm⟩

theorem Bounded.forall_take (hi : i ≤ histogramBoundsUsd.length) (notionalUsd : ℚ) :
    (∀ b ∈ h.take i, b.holds notionalUsd = false) ↔ ∀ bound ∈ histogramBoundsUsd.take i, bound ≤ notionalUsd := by
  have htk : (h.take i).map upperBoundUsd = (histogramBoundsUsd.take i).map some := by
    rw [map_take, hbn]
    refine ext_getElem? fun j => ?_
    simp only [getElem?_take, getElem?_map]
    split
    · rename_i hj
      have hlt : j < histogramBoundsUsd.length := by omega
      rw [getElem?_range (by omega), getElem?_eq_getElem hlt]
      exact congrArg some (getElem?_eq_getElem hlt)
    · rfl
  have hhl : ∀ b : HistogramBucket,
      b.holds notionalUsd = false ↔ ∃ bound, some bound = b.upperBoundUsd ∧ bound ≤ notionalUsd := by
    intro b
    unfold holds
    cases b.upperBoundUsd <;> simp
  constructor
  · intro hall bound hmem
    have hsm : some bound ∈ (h.take i).map upperBoundUsd := htk ▸ mem_map_of_mem hmem
    obtain ⟨b, hb, hup⟩ := mem_map.1 hsm
    obtain ⟨bound', hbn', hle⟩ := (hhl b).1 (hall b hb)
    rw [hup] at hbn'
    exact Option.some.inj hbn' ▸ hle
  · intro hall b hb
    have hsm : b.upperBoundUsd ∈ (histogramBoundsUsd.take i).map some := htk ▸ mem_map_of_mem hb
    obtain ⟨bound, hmem, hup⟩ := mem_map.1 hsm
    exact (hhl b).2 ⟨bound, hup, hall bound hmem⟩

theorem Bounded.first_iff (hb : h[i]? = some b) (notionalUsd : ℚ) :
    ((∀ b' ∈ h.take i, b'.holds notionalUsd = false) ∧ b.holds notionalUsd) ↔ InBucket i notionalUsd := by
  obtain ⟨hi, hup⟩ := hbn.getElem? hb
  rw [hbn.forall_take hi, forall_le_iff_getLast (histogramBoundsUsd_rising.sublist (take_sublist i _))]
  refine and_congr_right fun _ => ?_
  unfold holds
  rw [hup]
  cases histogramBoundsUsd[i]? <;> simp

theorem Bounded.addToHistogram (hb : (addToHistogram notionalUsd h)[i]? = some b) :
    ∃ b0, h[i]? = some b0 ∧ b = if InBucket i notionalUsd then b0.bump notionalUsd else b0 := by
  rw [addToHistogram_getElem?, Option.map_eq_some_iff] at hb
  obtain ⟨b0, hb0, rfl⟩ := hb
  exact ⟨b0, hb0, if_congr (hbn.first_iff hb0 notionalUsd) rfl rfl⟩

end

theorem addToHistogram_upper (h : List HistogramBucket) :
    (addToHistogram notionalUsd h).map upperBoundUsd = h.map upperBoundUsd := by
  induction h with
  | nil => rfl
  | cons b h ih =>
    unfold addToHistogram
    split
    · rfl
    · rw [map_cons, map_cons, ih]

theorem addToHistogram_sums {notionalUsd : ℚ} (hex : ∃ b ∈ h, b.holds notionalUsd = true) :
    ((addToHistogram notionalUsd h).map count).sum = (h.map count).sum + 1 ∧
      ((addToHistogram notionalUsd h).map HistogramBucket.notionalUsd).sum =
        (h.map HistogramBucket.notionalUsd).sum + notionalUsd := by
  induction h with
  | nil => simp at hex
  | cons b h ih =>
    unfold addToHistogram
    cases hb : b.holds notionalUsd with
    | true =>
      simp only [if_true, map_cons, sum_cons]
      exact ⟨by omega, by ring⟩
    | false =>
      have hrs : ∃ b ∈ h, b.holds notionalUsd = true := by simpa [hb] using hex
      obtain ⟨hcn, hsum⟩ := ih hrs
      simp only [Bool.false_eq_true, if_false, map_cons, sum_cons, hcn, hsum]
      exact ⟨by omega, by ring⟩

theorem Bounded.exists_holds (hbn : Bounded h) (notionalUsd : ℚ) : ∃ b ∈ h, b.holds notionalUsd = true := by
  have hnn : none ∈ h.map upperBoundUsd := by
    rw [hbn]
    exact mem_map.2 ⟨histogramBoundsUsd.length, mem_range.2 (Nat.lt_succ_self _), by simp⟩
  obtain ⟨b, hb, hup⟩ := mem_map.1 hnn
  refine ⟨b, hb, ?_⟩
  unfold holds
  rw [hup]
  rfl

theorem exists_unique_inBucket : ∃! i, i < newHistogram.length ∧ InBucket i notionalUsd := by
  have hfr : ∀ i (hi : i < newHistogram.length),
      ((∀ b ∈ newHistogram.take i, b.holds notionalUsd = false) ∧ newHistogram[i].holds notionalUsd) ↔
        InBucket i notionalUsd :=
    fun i hi => bounded_newHistogram.first_iff (getElem?_eq_getElem hi) notionalUsd
  have hlt : newHistogram.findIdx (·.holds notionalUsd) < newHistogram.length :=
    findIdx_lt_length_of_exists (bounded_newHistogram.exists_holds notionalUsd)
  -- the index of the first bucket that holds it, and no other index is of a first one
  refine ⟨newHistogram.findIdx (·.holds notionalUsd), ⟨hlt, (hfr _ hlt).1 ⟨fun b hb => ?_, ?_⟩⟩, fun i hi => ?_⟩
  · obtain ⟨j, hj, rfl⟩ := mem_take_iff_getElem.1 hb
    exact not_of_lt_findIdx (lt_of_lt_of_le hj (min_le_left _ _))
  · exact findIdx_getElem (w := hlt)
  · obtain ⟨hi, hin⟩ := hi
    obtain ⟨hbf, hhl⟩ := (hfr i hi).2 hin
    refine ((findIdx_eq hi).2 ⟨hhl, fun j hj => hbf _ ?_⟩).symm
    exact mem_take_iff_getElem.2 ⟨j, by omega, rfl⟩

def largest (notionals : List ℚ) : List ℚ := (notionals.insertionSort (· ≥ ·)).take topK

theorem perm_insertDescending (l : List ℚ) : (insertDescending value l).Perm (value :: l) := by
  induction l with
  | nil => exact .refl _
  | cons x l ih =>
    unfold insertDescending
    split
    · exact (ih.cons x).trans (.swap value x l)
    · exact .refl _

theorem pairwise_insertDescending (hl : l.Pairwise (· ≥ ·)) : (insertDescending value l).Pairwise (· ≥ ·) := by
  induction l with
  | nil => exact pairwise_singleton _ _
  | cons x l ih =>
    obtain ⟨hx, hl⟩ := pairwise_cons.1 hl
    unfold insertDescending
    split
    · rename_i hle
      refine pairwise_cons.2 ⟨fun y hy => ?_, ih hl⟩
      rcases mem_cons.1 ((perm_insertDescending value l).mem_iff.1 hy) with rfl | hy
      · exact hle
      · exact hx y hy
    · rename_i hlt
      have hlt : x < value := not_le.1 hlt
      refine pairwise_cons.2 ⟨fun y hy => ?_, pairwise_cons.2 ⟨hx, hl⟩⟩
      rcases mem_cons.1 hy with rfl | hy
      · exact hlt.le
      · exact (hx y hy).trans hlt.le

theorem take_insertDescending (k : ℕ) (l : List ℚ) :
    (insertDescending value (l.take k)).take k = (insertDescending value l).take k := by
  induction l generalizing k with
  | nil => rw [take_nil]
  | cons x l ih =>
    cases k with
    | zero => rfl
    | succ k =>
      rw [take_succ_cons]
      unfold insertDescending
      split
      · rw [take_succ_cons, take_succ_cons, ih]
      · cases k with
        | zero => rfl
        | succ => simp [take_take]

theorem insertTopK_largest (notionals : List ℚ) (value : ℚ) :
    insertTopK (largest notionals) value = largest (notionals ++ [value]) := by
  unfold insertTopK largest
  rw [take_insertDescending]
  congr 1
  have his := perm_insertDescending value (notionals.insertionSort (· ≥ ·))
  have hsr := (perm_insertionSort (· ≥ ·) notionals).cons value
  have hap := (perm_append_singleton value notionals).symm
  refine List.Perm.eq_of_pairwise' (pairwise_insertDescending value (pairwise_insertionSort _ _))
    (pairwise_insertionSort _ _) ?_
  exact his.trans (hsr.trans (hap.trans (perm_insertionSort _ _).symm))

variable (ts : List Trade)

def ordinary : List ℚ := (ts.filter fun t => !t.isBlockTrade && !t.isRpi).map Trade.notional

def blocks : List ℚ := (ts.filter Trade.isBlockTrade).map Trade.notional

def rpis : List ℚ := (ts.filter fun t => !t.isBlockTrade && t.isRpi).map Trade.notional

structure SideFigures (os bs rs : List ℚ) (side : SideStats) : Prop where
  tradeCount : side.tradeCount = os.length
  totalNotionalUsd : side.totalNotionalUsd = os.sum
  blockTradeCount : side.blockTradeCount = bs.length
  blockTradeNotionalUsd : side.blockTradeNotionalUsd = bs.sum
  rpiTradeCount : side.rpiTradeCount = rs.length
  rpiTradeNotionalUsd : side.rpiTradeNotionalUsd = rs.sum
  bounded : Bounded side.histogram
  bucket : ∀ i b, side.histogram[i]? = some b →
    b.count = (os.filter (InBucket i)).length ∧ b.notionalUsd = (os.filter (InBucket i)).sum
  bucketCounts : (side.histogram.map HistogramBucket.count).sum = side.tradeCount
  bucketNotionals : (side.histogram.map HistogramBucket.notionalUsd).sum = side.totalNotionalUsd
  topNotionalsUsd : side.topNotionalsUsd = largest os

def SideAccount (side : SideStats) : Prop := SideFigures (ordinary ts) (blocks ts) (rpis ts) side

theorem sideAccount_nil : SideAccount [] {} := by
  refine ⟨rfl, rfl, rfl, rfl, rfl, rfl, bounded_newHistogram, fun i b hb => ?_, ?_, ?_, rfl⟩
  · have hem : ∀ b ∈ newHistogram, b.count = 0 ∧ b.notionalUsd = 0 := by decide +kernel
    exact hem b (mem_of_getElem? hb)
  · decide +kernel
  · decide +kernel

theorem bucket_add {ns : List ℚ}
    (hb : b.count = (ns.filter (InBucket i)).length ∧ b.notionalUsd = (ns.filter (InBucket i)).sum) (notionalUsd : ℚ)
    {b' : HistogramBucket} (hb' : b' = if InBucket i notionalUsd then b.bump notionalUsd else b) :
    b'.count = ((ns ++ [notionalUsd]).filter (InBucket i)).length ∧
      b'.notionalUsd = ((ns ++ [notionalUsd]).filter (InBucket i)).sum := by
  obtain ⟨hcn, hsum⟩ := hb
  rw [filter_append, hb']
  split
  · rename_i hin
    simp [bump, hin, hcn, hsum]
  · rename_i hout
    simp [hout, hcn, hsum]

theorem notionals_append (p : Trade → Bool) (ts : List Trade) (t : Trade) : ((ts ++ [t]).filter p).map Trade.notional =
      (ts.filter p).map Trade.notional ++ if p t then [t.notional] else [] := by
  rw [filter_append, map_append]
  cases hp : p t <;> simp [hp]

theorem SideAccount.add {ts : List Trade} {side : SideStats} (h : SideAccount ts side) (burst : BurstTracker)
    (t : Trade) : SideAccount (ts ++ [t]) (side.add burst t).1 := by
  unfold SideAccount ordinary blocks rpis at h ⊢
  rw [notionals_append, notionals_append, notionals_append]
  unfold SideStats.add
  cases hbl : t.isBlockTrade with
  | true =>
    simp only [Bool.not_true, Bool.false_and, Bool.false_eq_true, if_false, if_true, append_nil]
    exact { h with
      blockTradeCount := by simp [h.blockTradeCount]
      blockTradeNotionalUsd := by simp [h.blockTradeNotionalUsd] }
  | false =>
    cases hrpi : t.isRpi with
    | true =>
      simp only [Bool.not_false, Bool.not_true, Bool.and_true, Bool.and_false, Bool.false_eq_true, if_false, if_true,
        append_nil]
      exact { h with
        rpiTradeCount := by simp [h.rpiTradeCount]
        rpiTradeNotionalUsd := by simp [h.rpiTradeNotionalUsd] }
    | false =>
      simp only [Bool.not_false, Bool.and_true, Bool.and_false, Bool.false_eq_true, if_false, if_true, append_nil]
      obtain ⟨hco, hsu⟩ := addToHistogram_sums (h.bounded.exists_holds t.notional)
      exact { h with
        tradeCount := by simp [h.tradeCount]
        totalNotionalUsd := by simp [h.totalNotionalUsd]
        bounded := (addToHistogram_upper _ _).trans h.bounded
        bucket := by
          intro i b hb
          obtain ⟨b0, hb0, hadd⟩ := h.bounded.addToHistogram t.notional hb
          exact bucket_add (h.bucket i b0 hb0) t.notional hadd
        bucketCounts := hco.trans (congrArg (· + 1) h.bucketCounts)
        bucketNotionals := hsu.trans (congrArg (· + t.notional) h.bucketNotionals)
        topNotionalsUsd := by
          rw [h.topNotionalsUsd, insertTopK_largest] }

theorem length_kinds : (ordinary ts).length + (blocks ts).length + (rpis ts).length = ts.length := by
  unfold ordinary blocks rpis
  simp only [length_map]
  induction ts with
  | nil => rfl
  | cons t ts ih =>
    cases hbl : t.isBlockTrade <;> cases hrpi : t.isRpi <;> simp [hbl, hrpi] <;> omega

end Schurfer.Momentum
