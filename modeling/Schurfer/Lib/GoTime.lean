import Mathlib.Tactic

/-!
# Times of Go

A `time.Time` is a number of nanoseconds since its zero value, which stands for a time that is not set. A
`time.Duration` has 64 bits, and the difference of two times stops at its ends.
-/

namespace GoTime

def second : ℤ := 1000000000

def minute : ℤ := 60 * second

def unixEpoch : ℤ := 62135596800 * second

def unixMilli (ms : ℤ) : ℤ := unixEpoch + ms * 1000000

def truncate (t : ℤ) : ℤ := t - t % minute

def maxDuration : ℤ := 2 ^ 63 - 1

def minDuration : ℤ := -2 ^ 63

def sub (t u : ℤ) : ℤ := max minDuration (min maxDuration (t - u))

def wrap (d : ℤ) : ℤ := d.bmod (2 ^ 64)

def milliseconds (d : ℤ) : ℤ := d.tdiv 1000000

theorem minute_pos : 0 < minute := by decide

theorem unixEpoch_pos : 0 < unixEpoch := by decide

variable (t : ℤ)

theorem truncate_le : truncate t ≤ t := by
  have hmod := Int.emod_nonneg t minute_pos.ne'
  unfold truncate
  omega

theorem lt_truncate_add : t < truncate t + minute := by
  have hmod := Int.emod_lt_of_pos t minute_pos
  unfold truncate
  omega

theorem truncate_eq_mul : truncate t = minute * (t / minute) := by
  have ht := Int.mul_ediv_add_emod t minute
  unfold truncate
  omega

theorem truncate_mono {t u : ℤ} (h : t ≤ u) : truncate t ≤ truncate u := by
  have hdiv : t / minute ≤ u / minute := Int.ediv_le_ediv minute_pos h
  rw [truncate_eq_mul, truncate_eq_mul]
  exact Int.mul_le_mul_of_nonneg_left hdiv minute_pos.le

theorem truncate_truncate : truncate (truncate t) = truncate t := by
  rw [truncate_eq_mul (truncate t), truncate_eq_mul t, Int.mul_ediv_cancel_left _ minute_pos.ne']

theorem unixEpoch_le_truncate {t : ℤ} (h : unixEpoch ≤ t) : unixEpoch ≤ truncate t := by
  have hep : truncate unixEpoch = unixEpoch := by decide
  rw [← hep]
  exact truncate_mono h

theorem wrap_eq {d : ℤ} (hmin : minDuration ≤ d) (hmax : d ≤ maxDuration) : wrap d = d := by
  unfold minDuration maxDuration at *
  exact Int.bmod_eq_of_le (by omega) (by omega)

theorem sub_le {t u : ℤ} (hle : u ≤ t) : sub t u ≤ t - u := by
  have hmin : minDuration ≤ 0 := by decide
  unfold sub
  omega

theorem sub_eq {t u : ℤ} (hle : u ≤ t) (hmax : t - u ≤ maxDuration) : sub t u = t - u := by
  have hmin : minDuration ≤ 0 := by decide
  unfold sub
  omega

end GoTime
