import Mathlib.Tactic.FieldSimp
import Mathlib.Tactic.Linarith
import Mathlib.Tactic.Positivity
import Cmocka.Model.Time

/-!
# Report — the time a test took

Two clock readings are less than a second apart in their nanoseconds, so neither adjustment of
`cm_tspecdiff` moves anything, and the sign is applied to the seconds alone.  The result is the
distance between the readings if the clock went forward, and otherwise only if the nanoseconds agree
(`tspecdiff_exact_iff`).
-/

namespace Cmocka

/-- The time in nanoseconds. -/
def Timespec.nanoseconds (t : Timespec) : Int := t.tvSec * 10 ^ 9 + t.tvNsec

/-- What a clock returns: the nanoseconds are those within a second. -/
structure ClockReading extends Timespec where
  nsec_nonneg : 0 ≤ tvNsec
  nsec_lt : tvNsec < 10 ^ 9

variable (time1 time0 : ClockReading)

theorem truncate_eq_zero {x : ℚ} (hnonneg : 0 ≤ x) (hlt : x < 1) : truncate x = 0 := by
  rw [truncate, if_pos hnonneg]
  exact Int.floor_eq_zero_iff.mpr ⟨hnonneg, hlt⟩

theorem raiseSeconds_eq : raiseSeconds time1.toTimespec time0.toTimespec = time0.toTimespec := by
  rw [raiseSeconds]
  split
  case isTrue hgt =>
    -- less than a second is carried as no second
    have hxsec : truncate (((time0.tvNsec - time1.tvNsec : Int) : ℚ) / (10 ^ 9 + 1)) = 0 := by
      have hnonneg : (0 : ℚ) ≤ ((time0.tvNsec - time1.tvNsec : Int) : ℚ) :=
        Int.cast_nonneg (by omega)
      have hlt : ((time0.tvNsec - time1.tvNsec : Int) : ℚ) < 10 ^ 9 := by
        have hint : time0.tvNsec - time1.tvNsec < 10 ^ 9 := by
          have h0 := time0.nsec_lt
          have h1 := time1.nsec_nonneg
          omega
        exact_mod_cast hint
      refine truncate_eq_zero (by positivity) ?_
      rw [div_lt_one (by norm_num)]
      linarith
    simp only [hxsec, Int.cast_zero, mul_zero, truncate_eq_zero le_rfl one_pos, sub_zero, add_zero]
  case isFalse => rfl

theorem lowerSeconds_eq : lowerSeconds time1.toTimespec time0.toTimespec = time0.toTimespec := by
  rw [lowerSeconds, if_neg]
  have hle : time1.tvNsec - time0.tvNsec ≤ 10 ^ 9 := by
    have h0 := time0.nsec_nonneg
    have h1 := time1.nsec_lt
    omega
  exact not_lt.mpr (by exact_mod_cast hle)

/-- What is left of `cm_tspecdiff` on clock readings. -/
theorem cmTspecdiff_eq :
    cmTspecdiff time1.toTimespec time0.toTimespec =
      { tvSec := (time1.tvSec - time0.tvSec) * if time1.tvSec < time0.tvSec then -1 else 1
        tvNsec := time1.tvNsec - time0.tvNsec } := by
  rw [cmTspecdiff, raiseSeconds_eq, lowerSeconds_eq]

/-- **Elapsed time.**  The result of `cm_tspecdiff` is the distance between the two readings if and
only if the clock did not go back between them or they agree in their nanoseconds. -/
theorem tspecdiff_exact_iff :
    (cmTspecdiff time1.toTimespec time0.toTimespec).nanoseconds =
        |time1.nanoseconds - time0.nanoseconds| ↔
      time0.nanoseconds ≤ time1.nanoseconds ∨ time0.tvNsec = time1.tvNsec := by
  have h0 := time0.nsec_nonneg
  have h0' := time0.nsec_lt
  have h1 := time1.nsec_nonneg
  have h1' := time1.nsec_lt
  rw [cmTspecdiff_eq]
  simp only [Timespec.nanoseconds]
  split
  case isTrue hback =>
    -- the difference of the seconds is turned round, that of the nanoseconds is not
    rw [abs_of_neg (by omega)]
    omega
  case isFalse hsec =>
    rcases le_total time0.nanoseconds time1.nanoseconds with hle | hle
    · simp only [Timespec.nanoseconds] at hle
      rw [abs_of_nonneg (by omega)]
      omega
    · simp only [Timespec.nanoseconds] at hle
      rw [abs_of_nonpos (by omega)]
      omega

/-- A clock that shows 11.5 s. -/
def beforeStep : ClockReading := ⟨⟨11, 500000000⟩, by decide, by decide⟩

/-- The same clock, set back to 10 s. -/
def afterStep : ClockReading := ⟨⟨10, 0⟩, by decide, by decide⟩

/-- The test is said to have taken 0.5 s, and the readings are 1.5 s apart. -/
theorem stepped_back_clock_misread :
    (cmTspecdiff afterStep.toTimespec beforeStep.toTimespec).nanoseconds ≠
      |afterStep.nanoseconds - beforeStep.nanoseconds| := by
  have hdiff : (cmTspecdiff afterStep.toTimespec beforeStep.toTimespec).nanoseconds =
      500000000 := by
    decide +kernel
  have hdistance : |afterStep.nanoseconds - beforeStep.nanoseconds| = 1500000000 := by
    decide +kernel
  rw [hdiff, hdistance]
  decide

/-- `cm_secdiff` is the same time in seconds. -/
theorem cmSecdiff_eq (clock1 clock0 : Timespec) :
    cmSecdiff clock1 clock0 = ((cmTspecdiff clock1 clock0).nanoseconds : ℚ) / 10 ^ 9 := by
  rw [cmSecdiff, Timespec.nanoseconds]
  push_cast
  norm_num
  ring

/-- The run time in a report, after a clock that did not go back. -/
theorem secdiff_of_le (h : time0.nanoseconds ≤ time1.nanoseconds) :
    cmSecdiff time1.toTimespec time0.toTimespec =
      ((time1.nanoseconds - time0.nanoseconds : Int) : ℚ) / 10 ^ 9 := by
  rw [cmSecdiff_eq, cmTspecdiff_eq]
  congr 2
  simp only [Timespec.nanoseconds] at h ⊢
  have h0 := time0.nsec_nonneg
  have h1 := time1.nsec_lt
  split
  case isTrue hback => omega
  case isFalse => omega

end Cmocka
