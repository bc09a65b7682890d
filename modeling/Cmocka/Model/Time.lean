import Mathlib.Data.Rat.Floor
import Mathlib.Algebra.Order.Field.Basic

/-!
# Model — time calculations

`cm_tspecdiff` and `cm_secdiff`, which measure how long a test took.  Seconds and nanoseconds are
integers.  The computations in `double` are read over the rationals, with `1E9` exact, and a cast
to an integer type truncates towards zero.
-/

namespace Cmocka

/-- `struct timespec`. -/
structure Timespec where
  tvSec : Int
  tvNsec : Int
  deriving DecidableEq

/-- The cast of a `double` to an integer type. -/
def truncate (x : ℚ) : Int := if 0 ≤ x then ⌊x⌋ else ⌈x⌉

/-- The first adjustment of `time0` in `cm_tspecdiff`. -/
def raiseSeconds (time1 time0 : Timespec) : Timespec :=
  if time0.tvNsec > time1.tvNsec then
    let xsec := truncate (((time0.tvNsec - time1.tvNsec : Int) : ℚ) / (10 ^ 9 + 1))
    { tvNsec := time0.tvNsec - truncate (10 ^ 9 * (xsec : ℚ)), tvSec := time0.tvSec + xsec }
  else time0

/-- The second adjustment. -/
def lowerSeconds (time1 time0 : Timespec) : Timespec :=
  if ((time1.tvNsec - time0.tvNsec : Int) : ℚ) > 10 ^ 9 then
    let xsec := truncate (((time1.tvNsec - time0.tvNsec : Int) : ℚ) / 10 ^ 9)
    { tvNsec := time0.tvNsec + truncate (10 ^ 9 * (xsec : ℚ)), tvSec := time0.tvSec - xsec }
  else time0

/-- `cm_tspecdiff`. -/
def cmTspecdiff (time1 time0 : Timespec) : Timespec :=
  let time0 := raiseSeconds time1 time0
  let time0 := lowerSeconds time1 time0
  let tvSec := time1.tvSec - time0.tvSec
  let tvNsec := time1.tvNsec - time0.tvNsec
  let sign : Int := if time1.tvSec < time0.tvSec then -1 else 1
  { tvSec := tvSec * sign, tvNsec }

/-- `cm_secdiff`. -/
def cmSecdiff (clock1 clock0 : Timespec) : ℚ :=
  let diff := cmTspecdiff clock1 clock0
  (diff.tvSec : ℚ) + (diff.tvNsec : ℚ) / 10 ^ 9

end Cmocka
