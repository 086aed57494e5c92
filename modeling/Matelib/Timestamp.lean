import Matelib.Double

/-!
# Time stamps

`addTime` multiplies a number of seconds, a `double`, with a million and cuts the product to whole
microseconds. So it adds 8199999 microseconds for 8.2 seconds.
-/

namespace Matelib

namespace Timestamp

def kMicroSecondsPerSecond : ℕ := 1000 * 1000

/-- `static_cast<int64_t>` cuts the product; where that is undefined, it is clamped here. -/
def delta (seconds : Double) : ℤ :=
  (seconds * Float.Model.ofNat kMicroSecondsPerSecond).toInt64.toInt

def addTime (timestamp : ℤ) (seconds : Double) : ℤ := timestamp + delta seconds

example : addTime 0 (Float.Model.ofScientific 82 (-1)) = 8199999 := by decide +kernel

theorem delta_nonneg {seconds : Double} (h : seconds.positive = true) : 0 ≤ delta seconds :=
  Double.toInt64_mul_nonneg h (by decide)

/-- A span of `n` microseconds is as long as `seconds`, without any rounding. -/
def Lasts (n : ℤ) (seconds : Double) : Prop := seconds.ScaledLe kMicroSecondsPerSecond n

instance (n : ℤ) (seconds : Double) : Decidable (Lasts n seconds) :=
  inferInstanceAs (Decidable (Double.ScaledLe _ _ _))

/-- What `addTime` adds is `seconds`, rounded up to whole microseconds. -/
def Uncut (seconds : Double) : Prop :=
  Lasts (delta seconds) seconds ∧ ¬Lasts (delta seconds - 1) seconds

instance : DecidablePred Uncut := fun _ => inferInstanceAs (Decidable (_ ∧ _))

end Timestamp

end Matelib
