import Mathlib.Algebra.Group.Nat.Defs
import Mathlib.Data.Rat.Defs

namespace AItelier.Lib.Binary64

def twoPow : Int → Rat
  | .ofNat n => ((2 ^ n : Nat) : Rat)
  | .negSucc n => 1 / ((2 ^ (n + 1) : Nat) : Rat)

/-- The exponent of the greatest power of two that is not above a number's size. -/
def exponent (x : Rat) : Int :=
  let e : Int := (Nat.log2 x.num.natAbs : Int) - (Nat.log2 x.den : Int)
  if twoPow e ≤ x ∨ x ≤ -twoPow e then e else e - 1

/-- The distance between the floats around a number. -/
def ulp (x : Rat) : Rat :=
  let e := exponent x - 52
  twoPow (if e < -1074 then -1074 else e)

/-- The nearest integer, of two the even one. -/
def nearestEven (x : Rat) : Int :=
  let low := x.floor
  if x - low < 1 / 2 ∨ (x - low = 1 / 2 ∧ low % 2 = 0) then low else low + 1

/-- A number rounded to a float of 64 bits. Nothing is too great for it: what overflows stays greater than all
that does not. -/
def round (x : Rat) : Rat := nearestEven (x / ulp x) * ulp x

theorem round_zero : round 0 = 0 := by
  have hlow : nearestEven 0 = 0 := by
    have hfloor : Rat.floor 0 = 0 := rfl
    have hnear : (0 : Rat) - ((0 : Int) : Rat) < 1 / 2 := by grind
    rw [nearestEven, hfloor, if_pos (.inl hnear)]
  rw [round, Rat.div_def, Rat.zero_mul, hlow]
  exact Rat.zero_mul _

end AItelier.Lib.Binary64
