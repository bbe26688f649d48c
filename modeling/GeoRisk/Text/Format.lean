import GeoRisk.Kit.Rounding
import GeoRisk.Text.Calendar

/-!
# Printing numbers and lists

The parts of string formatting that the pipeline's messages use: `str(int)`, `f"{x:.2f}"` for a
non-negative number, and `sep.join(...)`.
-/

namespace GeoRisk
open Kit

/-- `str(n)` -/
def natText (n : Nat) : Text := n.repr.toList

/-- `f"{q:.2f}"` -/
def fixed2 (q : ℚ) : Text :=
  let n := (roundHalfEven (q * 100)).toNat
  natText (n / 100) ++ ['.'] ++ Date.digits 2 (n % 100)

/-- `sep.join(parts)` -/
def join (sep : Text) (parts : List Text) : Text := sep.intercalate parts

end GeoRisk
