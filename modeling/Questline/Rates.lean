import Questline.Binary64

/-!
Multipliers on what quests pay.
-/

namespace Questline

structure Rates where
  /-- Multiplies the amount of a reward. -/
  currency : Binary64
  deriving DecidableEq, Repr

namespace Rates

def default : Rates := ⟨.one⟩

/-- The amount paid for `amount`: the amount is rounded to binary64, so is the product, and the result goes
down to a whole number within 64 bits. -/
def scale (r : Rates) (amount : Int64) : Int64 := ((Binary64.ofInt amount.toInt).mul r.currency).floorToInt64

end Rates

end Questline
