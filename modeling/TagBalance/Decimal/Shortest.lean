import TagBalance.Text

/-!
The shortest decimal of a double. A finite positive double is a mantissa times a power of
two, and a decimal reads back as it if it lies in the interval of numbers that round to it.
The decimal chosen has the fewest digits of those in the interval, and of two with equally
many the one nearer to the double.
-/
namespace TagBalance.Decimal

/-- The number `mantissa * 2 ^ exponent`. `narrow` says that the next smaller double is only
half as far away as the next larger one. -/
structure Dyadic where
  mantissa : Nat
  exponent : Int
  narrow : Bool

structure Scaled where
  digits : Nat
  exponent : Int
  deriving DecidableEq

namespace Dyadic

def ofBits (bits : UInt64) : Dyadic :=
  let fraction : Nat := bits.toNat % 0x10000000000000
  let field : Nat := bits.toNat / 0x10000000000000 % 0x800
  if field = 0 then ⟨fraction, -1074, false⟩
  else ⟨0x10000000000000 + fraction, (field : Int) - 1075, fraction = 0 && field ≠ 1⟩

def quarter (x : Dyadic) (k : Int) : Nat :=
  Nat.pow 2 (x.exponent - 2).toNat * Nat.pow 10 (-k).toNat

def step (x : Dyadic) (k : Int) : Nat :=
  Nat.pow 10 k.toNat * Nat.pow 2 (2 - x.exponent).toNat

/-- The decimal `d * 10 ^ k` rounds to `x`; the ends of the interval do so for an even
mantissa. -/
def Encloses (x : Dyadic) (d : Nat) (k : Int) : Prop :=
  let low := (4 * x.mantissa - if x.narrow then 1 else 2) * x.quarter k
  let high := (4 * x.mantissa + 2) * x.quarter k
  let point := d * x.step k
  if x.mantissa % 2 = 0 then low ≤ point ∧ point ≤ high else low < point ∧ point < high

instance (x : Dyadic) (d : Nat) (k : Int) : Decidable (x.Encloses d k) := by
  unfold Encloses
  infer_instance

/-- The point of the grid `10 ^ k` that reads back as `x` and lies nearest to it, the upper
one of two that are equally near. -/
def onGrid (x : Dyadic) (k : Int) : Option Nat :=
  let value := 4 * x.mantissa * x.quarter k
  let below := value / x.step k
  let above := below + 1
  if x.Encloses below k then
    if x.Encloses above k ∧ above * x.step k - value ≤ value - below * x.step k then some above
    else some below
  else if x.Encloses above k then some above
  else none

def search (x : Dyadic) : Nat → Int → Scaled
  | 0, k => ⟨0, k⟩
  | fuel + 1, k =>
    match x.onGrid k with
    | some d => ⟨d, k⟩
    | none => search x fuel (k - 1)

/-- The coarsest grid that is tried lies above all doubles, and the finest one holds all
of them. -/
def shortest (x : Dyadic) : Scaled :=
  if x.mantissa = 0 then ⟨0, 0⟩ else search x 1400 310

end Dyadic

end TagBalance.Decimal
