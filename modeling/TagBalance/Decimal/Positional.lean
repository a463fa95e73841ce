import TagBalance.Decimal.Shortest

/-!
Doubles as text without an exponent: the shortest digits that read back, with zeros up to
the decimal point where they are needed. Reading takes any number of digits and rounds
to the nearest double.
-/
namespace TagBalance.Decimal

def Scaled.positional (s : Scaled) : Text :=
  let digits := Text.ofNat s.digits
  if 0 ≤ s.exponent then digits ++ List.replicate s.exponent.toNat '0'
  else
    let places := (-s.exponent).toNat
    if places < digits.length then
      digits.take (digits.length - places) ++ '.' :: digits.drop (digits.length - places)
    else '0' :: '.' :: List.replicate (places - digits.length) '0' ++ digits

def signText (bits : UInt64) : Text := if 0x8000000000000000 ≤ bits.toNat then ['-'] else []

def plain (x : Float) : Text :=
  if x.isNaN then "NaN".toList
  else if x.isInf then signText x.toBits ++ "inf".toList
  else signText x.toBits ++ (Dyadic.ofBits x.toBits).shortest.positional

def pointed (x : Float) : Text :=
  let text := plain x
  if x.isNaN || x.isInf || '.' ∈ text then text else text ++ ['.', '0']

/-- The double nearest to `digits * 10 ^ exponent`. What lies far outside the range of
doubles is told by its size alone. -/
def toDouble (digits : Nat) (exponent : Int) : Float :=
  let size := (Text.ofNat digits).length + exponent
  if digits = 0 || size < -400 then 0
  else if 400 < size then 1 / 0
  else Float.ofScientific digits (exponent < 0) exponent.natAbs

end TagBalance.Decimal
