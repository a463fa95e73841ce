import TagBalance.Decimal.Positional
import TagBalance.Toml.Quoted

/-!
Numbers of a TOML document. Underscores may stand between digits. An integer has to fit in
64 bits with a sign; a float may not round to positive infinity.
-/
namespace TagBalance.Toml

/-- The digits of a row in which single underscores may stand between digits. -/
def digitRow (isDigit : Char → Bool) : Text → Option Text
  | [] => none
  | [c] => if isDigit c then some [c] else none
  | c :: d :: rest =>
    if !isDigit c then none
    else if d = '_' then (digitRow isDigit rest).map (c :: ·)
    else (digitRow isDigit (d :: rest)).map (c :: ·)

def signed : Text → Bool × Text
  | '-' :: rest => (true, rest)
  | '+' :: rest => (false, rest)
  | text => (false, text)

/-- The digits of a decimal numeral, which has no zero before another digit. -/
def wholeDigits (text : Text) : Option Text :=
  match text with
  | '0' :: _ :: _ => none
  | _ => digitRow Char.isDigit text

def fitsInt64 (i : Int) : Bool := -0x8000000000000000 ≤ i && i ≤ 0x7FFFFFFFFFFFFFFF

def int64? (i : Int) : Option Int := if fitsInt64 i then some i else none

def radixValue (base : Nat) (digits : Text) : Option Int :=
  int64? (digits.foldl (fun n c => base * n + (hexDigit? c).getD 0) 0 : Nat)

def integer? (text : Text) : Option Int :=
  match text with
  | '0' :: 'x' :: rest => (digitRow (fun c => (hexDigit? c).isSome) rest).bind (radixValue 16)
  | '0' :: 'o' :: rest => (digitRow (fun c => '0' ≤ c && c ≤ '7') rest).bind (radixValue 8)
  | '0' :: 'b' :: rest => (digitRow (fun c => c = '0' || c = '1') rest).bind (radixValue 2)
  | _ =>
    let (minus, rest) := signed text
    (wholeDigits rest).bind fun digits =>
      int64? (if minus then -(Text.digitsValue digits : Int) else Text.digitsValue digits)

def isExponentMark (c : Char) : Bool := c = 'e' || c = 'E'

def exponent? (text : Text) : Option Int :=
  let (minus, rest) := signed text
  (digitRow Char.isDigit rest).map fun digits =>
    if minus then -(Text.digitsValue digits : Int) else Text.digitsValue digits

def unsignedFloat? (text : Text) : Option Float :=
  let mantissa := text.takeWhile (!isExponentMark ·)
  let power := text.dropWhile (!isExponentMark ·)
  let whole := mantissa.takeWhile (· ≠ '.')
  let fraction := mantissa.dropWhile (· ≠ '.')
  if power = [] && fraction = [] then none
  else do
    let wholeDigits ← wholeDigits whole
    let places ← if fraction = [] then some [] else digitRow Char.isDigit (fraction.drop 1)
    let exponent ← if power = [] then some 0 else exponent? (power.drop 1)
    some (Decimal.toDouble (Text.digitsValue (wholeDigits ++ places)) (exponent - places.length))

/-- A numeral whose value rounds to negative infinity is read as that, one that rounds to
positive infinity is refused. -/
def float? (text : Text) : Option Float :=
  let (minus, rest) := signed text
  let sign := fun x : Float => if minus then -x else x
  if rest = "inf".toList then some (sign (1 / 0))
  else if rest = "nan".toList then some (sign (0 / 0))
  else (unsignedFloat? rest).bind fun x => if x.isInf && !minus then none else some (sign x)

end TagBalance.Toml
