/-!
Text as a list of code points, with the few shapes of output that the reports share:
lines, comma-separated lists and decimal numerals. Two texts are equal when they have
the same code points in the same order; nothing is normalized or case-folded.
-/
namespace TagBalance

abbrev Text := List Char

namespace Text

def unlines (lines : List Text) : Text :=
  lines.flatMap fun line => line ++ ['\n']

def commaList (parts : List Text) : Text :=
  List.intercalate [',', ' '] parts

def ofNat (n : Nat) : Text := Nat.toDigits 10 n

def ofInt : Int → Text
  | .ofNat n => ofNat n
  | .negSucc n => '-' :: ofNat (n + 1)

def digitsValue (digits : Text) : Nat :=
  digits.foldl (fun n c => 10 * n + (c.toNat - '0'.toNat)) 0

def kelvinSign : Char := '\u212A'

def lowerChar (c : Char) : Char := if c = kelvinSign then 'k' else c.toLower

/-- The text in small letters of ASCII. Besides the letters A to Z, the Kelvin sign is the
only character with a small form there; all others stay as they are. -/
def lower (s : Text) : Text := s.map lowerChar

theorem unlines_cons (line : Text) (lines : List Text) :
    unlines (line :: lines) = line ++ '\n' :: unlines lines := by
  simp [unlines]

end Text

end TagBalance
