import TagBalance.Text

/-!
The values of a TOML document, and the canonical text of a date or time.
-/
namespace TagBalance.Toml

structure Date where
  year : Nat
  month : Nat
  day : Nat
  deriving DecidableEq

/-- A time of day. The fraction holds at most nine digits and does not end in a zero. -/
structure Clock where
  hour : Nat
  minute : Nat
  second : Nat
  fraction : Text
  deriving DecidableEq

inductive Offset where
  | utc
  | ahead (hours minutes : Nat)
  | behind (hours minutes : Nat)
  deriving DecidableEq

inductive Moment where
  | date (d : Date)
  | clock (t : Clock)
  | both (d : Date) (t : Clock) (offset : Option Offset)
  deriving DecidableEq

inductive Value where
  | string (s : Text)
  | integer (i : Int)
  | float (x : Float)
  | boolean (b : Bool)
  | moment (m : Moment)
  | array (items : List Value)
  | table (entries : List (Text × Value))

def padded (width n : Nat) : Text :=
  let digits := Text.ofNat n
  List.replicate (width - digits.length) '0' ++ digits

namespace Date

def text (d : Date) : Text :=
  padded 4 d.year ++ '-' :: padded 2 d.month ++ '-' :: padded 2 d.day

end Date

namespace Clock

def text (t : Clock) : Text :=
  padded 2 t.hour ++ ':' :: padded 2 t.minute ++ ':' :: padded 2 t.second ++
    if t.fraction = [] then [] else '.' :: t.fraction

end Clock

namespace Offset

/-- An offset of zero is not written as behind. -/
def text : Offset → Text
  | utc => ['Z']
  | ahead h m => '+' :: padded 2 h ++ ':' :: padded 2 m
  | behind h m => (if h = 0 ∧ m = 0 then '+' else '-') :: padded 2 h ++ ':' :: padded 2 m

end Offset

namespace Moment

def text : Moment → Text
  | date d => d.text
  | clock t => t.text
  | both d t offset => d.text ++ 'T' :: t.text ++ (offset.map Offset.text).getD []

end Moment

end TagBalance.Toml
