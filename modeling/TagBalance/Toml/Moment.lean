import TagBalance.Toml.Value
import TagBalance.Toml.Number

/-!
Reading dates and times. A moment is a date, a time of day, or both with an offset that may
be left out; every field has a fixed number of digits.
-/
namespace TagBalance.Toml

def fixedDigits (count : Nat) (text : Text) : Option (Nat × Text) :=
  let digits := text.take count
  if digits.length = count && digits.all Char.isDigit then
    some (Text.digitsValue digits, text.drop count)
  else none

def behind (c : Char) : Text → Option Text
  | [] => none
  | d :: rest => if d = c then some rest else none

def isLeapYear (year : Nat) : Bool := year % 4 = 0 && (year % 100 ≠ 0 || year % 400 = 0)

def daysInMonth (year month : Nat) : Nat :=
  if month = 2 then (if isLeapYear year then 29 else 28)
  else if month ∈ [4, 6, 9, 11] then 30
  else 31

def date (text : Text) : Option (Date × Text) := do
  let (year, rest) ← fixedDigits 4 text
  let rest ← behind '-' rest
  let (month, rest) ← fixedDigits 2 rest
  let rest ← behind '-' rest
  let (day, rest) ← fixedDigits 2 rest
  if 1 ≤ month ∧ month ≤ 12 ∧ 1 ≤ day ∧ day ≤ daysInMonth year month then
    some (⟨year, month, day⟩, rest)
  else none

/-- At most nine digits of a fraction are kept, and no zeros at its end. -/
def keptFraction (digits : Text) : Text :=
  ((digits.take 9).reverse.dropWhile (· = '0')).reverse

def fraction (text : Text) : Option (Text × Text) :=
  match text with
  | '.' :: rest =>
    match rest.takeWhile Char.isDigit with
    | [] => none
    | digits => some (keptFraction digits, rest.dropWhile Char.isDigit)
  | _ => some ([], text)

/-- A second of 60 is a leap second. -/
def clock (text : Text) : Option (Clock × Text) := do
  let (hour, rest) ← fixedDigits 2 text
  let rest ← behind ':' rest
  let (minute, rest) ← fixedDigits 2 rest
  let rest ← behind ':' rest
  let (second, rest) ← fixedDigits 2 rest
  if hour ≤ 23 ∧ minute ≤ 59 ∧ second ≤ 60 then
    let (fraction, rest) ← fraction rest
    some (⟨hour, minute, second, fraction⟩, rest)
  else none

def hoursMinutes? (text : Text) : Option (Nat × Nat) := do
  let (hours, rest) ← fixedDigits 2 text
  let rest ← behind ':' rest
  let (minutes, rest) ← fixedDigits 2 rest
  if hours ≤ 23 ∧ minutes ≤ 59 ∧ rest = [] then some (hours, minutes) else none

def offset? : Text → Option (Option Offset)
  | [] => some none
  | ['Z'] => some (some .utc)
  | ['z'] => some (some .utc)
  | '+' :: rest => (hoursMinutes? rest).map fun p => some (.ahead p.1 p.2)
  | '-' :: rest => (hoursMinutes? rest).map fun p => some (.behind p.1 p.2)
  | _ => none

def isDateTimeMark (c : Char) : Bool := c = 'T' || c = 't' || c = ' '

def moment? (text : Text) : Option Moment :=
  match date text with
  | some (d, []) => some (.date d)
  | some (d, mark :: rest) => do
    if !isDateTimeMark mark then none
    else
      let (t, rest) ← clock rest
      let offset ← offset? rest
      some (.both d t offset)
  | none =>
    match clock text with
    | some (t, []) => some (.clock t)
    | _ => none

end TagBalance.Toml
