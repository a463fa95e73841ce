import TagBalance.Toml.Key
import TagBalance.Toml.Moment

/-!
A TOML document as a list of statements: keys with values, table headers, and headers of
elements in arrays of tables. Values are read here too. An inline table gives the keys and
values between its braces, which are put together by the rule for whole tables.
-/
namespace TagBalance.Toml

structure Pair (α : Type) where
  keys : List Text
  value : α

inductive Statement (α : Type) where
  | pair (p : Pair α)
  | table (keys : List Text)
  | element (keys : List Text)

def isWordChar (c : Char) : Bool := c.isAlphanum || c ∈ "+-_.:".toList

/-- The word at the front. A blank and a digit behind a date go on with it as its time. -/
def word (text : Text) : Text × Text :=
  let head := text.takeWhile isWordChar
  let rest := text.dropWhile isWordChar
  match date head, rest with
  | some (_, []), ' ' :: c :: more =>
    if c.isDigit then
      (head ++ ' ' :: (c :: more).takeWhile isWordChar, (c :: more).dropWhile isWordChar)
    else (head, rest)
  | _, _ => (head, rest)

def scalar? (text : Text) : Option Value :=
  if text = "true".toList then some (.boolean true)
  else if text = "false".toList then some (.boolean false)
  else
    match moment? text, float? text, integer? text with
    | some m, _, _ => some (.moment m)
    | none, some x, _ => some (.float x)
    | none, none, some i => some (.integer i)
    | none, none, none => none

/-- The items of an array behind its opening bracket or a comma, at most `fuel` of them. A
comma may stand behind the last item. -/
def items (value : Reader Value) : Nat → Reader (List Value)
  | 0, _ => none
  | fuel + 1, text => do
    match ← skipLines false text with
    | ']' :: rest => some ([], rest)
    | text =>
      let (v, rest) ← value text
      match ← skipLines false rest with
      | ']' :: rest => some ([v], rest)
      | ',' :: rest => (items value fuel rest).map fun p => (v :: p.1, p.2)
      | _ => none

def pair (value : Reader Value) (text : Text) : Option (Pair Value × Text) := do
  match ← dottedKey text with
  | (keys, '=' :: rest) =>
    let (v, rest) ← value (skipBlanks rest)
    some (⟨keys, v⟩, skipBlanks rest)
  | _ => none

def inlinePairs (value : Reader Value) : Nat → Reader (List (Pair Value))
  | 0, _ => none
  | fuel + 1, text => do
    match ← pair value text with
    | (p, '}' :: rest) => some ([p], rest)
    | (p, ',' :: rest) => (inlinePairs value fuel rest).map fun q => (p :: q.1, q.2)
    | _ => none

/-- What puts the pairs of an inline table together, if they agree with one another. -/
abbrev Assembly := List (Pair Value) → Option (List (Text × Value))

def plainValue : Reader Value
  | [] => none
  | c :: rest =>
    if c = '"' || c = singleQuote then (quoted (c :: rest)).map fun p => (.string p.1, p.2)
    else (scalar? (word (c :: rest)).1).map fun v => (v, (word (c :: rest)).2)

/-- A value with at most so many arrays and inline tables around one another. -/
def value (assemble : Assembly) : Nat → Reader Value
  | 0, text => plainValue text
  | depth + 1, text =>
    match text with
    | '[' :: rest =>
      (items (value assemble depth) (rest.length + 1) rest).map fun p => (.array p.1, p.2)
    | '{' :: rest =>
      match skipBlanks rest with
      | '}' :: rest => some (.table [], rest)
      | rest => do
        let (pairs, rest) ← inlinePairs (value assemble depth) (rest.length + 1) rest
        let entries ← assemble pairs
        some (.table entries, rest)
    | _ => plainValue text

def maxDepth : Nat := 79

def headerKeys (closing : Text) (text : Text) : Option (List Text × Text) := do
  let (keys, rest) ← dottedKey text
  if closing.isPrefixOf rest then
    let rest ← restOfLine (rest.drop closing.length)
    some (keys, rest)
  else none

def statement (assemble : Assembly) (text : Text) : Option (Option (Statement Value) × Text) :=
  match skipBlanks text with
  | '[' :: '[' :: rest =>
    (headerKeys [']', ']'] rest).map fun p => (some (.element p.1), p.2)
  | '[' :: rest => (headerKeys [']'] rest).map fun p => (some (.table p.1), p.2)
  | line =>
    match restOfLine line with
    | some rest => some (none, rest)
    | none => do
      let (p, rest) ← pair (value assemble maxDepth) line
      let rest ← restOfLine rest
      some (some (.pair p), rest)

def statementsFrom (assemble : Assembly) : Nat → Text → Option (List (Statement Value))
  | _, [] => some []
  | 0, _ => none
  | fuel + 1, text => do
    let (s, rest) ← statement assemble text
    let more ← statementsFrom assemble fuel rest
    some (s.toList ++ more)

def byteOrderMark : Char := '\uFEFF'

def behindMark : Text → Text
  | [] => []
  | c :: rest => if c = byteOrderMark then rest else c :: rest

def statements (assemble : Assembly) (text : Text) : Option (List (Statement Value)) :=
  statementsFrom assemble (text.length + 1) (behindMark text)

end TagBalance.Toml
