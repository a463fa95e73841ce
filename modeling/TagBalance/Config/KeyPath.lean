import TagBalance.Toml.Number

/-!
Key paths, which say where in a configuration a value belongs: an identifier, then any
number of fields and indices. Identifiers keep their spelling here; they are compared
without regard to case only when a value is set.
-/
namespace TagBalance.Config

inductive Step where
  | field (name : Text)
  | index (i : Int)
  deriving DecidableEq

structure KeyPath where
  head : Text
  steps : List Step
  deriving DecidableEq

inductive KeyPathError where
  | noIdentifier
  | noDigits
  | outOfRange
  | unexpected
  deriving DecidableEq

namespace KeyPathError

def message : KeyPathError → Text
  | noIdentifier => "IsA".toList
  | noDigits => "Digit".toList
  | outOfRange => "Map on Result".toList
  | unexpected => "Char".toList

end KeyPathError

namespace KeyPath

def isIdentifierChar (c : Char) : Bool := c.isAlphanum || c = ' ' || c = '_' || c = '-'

def index (text : Text) : Except KeyPathError (Int × Text) :=
  let text := Toml.skipBlanks text
  let minus := text.head? = some '-'
  let text := if minus then text.drop 1 else text
  match text.takeWhile Char.isDigit with
  | [] => .error .noDigits
  | digits =>
    let i : Int := if minus then -(Text.digitsValue digits : Int) else Text.digitsValue digits
    if Toml.fitsInt64 i then
      match Toml.skipBlanks (text.dropWhile Char.isDigit) with
      | ']' :: rest => .ok (i, rest)
      | _ => .error .unexpected
    else .error .outOfRange

def step (text : Text) : Except KeyPathError (Step × Text) :=
  match text with
  | '.' :: rest =>
    match rest.takeWhile isIdentifierChar with
    | [] => .error .unexpected
    | name => .ok (.field name, rest.dropWhile isIdentifierChar)
  | '[' :: rest => (index rest).map fun p => (.index p.1, p.2)
  | _ => .error .unexpected

/-- The steps that a text of at most `fuel` of them consists of. -/
def stepsFrom : Nat → Text → Except KeyPathError (List Step)
  | _, [] => .ok []
  | 0, _ => .error .unexpected
  | fuel + 1, text =>
    match step text with
    | .error e => .error e
    | .ok (s, rest) => (stepsFrom fuel rest).map (s :: ·)

def parse (text : Text) : Except KeyPathError KeyPath :=
  match text.takeWhile isIdentifierChar with
  | [] => .error .noIdentifier
  | head =>
    let rest := text.dropWhile isIdentifierChar
    (stepsFrom rest.length rest).map fun steps => ⟨head, steps⟩

/-- The key of a file's top-level entry; what is no key path is one plain identifier. -/
def ofFileKey (key : Text) : KeyPath :=
  match parse key with
  | .ok p => p
  | .error _ => ⟨key, []⟩

def toSteps (p : KeyPath) : List Step := .field p.head :: p.steps

end KeyPath

end TagBalance.Config
