import TagBalance.Utf8

/-!
The textual pattern of an allow-list: a less-than sign, an optional slash and one of the
names, with the characters that have a meaning in patterns escaped by a backslash. Compiling
a pattern is left to others; all that matters here is whether they refuse it.
-/
namespace TagBalance.Pattern

def special : Text := "\\.+*?()|[]\x7b\x7d^$#&-~".toList

def escapeChar (c : Char) : Text := if c ∈ special then ['\\', c] else [c]

def escape (name : Text) : Text := name.flatMap escapeChar

def alternation (names : List Text) : Text := List.intercalate ['|'] (names.map escape)

def ofNames (names : List Text) : Text := "<(/?)(".toList ++ alternation names ++ [')']

def sizeLimit : Nat := 10485760

def tooLarge : Text :=
  "Compiled regex exceeds size limit of ".toList ++ Text.ofNat sizeLimit ++ " bytes.".toList

/-- The bytes of a pattern without its backslashes and bars, added to those before it. -/
def literalSize (n : Nat) : Text → Nat
  | [] => n
  | '\\' :: c :: rest => literalSize (n + Utf8.sizeChar c) rest
  | '|' :: rest => literalSize n rest
  | c :: rest => literalSize (n + Utf8.sizeChar c) rest

/-- Why a pattern is refused. How large its compiled form gets depends on the states that the
names share and on those that a compiler adds. This is an estimate, 24 bytes for each literal
byte, and it may err both ways where the names have a hundred thousand bytes or more. -/
def refusal? (pattern : Text) : Option Text :=
  if 24 * literalSize 0 pattern ≤ sizeLimit then none else some tooLarge

end TagBalance.Pattern
