import TagBalance.Toml.Quoted

/-!
Keys of a TOML document. A simple key is bare or quoted on one line; a dotted key is a row
of simple keys with points between them.
-/
namespace TagBalance.Toml

def isBareKeyChar (c : Char) : Bool := c.isAlphanum || c = '_' || c = '-'

def simpleKey (text : Text) : Option (Text × Text) :=
  match text.takeWhile isBareKeyChar with
  | [] => lineString text
  | key => some (key, text.dropWhile isBareKeyChar)

def spacedKey (text : Text) : Option (Text × Text) :=
  (simpleKey (skipBlanks text)).map fun p => (p.1, skipBlanks p.2)

def maxKeyParts : Nat := 79

def keyRow : Nat → Reader (List Text)
  | 0, _ => none
  | fuel + 1, text =>
    match spacedKey text with
    | none => none
    | some (key, '.' :: rest) => (keyRow fuel rest).map fun p => (key :: p.1, p.2)
    | some (key, rest) => some ([key], rest)

def dottedKey : Reader (List Text) := keyRow maxKeyParts

end TagBalance.Toml
