import TagBalance.Text

/-!
What stands between the parts of a TOML document: blanks, comments and line ends. A line
ends with a line feed, which may have one carriage return before it.
-/
namespace TagBalance.Toml

abbrev Reader (α : Type) := Text → Option (α × Text)

def isBlank (c : Char) : Bool := c = ' ' || c = '\t'

def isCommentChar (c : Char) : Bool := c = '\t' || (0x20 ≤ c.toNat && c.toNat ≠ 0x7F)

def skipBlanks (text : Text) : Text := text.dropWhile isBlank

/-- The rest behind one line end, or behind nothing at the end of the text. -/
def lineEnd : Text → Option Text
  | [] => some []
  | '\n' :: rest => some rest
  | '\r' :: '\n' :: rest => some rest
  | _ => none

def restOfLine (text : Text) : Option Text :=
  match skipBlanks text with
  | '#' :: rest => lineEnd (rest.dropWhile isCommentChar)
  | rest => lineEnd rest

def skipLines (inComment : Bool) : Text → Option Text
  | [] => some []
  | c :: rest =>
    if c = '\n' then skipLines false rest
    else if c = '\r' then
      match rest with
      | '\n' :: _ => skipLines inComment rest
      | _ => none
    else if inComment then
      if isCommentChar c then skipLines true rest else none
    else if isBlank c then skipLines false rest
    else if c = '#' then skipLines true rest
    else some (c :: rest)

end TagBalance.Toml
