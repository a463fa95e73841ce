import TagBalance.Text

/-!
One occurrence of a listed name in the scanned text. A tag has no position: its place in
the list of tags is the only location it has.
-/
namespace TagBalance

inductive Tag where
  | opening (name : Text)
  | closing (name : Text)
  deriving DecidableEq, Inhabited

namespace Tag

def name : Tag → Text
  | opening n => n
  | closing n => n

def isClosing : Tag → Bool
  | opening _ => false
  | closing _ => true

def lexeme : Tag → Text
  | opening n => '<' :: n
  | closing n => '<' :: '/' :: n

theorem length_lexeme_pos (t : Tag) : 0 < t.lexeme.length := by
  cases t <;> simp [lexeme]

end Tag

end TagBalance
