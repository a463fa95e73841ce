import TagBalance.Text

/-!
The nesting problems that a check reports, and the line printed for each of them.
-/
namespace TagBalance

inductive Diagnostic where
  /-- A closing tag came while nothing was open. -/
  | excessClosing (name : Text)
  /-- A closing tag met an innermost open tag of another name. -/
  | mismatch (opened closed : Text)
  /-- The tags still open at the end, outermost first. -/
  | unclosed (names : List Text)
  deriving DecidableEq, Inhabited

namespace Diagnostic

def quoted (name : Text) : Text := "'".toList ++ name ++ "'".toList

def line : Diagnostic → Text
  | excessClosing n => "Excess closing tag: </".toList ++ n ++ ['>']
  | mismatch m n => "Mismatch: <".toList ++ m ++ "> closed by </".toList ++ n ++ ['>']
  | unclosed ns => "Unclosed tags: [".toList ++ Text.commaList (ns.map quoted) ++ [']']

def report (ds : List Diagnostic) : Text := Text.unlines (ds.map line)

end Diagnostic

end TagBalance
