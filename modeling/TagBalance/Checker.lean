import TagBalance.Tag
import TagBalance.Diagnostic

/-!
The balance check. A checker holds the names of the open tags; an opening tag adds a name,
and a closing tag removes the innermost one whether or not the names agree. Whatever is
still open at the end goes into one final report.
-/
namespace TagBalance

/-- The names of the open tags, innermost first. -/
structure Checker where
  stack : List Text
  deriving DecidableEq, Inhabited

namespace Checker

def empty : Checker := ⟨[]⟩

/-- The names of the open tags, outermost first. -/
def openTags (c : Checker) : List Text := c.stack.reverse

def depth (c : Checker) : Nat := c.stack.length

/-- A mismatched closing tag still closes the innermost open tag. -/
def push (c : Checker) : Tag → Checker × Option Diagnostic
  | .opening n => (⟨n :: c.stack⟩, none)
  | .closing n =>
    match c.stack with
    | [] => (c, some (.excessClosing n))
    | m :: rest => (⟨rest⟩, if m = n then none else some (.mismatch m n))

def after (c : Checker) : List Tag → Checker
  | [] => c
  | t :: ts => (c.push t).1.after ts

def reports (c : Checker) : List Tag → List Diagnostic
  | [] => []
  | t :: ts => (c.push t).2.toList ++ (c.push t).1.reports ts

def finish (c : Checker) : Option Diagnostic :=
  if c.stack = [] then none else some (.unclosed c.openTags)

theorem after_append (c : Checker) (a b : List Tag) :
    c.after (a ++ b) = (c.after a).after b := by
  induction a generalizing c with
  | nil => rfl
  | cons t ts ih => simp [after, ih]

theorem reports_append (c : Checker) (a b : List Tag) :
    c.reports (a ++ b) = c.reports a ++ (c.after a).reports b := by
  induction a generalizing c with
  | nil => rfl
  | cons t ts ih => simp [reports, after, ih]

theorem after_opening (c : Checker) (m : Text) (ts : List Tag) :
    c.after (.opening m :: ts) = after ⟨m :: c.stack⟩ ts := rfl

theorem after_closing (c : Checker) (n : Text) (ts : List Tag) :
    c.after (.closing n :: ts) = after ⟨c.stack.tail⟩ ts := by
  obtain ⟨_ | ⟨m, rest⟩⟩ := c <;> rfl

theorem reports_opening (c : Checker) (m : Text) (ts : List Tag) :
    c.reports (.opening m :: ts) = reports ⟨m :: c.stack⟩ ts := rfl

theorem reports_closing_nil (n : Text) (ts : List Tag) :
    empty.reports (.closing n :: ts) = .excessClosing n :: empty.reports ts := rfl

theorem reports_closing_cons (m n : Text) (rest : List Text) (ts : List Tag) :
    reports ⟨m :: rest⟩ (.closing n :: ts) =
      (if m = n then none else some (.mismatch m n)).toList ++ reports ⟨rest⟩ ts := rfl

theorem length_openTags (c : Checker) : c.openTags.length = c.depth := by
  simp [openTags, depth]

end Checker

def diagnostics (ts : List Tag) : List Diagnostic :=
  Checker.empty.reports ts ++ (Checker.empty.after ts).finish.toList

/-- What stands behind a list is checked from where the list leaves the checker. -/
theorem diagnostics_append (a b : List Tag) :
    diagnostics (a ++ b) = Checker.empty.reports a ++
      ((Checker.empty.after a).reports b ++ ((Checker.empty.after a).after b).finish.toList) := by
  rw [diagnostics, Checker.reports_append, Checker.after_append, List.append_assoc]

end TagBalance
