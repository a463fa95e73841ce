import TagBalance.Proofs.Nesting
import Mathlib.Order.Bounds.Basic

/-!
How many tags have no partner. The reports count them, the closing tags in excess one by one
and the tags left open in the final list. One tag put in or taken out anywhere moves this
count by one, up or down, and as long as it is not zero some such edit brings it down. So it
is the least number of edits that make the list balanced with the names erased.
-/
namespace TagBalance

namespace Diagnostic

def excessName : Diagnostic → Option Text
  | excessClosing n => some n
  | _ => none

def unclosedNames : Diagnostic → List Text
  | unclosed ns => ns
  | _ => []

end Diagnostic

namespace Nesting

open Diagnostic

def unmatched (ts : List Tag) : ℕ :=
  ((diagnostics ts).filterMap excessName).length +
    ((diagnostics ts).flatMap unclosedNames).length

inductive Edit : List Tag → List Tag → Prop
  | insert (a : List Tag) (t : Tag) (b : List Tag) : Edit (a ++ b) (a ++ t :: b)
  | delete (a : List Tag) (t : Tag) (b : List Tag) : Edit (a ++ t :: b) (a ++ b)

/-- As many edits, one after another, as the number says. -/
inductive Edits : ℕ → List Tag → List Tag → Prop
  | nil (ts : List Tag) : Edits 0 ts ts
  | cons {k : ℕ} {ts us vs : List Tag} : Edit ts us → Edits k us vs → Edits (k + 1) ts vs

/-- The names of the closing tags that come when nothing is open, with the given names open
before the list. -/
def excessNames (stack : List Text) (ts : List Tag) : List Text :=
  (Checker.reports ⟨stack⟩ ts).filterMap excessName

theorem excessNames_closing_cons (m n : Text) (stack : List Text) (ts : List Tag) :
    excessNames (m :: stack) (.closing n :: ts) = excessNames stack ts := by
  have hfirst : (if m = n then none else some (mismatch m n)).toList.filterMap excessName =
      [] := by
    by_cases h : m = n <;> simp [h, excessName]
  rw [excessNames, Checker.reports_closing_cons, List.filterMap_append, hfirst]
  rfl

/-- Each tag that is open before the list takes one closing tag out of the excess, the first
one that is left. -/
theorem excessNames_eq_drop (stack : List Text) (ts : List Tag) :
    excessNames stack ts = (excessNames [] ts).drop stack.length := by
  induction ts generalizing stack with
  | nil => simp [excessNames, Checker.reports]
  | cons t ts ih =>
    cases t with
    | opening m =>
      change excessNames (m :: stack) ts = (excessNames [m] ts).drop stack.length
      rw [ih (m :: stack), ih [m], List.drop_drop, List.length_cons, List.length_singleton,
        Nat.add_comm]
    | closing n =>
      cases stack with
      | nil => rfl
      | cons m stack =>
        rw [excessNames_closing_cons, ih stack]
        rfl

theorem excessNames_opening (m : Text) (ts : List Tag) :
    excessNames [] (.opening m :: ts) = (excessNames [] ts).tail := by
  rw [← List.drop_one]
  exact excessNames_eq_drop [m] ts

theorem excessNames_closing (n : Text) (ts : List Tag) :
    excessNames [] (.closing n :: ts) = n :: excessNames [] ts := rfl

theorem length_excessNames (ts : List Tag) : (excessNames [] ts).length = overrun ts := by
  induction ts with
  | nil => rfl
  | cons t ts ih =>
    cases t with
    | opening m => rw [excessNames_opening, List.length_tail, ih, overrun]
    | closing n => rw [excessNames_closing, List.length_cons, ih, overrun]

/-- No tag has a final report. -/
theorem unclosedNames_reports (c : Checker) (ts : List Tag) :
    (c.reports ts).flatMap unclosedNames = [] := by
  induction ts generalizing c with
  | nil => rfl
  | cons t ts ih =>
    have hfirst : (c.push t).2.toList.flatMap unclosedNames = [] := by
      fun_cases Checker.push c t with
      | case1 n => rfl
      | case2 n h => rfl
      | case3 n m rest h => by_cases hmn : m = n <;> simp [hmn, unclosedNames]
    rw [Checker.reports, List.flatMap_append, hfirst, ih, List.append_nil]

theorem excessNames_finish (c : Checker) : c.finish.toList.filterMap excessName = [] := by
  obtain ⟨_ | ⟨m, stack⟩⟩ := c <;> rfl

theorem unclosedNames_finish (c : Checker) :
    c.finish.toList.flatMap unclosedNames = c.openTags := by
  obtain ⟨_ | ⟨m, stack⟩⟩ := c
  · rfl
  · exact List.append_nil _

theorem excessNames_diagnostics (ts : List Tag) :
    (diagnostics ts).filterMap excessName = excessNames [] ts := by
  rw [diagnostics, List.filterMap_append, excessNames_finish, List.append_nil]
  rfl

theorem unclosedNames_diagnostics (ts : List Tag) :
    (diagnostics ts).flatMap unclosedNames = (Checker.empty.after ts).openTags := by
  rw [diagnostics, List.flatMap_append, unclosedNames_reports, List.nil_append,
    unclosedNames_finish]

theorem unmatched_eq (ts : List Tag) : unmatched ts = overrun ts + (leftOpen ts).length := by
  have hexcess : ((diagnostics ts).filterMap excessName).length = overrun ts := by
    rw [excessNames_diagnostics, length_excessNames]
  have hunclosed : ((diagnostics ts).flatMap unclosedNames).length = (leftOpen ts).length := by
    rw [unclosedNames_diagnostics]
    exact Checker.length_openTags _
  rw [unmatched, hexcess, hunclosed]

theorem unmatched_eq_zero_iff {ts : List Tag} : unmatched ts = 0 ↔ BlindBalanced ts := by
  rw [unmatched_eq, Nat.add_eq_zero_iff, List.length_eq_zero_iff, blindBalanced_iff]

/-- What the first list leaves open, the second one closes as far as it goes. -/
theorem unmatched_append (a b : List Tag) :
    unmatched (a ++ b) = overrun a + (overrun b - (leftOpen a).length) +
      ((leftOpen b).length + ((leftOpen a).length - overrun b)) := by
  rw [unmatched_eq, overrun_append, leftOpen_append, List.length_append, List.length_drop]

/-- An opening tag in the middle has a partner behind it or not, and a closing tag has one in
front of it or not. -/
theorem unmatched_insert (a : List Tag) (t : Tag) (b : List Tag) :
    unmatched (a ++ t :: b) = unmatched (a ++ b) + 1 ∨
      unmatched (a ++ b) = unmatched (a ++ t :: b) + 1 := by
  -- The open tags of `a` are set against the overrun of `b`, and the tag moves one of the two.
  rw [unmatched_append, unmatched_append]
  cases t with
  | opening m =>
    rw [overrun, leftOpen_opening, List.length_append, List.length_drop, List.length_singleton]
    omega
  | closing n =>
    rw [overrun, leftOpen_closing]
    omega

theorem Edit.unmatched_eq_or {ts us : List Tag} (h : Edit ts us) :
    unmatched us = unmatched ts + 1 ∨ unmatched ts = unmatched us + 1 := by
  cases h with
  | insert a t b => exact unmatched_insert a t b
  | delete a t b => exact (unmatched_insert a t b).symm

theorem Edits.unmatched_le {k : ℕ} {ts us : List Tag} (h : Edits k ts us) :
    unmatched ts ≤ unmatched us + k := by
  induction h with
  | nil ts => exact Nat.le_refl _
  | cons hedit _ ih =>
    have hstep := hedit.unmatched_eq_or
    omega

/-- The innermost open tag is closed behind the list, or, where none is open, the closing tag
furthest below gets an opening tag in front of the list. -/
theorem exists_edit_of_unmatched_pos {ts : List Tag} (h : 0 < unmatched ts) :
    ∃ us, Edit ts us ∧ unmatched ts = unmatched us + 1 := by
  rw [unmatched_eq] at h
  cases hopen : leftOpen ts with
  | nil =>
    refine ⟨.opening [] :: ts, .insert [] (.opening []) ts, ?_⟩
    rw [unmatched_eq, unmatched_eq, overrun, leftOpen_opening, List.length_append,
      List.length_drop, List.length_singleton]
    rw [hopen, List.length_nil] at h ⊢
    omega
  | cons m stack =>
    refine ⟨ts ++ [.closing m], ?_, ?_⟩
    · simpa using Edit.insert ts (.closing m) []
    · have hnil : leftOpen [] = [] := rfl
      rw [unmatched_append, unmatched_eq, overrun, overrun, leftOpen_closing, hnil, hopen,
        List.length_cons, List.length_nil]
      omega

theorem exists_edits_blindBalanced (ts : List Tag) :
    ∃ us, Edits (unmatched ts) ts us ∧ BlindBalanced us := by
  induction hk : unmatched ts generalizing ts with
  | zero => exact ⟨ts, .nil ts, unmatched_eq_zero_iff.mp hk⟩
  | succ k ih =>
    have hpos : 0 < unmatched ts := by omega
    obtain ⟨us, hedit, hus⟩ := exists_edit_of_unmatched_pos hpos
    obtain ⟨vs, hedits, hvs⟩ := ih us (by omega)
    exact ⟨vs, .cons hedit hedits, hvs⟩

/-- The count is the least number of edits after which the list is blind-balanced, and each
edit changes it by exactly one. -/
theorem isLeast_unmatched_and_edit (ts : List Tag) :
    IsLeast {k | ∃ us, Edits k ts us ∧ BlindBalanced us} (unmatched ts) ∧
      ∀ us, Edit ts us → unmatched us = unmatched ts + 1 ∨ unmatched ts = unmatched us + 1 := by
  refine ⟨⟨exists_edits_blindBalanced ts, ?_⟩, fun us => Edit.unmatched_eq_or⟩
  rintro k ⟨us, hedits, hus⟩
  have hle := hedits.unmatched_le
  rwa [unmatched_eq_zero_iff.mpr hus, Nat.zero_add] at hle

def strayFront : List Tag := [.closing "td".toList, .opening "p".toList, .opening "th".toList]

def strayBack : List Tag := [.closing "th".toList, .opening "tr".toList]

/-- The two names that cross do not count, until the closing tag of one is taken out. -/
theorem isLeast_unmatched_stray :
    IsLeast {k | ∃ us, Edits k (strayFront ++ .closing "p".toList :: strayBack) us ∧
        BlindBalanced us} 2 ∧
      Edit (strayFront ++ .closing "p".toList :: strayBack) (strayFront ++ strayBack) ∧
      unmatched (strayFront ++ strayBack) = 3 := by
  have hcount : unmatched (strayFront ++ .closing "p".toList :: strayBack) = 2 := by decide
  have hdelete : Edit (strayFront ++ .closing "p".toList :: strayBack)
      (strayFront ++ strayBack) := .delete strayFront _ strayBack
  obtain ⟨hleast, hedit⟩ :=
    isLeast_unmatched_and_edit (strayFront ++ .closing "p".toList :: strayBack)
  have hstep := hedit _ hdelete
  rw [hcount] at hleast hstep
  exact ⟨hleast, hdelete, hstep.resolve_right (by decide)⟩

end Nesting

end TagBalance
