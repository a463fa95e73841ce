import TagBalance.Proofs.Unmatched
import Mathlib.Data.List.Zip

/-!
A list of tags read from its end, with opening and closing tags exchanged. A tag without a
partner has none in this direction either, and two tags that are partners stay so. What is
in excess one way is left open the other way, and each mismatch has its two names swapped.
Only the order of the mismatches is not just the reverse one.
-/
namespace TagBalance

def Tag.flip : Tag → Tag
  | .opening n => .closing n
  | .closing n => .opening n

theorem Tag.flip_flip (t : Tag) : t.flip.flip = t := by cases t <;> rfl

def backwards (ts : List Tag) : List Tag := ts.reverse.map Tag.flip

theorem backwards_cons (t : Tag) (ts : List Tag) :
    backwards (t :: ts) = backwards ts ++ [t.flip] := by
  rw [backwards, List.reverse_cons, List.map_append]
  rfl

theorem backwards_backwards (ts : List Tag) : backwards (backwards ts) = ts := by
  rw [backwards, backwards, ← List.map_reverse, List.reverse_reverse, List.map_map]
  exact List.map_id'' Tag.flip_flip ts

namespace Diagnostic

def mismatchNames : Diagnostic → Option (Text × Text)
  | mismatch m n => some (m, n)
  | _ => none

end Diagnostic

namespace Nesting

open Diagnostic

/-- The names of the mismatches, with the given names open before the list. -/
def mismatchedNames (stack : List Text) (ts : List Tag) : List (Text × Text) :=
  (Checker.reports ⟨stack⟩ ts).filterMap mismatchNames

/-- The pairs that are a mismatch when each open tag is closed by its counterpart. -/
def differing (opened closed : List Text) : List (Text × Text) :=
  (opened.zip closed).filter fun p => p.1 ≠ p.2

theorem differing_cons (m n : Text) (ms ns : List Text) :
    differing (m :: ms) (n :: ns) = differing [m] [n] ++ differing ms ns := by
  by_cases h : m = n <;> simp [differing, h]

theorem differing_cons_left (m : Text) (ms ns : List Text) :
    differing (m :: ms) ns = differing [m] ns ++ differing ms ns.tail := by
  cases ns with
  | nil => simp [differing]
  | cons n ns =>
    rw [differing_cons, differing_cons m n [] ns]
    simp [differing]

theorem map_swap_differing (ms ns : List Text) :
    (differing ms ns).map Prod.swap = differing ns ms := by
  rw [differing, differing, ← List.zip_swap ms ns, List.filter_map]
  congr 1
  apply List.filter_congr
  intro p _
  simp [eq_comm]

theorem leftOpen_backwards (ts : List Tag) : leftOpen (backwards ts) = excessNames [] ts := by
  induction ts with
  | nil => rfl
  | cons t ts ih =>
    rw [backwards_cons, leftOpen_append, ih]
    cases t with
    | opening m =>
      rw [excessNames_opening, ← List.drop_one]
      rfl
    | closing n => rfl

theorem mismatchedNames_closing_cons (m n : Text) (stack : List Text) (ts : List Tag) :
    mismatchedNames (m :: stack) (.closing n :: ts) =
      differing [m] [n] ++ mismatchedNames stack ts := by
  rw [mismatchedNames, Checker.reports_closing_cons, List.filterMap_append]
  by_cases h : m = n <;> simp [h, differing, mismatchNames, mismatchedNames]

/-- The open tags below are closed by the closing tags that are in excess without them. The
mismatches among these pairs come on top of those that the list has by itself. -/
theorem mismatchedNames_perm (stack : List Text) (ts : List Tag) :
    (mismatchedNames stack ts).Perm
      (mismatchedNames [] ts ++ differing stack (excessNames [] ts)) := by
  induction ts generalizing stack with
  | nil => simp [mismatchedNames, excessNames, Checker.reports, differing]
  | cons t ts ih =>
    cases t with
    | opening m =>
      -- The new tag takes the first closing tag in excess, and the stack below takes the others.
      have hone : (mismatchedNames [] (.opening m :: ts)).Perm
          (mismatchedNames [] ts ++ differing [m] (excessNames [] ts)) := ih [m]
      have hall : (mismatchedNames stack (.opening m :: ts)).Perm
          (mismatchedNames [] ts ++ differing (m :: stack) (excessNames [] ts)) := ih (m :: stack)
      rw [differing_cons_left, ← List.append_assoc] at hall
      rw [excessNames_opening]
      exact hall.trans (hone.symm.append_right _)
    | closing n =>
      cases stack with
      | nil =>
        simp [differing]
      | cons m stack =>
        have hrest : mismatchedNames [] (.closing n :: ts) = mismatchedNames [] ts := rfl
        rw [mismatchedNames_closing_cons, excessNames_closing,
          differing_cons m n stack, hrest]
        exact ((ih stack).append_left _).trans (List.perm_append_comm_assoc _ _ _)

theorem mismatchedNames_append (a b : List Tag) :
    mismatchedNames [] (a ++ b) = mismatchedNames [] a ++ mismatchedNames (leftOpen a) b := by
  rw [mismatchedNames, Checker.reports_append, List.filterMap_append]
  rfl

theorem mismatchedNames_closing (stack : List Text) (n : Text) :
    mismatchedNames stack [.closing n] = differing stack [n] := by
  cases stack with
  | nil => rfl
  | cons m stack =>
    rw [mismatchedNames_closing_cons, differing_cons m n stack]
    simp [mismatchedNames, Checker.reports, differing]

theorem mismatchedNames_backwards_perm (ts : List Tag) :
    (mismatchedNames [] (backwards ts)).Perm ((mismatchedNames [] ts).map Prod.swap) := by
  induction ts with
  | nil => exact .refl _
  | cons t ts ih =>
    rw [backwards_cons, mismatchedNames_append, leftOpen_backwards]
    cases t with
    | opening m =>
      -- The flipped tag comes last and closes what the tag itself is closed by.
      have hone : (mismatchedNames [] (.opening m :: ts)).Perm
          (mismatchedNames [] ts ++ differing [m] (excessNames [] ts)) :=
        mismatchedNames_perm [m] ts
      have hswap := hone.map Prod.swap
      rw [List.map_append, map_swap_differing] at hswap
      rw [Tag.flip, mismatchedNames_closing]
      exact (ih.append_right _).trans hswap.symm
    | closing n =>
      have hnone : mismatchedNames (excessNames [] ts) [.opening n] = [] := rfl
      rw [Tag.flip, hnone, List.append_nil]
      exact ih

theorem mismatchNames_finish (c : Checker) : c.finish.toList.filterMap mismatchNames = [] := by
  obtain ⟨_ | ⟨m, stack⟩⟩ := c <;> rfl

theorem mismatchNames_diagnostics (ts : List Tag) :
    (diagnostics ts).filterMap mismatchNames = mismatchedNames [] ts := by
  rw [diagnostics, List.filterMap_append, mismatchNames_finish, List.append_nil]
  rfl

theorem unclosedNames_diagnostics_backwards (ts : List Tag) :
    (diagnostics (backwards ts)).flatMap unclosedNames =
      ((diagnostics ts).filterMap excessName).reverse := by
  rw [unclosedNames_diagnostics, excessNames_diagnostics, ← leftOpen_backwards]
  rfl

/-- Read from the end, a list leaves open what it had in excess, in the reverse order, and has
in excess what it left open. The mismatches are the same up to their order, each with its two
names swapped. -/
theorem diagnostics_backwards (ts : List Tag) :
    (diagnostics (backwards ts)).flatMap unclosedNames =
        ((diagnostics ts).filterMap excessName).reverse ∧
      (diagnostics (backwards ts)).filterMap excessName =
        ((diagnostics ts).flatMap unclosedNames).reverse ∧
      ((diagnostics (backwards ts)).filterMap mismatchNames).Perm
        (((diagnostics ts).filterMap mismatchNames).map Prod.swap) := by
  refine ⟨unclosedNames_diagnostics_backwards ts, ?_, ?_⟩
  · -- Read from the end twice, a list is the same again.
    have hback := unclosedNames_diagnostics_backwards (backwards ts)
    rw [backwards_backwards] at hback
    rw [hback, List.reverse_reverse]
  · rw [mismatchNames_diagnostics, mismatchNames_diagnostics]
    exact mismatchedNames_backwards_perm ts

/-- One inside the other they are met in the same order, and one behind the other in the reverse
one. -/
example :
    (diagnostics (backwards [.opening "p".toList, .opening "td".toList, .closing "th".toList,
      .closing "div".toList, .opening "ul".toList, .closing "ol".toList])).filterMap
        mismatchNames =
      [("ol".toList, "ul".toList), ("th".toList, "td".toList), ("div".toList, "p".toList)] := by
  decide

end Nesting

end TagBalance
