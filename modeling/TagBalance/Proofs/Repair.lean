import TagBalance.Proofs.WellNested

/-!
A repair that is read off the reports. A tag without a report stays, a closing tag in excess
goes, a mismatched one takes the name of the tag that it closes, and behind the last tag come
closing tags for all that is left open. Whatever is open before, the repaired tags close it
and nothing more, so a repaired list is well nested and a second repair has nothing to do.
-/
namespace TagBalance

namespace Diagnostic

/-- What stands in place of a tag, by the report on it. No tag has the report of the last
case, which comes at the end of a check. -/
def mend (t : Tag) : Option Diagnostic → List Tag
  | none => [t]
  | some (excessClosing _) => []
  | some (mismatch m _) => [.closing m]
  | some (unclosed _) => [t]

def closingTags : Option Diagnostic → List Tag
  | some (unclosed names) => names.reverse.map .closing
  | _ => []

end Diagnostic

theorem Closes.map_closing (stack : List Text) : Closes stack (stack.map .closing) := by
  induction stack with
  | nil => exact .nil .nil
  | cons m stack ih => exact .cons .nil ih

namespace Checker

def repair (c : Checker) : List Tag → List Tag
  | [] => Diagnostic.closingTags c.finish
  | t :: ts => Diagnostic.mend t (c.push t).2 ++ (c.push t).1.repair ts

theorem repair_nil (c : Checker) : c.repair [] = c.stack.map .closing := by
  obtain ⟨_ | ⟨m, stack⟩⟩ := c
  · rfl
  · simp [repair, finish, openTags, Diagnostic.closingTags]

theorem repair_opening (c : Checker) (n : Text) (ts : List Tag) :
    c.repair (.opening n :: ts) = .opening n :: repair ⟨n :: c.stack⟩ ts := rfl

theorem repair_closing_nil (n : Text) (ts : List Tag) :
    empty.repair (.closing n :: ts) = empty.repair ts := rfl

/-- With or without a report, the closing tag gets the name of the tag that it closes. -/
theorem repair_closing_cons (m n : Text) (stack : List Text) (ts : List Tag) :
    repair ⟨m :: stack⟩ (.closing n :: ts) = .closing m :: repair ⟨stack⟩ ts := by
  by_cases h : m = n <;> simp [repair, push, Diagnostic.mend, h]

/-- The invariant of the pass: the repaired rest closes the tags that are open before it, and
nothing else. -/
theorem closes_repair (c : Checker) (ts : List Tag) : Closes c.stack (c.repair ts) := by
  induction ts generalizing c with
  | nil =>
    rw [repair_nil]
    exact .map_closing c.stack
  | cons t ts ih =>
    cases t with
    | opening n =>
      rw [repair_opening]
      exact (ih ⟨n :: c.stack⟩).opening
    | closing n =>
      obtain ⟨_ | ⟨m, stack⟩⟩ := c
      · rw [← empty, repair_closing_nil]
        exact ih empty
      · rw [repair_closing_cons]
        exact .cons .nil (ih ⟨stack⟩)

/-- Where nothing is reported and nothing left open, all tags stay. -/
theorem repair_eq_self {c : Checker} {ts : List Tag} (hreports : c.reports ts = [])
    (hafter : c.after ts = empty) : c.repair ts = ts := by
  induction ts generalizing c with
  | nil =>
    obtain rfl : c = empty := hafter
    rfl
  | cons t ts ih =>
    rw [reports, List.append_eq_nil_iff] at hreports
    obtain ⟨hfirst, hrest⟩ := hreports
    have hnone : (c.push t).2 = none := Option.toList_eq_nil_iff.mp hfirst
    rw [repair, hnone, ih hrest hafter]
    rfl

end Checker

/-- The repair that one pass of a checker makes. -/
def repair (ts : List Tag) : List Tag := Checker.empty.repair ts

theorem wellNested_repair (ts : List Tag) : WellNested (repair ts) := by
  cases Checker.empty.closes_repair ts with
  | nil h => exact h

theorem repair_eq_self_of_diagnostics_eq_nil {ts : List Tag} (h : diagnostics ts = []) :
    repair ts = ts := by
  obtain ⟨hreports, hafter⟩ := diagnostics_eq_nil_iff.mp h
  exact Checker.repair_eq_self hreports hafter

/-- A repaired list has no reports, a second repair leaves it as it is, and the lists that a
repair leaves as they are have no reports. -/
theorem diagnostics_repair_and_repair_eq_self_iff (ts : List Tag) :
    diagnostics (repair ts) = [] ∧ repair (repair ts) = repair ts ∧
      (repair ts = ts ↔ diagnostics ts = []) := by
  have hsilent : diagnostics (repair ts) = [] := (wellNested_repair ts).diagnostics_eq
  refine ⟨hsilent, repair_eq_self_of_diagnostics_eq_nil hsilent, ?_,
    repair_eq_self_of_diagnostics_eq_nil⟩
  intro h
  rwa [h] at hsilent

/-- A tag in excess, two elements that cross each other and a tag that is left open. -/
example : repair [.closing "td".toList, .opening "tr".toList, .opening "p".toList,
      .opening "th".toList, .closing "p".toList, .closing "th".toList] =
    [.opening "tr".toList, .opening "p".toList, .opening "th".toList, .closing "th".toList,
      .closing "p".toList, .closing "tr".toList] := by
  decide

end TagBalance
