import TagBalance.Proofs.Nesting
import TagBalance.Proofs.WellNested

/-!
Blocks of tags that leave every checker as it was. They are the blind-balanced lists: such a
block never reaches below the tags that it opens itself, so its reports do not depend on what
is open before it. Put between other tags it adds its own reports and changes none of theirs.
-/
namespace TagBalance.Nesting

/-- Where the stack is deep enough, the names further below play no part in the reports. -/
theorem reports_append_stack (ts : List Tag) (stack below : List Text)
    (h : overrun ts ≤ stack.length) :
    Checker.reports ⟨stack ++ below⟩ ts = Checker.reports ⟨stack⟩ ts := by
  induction ts generalizing stack with
  | nil => rfl
  | cons t ts ih =>
    cases t with
    | opening m =>
      have hrest : overrun ts ≤ (m :: stack).length := by
        rw [overrun] at h
        rw [List.length_cons]
        omega
      rw [Checker.reports_opening, Checker.reports_opening]
      exact ih (m :: stack) hrest
    | closing n =>
      rw [overrun] at h
      cases stack with
      | nil =>
        rw [List.length_nil] at h
        omega
      | cons m stack =>
        have hrest : overrun ts ≤ stack.length := by
          rw [List.length_cons] at h
          omega
        rw [List.cons_append, Checker.reports_closing_cons, Checker.reports_closing_cons,
          ih stack hrest]

/-- One open tag is enough to tell a list that reaches below its own tags, and an empty
checker to tell one that leaves a tag open. -/
theorem blindBalanced_of_openTags_after {w : List Tag}
    (h : ∀ c : Checker, (c.after w).openTags = c.openTags) : BlindBalanced w := by
  have hstack : ∀ c : Checker, (c.after w).stack = c.stack :=
    fun c => List.reverse_injective (h c)
  have hopen : leftOpen w = [] := hstack .empty
  have hone := congrArg List.length (hstack ⟨[[]]⟩)
  rw [stack_after, hopen, List.nil_append, List.length_drop, List.length_singleton] at hone
  exact blindBalanced_iff.mpr ⟨by omega, hopen⟩

namespace BlindBalanced

variable {w : List Tag}

theorem reports (hw : BlindBalanced w) (c : Checker) : c.reports w = diagnostics w := by
  have hzero : overrun w ≤ ([] : List Text).length := (blindBalanced_iff.mp hw).1.le
  rw [diagnostics, hw.after]
  exact (reports_append_stack w [] c.stack hzero).trans (List.append_nil _).symm

theorem diagnostics_insert (hw : BlindBalanced w) (a b : List Tag) :
    diagnostics (a ++ w ++ b) = Checker.empty.reports a ++ diagnostics w ++
      ((Checker.empty.after a).reports b ++ ((Checker.empty.after a).after b).finish.toList) := by
  rw [diagnostics_append, Checker.reports_append, Checker.after_append, hw.reports, hw.after]

theorem of_diagnostics_eq_nil (h : diagnostics w = []) : BlindBalanced w := by
  have hnested : WellNested w := .of_diagnostics_eq_nil h
  apply blindBalanced_of_openTags_after
  intro c
  rw [hnested.after_eq]

end BlindBalanced

/-- The lists that leave the open tags of every checker as they were are the blind-balanced
ones. Each checker makes the same reports on such a list, and between other tags it adds
them behind the reports on the tags in front; a list without reports adds nothing. -/
theorem openTags_after_iff_and_diagnostics_insert (w : List Tag) :
    ((∀ c : Checker, (c.after w).openTags = c.openTags) ↔ BlindBalanced w) ∧
      (BlindBalanced w → (∀ c : Checker, c.reports w = diagnostics w) ∧
        ∀ a b, ∃ rest, diagnostics (a ++ b) = Checker.empty.reports a ++ rest ∧
          diagnostics (a ++ w ++ b) = Checker.empty.reports a ++ diagnostics w ++ rest) ∧
      (diagnostics w = [] → ∀ a b, diagnostics (a ++ w ++ b) = diagnostics (a ++ b)) := by
  refine ⟨⟨blindBalanced_of_openTags_after, ?_⟩, ?_, ?_⟩
  · intro hw c
    rw [hw.after]
  · intro hw
    refine ⟨hw.reports, ?_⟩
    intro a b
    exact ⟨_, diagnostics_append a b, hw.diagnostics_insert a b⟩
  · intro h a b
    rw [(BlindBalanced.of_diagnostics_eq_nil h).diagnostics_insert, h, List.append_nil,
      diagnostics_append]

def crossed : List Tag :=
  [.opening "p".toList, .opening "th".toList, .closing "p".toList, .closing "th".toList]

def rowFront : List Tag := [.closing "td".toList, .opening "tr".toList]

/-- The block stands behind an excess closing tag and within an open element. -/
theorem diagnostics_insert_crossed :
    BlindBalanced crossed ∧
      ∃ rest, diagnostics (rowFront ++ [.opening "h1".toList]) =
          [.excessClosing "td".toList] ++ rest ∧
        diagnostics (rowFront ++ crossed ++ [.opening "h1".toList]) =
          [.excessClosing "td".toList] ++
            [.mismatch "th".toList "p".toList, .mismatch "p".toList "th".toList] ++ rest := by
  have hcrossed : BlindBalanced crossed := by decide
  have hfront : Checker.empty.reports rowFront = [.excessClosing "td".toList] := by decide
  have hblock : diagnostics crossed =
      [.mismatch "th".toList "p".toList, .mismatch "p".toList "th".toList] := by decide
  obtain ⟨-, hinsert, -⟩ := openTags_after_iff_and_diagnostics_insert crossed
  obtain ⟨-, hbetween⟩ := hinsert hcrossed
  rw [← hfront, ← hblock]
  exact ⟨hcrossed, hbetween rowFront _⟩

end TagBalance.Nesting
