import TagBalance.Proofs.WellNested

/-!
What a single missing tag does to the reports of a list that had none. From there on each
closing tag meets the open tag of its neighbour, one level further in where a closing tag is
missing and one level further out where an opening one is. Neighbours of the same name pass
unnoticed, and at the end the outermost tag is left without a partner.
-/
namespace TagBalance

/-- One report for each open tag that is closed by a tag of another name, as far as both
lists go. -/
def mismatches (opened closed : List Text) : List Diagnostic :=
  (opened.zip closed).filterMap fun p => if p.1 = p.2 then none else some (.mismatch p.1 p.2)

theorem mismatches_cons (m n : Text) (ms ns : List Text) :
    mismatches (m :: ms) (n :: ns) =
      (if m = n then none else some (.mismatch m n)).toList ++ mismatches ms ns := by
  by_cases h : m = n <;> simp [mismatches, h]

namespace Closes

variable {stack : List Text} {ts : List Tag}

/-- With one more tag open on top, each closing tag closes the one before its own. -/
theorem reports_cons (h : Closes stack ts) (n : Text) :
    Checker.reports ⟨n :: stack⟩ ts = mismatches (n :: stack) stack := by
  induction h generalizing n with
  | nil hw => exact hw.reports_eq _
  | @cons m stack w ts hw _ ih =>
    rw [hw.reports_append, Checker.reports_closing_cons, ih m, mismatches_cons]

theorem after_cons (h : Closes stack ts) (n : Text) :
    Checker.after ⟨n :: stack⟩ ts = ⟨[stack.getLastD n]⟩ := by
  induction h generalizing n with
  | nil hw => exact hw.after_eq _
  | @cons m stack w ts hw _ ih =>
    rw [hw.after_append, Checker.after_closing, List.getLastD_cons]
    exact ih m

/-- With one more closing tag in front, each closing tag closes the one behind its own, and
the last one comes when nothing is open. -/
theorem reports_closing (h : Closes stack ts) (n : Text) :
    Checker.reports ⟨stack⟩ (.closing n :: ts) =
      mismatches stack (n :: stack) ++ [.excessClosing (stack.getLastD n)] := by
  induction h generalizing n with
  | @nil w hw =>
    change Checker.reports .empty (.closing n :: w) = _
    rw [Checker.reports_closing_nil, hw.reports_eq]
    rfl
  | @cons m stack w ts hw _ ih =>
    rw [Checker.reports_closing_cons, hw.reports_append, ih m, mismatches_cons,
      List.getLastD_cons, List.append_assoc]

theorem after_closing (h : Closes stack ts) (n : Text) :
    Checker.after ⟨stack⟩ (.closing n :: ts) = .empty := by
  induction h generalizing n with
  | nil hw => exact hw.after_eq _
  | @cons m stack w ts hw _ ih =>
    rw [Checker.after_closing, hw.after_append]
    exact ih m

end Closes

/-- Where nothing is reported, what stands behind an element closes the tags that are open
in front of it. -/
theorem closes_of_diagnostics_eq_nil {a w b : List Tag} {n : Text}
    (h : diagnostics (a ++ .opening n :: w ++ .closing n :: b) = []) (hw : WellNested w) :
    Checker.empty.reports a = [] ∧ Closes (Checker.empty.after a).stack b := by
  obtain ⟨hreports, hafter⟩ := diagnostics_eq_nil_iff.mp h
  rw [List.append_assoc, List.cons_append, Checker.reports_append, List.append_eq_nil_iff,
    Checker.reports_opening, hw.reports_append, Checker.reports_closing_cons,
    List.append_eq_nil_iff] at hreports
  rw [List.append_assoc, List.cons_append, Checker.after_append, Checker.after_opening,
    hw.after_append, Checker.after_closing] at hafter
  exact ⟨hreports.1, Closes.of_silent hreports.2.2 hafter⟩

theorem diagnostics_append_of_reports_eq_nil {a : List Tag}
    (h : Checker.empty.reports a = []) (b : List Tag) :
    diagnostics (a ++ b) = (Checker.empty.after a).reports b ++
      ((Checker.empty.after a).after b).finish.toList := by
  rw [diagnostics_append, h, List.nil_append]

/-- The reports after the removal of one tag of a pair, the closing one or the opening one,
from a list without any report. The tags `o` that are open in front of the pair are met from
the innermost to the outermost. -/
theorem diagnostics_of_missing_tag (a w b : List Tag) (n : Text) (o : List Text)
    (h : diagnostics (a ++ .opening n :: w ++ .closing n :: b) = [])
    (hw : diagnostics w = []) (ho : (Checker.empty.after a).openTags = o) :
    diagnostics (a ++ .opening n :: w ++ b) =
        mismatches (n :: o.reverse) o.reverse ++ [.unclosed [o.headD n]] ∧
      diagnostics (a ++ w ++ .closing n :: b) =
        mismatches o.reverse (n :: o.reverse) ++ [.excessClosing (o.headD n)] := by
  have hnested : WellNested w := .of_diagnostics_eq_nil hw
  obtain ⟨hreports, hcloses⟩ := closes_of_diagnostics_eq_nil h hnested
  have hstack : (Checker.empty.after a).stack = o.reverse := by
    rw [← ho, Checker.openTags, List.reverse_reverse]
  have houtermost : (Checker.empty.after a).stack.getLastD n = o.headD n := by
    rw [hstack, List.getLastD_eq_getLast?, List.getLast?_reverse, List.headD_eq_head?_getD]
  rw [← hstack, ← houtermost]
  constructor
  · rw [List.append_assoc, diagnostics_append_of_reports_eq_nil hreports, List.cons_append,
      Checker.reports_opening, hnested.reports_append, hcloses.reports_cons,
      Checker.after_opening, hnested.after_append, hcloses.after_cons]
    rfl
  · rw [List.append_assoc, diagnostics_append_of_reports_eq_nil hreports,
      hnested.reports_append, hnested.after_append, hcloses.reports_closing,
      hcloses.after_closing]
    exact List.append_nil _

def openDivs : List Tag := [.opening "div".toList, .opening "div".toList, .opening "p".toList]

def cell : List Tag := [.opening "td".toList, .closing "td".toList]

def closedDivs : List Tag :=
  .closing "p".toList :: .closing "div".toList :: (cell ++ [.closing "div".toList])

theorem diagnostics_of_missing_span :
    diagnostics (openDivs ++ .opening "span".toList :: cell ++
        .closing "span".toList :: closedDivs) = [] ∧
      diagnostics cell = [] ∧
      (Checker.empty.after openDivs).openTags = ["div".toList, "div".toList, "p".toList] ∧
      diagnostics (openDivs ++ .opening "span".toList :: cell ++ closedDivs) =
        [.mismatch "span".toList "p".toList, .mismatch "p".toList "div".toList,
          .unclosed ["div".toList]] ∧
      diagnostics (openDivs ++ cell ++ .closing "span".toList :: closedDivs) =
        [.mismatch "p".toList "span".toList, .mismatch "div".toList "p".toList,
          .excessClosing "div".toList] := by
  have hsilent : diagnostics (openDivs ++ .opening "span".toList :: cell ++
      .closing "span".toList :: closedDivs) = [] := by
    decide
  have hcell : diagnostics cell = [] := by decide
  have hopen : (Checker.empty.after openDivs).openTags =
      ["div".toList, "div".toList, "p".toList] := by
    decide
  obtain ⟨hclosing, hopening⟩ :=
    diagnostics_of_missing_tag openDivs cell closedDivs "span".toList _ hsilent hcell hopen
  exact ⟨hsilent, hcell, hopen, hclosing.trans (by decide), hopening.trans (by decide)⟩

end TagBalance
