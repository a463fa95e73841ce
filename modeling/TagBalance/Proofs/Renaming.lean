import TagBalance.Checker
import Mathlib.Logic.Function.Basic

/-!
A check under a renaming. The names decide nothing but whether a closing tag agrees with the
tag that it closes, so the checks before and after a renaming keep the same tags open, up to
their names. A renaming that gives two names one new name can make a mismatch disappear. It
cannot bring one about, and it leaves the reports of the other kinds in their places.
-/
namespace TagBalance

namespace Tag

def rename (f : Text → Text) : Tag → Tag
  | opening n => opening (f n)
  | closing n => closing (f n)

theorem rename_id (t : Tag) : t.rename id = t := by cases t <;> rfl

end Tag

namespace Diagnostic

def rename (f : Text → Text) : Diagnostic → Diagnostic
  | excessClosing n => excessClosing (f n)
  | mismatch m n => mismatch (f m) (f n)
  | unclosed ns => unclosed (ns.map f)

def isMismatch : Diagnostic → Bool
  | mismatch _ _ => true
  | _ => false

/-- A mismatch of a name with itself, which no check reports. -/
def isVoid : Diagnostic → Bool
  | mismatch m n => m = n
  | _ => false

theorem rename_id (d : Diagnostic) : d.rename id = d := by
  cases d <;> simp [rename]

theorem isMismatch_rename (f : Text → Text) (d : Diagnostic) :
    (d.rename f).isMismatch = d.isMismatch := by
  cases d <;> rfl

theorem isVoid_rename {f : Text → Text} (hf : Function.Injective f) (d : Diagnostic) :
    (d.rename f).isVoid = d.isVoid := by
  cases d with
  | mismatch m n => simp [rename, isVoid, hf.eq_iff]
  | excessClosing n => rfl
  | unclosed ns => rfl

def renameAll (f : Text → Text) (ds : List Diagnostic) : List Diagnostic :=
  (ds.map (rename f)).filter (!·.isVoid)

theorem renameAll_append (f : Text → Text) (a b : List Diagnostic) :
    renameAll f (a ++ b) = renameAll f a ++ renameAll f b := by
  rw [renameAll, List.map_append, List.filter_append]
  rfl

end Diagnostic

open Diagnostic

namespace Checker

variable (f : Text → Text)

def rename (c : Checker) : Checker := ⟨c.stack.map f⟩

theorem push_rename_fst (c : Checker) (t : Tag) :
    ((c.rename f).push (t.rename f)).1 = (c.push t).1.rename f := by
  cases t with
  | opening n => rfl
  | closing n => obtain ⟨_ | ⟨m, stack⟩⟩ := c <;> rfl

/-- Only the report on a closing tag of another name can be lost, where the two names have
become equal. -/
theorem push_rename_snd (c : Checker) (t : Tag) :
    ((c.rename f).push (t.rename f)).2.toList = renameAll f (c.push t).2.toList := by
  cases t with
  | opening n => rfl
  | closing n =>
    obtain ⟨_ | ⟨m, stack⟩⟩ := c
    · rfl
    · change (if f m = f n then none else some (mismatch (f m) (f n))).toList =
        renameAll f (if m = n then none else some (mismatch m n)).toList
      by_cases hmn : m = n
      · simp [hmn, renameAll]
      · by_cases hf : f m = f n <;> simp [hmn, hf, renameAll, Diagnostic.rename, isVoid]

theorem after_rename (c : Checker) (ts : List Tag) :
    (c.rename f).after (ts.map (Tag.rename f)) = (c.after ts).rename f := by
  induction ts generalizing c with
  | nil => rfl
  | cons t ts ih => rw [List.map_cons, after, push_rename_fst, ih, after]

theorem reports_rename (c : Checker) (ts : List Tag) :
    (c.rename f).reports (ts.map (Tag.rename f)) = renameAll f (c.reports ts) := by
  induction ts generalizing c with
  | nil => rfl
  | cons t ts ih =>
    rw [List.map_cons, reports, push_rename_snd, push_rename_fst, ih, reports, renameAll_append]

theorem finish_rename (c : Checker) :
    (c.rename f).finish.toList = renameAll f c.finish.toList := by
  obtain ⟨_ | ⟨m, stack⟩⟩ := c
  · rfl
  · simp [finish, openTags, rename, renameAll, Diagnostic.rename, isVoid]

end Checker

theorem diagnostics_rename (f : Text → Text) (ts : List Tag) :
    diagnostics (ts.map (Tag.rename f)) = renameAll f (diagnostics ts) := by
  have hreports := Checker.reports_rename f .empty ts
  have hafter := Checker.after_rename f .empty ts
  have hempty : Checker.empty.rename f = .empty := rfl
  rw [hempty] at hreports hafter
  rw [diagnostics, hreports, hafter, Checker.finish_rename, ← renameAll_append, diagnostics]

/-- No check reports a mismatch of a name with itself: the renaming that changes nothing would
remove such a report. -/
theorem filter_isVoid_diagnostics (ts : List Tag) :
    (diagnostics ts).filter (!·.isVoid) = diagnostics ts := by
  have hlaw := diagnostics_rename id ts
  rw [List.map_id'' Tag.rename_id, renameAll, List.map_id'' Diagnostic.rename_id] at hlaw
  exact hlaw.symm

theorem renameAll_eq_map {f : Text → Text} (hf : Function.Injective f) (ts : List Tag) :
    renameAll f (diagnostics ts) = (diagnostics ts).map (Diagnostic.rename f) := by
  have hvoid : ((!·.isVoid) ∘ Diagnostic.rename f) = (!·.isVoid) := by
    funext d
    simp [isVoid_rename hf d]
  rw [renameAll, List.filter_map, hvoid, filter_isVoid_diagnostics]

/-- All reports that are no mismatches are kept. -/
theorem filter_isMismatch_renameAll (f : Text → Text) (ds : List Diagnostic) :
    (renameAll f ds).filter (!·.isMismatch) =
      (ds.filter (!·.isMismatch)).map (Diagnostic.rename f) := by
  have hkept : ∀ d : Diagnostic, ((!d.isMismatch) && !d.isVoid) = !d.isMismatch := by
    intro d
    cases d <;> simp [isMismatch, isVoid]
  have hkind : ((!·.isMismatch) ∘ Diagnostic.rename f) = (!·.isMismatch) := by
    funext d
    simp [isMismatch_rename f d]
  rw [renameAll, List.filter_filter, funext hkept, List.filter_map, hkind]

/-- The reports after a renaming are the renamed ones without the mismatches whose two names
have become equal. So none is lost where the renaming keeps names apart; and in any case no
report is new, and those that are no mismatches all stay. -/
theorem diagnostics_rename_eq_filter (f : Text → Text) (ts : List Tag) :
    diagnostics (ts.map (Tag.rename f)) =
        ((diagnostics ts).map (Diagnostic.rename f)).filter (!·.isVoid) ∧
      (Function.Injective f →
        diagnostics (ts.map (Tag.rename f)) = (diagnostics ts).map (Diagnostic.rename f)) ∧
      (diagnostics (ts.map (Tag.rename f))).Sublist
        ((diagnostics ts).map (Diagnostic.rename f)) ∧
      (diagnostics (ts.map (Tag.rename f))).filter (!·.isMismatch) =
        ((diagnostics ts).filter (!·.isMismatch)).map (Diagnostic.rename f) := by
  rw [diagnostics_rename]
  exact ⟨rfl, fun hf => renameAll_eq_map hf ts, List.filter_sublist,
    filter_isMismatch_renameAll f (diagnostics ts)⟩

def crossedCases : List Tag :=
  [.closing "td".toList, .opening "Th".toList, .opening "TH".toList, .closing "Th".toList,
    .closing "td".toList, .opening "P".toList]

/-- Put behind a hyphen the names stay apart; in small letters two of them become equal. -/
theorem diagnostics_rename_crossedCases :
    Function.Injective (List.cons '-') ∧
      diagnostics (crossedCases.map (Tag.rename (List.cons '-'))) =
        [.excessClosing "-td".toList, .mismatch "-TH".toList "-Th".toList,
          .mismatch "-Th".toList "-td".toList, .unclosed ["-P".toList]] ∧
      diagnostics (crossedCases.map (Tag.rename Text.lower)) =
        [.excessClosing "td".toList, .mismatch "th".toList "td".toList,
          .unclosed ["p".toList]] := by
  have hf : Function.Injective (List.cons '-') := fun _ _ h => (List.cons.inj h).2
  have hreports : diagnostics crossedCases =
      [.excessClosing "td".toList, .mismatch "TH".toList "Th".toList,
        .mismatch "Th".toList "td".toList, .unclosed ["P".toList]] := by
    decide
  obtain ⟨-, hinjective, -⟩ := diagnostics_rename_eq_filter (List.cons '-') crossedCases
  obtain ⟨hlower, -⟩ := diagnostics_rename_eq_filter Text.lower crossedCases
  rw [hinjective hf, hlower, hreports]
  exact ⟨hf, rfl, by decide⟩

end TagBalance
