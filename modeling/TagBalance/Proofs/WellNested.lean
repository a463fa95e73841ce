import TagBalance.Checker

/-!
The language of well-nested lists of tags, given by its grammar. The checker is silent on
exactly these lists. A silent run from any stack of open tags falls into well-nested parts
between the closing tags of that stack, and a derivation is read off from the parts.
-/
namespace TagBalance

/-- Empty, or an element with a well-nested list inside and another one behind it. -/
inductive WellNested : List Tag → Prop
  | nil : WellNested []
  | element (n : Text) {inner rest : List Tag} : WellNested inner → WellNested rest →
      WellNested (.opening n :: (inner ++ .closing n :: rest))

namespace WellNested

variable {ts : List Tag}

theorem append {ts us : List Tag} (hts : WellNested ts) (hus : WellNested us) :
    WellNested (ts ++ us) := by
  induction hts with
  | nil => exact hus
  | element n hinner _ _ ihrest =>
    rw [List.cons_append, List.append_assoc, List.cons_append]
    exact .element n hinner ihrest

theorem after_eq (h : WellNested ts) (c : Checker) : c.after ts = c := by
  induction h generalizing c with
  | nil => rfl
  | element n _ _ ihinner ihrest =>
    rw [Checker.after_opening, Checker.after_append, ihinner, Checker.after_closing]
    exact ihrest c

theorem reports_eq (h : WellNested ts) (c : Checker) : c.reports ts = [] := by
  induction h generalizing c with
  | nil => rfl
  | element n hinner _ ihinner ihrest =>
    rw [Checker.reports_opening, Checker.reports_append, ihinner, hinner.after_eq,
      Checker.reports_closing_cons, if_pos rfl]
    exact ihrest _

theorem after_append (h : WellNested ts) (c : Checker) (us : List Tag) :
    c.after (ts ++ us) = c.after us := by
  rw [Checker.after_append, h.after_eq]

theorem reports_append (h : WellNested ts) (c : Checker) (us : List Tag) :
    c.reports (ts ++ us) = c.reports us := by
  rw [Checker.reports_append, h.reports_eq, h.after_eq, List.nil_append]

/-- Any enclosing stack is left alone, so the empty one is left empty. -/
theorem diagnostics_eq (h : WellNested ts) : diagnostics ts = [] := by
  rw [diagnostics, h.reports_eq, h.after_eq]
  rfl

end WellNested

/-- A list that closes the tags of a stack, innermost first, with well-nested lists before,
between and behind their closing tags. -/
inductive Closes : List Text → List Tag → Prop
  | nil {w : List Tag} : WellNested w → Closes [] w
  | cons {m : Text} {stack : List Text} {w ts : List Tag} : WellNested w → Closes stack ts →
      Closes (m :: stack) (w ++ .closing m :: ts)

namespace Closes

/-- An element in front belongs to the first well-nested part. -/
theorem element {n : Text} {inner ts : List Tag} {stack : List Text} (hinner : WellNested inner)
    (h : Closes stack ts) : Closes stack (.opening n :: (inner ++ .closing n :: ts)) := by
  cases h with
  | nil hw => exact .nil (.element n hinner hw)
  | @cons m stack w ts hw hts =>
    have hfront := Closes.cons (m := m) (WellNested.element n hinner hw) hts
    rwa [List.cons_append, List.append_assoc, List.cons_append] at hfront

theorem opening {n : Text} {ts : List Tag} {stack : List Text} (h : Closes (n :: stack) ts) :
    Closes stack (.opening n :: ts) := by
  -- The closing tag of this element is the first one that the longer stack needs.
  cases h with
  | cons hinner hts => exact hts.element hinner

/-- A run that reports nothing and ends with nothing open closes the stack it starts from. -/
theorem of_silent {ts : List Tag} {stack : List Text}
    (hreports : Checker.reports ⟨stack⟩ ts = []) (hafter : Checker.after ⟨stack⟩ ts = .empty) :
    Closes stack ts := by
  induction ts generalizing stack with
  | nil =>
    obtain rfl : stack = [] := congrArg Checker.stack hafter
    exact .nil .nil
  | cons t ts ih =>
    cases t with
    | opening n => exact (@ih (n :: stack) hreports hafter).opening
    | closing n =>
      cases stack with
      | nil =>
        rw [← Checker.empty, Checker.reports_closing_nil] at hreports
        simp at hreports
      | cons m stack =>
        rw [Checker.reports_closing_cons, List.append_eq_nil_iff] at hreports
        obtain ⟨hfirst, hreports⟩ := hreports
        obtain rfl : m = n := by simpa using hfirst
        exact .cons .nil (ih hreports hafter)

end Closes

theorem diagnostics_eq_nil_iff {ts : List Tag} :
    diagnostics ts = [] ↔ Checker.empty.reports ts = [] ∧ Checker.empty.after ts = .empty := by
  rw [diagnostics, List.append_eq_nil_iff, Checker.finish]
  apply and_congr_right
  intro _
  constructor
  · intro h
    split at h
    · exact congrArg Checker.mk ‹_›
    · simp at h
  · intro h
    rw [h]
    rfl

theorem WellNested.of_diagnostics_eq_nil {ts : List Tag} (h : diagnostics ts = []) :
    WellNested ts := by
  obtain ⟨hreports, hafter⟩ := diagnostics_eq_nil_iff.mp h
  cases Closes.of_silent hreports hafter with
  | nil hts => exact hts

/-- The checker accepts the well-nested lists and no others. -/
theorem diagnostics_eq_nil_iff_wellNested (ts : List Tag) :
    diagnostics ts = [] ↔ WellNested ts :=
  ⟨WellNested.of_diagnostics_eq_nil, WellNested.diagnostics_eq⟩

end TagBalance
