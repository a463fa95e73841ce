import TagBalance.Checker
import Mathlib.Combinatorics.Enumerative.DyckWord

/-!
What a list of tags does to any checker, told by two things: how many open tags it closes
beyond its own, and the names that it leaves open itself. The names on the stack below play
no part in it. Where both are nothing, the list is a Dyck word once the names are erased, and
it leaves the open tags as they were.
-/
namespace TagBalance.Nesting

/-- How many tags a list closes beyond those that it opens itself. -/
def overrun : List Tag → ℕ
  | [] => 0
  | .opening _ :: ts => overrun ts - 1
  | .closing _ :: ts => overrun ts + 1

/-- The names of the tags that a list leaves open, innermost first. -/
def leftOpen (ts : List Tag) : List Text := (Checker.empty.after ts).stack

def openings (ts : List Tag) : ℕ := ts.countP fun t => !t.isClosing

def closings (ts : List Tag) : ℕ := ts.countP Tag.isClosing

def step : Tag → DyckStep
  | .opening _ => .U
  | .closing _ => .D

/-- With the names erased, the list is a Dyck word. -/
def BlindBalanced (ts : List Tag) : Prop := ∃ w : DyckWord, w.toList = ts.map step

theorem openings_opening (m : Text) (ts : List Tag) :
    openings (.opening m :: ts) = openings ts + 1 := by
  simp [openings, Tag.isClosing]

theorem openings_closing (n : Text) (ts : List Tag) :
    openings (.closing n :: ts) = openings ts := by
  simp [openings, Tag.isClosing]

theorem closings_opening (m : Text) (ts : List Tag) :
    closings (.opening m :: ts) = closings ts := by
  simp [closings, Tag.isClosing]

theorem closings_closing (n : Text) (ts : List Tag) :
    closings (.closing n :: ts) = closings ts + 1 :=
  List.countP_cons_of_pos rfl

theorem count_U_map_step (ts : List Tag) : (ts.map step).count .U = openings ts := by
  rw [List.count, List.countP_map]
  exact List.countP_congr fun t _ => by cases t <;> simp [step, Tag.isClosing]

theorem count_D_map_step (ts : List Tag) : (ts.map step).count .D = closings ts := by
  rw [List.count, List.countP_map]
  exact List.countP_congr fun t _ => by cases t <;> simp [step, Tag.isClosing]

/-- The open tags after a list are those it leaves open itself, on top of what it has not
closed of the stack. -/
theorem stack_after (c : Checker) (ts : List Tag) :
    (c.after ts).stack = leftOpen ts ++ c.stack.drop (overrun ts) := by
  induction ts generalizing c with
  | nil => rfl
  | cons t ts ih =>
    cases t with
    | opening m =>
      rw [leftOpen, Checker.after_opening, Checker.after_opening, ih,
        ih ⟨m :: Checker.empty.stack⟩, List.append_assoc]
      cases h : overrun ts <;> simp [overrun, h, Checker.empty]
    | closing n =>
      rw [leftOpen, Checker.after_closing, Checker.after_closing, ih,
        ih ⟨Checker.empty.stack.tail⟩]
      simp [overrun, Checker.empty, Nat.add_comm]

theorem leftOpen_append (a b : List Tag) :
    leftOpen (a ++ b) = leftOpen b ++ (leftOpen a).drop (overrun b) := by
  rw [leftOpen, Checker.after_append, stack_after]
  rfl

theorem leftOpen_opening (m : Text) (ts : List Tag) :
    leftOpen (.opening m :: ts) = leftOpen ts ++ [m].drop (overrun ts) :=
  leftOpen_append [.opening m] ts

theorem leftOpen_closing (n : Text) (ts : List Tag) :
    leftOpen (.closing n :: ts) = leftOpen ts := by
  rw [leftOpen, Checker.after_closing]
  rfl

theorem overrun_append (a b : List Tag) :
    overrun (a ++ b) = overrun a + (overrun b - (leftOpen a).length) := by
  induction a with
  | nil => simp [overrun, leftOpen, Checker.after, Checker.empty]
  | cons t a ih =>
    cases t with
    | opening m =>
      rw [List.cons_append, overrun, overrun, ih, leftOpen_opening, List.length_append,
        List.length_drop, List.length_singleton]
      omega
    | closing n =>
      rw [List.cons_append, overrun, overrun, ih, leftOpen_closing]
      omega

/-- Each tag counts once: what is left open and what is closed make up what is opened and
what is closed below. -/
theorem length_leftOpen_add_closings (ts : List Tag) :
    (leftOpen ts).length + closings ts = openings ts + overrun ts := by
  induction ts with
  | nil => rfl
  | cons t ts ih =>
    cases t with
    | opening m =>
      rw [leftOpen_opening, List.length_append, List.length_drop, List.length_singleton,
        closings_opening, openings_opening, overrun]
      omega
    | closing n =>
      rw [leftOpen_closing, closings_closing, openings_closing, overrun]
      omega

/-- The overrun is the deepest point that a prefix reaches. -/
theorem overrun_le_iff {ts : List Tag} {d : ℕ} :
    overrun ts ≤ d ↔ ∀ k, closings (ts.take k) ≤ d + openings (ts.take k) := by
  induction ts generalizing d with
  | nil => simp [overrun, closings, openings]
  | cons t ts ih =>
    cases t with
    | opening m =>
      rw [overrun, Nat.sub_le_iff_le_add, ih]
      constructor
      · intro h k
        cases k with
        | zero => simp [closings]
        | succ k =>
          have hk := h k
          rw [List.take_succ_cons, closings_opening, openings_opening]
          omega
      · intro h k
        have hk := h (k + 1)
        rw [List.take_succ_cons, closings_opening, openings_opening] at hk
        omega
    | closing n =>
      rw [overrun]
      constructor
      · intro h k
        cases k with
        | zero => simp [closings]
        | succ k =>
          have hk := ih.mp (show overrun ts ≤ d - 1 by omega) k
          rw [List.take_succ_cons, closings_closing, openings_closing]
          omega
      · intro h
        have hd : 1 ≤ d := by simpa [closings, openings, Tag.isClosing] using h 1
        have hrest : overrun ts ≤ d - 1 := by
          apply ih.mpr
          intro k
          have hk := h (k + 1)
          rw [List.take_succ_cons, closings_closing, openings_closing] at hk
          omega
        omega

theorem blindBalanced_iff {ts : List Tag} :
    BlindBalanced ts ↔ overrun ts = 0 ∧ leftOpen ts = [] := by
  have htotal := length_leftOpen_add_closings ts
  have hprefix := @overrun_le_iff ts 0
  simp only [Nat.zero_add, Nat.le_zero] at hprefix
  constructor
  · intro h
    obtain ⟨w, hw⟩ := h
    have hcount := w.count_U_eq_count_D
    rw [hw, count_U_map_step, count_D_map_step] at hcount
    have hzero : overrun ts = 0 := by
      apply hprefix.mpr
      intro k
      have hk := w.count_D_le_count_U k
      rwa [hw, ← List.map_take, count_U_map_step, count_D_map_step] at hk
    exact ⟨hzero, List.length_eq_zero_iff.mp (by omega)⟩
  · intro h
    obtain ⟨hzero, hopen⟩ := h
    rw [hzero, hopen, List.length_nil] at htotal
    refine ⟨⟨ts.map step, ?_, ?_⟩, rfl⟩
    · rw [count_U_map_step, count_D_map_step]
      omega
    · intro k
      rw [← List.map_take, count_U_map_step, count_D_map_step]
      exact hprefix.mp hzero k

instance : DecidablePred BlindBalanced := fun _ => decidable_of_iff _ blindBalanced_iff.symm

/-- A blind-balanced list leaves any checker as it was. -/
theorem BlindBalanced.after {w : List Tag} (hw : BlindBalanced w) (c : Checker) :
    c.after w = c := by
  obtain ⟨hzero, hopen⟩ := blindBalanced_iff.mp hw
  have hstack := stack_after c w
  rw [hzero, hopen, List.nil_append, List.drop_zero] at hstack
  exact congrArg Checker.mk hstack

theorem exists_of_leftOpen_eq_cons {ts : List Tag} {m : Text} {stack : List Text}
    (h : leftOpen ts = m :: stack) :
    ∃ before w, ts = before ++ .opening m :: w ∧ BlindBalanced w := by
  induction ts generalizing stack with
  | nil => simp [leftOpen, Checker.after, Checker.empty] at h
  | cons t ts ih =>
    cases t with
    | opening n =>
      rw [leftOpen_opening] at h
      cases hopen : leftOpen ts with
      | nil =>
        rw [hopen, List.nil_append] at h
        cases hzero : overrun ts with
        | zero =>
          rw [hzero, List.drop_zero] at h
          obtain rfl := (List.cons.inj h).1
          exact ⟨[], ts, rfl, blindBalanced_iff.mpr ⟨hzero, hopen⟩⟩
        | succ k =>
          rw [hzero] at h
          simp at h
      | cons a as =>
        rw [hopen, List.cons_append] at h
        obtain rfl := (List.cons.inj h).1
        obtain ⟨before, w, rfl, hw⟩ := ih hopen
        exact ⟨.opening n :: before, w, rfl, hw⟩
    | closing n =>
      rw [leftOpen_closing] at h
      obtain ⟨before, w, rfl, hw⟩ := ih h
      exact ⟨.closing n :: before, w, rfl, hw⟩

theorem leftOpen_append_opening (before : List Tag) (m : Text) {w : List Tag}
    (hw : BlindBalanced w) :
    leftOpen (before ++ .opening m :: w) = m :: leftOpen before := by
  rw [leftOpen, Checker.after_append, Checker.after_opening, hw.after]
  rfl

/-- The innermost tag left open is the opening tag with a blind-balanced list behind it. -/
theorem head?_leftOpen_eq_some_iff {ts : List Tag} {m : Text} :
    (leftOpen ts).head? = some m ↔
      ∃ before w, ts = before ++ .opening m :: w ∧ BlindBalanced w := by
  constructor
  · intro h
    obtain ⟨stack, hstack⟩ := List.head?_eq_some_iff.mp h
    exact exists_of_leftOpen_eq_cons hstack
  · intro h
    obtain ⟨before, w, rfl, hw⟩ := h
    rw [leftOpen_append_opening before m hw, List.head?_cons]

/-- Where a list closes more than `d` tags of the stack, one closing tag is the first to
do so. What stands before it closes exactly `d` and leaves nothing open. -/
theorem exists_of_lt_overrun {ts : List Tag} {d : ℕ} (h : d < overrun ts) :
    ∃ v n rest, ts = v ++ .closing n :: rest ∧ overrun v = d ∧ leftOpen v = [] := by
  induction ts generalizing d with
  | nil => simp [overrun] at h
  | cons t ts ih =>
    cases t with
    | opening m =>
      rw [overrun] at h
      obtain ⟨v, n, rest, rfl, hv, hopen⟩ := ih (show d + 1 < overrun ts by omega)
      refine ⟨.opening m :: v, n, rest, rfl, ?_, ?_⟩
      · rw [overrun, hv, Nat.add_sub_cancel]
      · rw [leftOpen_opening, hopen, hv, List.nil_append, List.drop_succ_cons, List.drop_nil]
    | closing n =>
      rw [overrun] at h
      cases d with
      | zero => exact ⟨[], n, ts, rfl, rfl, rfl⟩
      | succ d =>
        obtain ⟨v, k, rest, rfl, hv, hopen⟩ := ih (show d < overrun ts by omega)
        refine ⟨.closing n :: v, k, rest, rfl, ?_, ?_⟩
        · rw [overrun, hv]
        · rw [leftOpen_closing, hopen]

/-- A list closes a tag below it if and only if a blind-balanced prefix of it is followed
by a closing tag. -/
theorem overrun_ne_zero_iff {ts : List Tag} :
    overrun ts ≠ 0 ↔ ∃ w n rest, ts = w ++ .closing n :: rest ∧ BlindBalanced w := by
  constructor
  · intro h
    obtain ⟨w, n, rest, hts, hzero, hopen⟩ := exists_of_lt_overrun (Nat.pos_of_ne_zero h)
    exact ⟨w, n, rest, hts, blindBalanced_iff.mpr ⟨hzero, hopen⟩⟩
  · intro h
    obtain ⟨w, n, rest, rfl, hw⟩ := h
    obtain ⟨hzero, hopen⟩ := blindBalanced_iff.mp hw
    rw [overrun_append, hzero, hopen, overrun]
    simp

end TagBalance.Nesting
