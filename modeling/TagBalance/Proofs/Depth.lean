import TagBalance.Proofs.Pairing
import TagBalance.Proofs.Unmatched

/-!
The state of the checker inside a list of tags, in closed form. The net count of a prefix is
how many more tags it opens than it closes. Its least value so far says how many closing tags
came in excess, and the depth is how far the count lies above that least value. A name is still
open if the count never falls below its value right behind the opening tag.
-/
namespace TagBalance.Nesting

open Diagnostic Pairing

def net (ts : List Tag) (j : ℕ) : ℤ := openings (ts.take j) - closings (ts.take j)

/-- Every segment right behind position `i`, up to at most `k`, has no more closing tags than
opening ones, so that none of them reaches back to the tag at `i`. -/
def StaysOpen (ts : List Tag) (i k : ℕ) : Prop :=
  ∀ m ≤ k, i < m →
    closings (Pairing.segment ts (i + 1) m) ≤ openings (Pairing.segment ts (i + 1) m)

instance (ts : List Tag) (i k : ℕ) : Decidable (StaysOpen ts i k) :=
  inferInstanceAs (Decidable (∀ m ≤ k, i < m → _))

def surviving (ts : List Tag) (k : ℕ) : List Text :=
  (List.range k).filterMap fun i => if StaysOpen ts i k then openingAt ts i else none

/-- What is open is what was opened less what was closed, where the closing tags in excess
closed nothing. -/
theorem depth_after_take (ts : List Tag) (k : ℕ) :
    ((Checker.empty.after (ts.take k)).depth : ℤ) = net ts k + overrun (ts.take k) := by
  have htotal := length_leftOpen_add_closings (ts.take k)
  change ((leftOpen (ts.take k)).length : ℤ) = _
  rw [net]
  omega

theorem neg_net_le_overrun (ts : List Tag) {j k : ℕ} (hj : j ≤ k) :
    -net ts j ≤ overrun (ts.take k) := by
  have hprefix := overrun_le_iff.mp (Nat.le_refl (overrun (ts.take k))) j
  rw [List.take_take, Nat.min_eq_left hj] at hprefix
  rw [net]
  omega

/-- Some prefix closes as many tags too many as the list does. It ends with the last closing tag
in excess. -/
theorem exists_closings_take_eq (ts : List Tag) :
    ∃ j ≤ ts.length, closings (ts.take j) = openings (ts.take j) + overrun ts := by
  induction ts with
  | nil => exact ⟨0, Nat.le_refl 0, rfl⟩
  | cons t ts ih =>
    obtain ⟨j, hj, hcount⟩ := ih
    cases t with
    | opening m =>
      by_cases hzero : overrun ts = 0
      · refine ⟨0, Nat.zero_le _, ?_⟩
        rw [overrun, hzero]
        rfl
      · refine ⟨j + 1, Nat.succ_le_succ hj, ?_⟩
        rw [List.take_succ_cons, closings_opening, openings_opening, overrun]
        omega
    | closing n =>
      refine ⟨j + 1, Nat.succ_le_succ hj, ?_⟩
      rw [List.take_succ_cons, closings_closing, openings_closing, overrun]
      omega

theorem exists_overrun_eq_neg_net (ts : List Tag) (k : ℕ) :
    ∃ j ≤ k, (overrun (ts.take k) : ℤ) = -net ts j := by
  obtain ⟨j, hj, hcount⟩ := exists_closings_take_eq (ts.take k)
  have hjk : j ≤ k := hj.trans (List.length_take_le k ts)
  rw [List.take_take, Nat.min_eq_left hjk] at hcount
  refine ⟨j, hjk, ?_⟩
  rw [net]
  omega

theorem isGreatest_overrun (ts : List Tag) (k : ℕ) :
    IsGreatest {d : ℤ | ∃ j ≤ k, d = -net ts j} (overrun (ts.take k)) := by
  refine ⟨exists_overrun_eq_neg_net ts k, ?_⟩
  rintro d ⟨j, hj, rfl⟩
  exact neg_net_le_overrun ts hj

theorem isGreatest_depth (ts : List Tag) (k : ℕ) :
    IsGreatest {d : ℤ | ∃ j ≤ k, d = net ts k - net ts j}
      (Checker.empty.after (ts.take k)).depth := by
  rw [depth_after_take]
  constructor
  · obtain ⟨j, hj, hleast⟩ := exists_overrun_eq_neg_net ts k
    exact ⟨j, hj, by omega⟩
  · rintro d ⟨j, hj, rfl⟩
    have hbound := neg_net_le_overrun ts hj
    omega

/-- The prefixes of the segment behind a tag are the segments that end before it does. -/
theorem overrun_segment_eq_zero_iff {ts : List Tag} {i k : ℕ} (hi : i < k) :
    overrun (Pairing.segment ts (i + 1) k) = 0 ↔ StaysOpen ts i k := by
  have htake : ∀ j, (Pairing.segment ts (i + 1) k).take j =
      Pairing.segment ts (i + 1) (min (i + 1 + j) k) := by
    intro j
    unfold Pairing.segment
    rw [List.take_drop, List.take_take]
  rw [← Nat.le_zero, overrun_le_iff]
  simp only [htake, Nat.zero_add]
  constructor
  · intro h m hm him
    have hsegment := h (m - (i + 1))
    rwa [Nat.add_sub_cancel' him, Nat.min_eq_left hm] at hsegment
  · intro h j
    exact h _ (Nat.min_le_right _ _) (by omega)

theorem keptName_drop_take (ts : List Tag) {i k : ℕ} (hi : i < k) :
    keptName ((ts.take k).drop i) = if StaysOpen ts i k then openingAt ts i else none := by
  have hopening : openingAt (ts.take k) i = openingAt ts i := by
    unfold openingAt
    rw [List.getElem?_take_of_lt hi]
  rw [keptName_drop_eq_ite, hopening]
  exact if_congr (overrun_segment_eq_zero_iff hi) rfl rfl

/-- Places behind the end of a list keep no name. -/
theorem reverse_leftOpen_of_length_le {ts : List Tag} {k : ℕ} (h : ts.length ≤ k) :
    (leftOpen ts).reverse = (List.range k).filterMap fun i => keptName (ts.drop i) := by
  obtain ⟨r, rfl⟩ := Nat.exists_eq_add_of_le h
  have hbehind : ((List.range r).map (ts.length + ·)).filterMap
      (fun i => keptName (ts.drop i)) = [] := by
    rw [List.filterMap_map, List.filterMap_eq_nil_iff]
    intro i _
    rw [Function.comp_apply, List.drop_eq_nil_of_le (Nat.le_add_right _ _)]
    rfl
  rw [List.range_add, List.filterMap_append, hbehind, List.append_nil, reverse_leftOpen]

theorem openTags_after_take (ts : List Tag) (k : ℕ) :
    (Checker.empty.after (ts.take k)).openTags = surviving ts k := by
  change (leftOpen (ts.take k)).reverse = _
  rw [reverse_leftOpen_of_length_le (List.length_take_le k ts), surviving]
  apply List.filterMap_congr
  intro i hi
  exact keptName_drop_take ts (List.mem_range.mp hi)

/-- After the first `k` tags the depth is the greatest rise of the net count up to there, the
closing tags reported in excess are as many as the count fell below zero, and the open tags
are those behind which the count never fell. -/
theorem isGreatest_depth_and_excess_and_openTags_eq (ts : List Tag) (k : ℕ) :
    IsGreatest {d : ℤ | ∃ j ≤ k, d = net ts k - net ts j}
        (Checker.empty.after (ts.take k)).depth ∧
      IsGreatest {d : ℤ | ∃ j ≤ k, d = -net ts j}
        ((Checker.empty.reports (ts.take k)).filterMap excessName).length ∧
      (Checker.empty.after (ts.take k)).openTags = surviving ts k := by
  refine ⟨isGreatest_depth ts k, ?_, openTags_after_take ts k⟩
  have hexcess := length_excessNames (ts.take k)
  rw [excessNames] at hexcess
  change IsGreatest _ (((Checker.reports ⟨[]⟩ (ts.take k)).filterMap excessName).length : ℤ)
  rw [hexcess]
  exact isGreatest_overrun ts k

/-- The closing tag in excess takes nothing from the tags behind it, and the other one takes the
innermost of them whatever its name. -/
example : surviving [.closing "td".toList, .opening "tr".toList, .opening "li".toList,
    .closing "td".toList] 4 = ["tr".toList] := by
  decide

end TagBalance.Nesting
