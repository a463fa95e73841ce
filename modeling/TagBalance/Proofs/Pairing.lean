import TagBalance.Proofs.Nesting
import Mathlib.Logic.ExistsUnique

/-!
The reports of a check, told by positions and without a stack. A closing tag belongs to the
opening tag from which it is separated by a blind-balanced list; each has at most one
partner. What is reported depends only on who has a partner and on the two names.
-/
namespace TagBalance.Pairing

open Nesting

/-- The tags at the positions from `i` up to `j`, without `j`. -/
def segment (ts : List Tag) (i j : ℕ) : List Tag := (ts.take j).drop i

def openingAt (ts : List Tag) (i : ℕ) : Option Text :=
  match ts[i]? with
  | some (.opening m) => some m
  | _ => none

def closingAt (ts : List Tag) (j : ℕ) : Option Text :=
  match ts[j]? with
  | some (.closing n) => some n
  | _ => none

/-- The opening tag at `i` and the closing tag at `j` enclose a blind-balanced list. -/
def Pairs (ts : List Tag) (i j : ℕ) : Prop :=
  i < j ∧ (openingAt ts i).isSome ∧ (closingAt ts j).isSome ∧
    BlindBalanced (segment ts (i + 1) j)

instance (ts : List Tag) (i j : ℕ) : Decidable (Pairs ts i j) :=
  inferInstanceAs (Decidable (_ ∧ _))

def partnerName (ts : List Tag) (j : ℕ) : Option Text :=
  (List.range j).findSome? fun i => if Pairs ts i j then openingAt ts i else none

/-- What is reported at a position. A closing tag without a partner is in excess, and one
with a partner of another name is a mismatch. -/
def reportAt (ts : List Tag) (j : ℕ) : Option Diagnostic :=
  match closingAt ts j, partnerName ts j with
  | none, _ => none
  | some n, none => some (.excessClosing n)
  | some n, some m => if m = n then none else some (.mismatch m n)

def unpaired (ts : List Tag) : List Text :=
  (List.range ts.length).filterMap fun i =>
    if ∃ j < ts.length, Pairs ts i j then none else openingAt ts i

def finalReport (ts : List Tag) : Option Diagnostic :=
  if unpaired ts = [] then none else some (.unclosed (unpaired ts))

theorem openingAt_eq_some_iff {ts : List Tag} {i : ℕ} {m : Text} :
    openingAt ts i = some m ↔ ts[i]? = some (.opening m) := by
  unfold openingAt
  split <;> simp_all

theorem closingAt_eq_some_iff {ts : List Tag} {j : ℕ} {n : Text} :
    closingAt ts j = some n ↔ ts[j]? = some (.closing n) := by
  unfold closingAt
  split <;> simp_all

theorem openingAt_length (before : List Tag) (m : Text) (rest : List Tag) :
    openingAt (before ++ .opening m :: rest) before.length = some m := by
  simp [openingAt]

theorem closingAt_length (before : List Tag) (n : Text) (rest : List Tag) :
    closingAt (before ++ .closing n :: rest) before.length = some n := by
  simp [closingAt]

theorem exists_split_of_getElem? {ts : List Tag} {i : ℕ} {t : Tag} (h : ts[i]? = some t) :
    ts = ts.take i ++ t :: ts.drop (i + 1) ∧ (ts.take i).length = i := by
  obtain ⟨hi, rfl⟩ := List.getElem?_eq_some_iff.mp h
  constructor
  · rw [← List.drop_eq_getElem_cons hi, List.take_append_drop]
  · rw [List.length_take, Nat.min_eq_left (Nat.le_of_lt hi)]

/-- A pair cuts the list in three, with a blind-balanced list in the middle. -/
theorem pairs_iff {ts : List Tag} {i j : ℕ} :
    Pairs ts i j ↔ ∃ before m w n rest, ts = before ++ .opening m :: w ++ .closing n :: rest ∧
      BlindBalanced w ∧ before.length = i ∧ (before ++ .opening m :: w).length = j := by
  constructor
  · intro h
    obtain ⟨hij, hopening, hclosing, hw⟩ := h
    obtain ⟨m, hm⟩ := Option.isSome_iff_exists.mp hopening
    obtain ⟨n, hn⟩ := Option.isSome_iff_exists.mp hclosing
    obtain ⟨hsplit, hj⟩ := exists_split_of_getElem? (closingAt_eq_some_iff.mp hn)
    have hm' : (ts.take j)[i]? = some (.opening m) := by
      rw [List.getElem?_take_of_lt hij]
      exact openingAt_eq_some_iff.mp hm
    obtain ⟨hbefore, hi⟩ := exists_split_of_getElem? hm'
    refine ⟨(ts.take j).take i, m, segment ts (i + 1) j, n, ts.drop (j + 1), ?_, hw, hi, ?_⟩
    · rw [segment, ← hbefore]
      exact hsplit
    · rw [segment, ← hbefore]
      exact hj
  · intro h
    obtain ⟨before, m, w, n, rest, rfl, hw, rfl, rfl⟩ := h
    refine ⟨by simp, ?_, ?_, ?_⟩
    · rw [List.append_assoc, List.cons_append, openingAt_length]
      rfl
    · rw [closingAt_length]
      rfl
    · rw [segment, List.take_left, List.drop_append, List.drop_eq_nil_of_le (Nat.le_succ _)]
      simpa using hw

theorem length_le_of_append_opening_eq {a b v w : List Tag} {m n : Text}
    (h : a ++ .opening m :: v = b ++ .opening n :: w) (hv : BlindBalanced v)
    (hw : BlindBalanced w) : b.length ≤ a.length := by
  rcases List.append_eq_append_iff.mp h with ⟨mid, rfl, hmid⟩ | ⟨mid, rfl, hmid⟩
  · cases mid with
    | nil => simp
    | cons t mid =>
      obtain rfl : v = mid ++ .opening n :: w := (List.cons.inj hmid).2
      have hopen := leftOpen_append_opening mid n hw
      rw [(blindBalanced_iff.mp hv).2] at hopen
      simp at hopen
  · simp

/-- A closing tag has at most one partner. -/
theorem pairs_unique {ts : List Tag} {i k j : ℕ} (hi : Pairs ts i j) (hk : Pairs ts k j) :
    i = k := by
  obtain ⟨a, m, v, n, rest, hts, hv, rfl, hj⟩ := pairs_iff.mp hi
  obtain ⟨b, m', w, n', rest', hts', hw, rfl, hj'⟩ := pairs_iff.mp hk
  have hprefix : a ++ .opening m :: v = b ++ .opening m' :: w :=
    (List.append_inj (hts.symm.trans hts') (hj.trans hj'.symm)).1
  exact Nat.le_antisymm (length_le_of_append_opening_eq hprefix.symm hw hv)
    (length_le_of_append_opening_eq hprefix hv hw)

theorem partnerName_eq_some_iff {ts : List Tag} {j : ℕ} {m : Text} :
    partnerName ts j = some m ↔ ∃ i, Pairs ts i j ∧ openingAt ts i = some m := by
  have hsound : ∀ m, partnerName ts j = some m → ∃ i, Pairs ts i j ∧ openingAt ts i = some m := by
    intro m hm
    obtain ⟨i, -, hi⟩ := List.exists_of_findSome?_eq_some hm
    split at hi
    · exact ⟨i, ‹_›, hi⟩
    · simp at hi
  constructor
  · exact hsound m
  · intro h
    obtain ⟨i, hpair, hi⟩ := h
    cases hname : partnerName ts j with
    | none =>
      have hno := List.findSome?_eq_none_iff.mp hname i (List.mem_range.mpr hpair.1)
      rw [if_pos hpair, hi] at hno
      simp at hno
    | some k =>
      obtain ⟨i', hpair', hi'⟩ := hsound k hname
      rw [pairs_unique hpair' hpair, hi] at hi'
      exact hi'.symm

/-- The partner of a closing tag is the innermost tag that is open before it. -/
theorem partnerName_length (before : List Tag) (n : Text) (rest : List Tag) :
    partnerName (before ++ .closing n :: rest) before.length = (leftOpen before).head? := by
  apply Option.ext
  intro m
  rw [partnerName_eq_some_iff, head?_leftOpen_eq_some_iff]
  constructor
  · intro h
    obtain ⟨i, hpair, hi⟩ := h
    obtain ⟨a, m', w, n', rest', hts, hw, rfl, hj⟩ := pairs_iff.mp hpair
    have hbefore : before = a ++ .opening m' :: w := (List.append_inj hts hj.symm).1
    rw [hts, List.append_assoc, List.cons_append, openingAt_length] at hi
    exact ⟨a, w, by rw [hbefore, Option.some.inj hi], hw⟩
  · intro h
    obtain ⟨a, w, rfl, hw⟩ := h
    refine ⟨a.length, pairs_iff.mpr ⟨a, m, w, n, rest, rfl, hw, rfl, rfl⟩, ?_⟩
    rw [List.append_assoc, List.cons_append, openingAt_length]

/-- The report at a position is the one that the checker makes on the tag there. -/
theorem reportAt_length (before : List Tag) (t : Tag) (rest : List Tag) :
    reportAt (before ++ t :: rest) before.length = ((Checker.empty.after before).push t).2 := by
  cases t with
  | opening m => simp [reportAt, closingAt, Checker.push]
  | closing n =>
    rw [reportAt, closingAt_length, partnerName_length]
    change _ = ((Checker.mk (leftOpen before)).push (.closing n)).2
    cases leftOpen before <;> rfl

theorem reports_after_eq (before ts : List Tag) :
    (Checker.empty.after before).reports ts =
      (List.range' before.length ts.length).filterMap (reportAt (before ++ ts)) := by
  induction ts generalizing before with
  | nil => rfl
  | cons t ts ih =>
    have hrest := ih (before ++ [t])
    simp only [Checker.after_append, Checker.after, List.append_assoc, List.singleton_append,
      List.length_append, List.length_singleton] at hrest
    rw [Checker.reports, hrest, List.length_cons, List.range'_succ, List.filterMap_cons,
      reportAt_length]
    cases ((Checker.empty.after before).push t).2 <;> rfl

/-- The name of the first tag of a list, if it is an opening tag that the rest of the list
does not close. -/
def keptName : List Tag → Option Text
  | [] => none
  | .opening m :: ts => if overrun ts = 0 then some m else none
  | .closing _ :: _ => none

theorem reverse_leftOpen (ts : List Tag) :
    (leftOpen ts).reverse = (List.range ts.length).filterMap fun i => keptName (ts.drop i) := by
  induction ts with
  | nil => rfl
  | cons t ts ih =>
    rw [List.length_cons, List.range_succ_eq_map, List.filterMap_cons, List.filterMap_map,
      List.drop_zero]
    simp only [Function.comp_def, Nat.succ_eq_add_one, List.drop_succ_cons, ← ih]
    cases t with
    | opening m =>
      rw [leftOpen_opening, List.reverse_append, keptName]
      cases overrun ts <;> simp
    | closing n => rw [leftOpen_closing, keptName]

/-- An opening tag is closed if and only if it has a partner. -/
theorem overrun_ne_zero_iff_exists_pairs (before : List Tag) (m : Text) (ts : List Tag) :
    overrun ts ≠ 0 ↔ ∃ j, Pairs (before ++ .opening m :: ts) before.length j := by
  rw [overrun_ne_zero_iff]
  constructor
  · intro h
    obtain ⟨w, n, rest, rfl, hw⟩ := h
    exact ⟨_, pairs_iff.mpr ⟨before, m, w, n, rest, by simp, hw, rfl, rfl⟩⟩
  · intro h
    obtain ⟨j, hj⟩ := h
    obtain ⟨a, m', w, n, rest, hts, hw, ha, -⟩ := pairs_iff.mp hj
    rw [List.append_assoc] at hts
    have htail := (List.append_inj hts ha.symm).2
    exact ⟨w, n, rest, (List.cons.inj htail).2, hw⟩

theorem lt_length_of_pairs {ts : List Tag} {i j : ℕ} (h : Pairs ts i j) : j < ts.length := by
  obtain ⟨n, hn⟩ := Option.isSome_iff_exists.mp h.2.2.1
  exact (List.getElem?_eq_some_iff.mp (closingAt_eq_some_iff.mp hn)).1

theorem keptName_drop_eq_ite (ts : List Tag) (i : ℕ) :
    keptName (ts.drop i) =
      if overrun (ts.drop (i + 1)) = 0 then openingAt ts i else none := by
  have hhead : (ts.drop i).head? = ts[i]? := List.head?_drop
  have htail : (ts.drop i).tail = ts.drop (i + 1) := List.tail_drop
  cases hdrop : ts.drop i with
  | nil =>
    rw [hdrop] at hhead
    simp [keptName, openingAt, ← hhead]
  | cons t rest =>
    rw [hdrop, List.head?_cons] at hhead
    rw [hdrop, List.tail_cons] at htail
    cases t with
    | closing n => simp [keptName, openingAt, ← hhead]
    | opening m => rw [keptName, openingAt_eq_some_iff.mpr hhead.symm, htail]

theorem keptName_drop (ts : List Tag) (i : ℕ) :
    keptName (ts.drop i) = if ∃ j < ts.length, Pairs ts i j then none else openingAt ts i := by
  rw [keptName_drop_eq_ite]
  cases hopening : openingAt ts i with
  | none => rw [ite_self, ite_self]
  | some m =>
    obtain ⟨hsplit, hlength⟩ := exists_split_of_getElem? (openingAt_eq_some_iff.mp hopening)
    have hpairs := overrun_ne_zero_iff_exists_pairs (ts.take i) m (ts.drop (i + 1))
    rw [← hsplit, hlength] at hpairs
    by_cases hzero : overrun (ts.drop (i + 1)) = 0
    · rw [if_pos hzero, if_neg]
      rintro ⟨j, -, hj⟩
      exact hpairs.mpr ⟨j, hj⟩ hzero
    · obtain ⟨j, hj⟩ := hpairs.mp hzero
      rw [if_neg hzero, if_pos ⟨j, lt_length_of_pairs hj, hj⟩]

theorem finish_eq_finalReport (ts : List Tag) :
    (Checker.empty.after ts).finish = finalReport ts := by
  have hopen : (Checker.empty.after ts).openTags = unpaired ts := by
    rw [Checker.openTags, ← leftOpen, reverse_leftOpen, unpaired]
    simp only [keptName_drop]
  rw [Checker.finish, finalReport, ← hopen, Checker.openTags]
  simp only [List.reverse_eq_nil_iff]

/-- Every closing tag has one partner or none, and the reports follow from that. First come
the reports on closing tags, in their order, and then the list of the opening tags that
have no partner. -/
theorem diagnostics_eq_pairing (ts : List Tag) :
    (∀ j, (∀ i, ¬ Pairs ts i j) ∨ ∃! i, Pairs ts i j) ∧
      diagnostics ts =
        (List.range ts.length).filterMap (reportAt ts) ++ (finalReport ts).toList := by
  constructor
  · intro j
    by_cases h : ∃ i, Pairs ts i j
    · obtain ⟨i, hi⟩ := h
      exact Or.inr ⟨i, hi, fun k hk => pairs_unique hk hi⟩
    · exact Or.inl (not_exists.mp h)
  · rw [diagnostics, finish_eq_finalReport, List.range_eq_range']
    exact congrArg (· ++ (finalReport ts).toList) (reports_after_eq [] ts)

end TagBalance.Pairing
