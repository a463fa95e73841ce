import TagBalance.Scan
import Mathlib.Data.List.Find
import Mathlib.Data.Nat.Init
import Mathlib.Tactic.Push

/-!
One step of the scanner, said without the scanner: which tags can start at a position, and
which of them wins. A run of the scanner is then an induction with three cases, the end of
the text, a character at which nothing starts, and a tag read as a whole.
-/
namespace TagBalance.Scan

/-- A listed name that starts here behind its delimiter, whether or not another tag starts
here too. -/
def IsCandidate (names : List Text) (rest : Text) (t : Tag) : Prop :=
  t.name ∈ names ∧ t.lexeme <+: rest

def IsFirst (p : Text → Prop) (names : List Text) (n : Text) : Prop :=
  ∃ before after, names = before ++ n :: after ∧ p n ∧ ∀ m ∈ before, ¬ p m

/-- The candidate that wins. Any closing tag wins over all opening ones, and among tags of
one kind the order of the list decides. -/
def IsPreferred (names : List Text) (rest : Text) : Tag → Prop
  | .closing n => IsFirst (fun m => (Tag.closing m).lexeme <+: rest) names n
  | .opening n =>
      (∀ m ∈ names, ¬ (Tag.closing m).lexeme <+: rest) ∧
        IsFirst (fun m => (Tag.opening m).lexeme <+: rest) names n

namespace IsFirst

variable {p : Text → Prop} {names : List Text} {n : Text}

theorem mem (h : IsFirst p names n) : n ∈ names := by
  obtain ⟨before, after, rfl, -⟩ := h
  simp

theorem holds (h : IsFirst p names n) : p n := by
  obtain ⟨_, _, _, hn, _⟩ := h
  exact hn

end IsFirst

theorem exists_isFirst {p : Text → Prop} {names : List Text} {n : Text}
    (hmem : n ∈ names) (hn : p n) : ∃ m, IsFirst p names m := by
  induction names with
  | nil => simp at hmem
  | cons a rest ih =>
    by_cases ha : p a
    · exact ⟨a, [], rest, rfl, ha, by simp⟩
    · have hrest : n ∈ rest := by
        rcases List.mem_cons.mp hmem with rfl | h
        · exact absurd hn ha
        · exact h
      obtain ⟨m, before, after, heq, hm, hbefore⟩ := ih hrest
      refine ⟨m, a :: before, after, by rw [heq, List.cons_append], hm, ?_⟩
      intro b hb
      rcases List.mem_cons.mp hb with rfl | hb
      · exact ha
      · exact hbefore b hb

theorem firstName_eq_some_iff {names : List Text} {text n : Text} :
    firstName names text = some n ↔ IsFirst (fun m => m <+: text) names n := by
  unfold firstName
  rw [List.find?_eq_some_iff_append]
  simp only [List.isPrefixOf_iff_prefix, Bool.not_eq_true', Bool.eq_false_iff, ne_eq]
  constructor
  · intro h
    obtain ⟨hn, before, after, hnames, hbefore⟩ := h
    exact ⟨before, after, hnames, hn, hbefore⟩
  · intro h
    obtain ⟨before, after, hnames, hn, hbefore⟩ := h
    exact ⟨hn, before, after, hnames, hbefore⟩

theorem firstName_eq_none_iff {names : List Text} {text : Text} :
    firstName names text = none ↔ ∀ n ∈ names, ¬ n <+: text := by
  simp [firstName]

/-- Cutting the text behind the first name that fits leaves the choice as it is. -/
theorem firstName_between {names : List Text} {text u n : Text}
    (h : firstName names text = some n) (hn : n <+: u) (hu : u <+: text) :
    firstName names u = some n := by
  obtain ⟨before, after, hnames, -, hbefore⟩ := firstName_eq_some_iff.mp h
  rw [firstName_eq_some_iff]
  refine ⟨before, after, hnames, hn, ?_⟩
  intro m hm hmu
  exact hbefore m hm (hmu.trans hu)

theorem prefix_append_cons_iff {n x rest : Text} {c : Char} (hc : c ∉ n) :
    n <+: x ++ c :: rest ↔ n <+: x := by
  constructor
  · intro h
    by_cases hlen : n.length ≤ x.length
    · exact List.prefix_of_prefix_length_le h (List.prefix_append x _) hlen
    · have hlength : (x ++ [c]).length ≤ n.length := by
        simp only [List.length_append, List.length_singleton]
        omega
      have hlong : x ++ [c] <+: n :=
        List.prefix_of_prefix_length_le ⟨rest, by simp⟩ h hlength
      exact absurd (hlong.subset (by simp)) hc
  · exact fun h => h.trans (List.prefix_append x _)

/-- A character that is in no name ends the text that names are compared with. -/
theorem firstName_append_cons {names : List Text} {c : Char} (hc : ∀ n ∈ names, c ∉ n)
    (x rest : Text) : firstName names (x ++ c :: rest) = firstName names x := by
  apply List.find?_congr
  intro n hn
  rw [Bool.eq_iff_iff, List.isPrefixOf_iff_prefix, List.isPrefixOf_iff_prefix]
  exact prefix_append_cons_iff (hc n hn)

theorem opening_prefix_cons {n rest : Text} {c : Char} :
    (Tag.opening n).lexeme <+: c :: rest ↔ c = '<' ∧ n <+: rest := by
  rw [Tag.lexeme, List.cons_prefix_cons, eq_comm]

theorem closing_prefix_cons {n rest : Text} {c : Char} :
    (Tag.closing n).lexeme <+: c :: rest ↔ c = '<' ∧ '/' :: n <+: rest := by
  rw [Tag.lexeme, List.cons_prefix_cons, eq_comm]

theorem isPreferred_closing_iff {names : List Text} {rest n : Text} :
    IsPreferred names ('<' :: '/' :: rest) (.closing n) ↔ firstName names rest = some n := by
  rw [firstName_eq_some_iff]
  simp only [IsPreferred, closing_prefix_cons, List.cons_prefix_cons, true_and]

theorem isPreferred_opening_iff {names : List Text} {rest n : Text} :
    IsPreferred names ('<' :: rest) (.opening n) ↔
      (∀ m ∈ names, ¬ '/' :: m <+: rest) ∧ firstName names rest = some n := by
  rw [firstName_eq_some_iff]
  simp only [IsPreferred, opening_prefix_cons, closing_prefix_cons, true_and]

theorem IsPreferred.isCandidate {names : List Text} {rest : Text} {t : Tag}
    (h : IsPreferred names rest t) : IsCandidate names rest t := by
  cases t with
  | opening n => exact ⟨h.2.mem, h.2.holds⟩
  | closing n =>
    have hfirst : IsFirst (fun m => (Tag.closing m).lexeme <+: rest) names n := h
    exact ⟨hfirst.mem, hfirst.holds⟩

theorem exists_isPreferred {names : List Text} {rest : Text} {t : Tag}
    (h : IsCandidate names rest t) : ∃ u, IsPreferred names rest u := by
  by_cases hclosing : ∃ m ∈ names, (Tag.closing m).lexeme <+: rest
  · obtain ⟨m, hmem, hm⟩ := hclosing
    obtain ⟨n, hn⟩ :=
      exists_isFirst (p := fun m => (Tag.closing m).lexeme <+: rest) hmem hm
    exact ⟨.closing n, hn⟩
  · push Not at hclosing
    cases t with
    | closing n => exact absurd h.2 (hclosing n h.1)
    | opening n =>
      obtain ⟨m, hm⟩ :=
        exists_isFirst (p := fun m => (Tag.opening m).lexeme <+: rest) h.1 h.2
      exact ⟨.opening m, hclosing, hm⟩

/-- The scanner's choice at a position is the preferred candidate. -/
theorem candidate_eq_some_iff {names : List Text} {rest : Text} {t : Tag} :
    candidate names rest = some t ↔ IsPreferred names rest t := by
  fun_cases candidate names rest with
  | case1 rest n hn =>
    cases t with
    | opening m =>
      have hfirst := firstName_eq_some_iff.mp hn
      have hblocked : ¬ ∀ m ∈ names, ¬ m <+: rest := fun h => h n hfirst.mem hfirst.holds
      simp [isPreferred_opening_iff, hblocked]
    | closing m => simp [isPreferred_closing_iff, hn]
  | case2 rest hn =>
    cases t with
    | opening m =>
      simpa [isPreferred_opening_iff] using fun _ => firstName_eq_none_iff.mp hn
    | closing m => simp [isPreferred_closing_iff, hn]
  | case3 rest hslash =>
    have hno : ∀ m, ¬ '/' :: m <+: rest := by
      rintro m ⟨r, rfl⟩
      exact hslash _ rfl
    cases t with
    | opening m => simp [isPreferred_opening_iff, hno]
    | closing m =>
      have hno' : ¬ IsPreferred names ('<' :: rest) (.closing m) := fun h =>
        hno m (closing_prefix_cons.mp h.isCandidate.2).2
      simp [hno']
  | case4 rest hslash hlt =>
    have hno : ¬ IsPreferred names rest t := by
      intro h
      obtain ⟨r, hr⟩ := h.isCandidate.2
      cases t <;> exact hlt _ hr.symm
    simp [hno]

theorem candidate_eq_none_iff {names : List Text} {rest : Text} :
    candidate names rest = none ↔ ∀ t, ¬ IsCandidate names rest t := by
  constructor
  · intro hnone t ht
    obtain ⟨u, hu⟩ := exists_isPreferred ht
    rw [candidate_eq_some_iff.mpr hu] at hnone
    simp at hnone
  · intro hno
    rw [Option.eq_none_iff_forall_ne_some]
    intro t ht
    exact hno t (candidate_eq_some_iff.mp ht).isCandidate

theorem lexeme_prefix_of_candidate {names : List Text} {rest : Text} {t : Tag}
    (h : candidate names rest = some t) : t.lexeme <+: rest :=
  (candidate_eq_some_iff.mp h).isCandidate.2

theorem candidate_closing_iff {names : List Text} {n rest : Text} :
    candidate names ((Tag.closing n).lexeme ++ rest) = some (.closing n) ↔
      firstName names (n ++ rest) = some n := by
  rw [candidate_eq_some_iff, Tag.lexeme, List.cons_append, List.cons_append,
    isPreferred_closing_iff]

theorem candidate_opening_iff {names : List Text} {n rest : Text} :
    candidate names ((Tag.opening n).lexeme ++ rest) = some (.opening n) ↔
      (∀ m ∈ names, ¬ '/' :: m <+: n ++ rest) ∧ firstName names (n ++ rest) = some n := by
  rw [candidate_eq_some_iff, Tag.lexeme, List.cons_append, isPreferred_opening_iff]

theorem candidate_of_ne_lt {names : List Text} {c : Char} {rest : Text} (hc : c ≠ '<') :
    candidate names (c :: rest) = none := by
  rw [candidate_eq_none_iff]
  intro t ht
  cases t with
  | opening n => exact hc (opening_prefix_cons.mp ht.2).1
  | closing n => exact hc (closing_prefix_cons.mp ht.2).1

theorem candidate_of_head?_ne_slash {names : List Text} {rest : Text}
    (h : rest.head? ≠ some '/') :
    candidate names ('<' :: rest) = (firstName names rest).map .opening := by
  unfold candidate
  split <;> simp_all

/-- Where no name starts with a slash, the slash behind a less-than sign is no part of one. -/
theorem candidate_slash {names : List Text} (hslash : ∀ n ∈ names, n.head? ≠ some '/')
    (rest : Text) :
    candidate names ('<' :: '/' :: rest) = (firstName names rest).map .closing := by
  cases hfirst : firstName names rest with
  | some n => simp [candidate, hfirst]
  | none =>
    have hnone : firstName names ('/' :: rest) = none := by
      rw [firstName_eq_none_iff] at hfirst ⊢
      intro n hn hprefix
      rcases List.prefix_cons_iff.mp hprefix with rfl | ⟨tail, rfl, -⟩
      · exact hfirst [] hn List.nil_prefix
      · exact hslash _ hn rfl
    simp [candidate, hfirst, hnone]

theorem tagsFrom_skip {names : List Text} {c : Char} {rest : Text}
    (h : candidate names (c :: rest) = none) :
    tagsFrom names 0 (c :: rest) = tagsFrom names 0 rest := by
  simp only [tagsFrom, h]

theorem tagsFrom_hit {names : List Text} {t : Tag} {rest : Text}
    (h : candidate names (t.lexeme ++ rest) = some t) :
    tagsFrom names 0 (t.lexeme ++ rest) = t :: tagsFrom names 0 rest := by
  obtain ⟨c, cs, hcs⟩ := List.exists_cons_of_length_pos t.length_lexeme_pos
  rw [hcs, List.cons_append] at h ⊢
  simp only [tagsFrom, h, hcs]
  rw [tagsFrom_eq_drop, List.length_cons, Nat.add_sub_cancel, List.drop_left]

/-- Text without a less-than sign holds no tag, and the scan goes on behind it. -/
theorem tagsFrom_append_of_notMem {names : List Text} {gap : Text} (hgap : '<' ∉ gap)
    (rest : Text) : tagsFrom names 0 (gap ++ rest) = tagsFrom names 0 rest := by
  induction gap with
  | nil => rfl
  | cons c gap ih =>
    rw [List.mem_cons, not_or] at hgap
    rw [List.cons_append, tagsFrom_skip (candidate_of_ne_lt (Ne.symm hgap.1)), ih hgap.2]

/-- Where a delimiter is followed by a gap without a less-than sign, and the lexeme read
there ends inside the gap, the scan goes on behind the gap. -/
theorem tagsFrom_delimited {names : List Text} {gap rest : Text} (hgap : '<' ∉ gap)
    (hend : ∀ t, candidate names ('<' :: (gap ++ rest)) = some t → t.lexeme <+: '<' :: gap) :
    tagsFrom names 0 ('<' :: (gap ++ rest)) =
      (candidate names ('<' :: (gap ++ rest))).toList ++ tagsFrom names 0 rest := by
  cases hcand : candidate names ('<' :: (gap ++ rest)) with
  | none =>
    rw [tagsFrom_skip hcand, tagsFrom_append_of_notMem hgap, Option.toList_none,
      List.nil_append]
  | some t =>
    obtain ⟨tail, htail⟩ := hend t hcand
    have htailGap : '<' ∉ tail := by
      obtain ⟨c, cs, hcs⟩ := List.exists_cons_of_length_pos t.length_lexeme_pos
      rw [hcs, List.cons_append] at htail
      rw [← (List.cons.inj htail).2] at hgap
      exact fun h => hgap (List.mem_append_right cs h)
    rw [← List.cons_append, ← htail, List.append_assoc] at hcand ⊢
    rw [tagsFrom_hit hcand, tagsFrom_append_of_notMem htailGap, Option.toList_some,
      List.singleton_append]

/-- The three ways in which a scan goes on. -/
@[elab_as_elim]
theorem scan_induction (names : List Text) {motive : Text → Prop} (s : Text)
    (nil : motive [])
    (skip : ∀ c rest, candidate names (c :: rest) = none → motive rest → motive (c :: rest))
    (hit : ∀ t rest, candidate names (t.lexeme ++ rest) = some t → motive rest →
      motive (t.lexeme ++ rest)) : motive s := by
  induction hlen : s.length using Nat.strong_induction_on generalizing s with
  | h len ih =>
    subst hlen
    cases s with
    | nil => exact nil
    | cons c rest =>
      cases hc : candidate names (c :: rest) with
      | none => exact skip c rest hc (ih rest.length (by simp) rest rfl)
      | some t =>
        obtain ⟨tail, htail⟩ := lexeme_prefix_of_candidate hc
        rw [← htail] at hc ih ⊢
        have hpos := t.length_lexeme_pos
        exact hit t tail hc (ih tail.length (by rw [List.length_append]; omega) tail rfl)

/-- Every tag of a scan is the candidate at some position of the text. -/
theorem exists_suffix_of_mem_tagsFrom {names : List Text} {s : Text} {t : Tag}
    (h : t ∈ tagsFrom names 0 s) : ∃ u, u <:+ s ∧ candidate names u = some t := by
  induction s using scan_induction names with
  | nil => simp [tagsFrom] at h
  | skip c rest hc ih =>
    rw [tagsFrom_skip hc] at h
    obtain ⟨u, hu, hcand⟩ := ih h
    exact ⟨u, hu.trans (List.suffix_cons c rest), hcand⟩
  | hit v rest hv ih =>
    rw [tagsFrom_hit hv] at h
    rcases List.mem_cons.mp h with rfl | hrest
    · exact ⟨t.lexeme ++ rest, List.suffix_refl _, hv⟩
    · obtain ⟨u, hu, hcand⟩ := ih hrest
      exact ⟨u, hu.trans (List.suffix_append v.lexeme rest), hcand⟩

end TagBalance.Scan
