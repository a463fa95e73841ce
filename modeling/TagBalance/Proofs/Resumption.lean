import TagBalance.Proofs.Decomposition

/-!
A scan that stops behind one of its tags and goes on from there. The text up to the end of a
tag is cut like the whole text: what stands behind that end can only add candidates, and none
of them was picked before it. The rest of the text is cut like the whole text too, as the scan
comes back to no position that it has passed.
-/
namespace TagBalance

namespace Scan

variable {names : List Text} {t : Tag} {u rest : Text}

theorem IsCandidate.of_prefix (h : IsCandidate names u t) (hu : u <+: rest) :
    IsCandidate names rest t :=
  ⟨h.1, h.2.trans hu⟩

/-- The text may be cut off behind the tag that wins: no candidate is lost but others. -/
theorem IsPreferred.of_prefix (h : IsPreferred names rest t) (hu : u <+: rest)
    (ht : t.lexeme <+: u) : IsPreferred names u t := by
  cases t with
  | closing n =>
    obtain ⟨before, after, hnames, -, hbefore⟩ := h
    refine ⟨before, after, hnames, ht, ?_⟩
    intro m hm hmu
    exact hbefore m hm (hmu.trans hu)
  | opening n =>
    obtain ⟨hclosing, before, after, hnames, -, hbefore⟩ := h
    refine ⟨?_, before, after, hnames, ht, ?_⟩
    · intro m hm hmu
      exact hclosing m hm (hmu.trans hu)
    · intro m hm hmu
      exact hbefore m hm (hmu.trans hu)

end Scan

namespace Cut

open Scan

/-- The part of a cut that ends with its tag of the given number, or all of it if there are
fewer tags. -/
def upTo : Nat → Cut → Cut
  | 0, _ => last []
  | _ + 1, last gap => last gap
  | k + 1, tag gap t rest => tag gap t (upTo k rest)

def behind : Nat → Cut → Cut
  | 0, d => d
  | _ + 1, last _ => last []
  | k + 1, tag _ _ rest => behind k rest

/-- The position at which the tag of the given number ends, counted from the start of the
text. -/
def endOf (d : Cut) (k : Nat) : Nat := (d.upTo k).text.length

variable {names : List Text} {d : Cut}

theorem text_upTo_append_text_behind (k : Nat) (d : Cut) :
    (d.upTo k).text ++ (d.behind k).text = d.text := by
  induction k generalizing d with
  | zero => rfl
  | succ k ih =>
    cases d with
    | last gap => exact List.append_nil gap
    | tag gap t rest =>
      simp only [upTo, behind, text, List.append_assoc]
      rw [ih]

theorem tags_upTo (k : Nat) (d : Cut) : (d.upTo k).tags = d.tags.take k := by
  induction k generalizing d with
  | zero => rfl
  | succ k ih =>
    cases d with
    | last gap => rfl
    | tag gap t rest => exact congrArg (t :: ·) (ih rest)

theorem tags_behind (k : Nat) (d : Cut) : (d.behind k).tags = d.tags.drop k := by
  induction k generalizing d with
  | zero => rfl
  | succ k ih =>
    cases d with
    | last gap => rfl
    | tag gap t rest => exact ih rest

theorem text_upTo_prefix_text (k : Nat) (d : Cut) : (d.upTo k).text <+: d.text :=
  ⟨_, text_upTo_append_text_behind k d⟩

theorem IsClear.of_prefix {gap u rest : Text} (h : IsClear names gap rest) (hu : u <+: rest) :
    IsClear names gap u := by
  intro i hi t ht
  apply h i hi t
  rw [List.drop_append_of_le_length hi.le] at ht ⊢
  exact ht.of_prefix ((List.prefix_append_right_inj (gap.drop i)).mpr hu)

theorem Fits.upTo (h : d.Fits names) (k : Nat) : (d.upTo k).Fits names := by
  induction k generalizing d with
  | zero => exact isClear_nil []
  | succ k ih =>
    cases d with
    | last gap => exact h
    | tag gap t rest =>
      obtain ⟨hgap, ht, hrest⟩ := h
      have hprefix : t.lexeme ++ (rest.upTo k).text <+: t.lexeme ++ rest.text :=
        (List.prefix_append_right_inj t.lexeme).mpr (text_upTo_prefix_text k rest)
      exact ⟨hgap.of_prefix hprefix, ht.of_prefix hprefix (List.prefix_append _ _), ih hrest⟩

theorem Fits.behind (h : d.Fits names) (k : Nat) : (d.behind k).Fits names := by
  induction k generalizing d with
  | zero => exact h
  | succ k ih =>
    cases d with
    | last gap => exact isClear_nil []
    | tag gap t rest => exact ih h.2.2

/-- A fitting cut has the tags that the scanner finds in its text. -/
theorem Fits.tagsFrom_text (h : d.Fits names) : tagsFrom names 0 d.text = d.tags := by
  obtain ⟨e, htext, hfits, htags⟩ := exists_fits names d.text
  rw [← htags, fits_unique hfits h htext rfl]

theorem take_endOf (d : Cut) (k : Nat) : d.text.take (d.endOf k) = (d.upTo k).text := by
  rw [← text_upTo_append_text_behind k d]
  exact List.take_left

theorem drop_endOf (d : Cut) (k : Nat) : d.text.drop (d.endOf k) = (d.behind k).text := by
  rw [← text_upTo_append_text_behind k d]
  exact List.drop_left

/-- A source has exactly one fitting cut, and where one of its tags ends the source can be
divided: the first part has the tags up to there, and the second part has all others. -/
theorem tags_take_endOf_and_tags_drop_endOf (l : AllowList) (s : Text) :
    (∃! d : Cut, d.text = s ∧ d.Fits l.names) ∧
      ∀ d : Cut, d.text = s → d.Fits l.names →
        d.tags = l.tags s ∧
          ∀ k, l.tags (s.take (d.endOf k)) = (l.tags s).take k ∧
            l.tags (s.drop (d.endOf k)) = (l.tags s).drop k := by
  obtain ⟨d, htext, hfits, -⟩ := exists_fits l.names s
  refine ⟨⟨d, ⟨htext, hfits⟩, fun e he => fits_unique he.2 hfits he.1 htext⟩, ?_⟩
  rintro e rfl he
  have htags : l.tags e.text = e.tags := he.tagsFrom_text
  refine ⟨htags.symm, fun k => ⟨?_, ?_⟩⟩
  · rw [take_endOf, htags, ← tags_upTo]
    exact (he.upTo k).tagsFrom_text
  · rw [drop_endOf, htags, ← tags_behind]
    exact (he.behind k).tagsFrom_text

def nested : AllowList :=
  ⟨["a<b".toList, "/b".toList, "b".toList, "a".toList], by decide, by decide⟩

def nestedCut : Cut :=
  tag [] (.opening "a<b".toList) (tag ['x'] (.closing "b".toList) (last ['<']))

theorem tags_nested_in_two_parts :
    nestedCut.text = "<a<bx</b<".toList ∧ nestedCut.Fits nested.names ∧
      nestedCut.endOf 1 = 4 ∧
      nested.tags ("<a<bx</b<".toList.take 4) = [.opening "a<b".toList] ∧
      nested.tags ("<a<bx</b<".toList.drop 4) = [.closing "b".toList] := by
  have htext : nestedCut.text = "<a<bx</b<".toList := by decide
  have hclear : IsClear nested.names ['<'] [] := isClear_cons.mpr ⟨by decide, isClear_nil []⟩
  have hgap : IsClear nested.names ['x'] "</b<".toList :=
    isClear_cons.mpr ⟨by decide, isClear_nil _⟩
  have hfits : nestedCut.Fits nested.names :=
    ⟨isClear_nil _, candidate_eq_some_iff.mp (by decide), hgap,
      candidate_eq_some_iff.mp (by decide), hclear⟩
  have hend : nestedCut.endOf 1 = 4 := by decide
  obtain ⟨-, hparts⟩ := tags_take_endOf_and_tags_drop_endOf nested "<a<bx</b<".toList
  obtain ⟨htags, hresume⟩ := hparts nestedCut htext hfits
  obtain ⟨htake, hdrop⟩ := hresume 1
  rw [hend, ← htags] at htake hdrop
  exact ⟨htext, hfits, hend, htake, hdrop⟩

end Cut

end TagBalance
