import TagBalance.Proofs.Scanning
import Mathlib.Logic.ExistsUnique

/-!
A text written as gaps and lexemes in turn. It can be cut in exactly one way such that no
tag could start inside a gap and each lexeme is the preferred one at its position; the tags
of that cut are what the scanner finds.
-/
namespace TagBalance

/-- Gaps with a tag between each two of them. -/
inductive Cut where
  | last (gap : Text)
  | tag (gap : Text) (t : Tag) (rest : Cut)

namespace Cut

open Scan

def text : Cut → Text
  | last gap => gap
  | tag gap t rest => gap ++ (t.lexeme ++ rest.text)

def tags : Cut → List Tag
  | last _ => []
  | tag _ t rest => t :: rest.tags

/-- No tag could start in the gap. At each position of it the candidates are judged by all
the text that is left, which may reach far behind the gap. -/
def IsClear (names : List Text) (gap rest : Text) : Prop :=
  ∀ i < gap.length, ∀ t, ¬ IsCandidate names ((gap ++ rest).drop i) t

/-- Every gap is clear, and every tag is the preferred candidate where it stands. -/
def Fits (names : List Text) : Cut → Prop
  | last gap => IsClear names gap []
  | tag gap t rest =>
      IsClear names gap (t.lexeme ++ rest.text) ∧
        IsPreferred names (t.lexeme ++ rest.text) t ∧ rest.Fits names

def widen (c : Char) : Cut → Cut
  | last gap => last (c :: gap)
  | tag gap t rest => tag (c :: gap) t rest

variable {names : List Text}

theorem text_widen (c : Char) (d : Cut) : (d.widen c).text = c :: d.text := by
  cases d <;> rfl

theorem tags_widen (c : Char) (d : Cut) : (d.widen c).tags = d.tags := by
  cases d <;> rfl

theorem isClear_nil (rest : Text) : IsClear names [] rest := by
  intro i hi
  simp at hi

theorem isClear_cons {c : Char} {gap rest : Text} :
    IsClear names (c :: gap) rest ↔
      candidate names (c :: (gap ++ rest)) = none ∧ IsClear names gap rest := by
  rw [candidate_eq_none_iff]
  constructor
  · intro h
    refine ⟨h 0 (by simp), ?_⟩
    intro i hi
    exact h (i + 1) (by simpa using hi)
  · intro h i hi
    cases i with
    | zero => exact h.1
    | succ i => exact h.2 i (by simpa using hi)

theorem fits_widen {c : Char} {d : Cut} :
    (d.widen c).Fits names ↔ candidate names (c :: d.text) = none ∧ d.Fits names := by
  cases d with
  | last gap => simp [widen, Fits, text, isClear_cons]
  | tag gap t rest => simp [widen, Fits, text, isClear_cons, and_assoc]

theorem eq_last_of_text_eq_nil {d : Cut} (h : d.text = []) : d = last [] := by
  cases d with
  | last gap => exact congrArg last h
  | tag gap t rest =>
    have hpos := t.length_lexeme_pos
    have hlen := congrArg List.length h
    simp only [text, List.length_append, List.length_nil] at hlen
    omega

/-- Where nothing starts, a fitting cut has a first gap that begins there. -/
theorem exists_eq_widen {c : Char} {rest : Text} (hc : candidate names (c :: rest) = none)
    {d : Cut} (hd : d.Fits names) (htext : d.text = c :: rest) : ∃ e : Cut, d = e.widen c := by
  cases d with
  | last gap =>
    obtain rfl : gap = c :: rest := htext
    exact ⟨last rest, rfl⟩
  | tag gap t tail =>
    cases gap with
    | nil =>
      have hcand := candidate_eq_some_iff.mpr hd.2.1
      rw [show t.lexeme ++ tail.text = c :: rest from htext, hc] at hcand
      simp at hcand
    | cons g gap =>
      obtain rfl : g = c := (List.cons.inj htext).1
      exact ⟨tag gap t tail, rfl⟩

/-- Where a tag is read, a fitting cut has an empty first gap and then that tag. -/
theorem exists_eq_tag {t : Tag} {rest : Text} (ht : candidate names (t.lexeme ++ rest) = some t)
    {d : Cut} (hd : d.Fits names) (htext : d.text = t.lexeme ++ rest) :
    ∃ e : Cut, d = tag [] t e := by
  have hnotClear : ∀ c gap tail, c :: (gap ++ tail) = t.lexeme ++ rest →
      ¬ IsClear names (c :: gap) tail := by
    intro c gap tail heq hclear
    rw [isClear_cons, heq, ht] at hclear
    simp at hclear
  have hpos := t.length_lexeme_pos
  cases d with
  | last gap =>
    cases gap with
    | nil =>
      have hlen := congrArg List.length htext
      simp only [text, List.length_append, List.length_nil] at hlen
      omega
    | cons c gap => exact absurd hd (hnotClear c gap [] (by simpa [text] using htext))
  | tag gap u tail =>
    cases gap with
    | nil =>
      have hu := candidate_eq_some_iff.mpr hd.2.1
      rw [show u.lexeme ++ tail.text = t.lexeme ++ rest from htext, ht] at hu
      exact ⟨tail, by rw [Option.some.inj hu]⟩
    | cons c gap => exact absurd hd.1 (hnotClear c gap _ htext)

/-- Some fitting cut has the tags that the scanner finds. -/
theorem exists_fits (names : List Text) (s : Text) :
    ∃ d : Cut, d.text = s ∧ d.Fits names ∧ d.tags = tagsFrom names 0 s := by
  induction s using scan_induction names with
  | nil => exact ⟨last [], rfl, isClear_nil [], rfl⟩
  | skip c rest hc ih =>
    obtain ⟨d, htext, hfits, htags⟩ := ih
    refine ⟨d.widen c, by rw [text_widen, htext], ?_, ?_⟩
    · exact fits_widen.mpr ⟨by rw [htext]; exact hc, hfits⟩
    · rw [tags_widen, htags, tagsFrom_skip hc]
  | hit t rest ht ih =>
    obtain ⟨d, htext, hfits, htags⟩ := ih
    refine ⟨tag [] t d, by rw [text, htext, List.nil_append], ?_, ?_⟩
    · refine ⟨isClear_nil _, ?_, hfits⟩
      rw [htext]
      exact candidate_eq_some_iff.mp ht
    · rw [tags, htags, tagsFrom_hit ht]

theorem fits_unique {s : Text} {d e : Cut} (hd : d.Fits names) (he : e.Fits names)
    (hdtext : d.text = s) (hetext : e.text = s) : d = e := by
  induction s using scan_induction names generalizing d e with
  | nil => rw [eq_last_of_text_eq_nil hdtext, eq_last_of_text_eq_nil hetext]
  | skip c rest hc ih =>
    obtain ⟨d, rfl⟩ := exists_eq_widen hc hd hdtext
    obtain ⟨e, rfl⟩ := exists_eq_widen hc he hetext
    rw [text_widen] at hdtext hetext
    rw [ih (fits_widen.mp hd).2 (fits_widen.mp he).2 (List.cons.inj hdtext).2
      (List.cons.inj hetext).2]
  | hit t rest ht ih =>
    obtain ⟨d, rfl⟩ := exists_eq_tag ht hd hdtext
    obtain ⟨e, rfl⟩ := exists_eq_tag ht he hetext
    rw [ih hd.2.2 he.2.2 (List.append_cancel_left hdtext) (List.append_cancel_left hetext)]

/-- A text has exactly one fitting cut, and a list of tags is what the scanner finds in it
if and only if it is the list of tags of such a cut. -/
theorem tags_eq_iff_exists_fits (l : AllowList) (s : Text) :
    (∃! d : Cut, d.text = s ∧ d.Fits l.names) ∧
      ∀ ts, l.tags s = ts ↔ ∃ d : Cut, d.text = s ∧ d.Fits l.names ∧ d.tags = ts := by
  obtain ⟨d, htext, hfits, htags⟩ := exists_fits l.names s
  refine ⟨⟨d, ⟨htext, hfits⟩, fun e he => fits_unique he.2 hfits he.1 htext⟩, ?_⟩
  intro ts
  constructor
  · rintro rfl
    exact ⟨d, htext, hfits, htags⟩
  · intro h
    obtain ⟨e, hetext, hefits, rfl⟩ := h
    rw [fits_unique hefits hfits hetext htext]
    exact htags.symm

end Cut

end TagBalance
