import TagBalance.Proofs.Liveness

/-!
Tags written one after another, each with a greater-than sign behind it, and read again. A
scan can only yield tags with a live name, and no opening tag whose slash would be taken for
that of a closing one. These are the tags that come back from what is written, and a list
with any other tag in it does not.
-/
namespace TagBalance

namespace Tag

def renderAll (ts : List Tag) : Text := ts.flatMap fun t => t.lexeme ++ ['>']

theorem renderAll_cons (t : Tag) (ts : List Tag) :
    renderAll (t :: ts) = t.lexeme ++ '>' :: renderAll ts := by
  simp [renderAll]

end Tag

namespace Scan

/-- The name is live, and where an opening tag has a name with a slash in front, no entry
could be read behind that slash. -/
def IsEmittable (names : List Text) : Tag → Prop
  | .closing n => IsLive names n
  | .opening n => IsLive names n ∧ ∀ rest, n = '/' :: rest → ∀ m ∈ names, ¬ m <+: rest

variable {names : List Text} {t : Tag}

/-- What the scanner picks is emittable, whatever stands behind it. -/
theorem isEmittable_of_candidate {rest : Text} (h : candidate names rest = some t) :
    IsEmittable names t := by
  obtain ⟨tail, rfl⟩ := lexeme_prefix_of_candidate h
  cases t with
  | closing n => exact (isLongestLive_of_firstName (candidate_closing_iff.mp h)).1
  | opening n =>
    obtain ⟨hnotClosing, hfirst⟩ := candidate_opening_iff.mp h
    refine ⟨(isLongestLive_of_firstName hfirst).1, ?_⟩
    rintro rest rfl m hm hprefix
    apply hnotClosing m hm
    rw [List.cons_append, List.cons_prefix_cons]
    exact ⟨rfl, hprefix.trans (List.prefix_append rest tail)⟩

/-- An emittable tag is picked where it stands with a greater-than sign behind it. -/
theorem candidate_lexeme_append (hnames : ∀ n ∈ names, '>' ∉ n) (ht : IsEmittable names t)
    (rest : Text) : candidate names (t.lexeme ++ '>' :: rest) = some t := by
  cases t with
  | closing n =>
    rw [candidate_closing_iff, firstName_append_cons hnames, firstName_self_eq_some_iff]
    exact ht
  | opening n =>
    obtain ⟨hlive, hslash⟩ := ht
    rw [candidate_opening_iff, firstName_append_cons hnames, firstName_self_eq_some_iff]
    refine ⟨?_, hlive⟩
    intro m hm hprefix
    have hnotMem : '>' ∉ '/' :: m := by simp [hnames m hm]
    obtain ⟨tail, htail⟩ := (prefix_append_cons_iff hnotMem).mp hprefix
    exact hslash (m ++ tail) htail.symm m hm (List.prefix_append m tail)

theorem isEmittable_of_mem_tagsFrom {s : Text} (h : t ∈ tagsFrom names 0 s) :
    IsEmittable names t := by
  obtain ⟨u, -, hcand⟩ := exists_suffix_of_mem_tagsFrom h
  exact isEmittable_of_candidate hcand

theorem tagsFrom_renderAll (hnames : ∀ n ∈ names, '>' ∉ n) {ts : List Tag}
    (hts : ∀ t ∈ ts, IsEmittable names t) : tagsFrom names 0 (Tag.renderAll ts) = ts := by
  induction ts with
  | nil => rfl
  | cons t ts ih =>
    obtain ⟨ht, hts⟩ := List.forall_mem_cons.mp hts
    have hclosed : candidate names ('>' :: Tag.renderAll ts) = none :=
      candidate_of_ne_lt (by decide)
    rw [Tag.renderAll_cons, tagsFrom_hit (candidate_lexeme_append hnames ht _),
      tagsFrom_skip hclosed, ih hts]

end Scan

namespace AllowList

open Scan

/-- The lists that are read back as they were written are those of emittable tags. All that
a scan yields is such a list, so that writing it and reading it again changes nothing. -/
theorem tags_renderAll_eq_iff (l : AllowList) (hl : ∀ n ∈ l.names, '>' ∉ n) :
    (∀ ts, l.tags (Tag.renderAll ts) = ts ↔ ∀ t ∈ ts, IsEmittable l.names t) ∧
      ∀ s, (∀ t ∈ l.tags s, IsEmittable l.names t) ∧
        l.tags (Tag.renderAll (l.tags s)) = l.tags s := by
  have hscan : ∀ s, ∀ t ∈ l.tags s, IsEmittable l.names t :=
    fun _ _ => isEmittable_of_mem_tagsFrom
  refine ⟨fun ts => ⟨?_, tagsFrom_renderAll hl⟩,
    fun s => ⟨hscan s, tagsFrom_renderAll hl (hscan s)⟩⟩
  intro h
  rw [← h]
  exact hscan _

def slashed : AllowList :=
  ⟨["/p".toList, "p".toList, "pre".toList, "/x".toList], by decide, by decide⟩

theorem tags_renderAll_slashed :
    (∀ n ∈ slashed.names, '>' ∉ n) ∧
      slashed.tags (Tag.renderAll [.opening "/x".toList, .closing "/p".toList]) =
        [.opening "/x".toList, .closing "/p".toList] ∧
      ¬ IsEmittable slashed.names (.opening "/p".toList) ∧
      ¬ IsEmittable slashed.names (.closing "pre".toList) := by
  have hl : ∀ n ∈ slashed.names, '>' ∉ n := by decide
  obtain ⟨hiff, -⟩ := tags_renderAll_eq_iff slashed hl
  have hread : ∀ t, IsEmittable slashed.names t → slashed.tags (Tag.renderAll [t]) = [t] :=
    fun t ht => (hiff [t]).mpr (List.forall_mem_singleton.mpr ht)
  refine ⟨hl, (hiff _).mpr ?_, ?_, ?_⟩
  · rw [List.forall_mem_cons, List.forall_mem_singleton]
    refine ⟨⟨by decide, ?_⟩, ?_⟩
    · intro rest hrest
      obtain rfl : "x".toList = rest := (List.cons.inj hrest).2
      decide
    · exact (show IsLive slashed.names "/p".toList by decide)
  · intro h
    exact absurd (hread _ h) (by decide)
  · intro h
    exact absurd (hread _ h) (by decide)

end AllowList

end TagBalance
