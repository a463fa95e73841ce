import TagBalance.Proofs.Scanning

/-!
An allow-list with more names at its end. At each position the longer list picks what the
shorter one picks, and an added name only where that picks nothing. Where no name has a
less-than sign, the lexeme of an added name hides no position at which a tag could start. So
the shorter list finds the tags that the longer one finds, without those of added names.
-/
namespace TagBalance

/-- A lexeme starts with the only less-than sign that it has outside its name. -/
theorem Tag.exists_lexeme_eq_cons {t : Tag} (h : '<' ∉ t.name) :
    ∃ tail, t.lexeme = '<' :: tail ∧ '<' ∉ tail := by
  cases t with
  | opening n => exact ⟨n, rfl, h⟩
  | closing n => exact ⟨'/' :: n, rfl, List.not_mem_cons_of_ne_of_not_mem (by decide) h⟩

namespace Scan

variable {names added : List Text}

/-- An added name is picked only where none of the others fits, and then it is none of them. -/
theorem firstName_eq_filter_append (text : Text) :
    firstName names text =
      (firstName (names ++ added) text).filter fun n => decide (n ∈ names) := by
  have happend : firstName (names ++ added) text =
      (firstName names text).or (firstName added text) := List.find?_append
  rw [happend]
  cases hfirst : firstName names text with
  | some n =>
    have hmem : n ∈ names := (firstName_eq_some_iff.mp hfirst).mem
    rw [Option.some_or, Option.filter_some_pos (by simpa using hmem)]
  | none =>
    rw [Option.none_or, eq_comm, Option.filter_eq_none_iff]
    intro n hn hmem
    exact firstName_eq_none_iff.mp hfirst n (of_decide_eq_true hmem)
      (firstName_eq_some_iff.mp hn).holds

theorem candidate_eq_filter_append (hslash : ∀ n ∈ names ++ added, n.head? ≠ some '/')
    (rest : Text) :
    candidate names rest =
      (candidate (names ++ added) rest).filter fun t => decide (t.name ∈ names) := by
  have hslash' : ∀ n ∈ names, n.head? ≠ some '/' :=
    fun n hn => hslash n (List.mem_append_left added hn)
  cases rest with
  | nil => rfl
  | cons c rest =>
    by_cases hc : c = '<'
    · subst hc
      by_cases hhead : rest.head? = some '/'
      · obtain ⟨rest, rfl⟩ := List.head?_eq_some_iff.mp hhead
        rw [candidate_slash hslash, candidate_slash hslash', Option.filter_map,
          firstName_eq_filter_append]
        rfl
      · rw [candidate_of_head?_ne_slash hhead, candidate_of_head?_ne_slash hhead,
          Option.filter_map, firstName_eq_filter_append]
        rfl
    · rw [candidate_of_ne_lt hc, candidate_of_ne_lt hc, Option.filter_none]

theorem tagsFrom_eq_filter_append (hlt : ∀ n ∈ names ++ added, '<' ∉ n)
    (hslash : ∀ n ∈ names ++ added, n.head? ≠ some '/') (s : Text) :
    tagsFrom names 0 s =
      (tagsFrom (names ++ added) 0 s).filter fun t => decide (t.name ∈ names) := by
  induction s using scan_induction (names ++ added) with
  | nil => rfl
  | skip c rest hc ih =>
    have hcand := candidate_eq_filter_append hslash (c :: rest)
    rw [hc, Option.filter_none] at hcand
    rw [tagsFrom_skip hc, tagsFrom_skip hcand, ih]
  | hit t rest ht ih =>
    have hcand := candidate_eq_filter_append hslash (t.lexeme ++ rest)
    rw [ht] at hcand
    rw [tagsFrom_hit ht]
    by_cases hname : t.name ∈ names
    · rw [Option.filter_some_pos (by simpa using hname)] at hcand
      rw [tagsFrom_hit hcand, List.filter_cons_of_pos (by simpa using hname), ih]
    · -- The shorter list passes over the lexeme of the added name character by character.
      have hmem : t.name ∈ names ++ added := (candidate_eq_some_iff.mp ht).isCandidate.1
      obtain ⟨tail, htail, hgap⟩ := Tag.exists_lexeme_eq_cons (hlt _ hmem)
      rw [Option.filter_some_neg (by simpa using hname), htail, List.cons_append] at hcand
      rw [List.filter_cons_of_neg (by simpa using hname), htail, List.cons_append,
        tagsFrom_skip hcand, tagsFrom_append_of_notMem hgap, ih]

end Scan

namespace AllowList

/-- Names added at the end of an allow-list add their own tags and leave all others as they
were. -/
theorem tags_eq_filter_of_names_append (l m : AllowList) (added : List Text)
    (hm : m.names = l.names ++ added) (hlt : ∀ n ∈ m.names, '<' ∉ n)
    (hslash : ∀ n ∈ m.names, n.head? ≠ some '/') (s : Text) :
    l.tags s = (m.tags s).filter fun t => decide (t.name ∈ l.names) := by
  rw [tags, tags, hm]
  rw [hm] at hlt hslash
  exact Scan.tagsFrom_eq_filter_append hlt hslash s

def rows : AllowList := ⟨["tr".toList, "thead".toList], by decide, by decide⟩

def rowsAndMore : AllowList :=
  ⟨rows.names ++ ["th".toList, "track".toList, "tr".toList], by decide, by decide⟩

theorem tags_rows_eq_filter :
    (∀ n ∈ rowsAndMore.names, '<' ∉ n) ∧ (∀ n ∈ rowsAndMore.names, n.head? ≠ some '/') ∧
      rowsAndMore.tags "<th<thead></track></th".toList =
        [.opening "th".toList, .opening "thead".toList, .closing "tr".toList,
          .closing "th".toList] ∧
      rows.tags "<th<thead></track></th".toList =
        [.opening "thead".toList, .closing "tr".toList] := by
  have hlt : ∀ n ∈ rowsAndMore.names, '<' ∉ n := by decide
  have hslash : ∀ n ∈ rowsAndMore.names, n.head? ≠ some '/' := by decide
  have htags : rowsAndMore.tags "<th<thead></track></th".toList =
      [.opening "th".toList, .opening "thead".toList, .closing "tr".toList,
        .closing "th".toList] := by
    decide
  refine ⟨hlt, hslash, htags, ?_⟩
  rw [tags_eq_filter_of_names_append rows rowsAndMore _ rfl hlt hslash, htags]
  decide

end AllowList

end TagBalance
