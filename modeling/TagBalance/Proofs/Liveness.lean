import TagBalance.Proofs.Scanning

/-!
The entries of an allow-list that a scan can ever read. An entry with an earlier one as its
prefix is dead: wherever it fits, the earlier one fits too and comes first. Among the live
entries that fit at a position the longest one is the first in the list, so that a scan
depends on nothing but the set of live entries. That set can be read off the scans again.
-/
namespace TagBalance.Scan

/-- An entry such that no entry before its first occurrence is a prefix of it. -/
def IsLive (names : List Text) (n : Text) : Prop :=
  n ∈ names ∧ ∀ m ∈ names.takeWhile (· ≠ n), ¬ m <+: n

def IsLongestLive (names : List Text) (text n : Text) : Prop :=
  IsLive names n ∧ n <+: text ∧ ∀ m, IsLive names m → m <+: text → m.length ≤ n.length

instance (names : List Text) : DecidablePred (IsLive names) :=
  fun _ => inferInstanceAs (Decidable (_ ∧ _))

variable {names names' : List Text} {text n : Text}

theorem isLive_cons {a : Text} :
    IsLive (a :: names) n ↔ a = n ∨ ¬ a <+: n ∧ IsLive names n := by
  by_cases ha : a = n
  · simp [IsLive, ha]
  · rw [IsLive, List.takeWhile_cons_of_pos (by simp [ha]), List.forall_mem_cons, List.mem_cons,
      or_iff_right (Ne.symm ha), or_iff_right ha]
    exact and_left_comm

theorem firstName_cons (a : Text) :
    firstName (a :: names) text = if a <+: text then some a else firstName names text := by
  rw [firstName, firstName, List.find?_cons]
  by_cases ha : a <+: text
  · rw [List.isPrefixOf_iff_prefix.mpr ha, if_pos ha]
  · rw [Bool.eq_false_iff.mpr fun h => ha (List.isPrefixOf_iff_prefix.mp h), if_neg ha]

/-- A live entry is the one that is read where nothing but its own text stands. -/
theorem firstName_self_eq_some_iff : firstName names n = some n ↔ IsLive names n := by
  induction names with
  | nil => simp [firstName, IsLive]
  | cons a names ih =>
    rw [isLive_cons, ← ih, firstName_cons]
    by_cases ha : a <+: n
    · simp [ha]
    · have hne : a ≠ n := fun h => ha (h ▸ List.prefix_refl a)
      simp [ha, hne]

theorem isLongestLive_of_firstName (h : firstName names text = some n) :
    IsLongestLive names text n := by
  have hn : n <+: text := (firstName_eq_some_iff.mp h).holds
  refine ⟨firstName_self_eq_some_iff.mp (firstName_between h (List.prefix_refl n) hn), hn, ?_⟩
  intro m hlive hm
  by_contra hlt
  have hnm : n <+: m := List.prefix_of_prefix_length_le hn hm (Nat.le_of_not_le hlt)
  have hfirst := firstName_between h hnm hm
  rw [firstName_self_eq_some_iff.mpr hlive, Option.some.injEq] at hfirst
  exact hlt (hfirst ▸ Nat.le_refl _)

theorem IsLongestLive.unique {k : Text} (hn : IsLongestLive names text n)
    (hk : IsLongestLive names text k) : n = k := by
  have hlen : n.length = k.length :=
    Nat.le_antisymm (hk.2.2 n hn.1 hn.2.1) (hn.2.2 k hk.1 hk.2.1)
  exact (List.prefix_of_prefix_length_le hn.2.1 hk.2.1 hlen.le).eq_of_length hlen

/-- The first entry that fits is the longest live one that fits. -/
theorem firstName_eq_some_iff_isLongestLive :
    firstName names text = some n ↔ IsLongestLive names text n := by
  constructor
  · exact isLongestLive_of_firstName
  · intro h
    obtain ⟨k, hk⟩ := exists_isFirst (p := fun m => m <+: text) h.1.1 h.2.1
    have hfirst := firstName_eq_some_iff.mpr hk
    rw [hfirst, h.unique (isLongestLive_of_firstName hfirst)]

theorem firstName_congr (h : ∀ n, IsLive names n ↔ IsLive names' n) :
    firstName names = firstName names' := by
  funext text
  apply Option.ext
  intro n
  simp only [firstName_eq_some_iff_isLongestLive, IsLongestLive, h]

/-- An entry with a prefix of it before it is never the first one that fits. -/
theorem firstName_append_cons_of_dead {before after : List Text}
    (h : ∃ k ∈ before, k <+: n) :
    firstName (before ++ n :: after) = firstName (before ++ after) := by
  obtain ⟨k, hk, hkn⟩ := h
  funext text
  simp only [firstName, List.find?_append, List.find?_cons]
  cases hn : n.isPrefixOf text with
  | false => rfl
  | true =>
    have hkt : k <+: text := hkn.trans (List.isPrefixOf_iff_prefix.mp hn)
    have hsome : (before.find? fun m => m.isPrefixOf text).isSome := by
      rw [List.find?_isSome]
      exact ⟨k, hk, List.isPrefixOf_iff_prefix.mpr hkt⟩
    rw [Option.or_of_isSome hsome, Option.or_of_isSome hsome]

/-- The lists matter to a scan by their choice of names alone. -/
theorem tagsFrom_congr (h : firstName names = firstName names') (s : Text) :
    tagsFrom names 0 s = tagsFrom names' 0 s := by
  have hcand : candidate names = candidate names' := by
    funext rest
    simp only [candidate, h]
  induction s using scan_induction names with
  | nil => rfl
  | skip c rest hc ih =>
    rw [tagsFrom_skip hc, tagsFrom_skip (hcand ▸ hc), ih]
  | hit t rest ht ih =>
    rw [tagsFrom_hit ht, tagsFrom_hit (hcand ▸ ht), ih]

/-- Each live entry shows in the scan of the shortest text with a closing tag of it. -/
theorem closing_mem_tagsFrom_lexeme_iff :
    .closing n ∈ tagsFrom names 0 (Tag.closing n).lexeme ↔ IsLive names n := by
  have hcand := @candidate_closing_iff names n []
  rw [List.append_nil, List.append_nil, firstName_self_eq_some_iff] at hcand
  rw [← hcand]
  constructor
  · intro h
    obtain ⟨u, hu, hcandu⟩ := exists_suffix_of_mem_tagsFrom h
    have hlen := (lexeme_prefix_of_candidate hcandu).length_le
    rwa [hu.eq_of_length_le hlen] at hcandu
  · intro h
    rw [← List.append_nil (Tag.closing n).lexeme] at h ⊢
    rw [tagsFrom_hit h]
    exact List.mem_cons_self

end Scan

namespace AllowList

open Scan

/-- The name that is read is the longest live one, and two lists read alike from every
source if and only if they have the same live names. In particular an entry can be left out
if an entry before it is a prefix of it or the same name. -/
theorem tags_eq_iff_isLive (l m : AllowList) :
    (∀ text n, firstName l.names text = some n ↔ IsLongestLive l.names text n) ∧
      ((∀ s, l.tags s = m.tags s) ↔ ∀ n, IsLive l.names n ↔ IsLive m.names n) ∧
      ∀ before n after, l.names = before ++ n :: after → (∃ k ∈ before, k <+: n) →
        m.names = before ++ after → ∀ s, l.tags s = m.tags s := by
  refine ⟨fun text n => firstName_eq_some_iff_isLongestLive, ⟨?_, ?_⟩, ?_⟩
  · intro h n
    have hn := h (Tag.closing n).lexeme
    rw [tags, tags] at hn
    rw [← closing_mem_tagsFrom_lexeme_iff, hn, closing_mem_tagsFrom_lexeme_iff]
  · intro h s
    exact tagsFrom_congr (firstName_congr h) s
  · intro before n after hl hdead hm s
    rw [tags, tags, hl, hm]
    exact tagsFrom_congr (firstName_append_cons_of_dead hdead) s

def cells : AllowList :=
  ⟨["th".toList, "thead".toList, "td".toList, "th".toList], by decide, by decide⟩

def liveCells : AllowList := ⟨["td".toList, "th".toList], by decide, by decide⟩

theorem tags_cells_eq_tags_liveCells :
    (∀ n, IsLive cells.names n ↔ IsLive liveCells.names n) ∧
      ∀ s, cells.tags s = liveCells.tags s := by
  have hlive : ∀ n ∈ cells.names, IsLive cells.names n → IsLive liveCells.names n := by decide
  have hlive' : ∀ n ∈ liveCells.names, IsLive liveCells.names n → IsLive cells.names n := by
    decide
  have hiff : ∀ n, IsLive cells.names n ↔ IsLive liveCells.names n := fun n =>
    ⟨fun h => hlive n h.1 h, fun h => hlive' n h.1 h⟩
  exact ⟨hiff, (tags_eq_iff_isLive cells liveCells).2.1.mpr hiff⟩

end AllowList

end TagBalance
