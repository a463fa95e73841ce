import TagBalance.Proofs.Scanning

/-!
A source that comes in chunks. Where no name contains a less-than sign, a tag ends before the
next such sign, so a cut in front of one divides the tags of the source as well. One checker
that is fed the chunks in turn then reports what a check of the whole source does.
-/
namespace TagBalance

namespace Scan

/-- The text can stand behind a cut: it is empty or starts with a less-than sign. -/
def IsContinuation (s : Text) : Prop := s = [] ∨ s.head? = some '<'

instance : DecidablePred IsContinuation := fun _ => inferInstanceAs (Decidable (_ ∨ _))

theorem isContinuation_flatten {chunks : List Text} (h : ∀ s ∈ chunks, IsContinuation s) :
    IsContinuation chunks.flatten := by
  induction chunks with
  | nil => exact Or.inl rfl
  | cons s chunks ih =>
    obtain ⟨hs, hchunks⟩ := List.forall_mem_cons.mp h
    rcases hs with rfl | hhead
    · exact ih hchunks
    · obtain ⟨rest, rfl⟩ := List.head?_eq_some_iff.mp hhead
      exact Or.inr rfl

variable {names : List Text}

/-- What starts in front of a cut does not depend on what stands behind it. -/
theorem candidate_append_lt (hnames : ∀ n ∈ names, '<' ∉ n) {s : Text} (hs : s ≠ [])
    (rest : Text) : candidate names (s ++ '<' :: rest) = candidate names s := by
  obtain ⟨c, s, rfl⟩ := List.exists_cons_of_ne_nil hs
  by_cases hc : c = '<'
  · subst hc
    have hname := firstName_append_cons hnames s rest
    cases s with
    | nil =>
      -- The sign behind the cut is no slash, so it leaves the delimiter as it is.
      rw [List.cons_append, candidate_of_head?_ne_slash (by simp), hname,
        candidate_of_head?_ne_slash (by simp)]
    | cons d s =>
      by_cases hd : d = '/'
      · subst hd
        rw [List.cons_append] at hname
        simp only [List.cons_append, candidate, firstName_append_cons hnames, hname]
      · rw [List.cons_append, candidate_of_head?_ne_slash (by simpa using hd), hname,
          candidate_of_head?_ne_slash (by simpa using hd)]
  · rw [List.cons_append, candidate_of_ne_lt hc, candidate_of_ne_lt hc]

theorem tagsFrom_append_lt (hnames : ∀ n ∈ names, '<' ∉ n) (s rest : Text) :
    tagsFrom names 0 (s ++ '<' :: rest) =
      tagsFrom names 0 s ++ tagsFrom names 0 ('<' :: rest) := by
  induction s using scan_induction names with
  | nil => rfl
  | skip c s hc ih =>
    have hcut := (candidate_append_lt hnames (List.cons_ne_nil c s) rest).trans hc
    rw [List.cons_append] at hcut
    rw [tagsFrom_skip hc, List.cons_append, tagsFrom_skip hcut, ih]
  | hit t s ht ih =>
    have hne : t.lexeme ++ s ≠ [] :=
      List.append_ne_nil_of_left_ne_nil (List.ne_nil_of_length_pos t.length_lexeme_pos) s
    have hcut := (candidate_append_lt hnames hne rest).trans ht
    rw [List.append_assoc] at hcut
    rw [tagsFrom_hit ht, List.append_assoc, tagsFrom_hit hcut, ih, List.cons_append]

theorem tagsFrom_append (hnames : ∀ n ∈ names, '<' ∉ n) (s : Text) {rest : Text}
    (hrest : IsContinuation rest) :
    tagsFrom names 0 (s ++ rest) = tagsFrom names 0 s ++ tagsFrom names 0 rest := by
  rcases hrest with rfl | hhead
  · rw [List.append_nil, tagsFrom, List.append_nil]
  · obtain ⟨tail, rfl⟩ := List.head?_eq_some_iff.mp hhead
    exact tagsFrom_append_lt hnames s tail

/-- The first chunk may start with anything. -/
theorem tagsFrom_flatten (hnames : ∀ n ∈ names, '<' ∉ n) {chunks : List Text}
    (hchunks : ∀ s ∈ chunks.tail, IsContinuation s) :
    tagsFrom names 0 chunks.flatten = chunks.flatMap (tagsFrom names 0) := by
  induction chunks with
  | nil => rfl
  | cons s chunks ih =>
    rw [List.tail_cons] at hchunks
    rw [List.flatten_cons, List.flatMap_cons,
      tagsFrom_append hnames s (isContinuation_flatten hchunks),
      ih fun u hu => hchunks u (List.mem_of_mem_tail hu)]

end Scan

namespace Checker

def reportsInTurn (c : Checker) : List (List Tag) → List Diagnostic
  | [] => c.finish.toList
  | ts :: rest => c.reports ts ++ (c.after ts).reportsInTurn rest

theorem reportsInTurn_eq (c : Checker) (lists : List (List Tag)) :
    c.reportsInTurn lists = c.reports lists.flatten ++ (c.after lists.flatten).finish.toList := by
  induction lists generalizing c with
  | nil => rfl
  | cons ts rest ih =>
    rw [reportsInTurn, ih, List.flatten_cons, reports_append, after_append, List.append_assoc]

end Checker

namespace AllowList

open Scan

/-- The tags of the chunks make up those of the whole source, and one checker for all the
chunks makes the reports of a check of the whole source, in the same order. -/
theorem tags_flatten_and_reportsInTurn (l : AllowList) (hl : ∀ n ∈ l.names, '<' ∉ n)
    (chunks : List Text) (hchunks : ∀ s ∈ chunks.tail, IsContinuation s) :
    l.tags chunks.flatten = chunks.flatMap l.tags ∧
      Checker.empty.reportsInTurn (chunks.map l.tags) = l.check chunks.flatten := by
  have htags : l.tags chunks.flatten = chunks.flatMap l.tags := tagsFrom_flatten hl hchunks
  refine ⟨htags, ?_⟩
  rw [Checker.reportsInTurn_eq, check, htags, List.flatMap_def]
  rfl

def paragraphs : AllowList :=
  ⟨["/p".toList, "pre".toList, "p".toList], by decide, by decide⟩

def pieces : List Text := ["<pr".toList, [], "</".toList, "<pre></pr".toList, "<//p".toList]

theorem tags_flatten_pieces :
    (∀ n ∈ paragraphs.names, '<' ∉ n) ∧ (∀ s ∈ pieces.tail, IsContinuation s) ∧
      paragraphs.tags pieces.flatten =
        [.opening "p".toList, .opening "pre".toList, .closing "p".toList,
          .closing "/p".toList] ∧
      Checker.empty.reportsInTurn (pieces.map paragraphs.tags) =
        paragraphs.check pieces.flatten := by
  have hl : ∀ n ∈ paragraphs.names, '<' ∉ n := by decide
  have hpieces : ∀ s ∈ pieces.tail, IsContinuation s := by decide
  obtain ⟨htags, hreports⟩ := tags_flatten_and_reportsInTurn paragraphs hl pieces hpieces
  exact ⟨hl, hpieces, htags.trans (by decide), hreports⟩

end AllowList

end TagBalance
