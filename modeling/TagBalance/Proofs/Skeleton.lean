import TagBalance.Proofs.Scanning

/-!
Texts that differ in their foreign characters alone, those outside ASCII. They have the same
ASCII characters in the same order, and where one of them has foreign characters between two of
these the other one has some too. A scan for names of ASCII cannot tell such texts apart.
-/
namespace TagBalance.Scan

def IsAscii (c : Char) : Prop := c.toNat < 0x80

instance : DecidablePred IsAscii := fun _ => inferInstanceAs (Decidable (_ < _))

def IsGap (g : Text) : Prop := g ≠ [] ∧ ∀ c ∈ g, ¬ IsAscii c

/-- The texts agree in their ASCII characters and in where the gaps between these are, but
not in what fills a gap. -/
inductive SameAscii : Text → Text → Prop
  | nil : SameAscii [] []
  | ascii {c : Char} {s u : Text} : IsAscii c → SameAscii s u → SameAscii (c :: s) (c :: u)
  | gap {g g' s u : Text} : IsGap g → IsGap g' → SameAscii s u → SameAscii (g ++ s) (g' ++ u)

theorem isGap_singleton {c : Char} (h : ¬ IsAscii c) : IsGap [c] := by
  refine ⟨List.cons_ne_nil c [], ?_⟩
  intro d hd
  rw [List.mem_singleton.mp hd]
  exact h

namespace IsGap

variable {g : Text}

theorem append (h : IsGap g) {g' : Text} (h' : IsGap g') : IsGap (g ++ g') := by
  refine ⟨List.append_ne_nil_of_left_ne_nil h.1 g', ?_⟩
  intro c hc
  exact (List.mem_append.mp hc).elim (h.2 c) (h'.2 c)

theorem lt_notMem (h : IsGap g) : '<' ∉ g := fun hmem => h.2 '<' hmem (by decide)

end IsGap

namespace SameAscii

variable {s u : Text}

theorem symm (h : SameAscii s u) : SameAscii u s := by
  induction h with
  | nil => exact .nil
  | ascii hc _ ih => exact .ascii hc ih
  | gap hg hg' _ ih => exact .gap hg' hg ih

theorem of_cons {c : Char} (hc : IsAscii c) (h : SameAscii (c :: s) u) :
    ∃ v, u = c :: v ∧ SameAscii s v := by
  generalize hcs : c :: s = t at h
  cases h with
  | nil => simp at hcs
  | @ascii d t v hd hrest =>
    obtain ⟨rfl, rfl⟩ := List.cons.inj hcs
    exact ⟨v, rfl, hrest⟩
  | @gap g g' t v hg hg' hrest =>
    obtain ⟨d, g, rfl⟩ := List.exists_cons_of_ne_nil hg.1
    obtain rfl := (List.cons.inj hcs).1
    exact absurd hc (hg.2 c List.mem_cons_self)

/-- A prefix of ASCII characters stands in front of both texts. -/
theorem of_append {n : Text} (hn : ∀ c ∈ n, IsAscii c) (h : SameAscii (n ++ s) u) :
    ∃ v, u = n ++ v ∧ SameAscii s v := by
  induction n generalizing u with
  | nil => exact ⟨u, rfl, h⟩
  | cons c n ih =>
    obtain ⟨hc, hn⟩ := List.forall_mem_cons.mp hn
    obtain ⟨v, rfl, hv⟩ := of_cons hc h
    obtain ⟨w, rfl, hw⟩ := ih hn hv
    exact ⟨w, rfl, hw⟩

theorem prefix_iff (h : SameAscii s u) {n : Text} (hn : ∀ c ∈ n, IsAscii c) :
    n <+: s ↔ n <+: u := by
  constructor
  · rintro ⟨rest, rfl⟩
    obtain ⟨v, rfl, -⟩ := of_append hn h
    exact List.prefix_append n v
  · rintro ⟨rest, rfl⟩
    obtain ⟨v, rfl, -⟩ := of_append hn h.symm
    exact List.prefix_append n v

end SameAscii

variable {names : List Text}

theorem isAscii_lexeme {t : Tag} (h : ∀ c ∈ t.name, IsAscii c) : ∀ c ∈ t.lexeme, IsAscii c := by
  cases t with
  | opening n => exact List.forall_mem_cons.mpr ⟨by decide, h⟩
  | closing n =>
    exact List.forall_mem_cons.mpr ⟨by decide, List.forall_mem_cons.mpr ⟨by decide, h⟩⟩

theorem IsFirst.congr {p q : Text → Prop} {n : Text} (h : ∀ m ∈ names, (p m ↔ q m))
    (hn : IsFirst p names n) : IsFirst q names n := by
  obtain ⟨before, after, rfl, hp, hbefore⟩ := hn
  refine ⟨before, after, rfl, (h n (by simp)).mp hp, ?_⟩
  intro m hm hq
  exact hbefore m hm ((h m (List.mem_append_left _ hm)).mpr hq)

/-- The choice at a position depends only on which lexemes fit there. -/
theorem candidate_congr {s u : Text}
    (h : ∀ t : Tag, t.name ∈ names → (t.lexeme <+: s ↔ t.lexeme <+: u)) :
    candidate names s = candidate names u := by
  have hpreferred : ∀ s u : Text,
      (∀ t : Tag, t.name ∈ names → (t.lexeme <+: s ↔ t.lexeme <+: u)) →
        ∀ t, IsPreferred names s t → IsPreferred names u t := by
    intro s u h t ht
    cases t with
    | opening n =>
      refine ⟨?_, ht.2.congr fun m hm => h (.opening m) hm⟩
      intro m hm hu
      exact ht.1 m hm ((h (.closing m) hm).mpr hu)
    | closing n => exact IsFirst.congr (fun m hm => h (.closing m) hm) ht
  apply Option.ext
  intro t
  rw [candidate_eq_some_iff, candidate_eq_some_iff]
  exact ⟨hpreferred s u h t, hpreferred u s (fun v hv => (h v hv).symm) t⟩

theorem SameAscii.candidate_eq {s u : Text} (h : SameAscii s u)
    (hnames : ∀ n ∈ names, ∀ c ∈ n, IsAscii c) : candidate names s = candidate names u :=
  candidate_congr fun t ht => h.prefix_iff (isAscii_lexeme (hnames t.name ht))

/-- A tag that is read from one text is read from the other, and the rests agree as well. -/
theorem SameAscii.of_hit {s u : Text} (h : SameAscii s u)
    (hnames : ∀ n ∈ names, ∀ c ∈ n, IsAscii c) {t : Tag} (ht : candidate names s = some t) :
    ∃ v w, s = t.lexeme ++ v ∧ u = t.lexeme ++ w ∧ SameAscii v w := by
  have hmem : t.name ∈ names := (candidate_eq_some_iff.mp ht).isCandidate.1
  obtain ⟨v, rfl⟩ := lexeme_prefix_of_candidate ht
  obtain ⟨w, rfl, hvw⟩ := h.of_append (isAscii_lexeme (hnames t.name hmem))
  exact ⟨v, w, rfl, rfl, hvw⟩

/-- The induction is on the length, as a hit leaves out a whole lexeme and a gap is passed
over in one step. -/
theorem SameAscii.tagsFrom_eq {s u : Text} (h : SameAscii s u)
    (hnames : ∀ n ∈ names, ∀ c ∈ n, IsAscii c) :
    tagsFrom names 0 s = tagsFrom names 0 u := by
  induction hlen : s.length using Nat.strong_induction_on generalizing s u with
  | h len ih =>
    subst hlen
    cases h with
    | nil => rfl
    | @ascii c s u hc hrest =>
      have hwhole : SameAscii (c :: s) (c :: u) := .ascii hc hrest
      have hcand := hwhole.candidate_eq hnames
      cases hs : candidate names (c :: s) with
      | none =>
        rw [tagsFrom_skip hs, tagsFrom_skip (hcand.symm.trans hs)]
        exact ih s.length (by simp) hrest rfl
      | some t =>
        have hu : candidate names (c :: u) = some t := hcand.symm.trans hs
        obtain ⟨v, w, hv, hw, hvw⟩ := hwhole.of_hit hnames hs
        have hlen : v.length < (c :: s).length := by
          have hpos := t.length_lexeme_pos
          rw [hv, List.length_append]
          omega
        rw [hv] at hs ⊢
        rw [hw] at hu ⊢
        rw [tagsFrom_hit hs, tagsFrom_hit hu, ih v.length hlen hvw rfl]
    | @gap g g' s u hg hg' hrest =>
      have hlen : s.length < (g ++ s).length := by
        have hpos := List.length_pos_iff.mpr hg.1
        rw [List.length_append]
        omega
      rw [tagsFrom_append_of_notMem hg.lt_notMem, tagsFrom_append_of_notMem hg'.lt_notMem]
      exact ih s.length hlen hrest rfl

end TagBalance.Scan
