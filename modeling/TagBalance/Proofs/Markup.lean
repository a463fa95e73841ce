import TagBalance.Proofs.Scanning
import TagBalance.Proofs.WellNested

/-!
Markup written from trees. An element stands for the first listed name that its own name
starts with, in its opening and in its closing tag alike, and an element without such a
name disappears. What the scanner reads from the markup is therefore well nested.
-/
namespace TagBalance

/-- Without the characters that end a name in markup, and without a slash in front. -/
def IsPlainName (x : Text) : Prop := '<' ∉ x ∧ '>' ∉ x ∧ ' ' ∉ x ∧ x.head? ≠ some '/'

def IsAttributes (attrs : Text) : Prop := (attrs = [] ∨ attrs.head? = some ' ') ∧ '<' ∉ attrs

instance : DecidablePred IsPlainName := fun _ => inferInstanceAs (Decidable (_ ∧ _))

instance : DecidablePred IsAttributes := fun _ => inferInstanceAs (Decidable (_ ∧ _))

/-- Siblings in a row. The name of an element need not be listed and may be empty. -/
inductive Forest where
  | nil
  | text (s : Text) (hs : '<' ∉ s) (rest : Forest)
  | element (x attrs : Text) (hx : IsPlainName x) (hattrs : IsAttributes attrs)
      (children rest : Forest)

namespace Forest

open Scan

def openTag (x attrs : Text) : Text := '<' :: (x ++ attrs ++ ['>'])

def closeTag (x : Text) : Text := '<' :: '/' :: (x ++ ['>'])

def render : Forest → Text
  | nil => []
  | text s _ rest => s ++ rest.render
  | element x attrs _ _ children rest =>
      openTag x attrs ++ (children.render ++ (closeTag x ++ rest.render))

/-- The tags of the elements that start with a listed name. -/
def tags (names : List Text) : Forest → List Tag
  | nil => []
  | text _ _ rest => rest.tags names
  | element x _ _ _ children rest =>
    match firstName names x with
    | some n => .opening n :: (children.tags names ++ .closing n :: rest.tags names)
    | none => children.tags names ++ rest.tags names

variable {names : List Text}

theorem wellNested_tags (f : Forest) : WellNested (f.tags names) := by
  induction f with
  | nil => exact .nil
  | text s hs rest ih => exact ih
  | element x attrs hx hattrs children rest ihchildren ihrest =>
    rw [tags]
    split
    · exact .element _ ihchildren ihrest
    · exact ihchildren.append ihrest

/-- Behind the name stands a space or a greater-than sign. -/
theorem exists_name_end {attrs : Text} (h : IsAttributes attrs) :
    ∃ c tail, attrs ++ ['>'] = c :: tail ∧ (c = ' ' ∨ c = '>') := by
  rcases h.1 with rfl | hhead
  · exact ⟨'>', [], rfl, Or.inr rfl⟩
  · cases attrs with
    | nil => simp at hhead
    | cons c tail => exact ⟨c, tail ++ ['>'], rfl, Or.inl (Option.some.inj hhead)⟩

/-- An opening tag is read as the first listed name that its own name starts with. -/
theorem tagsFrom_openTag (hnames : ∀ n ∈ names, IsPlainName n) {x attrs : Text}
    (hx : IsPlainName x) (hattrs : IsAttributes attrs) (rest : Text) :
    tagsFrom names 0 (openTag x attrs ++ rest) =
      ((firstName names x).map Tag.opening).toList ++ tagsFrom names 0 rest := by
  obtain ⟨c, tail, hc, hcases⟩ := exists_name_end hattrs
  have hnotMem : ∀ n ∈ names, c ∉ n := by
    rcases hcases with rfl | rfl
    · exact fun n hn => (hnames n hn).2.2.1
    · exact fun n hn => (hnames n hn).2.1
  have htext : x ++ attrs ++ ['>'] ++ rest = x ++ c :: (tail ++ rest) := by
    rw [List.append_assoc x, hc, List.append_assoc, List.cons_append]
  have hhead : (x ++ c :: (tail ++ rest)).head? ≠ some '/' := by
    cases x with
    | nil => rcases hcases with rfl | rfl <;> simp
    | cons a x => exact hx.2.2.2
  have hcand : candidate names ('<' :: (x ++ attrs ++ ['>'] ++ rest)) =
      (firstName names x).map Tag.opening := by
    rw [htext, candidate_of_head?_ne_slash hhead, firstName_append_cons hnotMem]
  have hgap : '<' ∉ x ++ attrs ++ ['>'] := by simp [hx.1, hattrs.2]
  rw [openTag, List.cons_append, tagsFrom_delimited hgap, hcand]
  intro t ht
  obtain ⟨n, hn, rfl⟩ := Option.map_eq_some_iff.mp (hcand.symm.trans ht)
  rw [opening_prefix_cons, List.append_assoc]
  exact ⟨rfl, (firstName_eq_some_iff.mp hn).holds.trans (List.prefix_append x _)⟩

/-- A closing tag is read as the same listed name as the opening tag of its element. -/
theorem tagsFrom_closeTag (hnames : ∀ n ∈ names, IsPlainName n) {x : Text}
    (hx : IsPlainName x) (rest : Text) :
    tagsFrom names 0 (closeTag x ++ rest) =
      ((firstName names x).map Tag.closing).toList ++ tagsFrom names 0 rest := by
  have hcand : candidate names ('<' :: ('/' :: (x ++ ['>']) ++ rest)) =
      (firstName names x).map Tag.closing := by
    rw [List.cons_append, candidate_slash fun n hn => (hnames n hn).2.2.2, List.append_assoc,
      List.singleton_append, firstName_append_cons fun n hn => (hnames n hn).2.1]
  have hgap : '<' ∉ '/' :: (x ++ ['>']) := by simp [hx.1]
  rw [closeTag, List.cons_append, tagsFrom_delimited hgap, hcand]
  intro t ht
  obtain ⟨n, hn, rfl⟩ := Option.map_eq_some_iff.mp (hcand.symm.trans ht)
  rw [closing_prefix_cons, List.cons_prefix_cons]
  exact ⟨rfl, rfl, (firstName_eq_some_iff.mp hn).holds.trans (List.prefix_append x _)⟩

theorem tagsFrom_render (hnames : ∀ n ∈ names, IsPlainName n) (f : Forest) (rest : Text) :
    tagsFrom names 0 (f.render ++ rest) = f.tags names ++ tagsFrom names 0 rest := by
  induction f generalizing rest with
  | nil => rfl
  | text s hs tail ih => rw [render, List.append_assoc, tagsFrom_append_of_notMem hs, ih, tags]
  | element x attrs hx hattrs children tail ihchildren ihtail =>
    rw [render, List.append_assoc, tagsFrom_openTag hnames hx hattrs, List.append_assoc,
      ihchildren, List.append_assoc, tagsFrom_closeTag hnames hx, ihtail, tags]
    cases firstName names x <;> simp

/-- The scanner reads well-nested markup as the tags of its listed elements, and the check
reports nothing on it. -/
theorem tags_render_and_check_render (l : AllowList) (hl : ∀ n ∈ l.names, IsPlainName n)
    (f : Forest) : l.tags f.render = f.tags l.names ∧ l.check f.render = [] := by
  have htags : l.tags f.render = f.tags l.names := by
    have h := tagsFrom_render hl f []
    rwa [List.append_nil, tagsFrom, List.append_nil] at h
  refine ⟨htags, ?_⟩
  rw [AllowList.check, htags]
  exact (wellNested_tags f).diagnostics_eq

def track : Forest :=
  .element "track".toList " a='>'".toList (by decide) (by decide)
    (.text "x".toList (by decide)
      (.element "section".toList [] (by decide) (by decide)
        (.element "path".toList " /".toList (by decide) (by decide) .nil .nil) .nil)) .nil

/-- The standard names are plain. They read a track as a table row and a path as a
paragraph, and see no section. -/
theorem tags_render_track :
    (∀ n ∈ AllowList.standard.names, IsPlainName n) ∧
      AllowList.standard.tags track.render =
        [.opening "tr".toList, .opening "p".toList, .closing "p".toList, .closing "tr".toList] ∧
      AllowList.standard.check track.render = [] := by
  have hplain : ∀ n ∈ AllowList.standard.names, IsPlainName n := by decide +kernel
  obtain ⟨htags, hcheck⟩ := tags_render_and_check_render AllowList.standard hplain track
  have htrack : track.tags AllowList.standard.names =
      [.opening "tr".toList, .opening "p".toList, .closing "p".toList, .closing "tr".toList] := by
    decide +kernel
  exact ⟨hplain, htags.trans htrack, hcheck⟩

end Forest

end TagBalance
