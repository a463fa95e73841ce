import TagBalance.Proofs.Layering

/-!
Overrides by keys that are spelled differently. A key is accepted if it spells a path, and only
then. Two paths are alike if they have the same indices and their identifiers differ in the case
of letters at most. Setting a value goes through the tables by identifiers in small letters and
through the arrays by the indices themselves, so that paths that are alike lead to one place.
-/
namespace TagBalance

namespace Text

theorem lower_map_toLower (s : Text) : lower (s.map Char.toLower) = lower s := by
  rw [lower, List.map_map, lower]
  apply List.map_congr_left
  intro c _
  by_cases hascii : c.toNat < 128
  · exact forall_ascii (P := fun c => lowerChar c.toLower = lowerChar c) (by decide +kernel) hascii
  · rw [Function.comp_apply, toLower_eq_self hascii]

theorem lower_eq_of_map_toLower_eq {s t : Text} (h : s.map Char.toLower = t.map Char.toLower) :
    lower s = lower t := by
  rw [← lower_map_toLower s, h, lower_map_toLower]

end Text

namespace Config

open TagNames

/-- The same index, or two identifiers that differ in the case of letters at most. -/
inductive Step.Alike : Step → Step → Prop
  | field {a b : Text} (h : a.map Char.toLower = b.map Char.toLower) :
    Step.Alike (.field a) (.field b)
  | index (i : Int) : Step.Alike (.index i) (.index i)

def KeyPath.Alike (p q : KeyPath) : Prop := List.Forall₂ Step.Alike p.toSteps q.toSteps

namespace Value

theorem setField_eq_of_lower_eq {a b : Text} (h : Text.lower a = Text.lower b)
    (new here : Value) : setField a new here = setField b new here := by
  rw [setField_eq, setField_eq, h]

theorem setAt_eq_of_alike {a b : List Step} (h : List.Forall₂ Step.Alike a b)
    (new here : Value) : setAt a new here = setAt b new here := by
  induction h generalizing here with
  | nil => rfl
  | cons hstep hrest ih =>
    cases hstep with
    | index i => simp only [setAt, ih]
    | field hname =>
      have hlower := Text.lower_eq_of_map_toLower_eq hname
      -- A table is merged in at the last field, and a field on the way only leads further down.
      cases hrest with
      | nil => simp only [setAt, setField_eq_of_lower_eq hlower]
      | cons _ _ => simp only [setAt, hlower, ih]

theorem set_eq_of_alike {p q : KeyPath} (h : p.Alike q) (root new : Value) :
    root.set p new = root.set q new :=
  setAt_eq_of_alike h new root

end Value

namespace Layers

theorem isOk_apply_override_iff (l : Layers) (key : Text) (v : Value) :
    (l.apply (.override key v)).isOk ↔ ∃ p, KeyPath.Spells p key := by
  simp only [← KeyPath.parse_eq_ok_iff]
  rw [apply]
  cases KeyPath.parse key with
  | error e => simp [Except.map, Except.isOk, Except.toBool]
  | ok p => simp [Except.map, Except.isOk, Except.toBool]

theorem build_eq_of_alike {p q : KeyPath} (h : p.Alike q) (tree : FileTree)
    (files : List FileLayer) (v : Value) :
    (Layers.mk files [(p, v)]).build tree = (Layers.mk files [(q, v)]).build tree := by
  have hoverride : mergeOverrides [(p, v)] = mergeOverrides [(q, v)] := by
    funext root
    rw [mergeOverrides, mergeOverrides, Value.set_eq_of_alike h]
  simp only [build, root, documents, hoverride]

/-- An override is accepted exactly if its key spells a path. Over any files, as the only
override, it comes to the same under all keys whose paths are alike. -/
theorem isOk_apply_override_iff_and_build_eq :
    (∀ (l : Layers) (key : Text) (v : Value),
      (l.apply (.override key v)).isOk ↔ ∃ p, KeyPath.Spells p key) ∧
      ∀ (tree : FileTree) (before after : List Change) (key key' : Text) (p q : KeyPath)
        (v : Value), (∀ c ∈ before ++ after, c.AddsFile) → p.Spells key → q.Spells key' →
        p.Alike q → ∃ layers layers' : Layers,
          base.applyAll (before ++ .override key v :: after) = .ok layers ∧
            base.applyAll (before ++ .override key' v :: after) = .ok layers' ∧
            layers.build tree = layers'.build tree := by
  refine ⟨isOk_apply_override_iff, ?_⟩
  intro tree before after key key' p q v hfiles hkey hkey' halike
  exact ⟨_, _, applyAll_override hfiles (KeyPath.parse_eq_ok_iff.mpr hkey) v,
    applyAll_override hfiles (KeyPath.parse_eq_ok_iff.mpr hkey') v,
    build_eq_of_alike halike tree _ v⟩

def capitalKey : Text := "EXTRACTION.Tag_Names[ -01\t]".toList

def capitalPath : KeyPath := ⟨"EXTRACTION".toList, [.field "Tag_Names".toList, .index (-1)]⟩

/-- Between files of which one has to be there, and beside an index that no 64 bits hold. -/
theorem build_capitalKey :
    (∀ c ∈ projectChanges, c.AddsFile) ∧ capitalPath.Spells capitalKey ∧
      (¬ ∃ p, KeyPath.Spells p "tag_names[9223372036854775808]".toList) ∧
      ∃ layers layers' : Layers,
        base.applyAll (.override capitalKey (.text "ol".toList) :: projectChanges) = .ok layers ∧
          base.applyAll (.override "extraction.tag_names[-1]".toList (.text "ol".toList) ::
            projectChanges) = .ok layers' ∧
          layers.build projectFiles = layers'.build projectFiles := by
  have hfiles : ∀ c ∈ projectChanges, c.AddsFile := by decide
  have hcapital : capitalPath.Spells capitalKey := KeyPath.parse_eq_ok_iff.mp rfl
  have hsmall : KeyPath.Spells ⟨extractionKey, [.field namesKey, .index (-1)]⟩
      "extraction.tag_names[-1]".toList := KeyPath.parse_eq_ok_iff.mp rfl
  have halike : capitalPath.Alike ⟨extractionKey, [.field namesKey, .index (-1)]⟩ :=
    .cons (.field (by decide)) (.cons (.field (by decide)) (.cons (.index (-1)) .nil))
  obtain ⟨haccepted, hbuild⟩ := isOk_apply_override_iff_and_build_eq
  refine ⟨hfiles, hcapital, ?_, hbuild projectFiles [] projectChanges capitalKey _ capitalPath _ _
    hfiles hcapital hsmall halike⟩
  rw [← haccepted base _ .nil]
  decide

end Layers

end Config

end TagBalance
