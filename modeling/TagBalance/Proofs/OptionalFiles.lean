import TagBalance.Proofs.Layering

/-!
Files that are allowed and files that are required. The two differ only where no text is
found: an allowed file then counts for nothing. Where a text is found they fail alike, if it is
malformed or if its keys cannot be set, and so do all layers below and above them.
-/
namespace TagBalance.Config

open FileLayer

namespace Layers

variable {tree : FileTree} {path : Text}

theorem mergeFile_of_isReadable (h : IsReadable tree path) (root : Value) :
    mergeFile tree ⟨path, false⟩ root = mergeFile tree ⟨path, true⟩ root := by
  obtain ⟨text, hleads⟩ := h
  obtain ⟨file, hcontents⟩ := exists_contents_eq_ok_iff.mpr hleads
  simp only [mergeFile, hcontents]

theorem mergeFile_of_not_isReadable (h : ¬ IsReadable tree path) (root : Value) :
    mergeFile tree ⟨path, false⟩ root = .ok root := by
  rw [isReadable_iff, not_not, IsAbsent] at h
  cases hcontents : contents tree path with
  | ok content =>
    rw [hcontents] at h
    exact absurd h.symm Bool.false_ne_true
  | error e =>
    simp only [mergeFile, hcontents]
    rfl

theorem mergeFiles_cons_congr {l l' : FileLayer}
    (h : ∀ root, mergeFile tree l root = mergeFile tree l' root) (a b : List FileLayer)
    (root : Value) :
    mergeFiles tree (a ++ l :: b) root = mergeFiles tree (a ++ l' :: b) root := by
  have hcons : mergeFiles tree (l :: b) = mergeFiles tree (l' :: b) := by
    funext root'
    rw [mergeFiles, mergeFiles, h]
  rw [mergeFiles_append, mergeFiles_append, hcons]

theorem mergeFiles_cons_of_eq_ok {l : FileLayer} (h : ∀ root, mergeFile tree l root = .ok root)
    (a b : List FileLayer) (root : Value) :
    mergeFiles tree (a ++ l :: b) root = mergeFiles tree (a ++ b) root := by
  have hcons : mergeFiles tree (l :: b) = mergeFiles tree b := by
    funext root'
    rw [mergeFiles, h]
  rw [mergeFiles_append, mergeFiles_append, hcons]

theorem mergeFile_of_malformed {file text : Text}
    (hcontents : contents tree path = .ok (file, text)) (hread : Toml.read text = none)
    (required : Bool) (root : Value) :
    mergeFile tree ⟨path, required⟩ root = .error (.malformedFile file) := by
  simp only [mergeFile, hcontents, mergeText, hread, Option.getD_some]

theorem mergeFile_of_contents_eq_error {e : BuildError}
    (hcontents : contents tree path = .error e) (root : Value) :
    mergeFile tree ⟨path, true⟩ root = .error e := by
  simp only [mergeFile, hcontents, if_true]

/-- The first file that fails decides the outcome, whatever stands behind or above it. -/
theorem build_of_mergeFile_eq_error {a : List FileLayer} {os : List (KeyPath × Value)}
    {below : Value} (hbelow : documents tree ⟨a, os⟩ = .ok below) {l : FileLayer} {e : BuildError}
    (h : ∀ root, mergeFile tree l root = .error e) (b : List FileLayer)
    (overrides : List (KeyPath × Value)) :
    (Layers.mk (a ++ l :: b) overrides).build tree = .error e := by
  obtain ⟨defaults, hdefaults, hfiles⟩ := exists_of_bind_eq_ok hbelow
  have hmerge : mergeFiles tree (a ++ l :: b) defaults = .error e := by
    rw [mergeFiles_append, hfiles]
    change mergeFiles tree (l :: b) below = .error e
    rw [mergeFiles, h]
  have hdocuments : documents tree ⟨a ++ l :: b, overrides⟩ = .error e := by
    rw [documents, hdefaults]
    exact hmerge
  rw [build, root, hdocuments]
  rfl

/-- Between any other changes, allowing a file comes to the same as requiring it if its path
leads to a text, and to the same as leaving it out if it does not. If all below it can be merged,
a text that is malformed fails both times by the name of its file, and without a text the
required file fails. -/
theorem build_allowFile (tree : FileTree) (path : Text) (before after : List Change)
    (h : ∀ c ∈ before ++ after, c.IsAccepted) :
    ∃ below allowed required left : Layers,
      base.applyAll before = .ok below ∧
        base.applyAll (before ++ .allowFile path :: after) = .ok allowed ∧
        base.applyAll (before ++ .requireFile path :: after) = .ok required ∧
        base.applyAll (before ++ after) = .ok left ∧
        (IsReadable tree path → allowed.build tree = required.build tree) ∧
        (¬ IsReadable tree path → allowed.build tree = left.build tree) ∧
        ∀ merged, below.documents tree = .ok merged →
          (∀ text, LeadsTo tree path (Utf8.encode text) → Toml.read text = none →
            ∃ file, contents tree path = .ok (file, text) ∧
              allowed.build tree = .error (.malformedFile file) ∧
              required.build tree = .error (.malformedFile file)) ∧
          ∀ e, contents tree path = .error e → required.build tree = .error e := by
  obtain ⟨hbefore, hafter⟩ := List.forall_mem_append.mp h
  have hwith : ∀ c : Change, c.IsAccepted → ∀ d ∈ before ++ c :: after, d.IsAccepted :=
    fun c hc => List.forall_mem_append.mpr ⟨hbefore, List.forall_mem_cons.mpr ⟨hc, hafter⟩⟩
  refine ⟨_, _, _, _, applyAll_base hbefore, applyAll_base (hwith (.allowFile path) trivial),
    applyAll_base (hwith (.requireFile path) trivial), applyAll_base h, ?_⟩
  simp only [ofChanges, List.filterMap_append, List.filterMap_cons, Change.layer?,
    Change.setting?]
  refine ⟨?_, ?_, ?_⟩
  · intro hreadable
    exact build_congr (mergeFiles_cons_congr (mergeFile_of_isReadable hreadable) _ _) _
  · intro hnot
    exact build_congr (mergeFiles_cons_of_eq_ok (mergeFile_of_not_isReadable hnot) _ _) _
  · intro merged hmerged
    constructor
    · intro text hleads hread
      obtain ⟨file, hcontents⟩ := exists_contents_eq_ok_iff.mpr hleads
      have hfails := mergeFile_of_malformed hcontents hread
      exact ⟨file, hcontents, build_of_mergeFile_eq_error hmerged (hfails false) _ _,
        build_of_mergeFile_eq_error hmerged (hfails true) _ _⟩
    · intro e hcontents
      exact build_of_mergeFile_eq_error hmerged (mergeFile_of_contents_eq_error hcontents) _ _

def mixedFiles : FileTree :=
  [("lists.toml".toList, .file (Utf8.encode "[extraction]\ntag_names = ['ul']\n".toList)),
    ("broken.toml".toList, .file (Utf8.encode "[extraction\n".toList)),
    ("noise".toList, .file [0xFF])]

def around (c : List Change) : List Change :=
  .requireFile "lists".toList :: c ++
    [.override "extraction.tag_names[-1]".toList (.text "ol".toList)]

theorem build_allowFile_mixedFiles :
    (∀ c ∈ around [], c.IsAccepted) ∧
      IsReadable mixedFiles "broken".toList ∧ ¬ IsReadable mixedFiles "noise".toList ∧
      (∃ allowed required : Layers,
        base.applyAll (around [.allowFile "broken".toList]) = .ok allowed ∧
          base.applyAll (around [.requireFile "broken".toList]) = .ok required ∧
          allowed.build mixedFiles = required.build mixedFiles ∧
          allowed.build mixedFiles = .error (.malformedFile "broken.toml".toList) ∧
          required.build mixedFiles = .error (.malformedFile "broken.toml".toList)) ∧
      ∃ allowed required left : Layers,
        base.applyAll (around [.allowFile "noise".toList]) = .ok allowed ∧
          base.applyAll (around [.requireFile "noise".toList]) = .ok required ∧
          base.applyAll (around []) = .ok left ∧
          allowed.build mixedFiles = left.build mixedFiles ∧
          required.build mixedFiles = .error .fileNotText := by
  have haccepted : ∀ c ∈ around [], c.IsAccepted := by decide
  have hleads : LeadsTo mixedFiles "broken".toList (Utf8.encode "[extraction\n".toList) :=
    .suffixed "broken.toml".toList rfl rfl rfl
  have hbroken : IsReadable mixedFiles "broken".toList := ⟨_, hleads⟩
  have hmalformed : Toml.read "[extraction\n".toList = none := by decide +kernel
  have hnoise : contents mixedFiles "noise".toList = .error .fileNotText := rfl
  have hnot : ¬ IsReadable mixedFiles "noise".toList := by
    rw [isReadable_iff, not_not, IsAbsent, hnoise]
    rfl
  have hlists : ∀ c ∈ [Change.requireFile "lists".toList], IsPlainChange mixedFiles c := by
    decide +kernel
  -- all that stands below the files in question merges, so they decide the outcome
  obtain ⟨merged, hmerged, -, -⟩ := exists_documents hlists []
  obtain ⟨below, allowed, required, -, hbelow, hallowed, hrequired, -, hsame, -, hfails⟩ :=
    build_allowFile mixedFiles "broken".toList [.requireFile "lists".toList] [_] haccepted
  obtain rfl := Except.ok.inj hbelow
  obtain ⟨file, hfile, herror, herror'⟩ := (hfails merged hmerged).1 _ hleads hmalformed
  obtain rfl : "broken.toml".toList = file := congrArg Prod.fst (Except.ok.inj hfile)
  obtain ⟨below, allowed', required', left, hbelow, hallowed', hrequired', hleft, -, hleave,
      hfails'⟩ :=
    build_allowFile mixedFiles "noise".toList [.requireFile "lists".toList] [_] haccepted
  obtain rfl := Except.ok.inj hbelow
  exact ⟨haccepted, hbroken, hnot,
    ⟨allowed, required, hallowed, hrequired, hsame hbroken, herror, herror'⟩,
    allowed', required', left, hallowed', hrequired', hleft, hleave hnot,
    (hfails' merged hmerged).2 _ hnoise⟩

end Layers

end TagBalance.Config
