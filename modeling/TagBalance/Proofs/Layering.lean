import TagBalance.Proofs.Loading
import TagBalance.Proofs.Precedence

/-!
What a row of changes comes to, whatever the files hold. Accepted changes add their files in
order and their overrides above them, so that two rows with the same overrides are built alike
if their files are merged alike. A file can be merged if its path leads to a text.
-/
namespace TagBalance.Config

namespace Change

/-- Only an override whose key is no key path is refused. -/
def IsAccepted : Change → Prop
  | override key _ => (KeyPath.parse key).isOk
  | _ => True

instance : DecidablePred IsAccepted
  | requireFile _ => instDecidableTrue
  | allowFile _ => instDecidableTrue
  | override key _ => inferInstanceAs (Decidable ((KeyPath.parse key).isOk = true))

def setting? : Change → Option (KeyPath × Value)
  | override key value => (KeyPath.parse key).toOption.map fun p => (p, value)
  | _ => none

def AddsFile (c : Change) : Prop := c.layer?.isSome

instance : DecidablePred AddsFile := fun c => inferInstanceAs (Decidable (c.layer?.isSome = true))

namespace AddsFile

variable {c : Change}

theorem isAccepted (h : c.AddsFile) : c.IsAccepted := by
  cases c with
  | requireFile path => trivial
  | allowFile path => trivial
  | override key value => cases h

theorem setting?_eq_none (h : c.AddsFile) : c.setting? = none := by
  cases c with
  | requireFile path => rfl
  | allowFile path => rfl
  | override key value => cases h

end AddsFile

end Change

namespace FileLayer

/-- The path leads to a file with the content: to the one that it names, or else to the one
with the suffix. -/
inductive LeadsTo (tree : FileTree) (path : Text) (content : Utf8.Bytes) : Prop where
  | asGiven (h : tree.read path = .ok content)
  | suffixed (used : Text) (hpath : tree.isFile path = false)
      (hused : withSuffix? path = some used) (h : tree.read used = .ok content)

def IsReadable (tree : FileTree) (path : Text) : Prop :=
  ∃ text, LeadsTo tree path (Utf8.encode text)

variable {tree : FileTree} {path : Text} {content : Utf8.Bytes}

theorem isFile_of_read (h : tree.read path = .ok content) : tree.isFile path = true := by
  rw [FileTree.isFile, h]
  rfl

theorem leadsTo_iff :
    LeadsTo tree path content ↔ ∃ used, locate? tree path = some used ∧
      tree.read used = .ok content := by
  constructor
  · intro h
    cases h with
    | asGiven h => exact ⟨path, if_pos (isFile_of_read h), h⟩
    | suffixed used hpath hused h =>
      refine ⟨used, ?_, h⟩
      rw [locate?, hpath, hused]
      exact Option.filter_some_pos (isFile_of_read h)
  · rintro ⟨used, hlocate, h⟩
    rw [locate?] at hlocate
    by_cases hpath : tree.isFile path = true
    · rw [if_pos hpath] at hlocate
      exact .asGiven (Option.some.inj hlocate ▸ h)
    · rw [if_neg hpath] at hlocate
      exact .suffixed used (Bool.eq_false_iff.mpr hpath) (Option.filter_eq_some_iff.mp hlocate).1 h

theorem exists_contents_eq_ok_iff {text : Text} :
    (∃ file, contents tree path = .ok (file, text)) ↔
      LeadsTo tree path (Utf8.encode text) := by
  rw [leadsTo_iff, contents]
  cases hlocate : locate? tree path with
  | none => simp
  | some used =>
    cases hread : tree.read used with
    | error e => simp [hread]
    | ok content =>
      have hencode : content = Utf8.encode text ↔ Utf8.decode? content = some text := by
        rw [Utf8.decode?_eq_some_iff, eq_comm]
      cases hdecode : Utf8.decode? content <;> simp [hread, hencode, hdecode]

theorem isReadable_iff : IsReadable tree path ↔ ¬ IsAbsent tree path := by
  rw [IsReadable, IsAbsent]
  simp only [← exists_contents_eq_ok_iff]
  cases contents tree path with
  | error e => simp [Except.isOk, Except.toBool]
  | ok content =>
    obtain ⟨file, text⟩ := content
    simp [Except.isOk, Except.toBool]

end FileLayer

namespace Layers

def ofChanges (changes : List Change) : Layers :=
  ⟨changes.filterMap Change.layer?,
    (changes.filterMap Change.setting?).foldl (fun os s => addOverride s.1 s.2 os) []⟩

theorem applyAll_eq {changes : List Change} (h : ∀ c ∈ changes, c.IsAccepted) (l : Layers) :
    l.applyAll changes = .ok ⟨l.files ++ changes.filterMap Change.layer?,
      (changes.filterMap Change.setting?).foldl (fun os s => addOverride s.1 s.2 os)
        l.overrides⟩ := by
  induction changes generalizing l with
  | nil => rw [List.filterMap_nil, List.append_nil]; rfl
  | cons c changes ih =>
    obtain ⟨hc, hchanges⟩ := List.forall_mem_cons.mp h
    cases c with
    | requireFile path =>
      have hrest := ih hchanges { l with files := l.files ++ [⟨path, true⟩] }
      rw [List.append_assoc] at hrest
      exact hrest
    | allowFile path =>
      have hrest := ih hchanges { l with files := l.files ++ [⟨path, false⟩] }
      rw [List.append_assoc] at hrest
      exact hrest
    | override key value =>
      rw [Change.IsAccepted] at hc
      cases hparse : KeyPath.parse key with
      | error e =>
        rw [hparse] at hc
        exact absurd hc Bool.false_ne_true
      | ok p =>
        have hsetting : Change.setting? (.override key value) = some (p, value) := by
          rw [Change.setting?, hparse]
          rfl
        have hrest := ih hchanges { l with overrides := addOverride p value l.overrides }
        rw [applyAll, apply, hparse, List.filterMap_cons_some hsetting]
        exact hrest

theorem applyAll_base {changes : List Change} (h : ∀ c ∈ changes, c.IsAccepted) :
    base.applyAll changes = .ok (ofChanges changes) := by
  rw [applyAll_eq h, ofChanges, base, List.nil_append]

/-- The only override among files is the only one that is left, wherever it stands. -/
theorem ofChanges_override {before after : List Change}
    (h : ∀ c ∈ before ++ after, c.AddsFile) {key : Text} {p : KeyPath}
    (hparse : KeyPath.parse key = .ok p) (v : Value) :
    ofChanges (before ++ .override key v :: after) =
      ⟨(before ++ after).filterMap Change.layer?, [(p, v)]⟩ := by
  have hnone : (before ++ after).filterMap Change.setting? = [] :=
    List.filterMap_eq_nil_iff.mpr fun c hc => (h c hc).setting?_eq_none
  rw [List.filterMap_append, List.append_eq_nil_iff] at hnone
  have hsetting : Change.setting? (.override key v) = some (p, v) := by
    rw [Change.setting?, hparse]
    rfl
  have hlayer : Change.layer? (.override key v) = none := rfl
  rw [ofChanges, List.filterMap_append, List.filterMap_append, List.filterMap_cons_none hlayer,
    List.filterMap_cons_some hsetting, hnone.1, hnone.2, List.filterMap_append]
  rfl

theorem applyAll_override {before after : List Change}
    (h : ∀ c ∈ before ++ after, c.AddsFile) {key : Text} {p : KeyPath}
    (hparse : KeyPath.parse key = .ok p) (v : Value) :
    base.applyAll (before ++ .override key v :: after) =
      .ok ⟨(before ++ after).filterMap Change.layer?, [(p, v)]⟩ := by
  obtain ⟨hbefore, hafter⟩ := List.forall_mem_append.mp h
  have hkey : (Change.override key v).IsAccepted := by
    rw [Change.IsAccepted, hparse]
    rfl
  rw [← ofChanges_override h hparse v]
  apply applyAll_base
  exact List.forall_mem_append.mpr ⟨fun c hc => (hbefore c hc).isAccepted,
    List.forall_mem_cons.mpr ⟨hkey, fun c hc => (hafter c hc).isAccepted⟩⟩

theorem mergeFiles_append (tree : FileTree) (a b : List FileLayer) (root : Value) :
    mergeFiles tree (a ++ b) root = (mergeFiles tree a root).bind (mergeFiles tree b) := by
  induction a generalizing root with
  | nil => rfl
  | cons l a ih =>
    rw [List.cons_append, mergeFiles, mergeFiles]
    cases mergeFile tree l root with
    | error e => rfl
    | ok root' => exact ih root'

/-- Layers with the same overrides are built alike if their files are merged alike. -/
theorem build_congr {tree : FileTree} {a b : List FileLayer}
    (h : ∀ root, mergeFiles tree a root = mergeFiles tree b root)
    (overrides : List (KeyPath × Value)) :
    (Layers.mk a overrides).build tree = (Layers.mk b overrides).build tree := by
  have hmerge : mergeFiles tree a = mergeFiles tree b := funext h
  simp only [build, root, documents, hmerge]

/-- A file that is merged holds a document, or it is not required and holds no text. -/
theorem exists_document?_or_isAbsent {tree : FileTree} {layer : FileLayer} {root root' : Value}
    (h : mergeFile tree layer root = .ok root') :
    (∃ es, document? tree layer.path = some es) ∨
      layer.required = false ∧ IsAbsent tree layer.path := by
  rw [mergeFile] at h
  cases hcontents : FileLayer.contents tree layer.path with
  | ok content =>
    obtain ⟨file, text⟩ := content
    rw [hcontents] at h
    cases hread : Toml.read text with
    | none => simp [mergeText, hread] at h
    | some entries =>
      refine Or.inl ⟨Value.entriesOfToml (some file) entries, ?_⟩
      simp only [document?, hcontents, hread, Option.map_some]
  | error e =>
    cases hrequired : layer.required with
    | true => simp [hcontents, hrequired] at h
    | false =>
      refine Or.inr ⟨rfl, ?_⟩
      rw [IsAbsent, hcontents]
      rfl

theorem exists_mergeFile_of_mem {tree : FileTree} {layers : List FileLayer} {root root' : Value}
    (h : mergeFiles tree layers root = .ok root') {layer : FileLayer} (hmem : layer ∈ layers) :
    ∃ below above, mergeFile tree layer below = .ok above := by
  induction layers generalizing root with
  | nil => simp at hmem
  | cons l layers ih =>
    rw [mergeFiles] at h
    cases hfirst : mergeFile tree l root with
    | error e => simp [hfirst] at h
    | ok above =>
      rcases List.mem_cons.mp hmem with rfl | hmem
      · exact ⟨root, above, hfirst⟩
      · rw [hfirst] at h
        exact ih h hmem

theorem exists_of_bind_eq_ok {ε α β : Type} {x : Except ε α} {f : α → Except ε β} {b : β}
    (h : x >>= f = .ok b) : ∃ a, x = .ok a ∧ f a = .ok b := by
  cases x with
  | error e => exact absurd h (by simp [bind, Except.bind])
  | ok a => exact ⟨a, rfl, h⟩

/-- All files of layers that can be built were merged. -/
theorem exists_mergeFiles_of_build {tree : FileTree} {l : Layers} {names : List Text}
    (h : l.build tree = .ok names) :
    ∃ below above, mergeFiles tree l.files below = .ok above := by
  obtain ⟨top, htop, -⟩ := exists_of_bind_eq_ok h
  obtain ⟨documents, hdocuments, -⟩ := exists_of_bind_eq_ok htop
  obtain ⟨below, -, hfiles⟩ := exists_of_bind_eq_ok hdocuments
  exact ⟨below, documents, hfiles⟩

end Layers

end TagBalance.Config
