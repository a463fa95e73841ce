import TagBalance.Proofs.PlainDocuments
import TagBalance.AllowList

/-!
Which layer decides the list of tag names. The last plain document with a list wins over all
documents before it, and the last override over all documents, wherever it stands among them.
-/
namespace TagBalance.Config

open TagNames

def document? (tree : FileTree) (path : Text) : Option (List (Text × Value)) :=
  match FileLayer.contents tree path with
  | .ok (file, text) => (Toml.read text).map (Value.entriesOfToml (some file))
  | .error _ => none

def IsPlainFile (tree : FileTree) (path : Text) : Prop :=
  ∃ es ∈ document? tree path, IsPlainDocument es

/-- There is no such file, or no text in it. -/
def IsAbsent (tree : FileTree) (path : Text) : Prop :=
  (FileLayer.contents tree path).isOk = false

def overrideKey : Text := extractionKey ++ '.' :: namesKey

/-- A change by a plain file, or by an override of the tag names as a whole. A file may be
absent where it is not required. -/
def IsPlainChange (tree : FileTree) : Change → Prop
  | .requireFile path => IsPlainFile tree path
  | .allowFile path => IsPlainFile tree path ∨ IsAbsent tree path
  | .override key value => key = overrideKey ∧ (texts? value).isSome

instance (tree : FileTree) (path : Text) : Decidable (IsPlainFile tree path) :=
  inferInstanceAs (Decidable (∃ es ∈ document? tree path, IsPlainDocument es))

instance (tree : FileTree) (path : Text) : Decidable (IsAbsent tree path) :=
  inferInstanceAs (Decidable (_ = false))

instance (tree : FileTree) : DecidablePred (IsPlainChange tree)
  | .requireFile path => inferInstanceAs (Decidable (IsPlainFile tree path))
  | .allowFile path => inferInstanceAs (Decidable (IsPlainFile tree path ∨ IsAbsent tree path))
  | .override _ value => inferInstanceAs (Decidable (_ = _ ∧ (texts? value).isSome))

namespace Change

def layer? : Change → Option FileLayer
  | requireFile path => some ⟨path, true⟩
  | allowFile path => some ⟨path, false⟩
  | override _ _ => none

def fileNames? (tree : FileTree) (c : Change) : Option (List Text) :=
  c.layer?.bind fun layer => (document? tree layer.path).bind names?

def overrideNames? : Change → Option (List Text)
  | override _ value => texts? value
  | _ => none

end Change

namespace Layers

theorem exists_mergeFile (tree : FileTree) (layer : FileLayer)
    (h : IsPlainFile tree layer.path ∨ layer.required = false ∧ IsAbsent tree layer.path)
    {root : Value} (hroot : IsTidy root) :
    ∃ root', mergeFile tree layer root = .ok root' ∧ IsTidy root' ∧
      namesAt root' = ((document? tree layer.path).bind names?).or (namesAt root) := by
  unfold mergeFile
  rcases h with ⟨es, hes, hplain⟩ | ⟨hrequired, habsent⟩
  · have hmerge := namesAt_setFields hplain root
    rw [Option.mem_def] at hes
    rw [hes]
    rw [document?] at hes
    cases hcontents : FileLayer.contents tree layer.path with
    | error e => simp [hcontents] at hes
    | ok content =>
      obtain ⟨file, text⟩ := content
      rw [hcontents] at hes
      obtain ⟨entries, hread, rfl⟩ := Option.map_eq_some_iff.mp hes
      refine ⟨_, ?_, hroot.setFields hplain, hmerge⟩
      simp only [mergeText, hread]
      exact mergeEntries_eq hplain.bare root
  · cases hcontents : FileLayer.contents tree layer.path with
    | ok content =>
      rw [IsAbsent, hcontents] at habsent
      simp [Except.isOk, Except.toBool] at habsent
    | error e =>
      refine ⟨root, ?_, hroot, ?_⟩
      · simp [hrequired]
      · simp [document?, hcontents]

theorem getLast?_cons_eq_or {α : Type} (a : α) (as : List α) :
    (a :: as).getLast? = as.getLast?.or (some a) := by
  rw [List.getLast?_cons]
  cases as.getLast? <;> rfl

/-- The files of plain changes are merged in their order, and the last one that gives tag
names decides. -/
theorem exists_mergeFiles {tree : FileTree} {changes : List Change}
    (h : ∀ c ∈ changes, IsPlainChange tree c) {root : Value} (hroot : IsTidy root) :
    ∃ root', mergeFiles tree (changes.filterMap Change.layer?) root = .ok root' ∧
      IsTidy root' ∧
      namesAt root' = (changes.filterMap (Change.fileNames? tree)).getLast?.or (namesAt root) := by
  induction changes generalizing root with
  | nil => exact ⟨root, rfl, hroot, rfl⟩
  | cons c changes ih =>
    obtain ⟨hc, hchanges⟩ := List.forall_mem_cons.mp h
    cases hlayer : c.layer? with
    | none =>
      obtain ⟨root', hmerge, htidy, hnames⟩ := ih hchanges hroot
      have hfile : c.fileNames? tree = none := by rw [Change.fileNames?, hlayer, Option.bind_none]
      rw [List.filterMap_cons_none hlayer, List.filterMap_cons_none hfile]
      exact ⟨root', hmerge, htidy, hnames⟩
    | some layer =>
      have hplain : IsPlainFile tree layer.path ∨
          layer.required = false ∧ IsAbsent tree layer.path := by
        cases c with
        | requireFile path =>
          obtain rfl := Option.some.inj hlayer
          exact Or.inl hc
        | allowFile path =>
          obtain rfl := Option.some.inj hlayer
          exact hc.imp_right fun habsent => ⟨rfl, habsent⟩
        | override key value => simp [Change.layer?] at hlayer
      obtain ⟨root₁, hfirst, htidy₁, hnames₁⟩ := exists_mergeFile tree layer hplain hroot
      obtain ⟨root', hmerge, htidy, hnames⟩ := ih hchanges htidy₁
      refine ⟨root', ?_, htidy, ?_⟩
      · rw [List.filterMap_cons_some hlayer]
        simp only [mergeFiles, hfirst]
        exact hmerge
      · have hfile : c.fileNames? tree = (document? tree layer.path).bind names? := by
          rw [Change.fileNames?, hlayer, Option.bind_some]
        rw [hnames, hnames₁, ← hfile]
        cases hc : c.fileNames? tree with
        | none => rw [List.filterMap_cons_none hc, Option.none_or]
        | some names =>
          rw [List.filterMap_cons_some hc, getLast?_cons_eq_or, Option.or_assoc]

def namesPath : KeyPath := ⟨extractionKey, [.field namesKey]⟩

def overriding : Option Value → List (KeyPath × Value)
  | none => []
  | some v => [(namesPath, v)]

theorem parse_overrideKey : KeyPath.parse overrideKey = .ok namesPath := by rfl

theorem addOverride_overriding (v : Value) (o : Option Value) :
    addOverride namesPath v (overriding o) = overriding (some v) := by
  cases o with
  | none => rfl
  | some v' => exact if_pos rfl

/-- Plain changes are all accepted. They add their files in their order, and the last of their
overrides is the only one that is kept. -/
theorem exists_applyAll {tree : FileTree} {changes : List Change}
    (h : ∀ c ∈ changes, IsPlainChange tree c) (files : List FileLayer) (o : Option Value)
    (ho : ∀ v ∈ o, (texts? v).isSome) :
    ∃ o', (Layers.mk files (overriding o)).applyAll changes =
        .ok ⟨files ++ changes.filterMap Change.layer?, overriding o'⟩ ∧
      (∀ v ∈ o', (texts? v).isSome) ∧
      o'.bind texts? = (changes.filterMap Change.overrideNames?).getLast?.or (o.bind texts?) := by
  induction changes generalizing files o with
  | nil => exact ⟨o, by rw [List.filterMap_nil, List.append_nil]; rfl, ho, rfl⟩
  | cons c changes ih =>
    obtain ⟨hc, hchanges⟩ := List.forall_mem_cons.mp h
    cases c with
    | requireFile path =>
      obtain ⟨o', hlayers, ho', hnames⟩ := ih hchanges (files ++ [⟨path, true⟩]) o ho
      refine ⟨o', ?_, ho', hnames⟩
      rw [List.append_assoc] at hlayers
      exact hlayers
    | allowFile path =>
      obtain ⟨o', hlayers, ho', hnames⟩ := ih hchanges (files ++ [⟨path, false⟩]) o ho
      refine ⟨o', ?_, ho', hnames⟩
      rw [List.append_assoc] at hlayers
      exact hlayers
    | override key value =>
      obtain ⟨rfl, htexts⟩ := hc
      obtain ⟨names, hvalue⟩ := Option.isSome_iff_exists.mp htexts
      obtain ⟨o', hlayers, ho', hnames⟩ := ih hchanges files (some value)
        (fun v hv => Option.some.inj hv ▸ htexts)
      refine ⟨o', ?_, ho', ?_⟩
      · rw [← addOverride_overriding value o] at hlayers
        rw [applyAll, apply, parse_overrideKey]
        exact hlayers
      · have hoverride : Change.overrideNames? (.override overrideKey value) = some names := hvalue
        rw [hnames, List.filterMap_cons_some hoverride, getLast?_cons_eq_or, Option.or_assoc,
          Option.bind_some, hvalue, Option.some_or]

/-- Setting an array of texts as the tag names leaves exactly these names. -/
theorem exists_set_namesPath {v : Value} {names : List Text} (h : texts? v = some names)
    (root : Value) : ∃ root', root.set namesPath v = some root' ∧ namesAt root' = some names := by
  refine ⟨root.asTable.put (Text.lower extractionKey) (Value.setField namesKey v
    ((root.asTable.get? (Text.lower extractionKey)).getD .nil)), rfl, ?_⟩
  have hextraction : extractionKey = Text.lower extractionKey := by rfl
  have hnames : namesKey = Text.lower namesKey := by rfl
  have htexts : (texts? v).isSome := by rw [h]; rfl
  rw [namesAt, listAt, Value.get?_put, if_pos hextraction, Option.bind_some,
    Value.get?_setField, if_pos hnames, merged_of_texts? htexts, Option.bind_some, h]

theorem exists_mergeOverrides (o : Option Value) (ho : ∀ v ∈ o, (texts? v).isSome)
    (root : Value) :
    ∃ root', mergeOverrides (overriding o) root = .ok root' ∧
      namesAt root' = (o.bind texts?).or (namesAt root) := by
  cases o with
  | none => exact ⟨root, rfl, rfl⟩
  | some v =>
    obtain ⟨names, hv⟩ := Option.isSome_iff_exists.mp (ho v rfl)
    obtain ⟨root', hset, hnames⟩ := exists_set_namesPath hv root
    refine ⟨root', ?_, ?_⟩
    · simp only [overriding, mergeOverrides, hset]
    · rw [hnames, Option.bind_some, hv, Option.some_or]

/-- The default document is plain and lists the standard names. -/
theorem exists_defaultDocument :
    ∃ es, (Toml.read defaultDocument).map (Value.entriesOfToml none) = some es ∧
      IsPlainDocument es ∧ names? es = some AllowList.standardNames := by
  have h : ((Toml.read defaultDocument).map (Value.entriesOfToml none)).any
      (fun es => IsPlainDocument es ∧ names? es = some AllowList.standardNames) := by
    decide +kernel
  obtain ⟨es, hes, hplain⟩ := (Option.any_eq_true _ _).mp h
  exact ⟨es, hes, of_decide_eq_true hplain⟩

/-- The documents of plain changes come to a tidy table. The tag names in it are those of the
last file that gives any, and those of the defaults if there is none. -/
theorem exists_documents {tree : FileTree} {changes : List Change}
    (h : ∀ c ∈ changes, IsPlainChange tree c) (overrides : List (KeyPath × Value)) :
    ∃ below, documents tree ⟨changes.filterMap Change.layer?, overrides⟩ = .ok below ∧
      IsTidy below ∧
      namesAt below = some
        ((changes.filterMap (Change.fileNames? tree)).getLast?.getD AllowList.standardNames) := by
  obtain ⟨es, hread, hplain, hdefault⟩ := exists_defaultDocument
  obtain ⟨entries, hentries, rfl⟩ := Option.map_eq_some_iff.mp hread
  have hbase := namesAt_setFields hplain Value.emptyTable
  rw [hdefault, Option.some_or] at hbase
  obtain ⟨below, hmerge, htidy, hnames⟩ :=
    exists_mergeFiles h (IsTidy.emptyTable.setFields hplain)
  refine ⟨below, ?_, htidy, ?_⟩
  · rw [documents, mergeText, hentries]
    simp only [mergeEntries_eq hplain.bare]
    exact hmerge
  · rw [hnames, hbase]
    cases (changes.filterMap (Change.fileNames? tree)).getLast? <;> rfl

/-- Reading the keys of a tidy table once more leaves its names as they are. -/
theorem exists_settled {below : Value} {names : List Text} (htidy : IsTidy below)
    (hnames : namesAt below = some names) :
    ∃ settled, mergeEntries below.entries Value.emptyTable = .ok settled ∧
      namesAt settled = some names := by
  obtain ⟨hplain, hagain⟩ := htidy.isPlainDocument hnames
  refine ⟨_, mergeEntries_eq hplain.bare Value.emptyTable, ?_⟩
  rw [namesAt_setFields hplain Value.emptyTable, hagain, Option.some_or]

theorem root_eq {tree : FileTree} {l : Layers} {below settled : Value}
    (hbelow : documents tree l = .ok below)
    (hsettled : mergeEntries below.entries Value.emptyTable = .ok settled) :
    root tree l = mergeOverrides l.overrides settled := by
  rw [root, hbelow]
  change (mergeEntries below.entries Value.emptyTable).bind (mergeOverrides l.overrides) = _
  rw [hsettled]
  rfl

/-- Reading the keys of a tidy table once more and setting an override leaves the names of the
override, or those that were there. -/
theorem exists_root {tree : FileTree} {files : List FileLayer} {o : Option Value}
    (ho : ∀ v ∈ o, (texts? v).isSome) {below : Value} {names : List Text}
    (hbelow : documents tree ⟨files, overriding o⟩ = .ok below) (htidy : IsTidy below)
    (hnames : namesAt below = some names) :
    ∃ top, root tree ⟨files, overriding o⟩ = .ok top ∧
      namesAt top = some ((o.bind texts?).getD names) := by
  obtain ⟨settled, hsettled, hkept⟩ := exists_settled htidy hnames
  obtain ⟨top, hmerge, htop⟩ := exists_mergeOverrides o ho settled
  refine ⟨top, ?_, ?_⟩
  · rw [root_eq hbelow hsettled]
    exact hmerge
  · rw [htop, hkept]
    cases o.bind texts? <;> rfl

theorem build_eq {tree : FileTree} {l : Layers} {top : Value} {names : List Text}
    (htop : l.root tree = .ok top) (hnames : namesAt top = some names) :
    l.build tree = .ok names := by
  have hread := ofRoot_of_namesAt hnames
  rw [build, htop]
  simp only [bind, Except.bind, hread]

/-- The list of tag names that plain files and an override come to. -/
theorem build_of_plain {tree : FileTree} {changes : List Change}
    (h : ∀ c ∈ changes, IsPlainChange tree c) {o : Option Value}
    (ho : ∀ v ∈ o, (texts? v).isSome) :
    (Layers.mk (changes.filterMap Change.layer?) (overriding o)).build tree =
      .ok ((o.bind texts?).getD
        ((changes.filterMap (Change.fileNames? tree)).getLast?.getD AllowList.standardNames)) := by
  obtain ⟨below, hbelow, htidy, hnames⟩ := exists_documents h (overriding o)
  obtain ⟨top, htop, hresult⟩ := exists_root ho hbelow htidy hnames
  exact build_eq htop hresult

/-- Plain changes, made in any order, are accepted and built. The tag names are those of the
last override, or else those of the last file that gives any, or else the standard ones. -/
theorem exists_applyAll_and_build (tree : FileTree) (changes : List Change)
    (h : ∀ c ∈ changes, IsPlainChange tree c) :
    ∃ layers, base.applyAll changes = .ok layers ∧
      layers.build tree = .ok ((changes.filterMap Change.overrideNames?).getLast?.getD
        ((changes.filterMap (Change.fileNames? tree)).getLast?.getD
          AllowList.standardNames)) := by
  obtain ⟨o, hlayers, ho, hoverride⟩ := exists_applyAll h [] none (by simp)
  refine ⟨_, hlayers, ?_⟩
  rw [List.nil_append, build_of_plain h ho, hoverride, Option.bind_none, Option.or_none]

def projectFiles : FileTree :=
  [("a.toml".toList, .file (Utf8.encode "[Extraction]\ntag_names = ['ul', 'li']\n".toList)),
    ("b.toml".toList, .file (Utf8.encode "x.y = 1\n[extraction.more]\n[tag_names]\n".toList))]

def projectChanges : List Change :=
  [.allowFile "none".toList, .requireFile "a".toList, .requireFile "./b.toml".toList]

def overriddenChanges : List Change :=
  .override overrideKey (.array none [.text "dl".toList]) :: projectChanges

theorem build_projectChanges :
    (∀ c ∈ projectChanges, IsPlainChange projectFiles c) ∧
      (∃ layers, base.applyAll projectChanges = .ok layers ∧
        layers.build projectFiles = .ok ["ul".toList, "li".toList]) ∧
      (∀ c ∈ overriddenChanges, IsPlainChange projectFiles c) ∧
      ∃ layers, base.applyAll overriddenChanges = .ok layers ∧
        layers.build projectFiles = .ok ["dl".toList] := by
  have hproject : ∀ c ∈ projectChanges, IsPlainChange projectFiles c := by decide +kernel
  have hoverridden : ∀ c ∈ overriddenChanges, IsPlainChange projectFiles c := by decide +kernel
  have hnames : (projectChanges.filterMap (Change.fileNames? projectFiles)).getLast? =
      some ["ul".toList, "li".toList] := by
    decide +kernel
  obtain ⟨layers, hlayers, hbuild⟩ := exists_applyAll_and_build _ _ hproject
  obtain ⟨layers', hlayers', hbuild'⟩ := exists_applyAll_and_build _ _ hoverridden
  rw [hnames] at hbuild
  exact ⟨hproject, ⟨layers, hlayers, hbuild⟩, hoverridden, layers', hlayers', hbuild'⟩

end Layers

/-- With no layer above the defaults the standard names are left. -/
theorem defaultNames_eq : defaultNames = .ok AllowList.standardNames :=
  @Layers.build_of_plain FileTree.empty [] (by simp) none (by simp)

end TagBalance.Config
