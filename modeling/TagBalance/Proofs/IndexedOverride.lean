import TagBalance.Proofs.Layering

/-!
An override of one tag name, given by its index. The key spells the index that was written in
it, and the index is counted from the end of the list if it is negative. Setting the value there
changes that name, or adds one right behind the last; below the first name there is nothing to
set.
-/
namespace TagBalance

namespace Config

open TagNames

namespace KeyPath

theorem isNumeral_ofNat (n : Nat) : IsNumeral (Text.ofNat n) :=
  ⟨Nat.toDigits_ne_nil, fun _ hc => Nat.isDigit_of_mem_toDigits (by decide) (by decide) hc⟩

theorem ofDigitChars_ofNat (n : Nat) : Nat.ofDigitChars 10 (Text.ofNat n) 0 = n :=
  Nat.ofDigitChars_toDigits (by decide) (by decide)

/-- An integer that is written in decimal spells itself. -/
theorem spellsInt_ofInt (i : Int) : SpellsInt i (Text.ofInt i) := by
  cases i with
  | ofNat n =>
    have h := SpellsInt.plain (isNumeral_ofNat n)
    rwa [ofDigitChars_ofNat] at h
  | negSucc n =>
    have h := SpellsInt.minus (isNumeral_ofNat (n + 1))
    rwa [ofDigitChars_ofNat] at h

def ofIndex (i : Int) : Text := overrideKey ++ '[' :: (Text.ofInt i ++ [']'])

end KeyPath

def indexPath (i : Int) : KeyPath := ⟨extractionKey, [.field namesKey, .index i]⟩

theorem spells_ofIndex (i : Int64) : (indexPath i.toInt).Spells (KeyPath.ofIndex i.toInt) := by
  have hextraction : KeyPath.IsIdentifier extractionKey :=
    @KeyPath.isIdentifier_takeWhile extractionKey (by decide)
  have hnames : KeyPath.IsIdentifier namesKey :=
    @KeyPath.isIdentifier_takeWhile namesKey (by decide)
  have hblanks : KeyPath.IsBlanks [] := fun _ hc => absurd hc List.not_mem_nil
  refine ⟨hextraction, _, .cons (.field hnames) (.cons
    (.index i hblanks (KeyPath.spellsInt_ofInt i.toInt) hblanks) .nil), ?_⟩
  simp [KeyPath.ofIndex, overrideKey, indexPath]

theorem parse_ofIndex {i : Int} (hi : Toml.fitsInt64 i) :
    KeyPath.parse (KeyPath.ofIndex i) = .ok (indexPath i) := by
  obtain ⟨n, rfl⟩ := Toml.fitsInt64_iff.mp hi
  exact KeyPath.parse_eq_ok_iff.mpr (spells_ofIndex n)

/-- The elements with one more of them set: in its place, or behind all others. -/
theorem set_padded {items : List Value} {n : Nat} (hn : n ≤ items.length) (v : Value) :
    (Value.padded items (n + 1)).set n v =
      if n < items.length then items.set n v else items ++ [v] := by
  rw [Value.padded]
  split_ifs with hlt
  · have hzero : n + 1 - items.length = 0 := by omega
    rw [hzero, List.replicate_zero, List.append_nil]
  · obtain rfl : n = items.length := by omega
    have hone : items.length + 1 - items.length = 1 := by omega
    rw [hone, List.set_append_right _ _ (Nat.le_refl _), Nat.sub_self]
    rfl

/-- The names with another one in the given place, which may lie right behind the last. -/
def putName (names : List Text) (n : Nat) (v : Text) : List Text :=
  if n < names.length then names.set n v else names ++ [v]

theorem set_padded_map_text {names : List Text} {n : Nat} (hn : n ≤ names.length) (v : Text) :
    (Value.padded (names.map .text) (n + 1)).set n (.text v) =
      (putName names n v).map .text := by
  have hlength : (names.map Value.text).length = names.length := List.length_map _
  rw [set_padded (by rw [hlength]; exact hn), hlength, putName]
  split_ifs with hlt
  · rw [List.map_set]
  · rw [List.map_append, List.map_singleton]

theorem setAt_index (i : Int) (new : Value) (file : Option Text) (items : List Value) :
    Value.setAt [.index i] new (.array file items) =
      (Value.position? i items.length).map fun n =>
        .array file ((Value.padded items (n + 1)).set n new) := by
  change ((Value.position? i items.length).bind fun n => (Value.setAt [] new _).map fun v =>
    Value.array file ((Value.padded items (n + 1)).set n v)) = _
  cases Value.position? i items.length <;> rfl

theorem set_indexPath {root extraction : Value} {file : Option Text} {items : List Value}
    (hroot : root.get? extractionKey = some extraction)
    (hitems : extraction.get? namesKey = some (.array file items)) (i : Int) (new : Value) :
    root.set (indexPath i) new = (Value.position? i items.length).map fun n =>
      root.asTable.put extractionKey (extraction.asTable.put namesKey
        (.array file ((Value.padded items (n + 1)).set n new))) := by
  have hextraction : Text.lower extractionKey = extractionKey := by rfl
  have hnames : Text.lower namesKey = namesKey := by rfl
  change ((Value.setAt [.field namesKey, .index i] new
    ((root.asTable.get? (Text.lower extractionKey)).getD .nil)).map fun v =>
      root.asTable.put (Text.lower extractionKey) v) = _
  rw [hextraction, Value.get?_asTable, hroot, Option.getD_some]
  change (((Value.setAt [.index i] new
    ((extraction.asTable.get? (Text.lower namesKey)).getD .nil)).map fun v =>
      extraction.asTable.put (Text.lower namesKey) v).map _) = _
  rw [hnames, Value.get?_asTable, hitems, Option.getD_some, setAt_index, Option.map_map,
    Option.map_map]
  rfl

theorem exists_namesFrom_eq_error (place : Text) {v : Value} {items : List Value} (hv : v ∈ items)
    (hname : name? v = none) (k : Nat) : ∃ e, namesFrom place k items = .error e := by
  induction items generalizing k with
  | nil => simp at hv
  | cons w items ih =>
    cases hw : name? w with
    | none => exact ⟨_, by rw [namesFrom, hw]⟩
    | some name =>
      have hrest : v ∈ items := by
        rcases List.mem_cons.mp hv with rfl | hrest
        · rw [hname] at hw
          exact absurd hw (Option.some_ne_none name).symm
        · exact hrest
      obtain ⟨e, he⟩ := ih hrest (k + 1)
      refine ⟨e, ?_⟩
      rw [namesFrom, hw]
      change (namesFrom place (k + 1) items).map (name :: ·) = .error e
      rw [he]
      rfl

section AtNames

variable {root : Value} {names : List Text}

/-- An index sets nothing where it has no place, and else one element of the list, which is
padded up to it. -/
theorem exists_set_indexPath (h : namesAt root = some names) (i : Int) (new : Value) :
    (Value.position? i names.length = none → root.set (indexPath i) new = none) ∧
      ∀ n, Value.position? i names.length = some n → ∃ root' file,
        root.set (indexPath i) new = some root' ∧
          listAt root' =
            some (.array file ((Value.padded (names.map .text) (n + 1)).set n new)) := by
  obtain ⟨array, harray, htexts⟩ := Option.bind_eq_some_iff.mp h
  obtain ⟨extraction, hroot, hlist⟩ := Option.bind_eq_some_iff.mp harray
  obtain ⟨file, rfl⟩ := texts?_eq_some_iff.mp htexts
  have hset := set_indexPath hroot hlist i new
  rw [List.length_map] at hset
  constructor
  · intro hnone
    rw [hset, hnone, Option.map_none]
  · intro n hsome
    rw [hsome, Option.map_some] at hset
    refine ⟨_, file, hset, ?_⟩
    rw [listAt, Value.get?_put, if_pos rfl, Option.bind_some, Value.get?_put, if_pos rfl]

/-- Up to the place right behind the last name the elements stay names. -/
theorem namesAt_of_listAt {file : Option Text} {n : Nat} (hn : n ≤ names.length) {v : Text}
    (h : listAt root =
      some (.array file ((Value.padded (names.map .text) (n + 1)).set n (.text v)))) :
    namesAt root = some (putName names n v) := by
  rw [set_padded_map_text hn] at h
  rw [namesAt, h, Option.bind_some, texts?_eq_some_iff]
  exact ⟨file, rfl⟩

/-- Further behind there is a hole between the last name and the new element. -/
theorem exists_ofRoot_eq_error {file : Option Text} {n : Nat} (hn : names.length < n) {new : Value}
    (h : listAt root =
      some (.array file ((Value.padded (names.map .text) (n + 1)).set n new))) :
    ∃ e, ofRoot root = .error e := by
  have hhole : Value.nil ∈ (Value.padded (names.map .text) (n + 1)).set n new := by
    apply List.mem_of_getElem? (i := names.length)
    rw [List.getElem?_set_ne (by omega), Value.padded,
      List.getElem?_append_right (by rw [List.length_map]), List.length_map, Nat.sub_self,
      List.getElem?_replicate_of_lt (by omega)]
  obtain ⟨e, he⟩ := exists_namesFrom_eq_error (extractionKey ++ '.' :: namesKey) hhole rfl 0
  refine ⟨e, ?_⟩
  rw [ofRoot_of_listAt h]
  exact he

end AtNames

/-- The place of an index within a list, or right behind it. -/
theorem position?_eq {i : Int} {size n : Nat} (hn : n ≤ size)
    (hi : i = n ∨ i < 0 ∧ i + size = n) : Value.position? i size = some n := by
  rw [Value.position?]
  rcases hi with rfl | ⟨hneg, hsum⟩
  · have hbound : n < size + Value.maxPadding := by
      rw [Value.maxPadding]
      omega
    rw [if_pos (Int.natCast_nonneg n), Int.toNat_natCast, if_pos hbound]
  · rw [if_neg (by omega), if_pos (by omega)]
    congr 1
    omega

theorem position?_eq_none {i : Int} {size : Nat} (hi : i < -size) :
    Value.position? i size = none := by
  rw [Value.position?, if_neg (by omega), if_neg (by omega)]

/-- An index behind the end counts from the start, whether or not the list is padded so far. -/
theorem lt_of_position? {i : Int} {size n : Nat} (hi : size < i)
    (h : Value.position? i size = some n) : size < n := by
  rw [Value.position?, if_pos (by omega)] at h
  split_ifs at h
  obtain rfl := Option.some.inj h
  omega

/-- The change adds a file. If there is a document in it, this is a plain one. -/
def AddsPlainFile (tree : FileTree) (c : Change) : Prop :=
  ∃ layer ∈ c.layer?, ∀ es ∈ document? tree layer.path, IsPlainDocument es

instance (tree : FileTree) : DecidablePred (AddsPlainFile tree) :=
  fun c => inferInstanceAs (Decidable (∃ layer ∈ c.layer?, _))

namespace AddsPlainFile

variable {tree : FileTree} {c : Change}

theorem addsFile (h : AddsPlainFile tree c) : c.AddsFile := by
  obtain ⟨layer, hlayer, -⟩ := h
  exact Option.isSome_of_mem hlayer

theorem isAccepted (h : AddsPlainFile tree c) : c.IsAccepted := h.addsFile.isAccepted

theorem setting?_eq_none (h : AddsPlainFile tree c) : c.setting? = none :=
  h.addsFile.setting?_eq_none

/-- In layers that can be built the file is there, or need not be there. -/
theorem isPlainChange {l : Layers} {names : List Text} (h : AddsPlainFile tree c)
    (hmem : ∀ layer ∈ c.layer?, layer ∈ l.files) (hbuild : l.build tree = .ok names) :
    IsPlainChange tree c := by
  obtain ⟨layer, hlayer, hplain⟩ := h
  obtain ⟨_, _, hfiles⟩ := Layers.exists_mergeFiles_of_build hbuild
  obtain ⟨_, _, hmerge⟩ := Layers.exists_mergeFile_of_mem hfiles (hmem layer hlayer)
  have hfound := Layers.exists_document?_or_isAbsent hmerge
  cases c with
  | requireFile path =>
    obtain rfl := Option.some.inj hlayer
    rcases hfound with ⟨es, hes⟩ | ⟨hrequired, -⟩
    · exact ⟨es, hes, hplain es hes⟩
    · exact absurd hrequired.symm Bool.false_ne_true
  | allowFile path =>
    obtain rfl := Option.some.inj hlayer
    rcases hfound with ⟨es, hes⟩ | ⟨-, habsent⟩
    · exact Or.inl ⟨es, hes, hplain es hes⟩
    · exact Or.inr habsent
  | override key value => simp [Change.layer?] at hlayer

end AddsPlainFile

namespace Layers

/-- Over plain files one override is set in a table that holds the names they come to. -/
theorem exists_root_of_setting {tree : FileTree} {changes : List Change}
    (h : ∀ c ∈ changes, IsPlainChange tree c) {names : List Text}
    (hnames : (Layers.mk (changes.filterMap Change.layer?) []).build tree = .ok names)
    (p : KeyPath) (v : Value) :
    ∃ settled, namesAt settled = some names ∧
      (Layers.mk (changes.filterMap Change.layer?) [(p, v)]).root tree =
        mergeOverrides [(p, v)] settled := by
  have hbuild := @build_of_plain tree changes h none (by simp)
  obtain ⟨below, hbelow, htidy, hbelowNames⟩ := exists_documents h [(p, v)]
  obtain ⟨settled, hsettled, hkept⟩ := exists_settled htidy hbelowNames
  refine ⟨settled, ?_, root_eq hbelow hsettled⟩
  rw [hkept]
  exact congrArg some (Except.ok.inj (hbuild.symm.trans hnames))

theorem ofChanges_files {tree : FileTree} {changes : List Change}
    (h : ∀ c ∈ changes, AddsPlainFile tree c) :
    ofChanges changes = ⟨changes.filterMap Change.layer?, []⟩ := by
  have hnone : changes.filterMap Change.setting? = [] :=
    List.filterMap_eq_nil_iff.mpr fun c hc => (h c hc).setting?_eq_none
  rw [ofChanges, hnone, List.foldl_nil]

theorem ofChanges_files_and_override {tree : FileTree} {before after : List Change}
    (h : ∀ c ∈ before ++ after, AddsPlainFile tree c) {key : Text} {p : KeyPath}
    (hparse : KeyPath.parse key = .ok p) (v : Value) :
    ofChanges (before ++ .override key v :: after) =
      ⟨(before ++ after).filterMap Change.layer?, [(p, v)]⟩ :=
  ofChanges_override (fun c hc => (h c hc).addsFile) hparse v

section OneSetting

variable {tree : FileTree} {l : Layers} {settled : Value} {names : List Text} {i : Int} {v : Text}

theorem build_of_position?_eq_none (hsettled : namesAt settled = some names)
    (hroot : l.root tree = mergeOverrides [(indexPath i, .text v)] settled)
    (hposition : Value.position? i names.length = none) :
    l.build tree = .error .indexOutOfRange := by
  rw [build, hroot, mergeOverrides, (exists_set_indexPath hsettled i (.text v)).1 hposition]
  rfl

theorem exists_root_of_position? (hsettled : namesAt settled = some names)
    (hroot : l.root tree = mergeOverrides [(indexPath i, .text v)] settled) {n : Nat}
    (hposition : Value.position? i names.length = some n) :
    ∃ top file, l.root tree = .ok top ∧ listAt top =
      some (.array file ((Value.padded (names.map .text) (n + 1)).set n (.text v))) := by
  obtain ⟨top, file, htop, hlist⟩ := (exists_set_indexPath hsettled i (.text v)).2 n hposition
  refine ⟨top, file, ?_, hlist⟩
  rw [hroot, mergeOverrides, htop]
  rfl

/-- What a name comes to by its place, which is one of the list or the one right behind it. -/
theorem build_of_position? (hsettled : namesAt settled = some names)
    (hroot : l.root tree = mergeOverrides [(indexPath i, .text v)] settled) {n : Nat}
    (hn : n ≤ names.length) (hposition : Value.position? i names.length = some n) :
    l.build tree = .ok (putName names n v) := by
  obtain ⟨top, file, htop, hlist⟩ := exists_root_of_position? hsettled hroot hposition
  exact build_eq htop (namesAt_of_listAt hn hlist)

/-- Further behind there is no place, or one that leaves a hole. -/
theorem exists_build_eq_error (hsettled : namesAt settled = some names)
    (hroot : l.root tree = mergeOverrides [(indexPath i, .text v)] settled)
    (hi : names.length < i) : ∃ e, l.build tree = .error e := by
  cases hposition : Value.position? i names.length with
  | none => exact ⟨_, build_of_position?_eq_none hsettled hroot hposition⟩
  | some n =>
    obtain ⟨top, file, htop, hlist⟩ := exists_root_of_position? hsettled hroot hposition
    obtain ⟨e, he⟩ := exists_ofRoot_eq_error (lt_of_position? hi hposition) hlist
    refine ⟨.shape e, ?_⟩
    rw [build, htop]
    simp only [bind, Except.bind, he]

end OneSetting

/-- Over files alone, an override of one tag name by its index changes that name, counted from
the end if the index is negative. It adds a name if the index is the number of names, and fails
if the index lies before the first of them or leaves a hole behind the last. -/
theorem build_ofIndex (tree : FileTree) (before after : List Change) (names : List Text)
    (hfiles : ∀ c ∈ before ++ after, AddsPlainFile tree c)
    (hnames : ∃ layers, base.applyAll (before ++ after) = .ok layers ∧
      layers.build tree = .ok names)
    (i : Int) (hi : Toml.fitsInt64 i) (v : Text) :
    ∃ layers,
      base.applyAll (before ++ .override (KeyPath.ofIndex i) (.text v) :: after) = .ok layers ∧
        (0 ≤ i → i < names.length → layers.build tree = .ok (names.set i.toNat v)) ∧
        (-names.length ≤ i → i < 0 →
          layers.build tree = .ok (names.set (i + names.length).toNat v)) ∧
        (i = names.length → layers.build tree = .ok (names ++ [v])) ∧
        (i < -names.length → layers.build tree = .error .indexOutOfRange) ∧
        (names.length < i → ∃ e, layers.build tree = .error e) := by
  have hparse := parse_ofIndex hi
  have haccepted : ∀ c ∈ before ++ after, c.IsAccepted := fun c hc => (hfiles c hc).isAccepted
  obtain ⟨hbefore, hafter⟩ := List.forall_mem_append.mp haccepted
  have hkey : (Change.override (KeyPath.ofIndex i) (.text v)).IsAccepted := by
    rw [Change.IsAccepted, hparse]
    rfl
  obtain ⟨layers, hlayers, hbuild⟩ := hnames
  rw [applyAll_base haccepted, ofChanges_files hfiles, Except.ok.injEq] at hlayers
  subst hlayers
  have hplain : ∀ c ∈ before ++ after, IsPlainChange tree c := fun c hc =>
    (hfiles c hc).isPlainChange
      (fun layer hlayer => List.mem_filterMap.mpr ⟨c, hc, hlayer⟩) hbuild
  obtain ⟨settled, hsettled, hroot⟩ :=
    exists_root_of_setting hplain hbuild (indexPath i) (.text v)
  refine ⟨_, applyAll_base (List.forall_mem_append.mpr
    ⟨hbefore, List.forall_mem_cons.mpr ⟨hkey, hafter⟩⟩), ?_⟩
  rw [ofChanges_files_and_override hfiles hparse]
  refine ⟨?_, ?_, ?_, ?_, exists_build_eq_error hsettled hroot⟩
  · intro hleast hlt
    rw [build_of_position? hsettled hroot (n := i.toNat) (by omega)
      (position?_eq (by omega) (Or.inl (by omega))), putName, if_pos (by omega)]
  · intro hleast hneg
    rw [build_of_position? hsettled hroot (n := (i + names.length).toNat) (by omega)
      (position?_eq (by omega) (Or.inr ⟨hneg, by omega⟩)), putName, if_pos (by omega)]
  · intro heq
    rw [build_of_position? hsettled hroot (Nat.le_refl _)
      (position?_eq (Nat.le_refl _) (Or.inl heq)), putName, if_neg (Nat.lt_irrefl _)]
  · intro hlow
    exact build_of_position?_eq_none hsettled hroot (position?_eq_none hlow)

/-- The override stands before all files, and counts from the end of what they come to. -/
theorem build_projectChanges_ofIndex :
    (∀ c ∈ projectChanges, AddsPlainFile projectFiles c) ∧
      KeyPath.ofIndex (-1) = "extraction.tag_names[-1]".toList ∧
      (∃ layers, base.applyAll projectChanges = .ok layers ∧
        layers.build projectFiles = .ok ["ul".toList, "li".toList]) ∧
      ∃ layers, base.applyAll
          (.override (KeyPath.ofIndex (-1)) (.text "ol".toList) :: projectChanges) = .ok layers ∧
        layers.build projectFiles = .ok ["ul".toList, "ol".toList] := by
  have hfiles : ∀ c ∈ projectChanges, AddsPlainFile projectFiles c := by decide +kernel
  have hplain : ∀ c ∈ projectChanges, IsPlainChange projectFiles c := by decide +kernel
  have hlast : (projectChanges.filterMap (Change.fileNames? projectFiles)).getLast? =
      some ["ul".toList, "li".toList] := by
    decide +kernel
  have hbuild := @build_of_plain projectFiles projectChanges hplain none (by simp)
  rw [hlast] at hbuild
  have hnames : ∃ layers, base.applyAll projectChanges = .ok layers ∧
      layers.build projectFiles = .ok ["ul".toList, "li".toList] := ⟨_, rfl, hbuild⟩
  obtain ⟨layers, hlayers, -, hreplaced, -⟩ :=
    build_ofIndex projectFiles [] projectChanges _ hfiles hnames (-1) (by decide) "ol".toList
  exact ⟨hfiles, by decide, hnames, layers, hlayers, hreplaced (by decide) (by decide)⟩

end Layers

end Config

end TagBalance
