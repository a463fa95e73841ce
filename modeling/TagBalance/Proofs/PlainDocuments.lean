import TagBalance.Proofs.Merging

/-!
Documents that set out the tag names plainly: as an array of texts in their own table, or not
at all. Merging such a document replaces the names if it has them and keeps them otherwise,
whatever else it holds. The table that it is merged into stays tidy, so that it can be read
again as a plain document, and the names are read back from it as they stand.
-/
namespace TagBalance.Config

open TagNames

def text? : Value → Option Text
  | .text s => some s
  | _ => none

def texts? : Value → Option (List Text)
  | .array _ items => items.mapM text?
  | _ => none

def fields? : Value → Option (List (Text × Value))
  | .table _ es => some es
  | _ => none

def IsPlainExtraction (v : Value) : Prop :=
  ∃ es ∈ fields? v, DistinctKeys es ∧ ∀ w ∈ valueAt? namesKey es, (texts? w).isSome

/-- The entries of a document that sets out the tag names in the usual way, or not at all. Its
keys are plain words, which are compared in small letters. -/
structure IsPlainDocument (es : List (Text × Value)) : Prop where
  bare : ∀ e ∈ es, IsBareKey e.1
  distinct : DistinctKeys es
  extraction : ∀ v ∈ valueAt? extractionKey es, IsPlainExtraction v

instance : DecidablePred IsPlainExtraction :=
  fun v => inferInstanceAs (Decidable (∃ es ∈ fields? v, _))

instance : DecidablePred IsPlainDocument := fun es =>
  decidable_of_iff ((∀ e ∈ es, IsBareKey e.1) ∧ DistinctKeys es ∧
      ∀ v ∈ valueAt? extractionKey es, IsPlainExtraction v)
    ⟨fun h => ⟨h.1, h.2.1, h.2.2⟩, fun h => ⟨h.bare, h.distinct, h.extraction⟩⟩

theorem IsPlainExtraction.exists_table {v : Value} (h : IsPlainExtraction v) :
    ∃ file es, v = .table file es ∧ DistinctKeys es ∧
      ∀ w ∈ valueAt? namesKey es, (texts? w).isSome := by
  obtain ⟨es, hes, hplain⟩ := h
  cases v with
  | table file es' =>
    obtain rfl : es' = es := Option.some.inj hes
    exact ⟨file, es', rfl, hplain⟩
  | _ => simp [fields?] at hes

def list? (es : List (Text × Value)) : Option Value :=
  (valueAt? extractionKey es).bind fun v => valueAt? namesKey v.entries

def listAt (root : Value) : Option Value := (root.get? extractionKey).bind (·.get? namesKey)

theorem mapM_text?_eq_some_iff {items : List Value} {names : List Text} :
    items.mapM text? = some names ↔ items = names.map .text := by
  induction items generalizing names with
  | nil => cases names <;> simp
  | cons v items ih =>
    cases v with
    | text s =>
      have hcons : (Value.text s :: items).mapM text? = (items.mapM text?).map (s :: ·) := by
        rw [List.mapM_cons]
        cases items.mapM text? <;> rfl
      rw [hcons, Option.map_eq_some_iff]
      constructor
      · rintro ⟨rest, hrest, rfl⟩
        rw [ih.mp hrest, List.map_cons]
      · intro h
        cases names with
        | nil => simp at h
        | cons s' names =>
          obtain ⟨hs, hitems⟩ := List.cons.inj h
          exact ⟨names, ih.mpr hitems, congrArg (· :: names) (Value.text.inj hs)⟩
    | _ => cases names <;> simp [List.mapM_cons, text?]

theorem texts?_eq_some_iff {v : Value} {names : List Text} :
    texts? v = some names ↔ ∃ file, v = .array file (names.map .text) := by
  cases v <;> simp [texts?, mapM_text?_eq_some_iff]

/-- An array of texts is put in the place of what was there. -/
theorem merged_of_texts? {v : Value} (h : (texts? v).isSome) (old : Option Value) :
    v.merged old = v := by
  obtain ⟨names, hnames⟩ := Option.isSome_iff_exists.mp h
  obtain ⟨file, rfl⟩ := texts?_eq_some_iff.mp hnames
  rfl

/-- Merging a plain document replaces the tag names if the document has them, and otherwise
leaves them as they are. -/
theorem listAt_setFields {es : List (Text × Value)} (h : IsPlainDocument es) (root : Value) :
    listAt (Value.setFields es root) = (list? es).or (listAt root) := by
  rw [listAt, list?, Value.get?_setFields h.distinct]
  cases hv : valueAt? extractionKey es with
  | none => rfl
  | some v =>
    obtain ⟨file, fields, rfl, hdistinct, hnames⟩ := (h.extraction v hv).exists_table
    change (Value.setFields fields _).get? namesKey =
      (valueAt? namesKey fields).or (listAt root)
    rw [Value.get?_setFields hdistinct]
    cases hw : valueAt? namesKey fields with
    | none =>
      rw [listAt]
      cases root.get? extractionKey <;> rfl
    | some w =>
      rw [Option.map_some, merged_of_texts? (hnames w hw)]
      rfl

def names? (es : List (Text × Value)) : Option (List Text) := (list? es).bind texts?

def namesAt (root : Value) : Option (List Text) := (listAt root).bind texts?

theorem namesAt_setFields {es : List (Text × Value)} (h : IsPlainDocument es) (root : Value) :
    namesAt (Value.setFields es root) = (names? es).or (namesAt root) := by
  rw [namesAt, names?, listAt_setFields h]
  cases hlist : list? es with
  | none => rfl
  | some w =>
    obtain ⟨v, hv, hw⟩ := Option.bind_eq_some_iff.mp hlist
    obtain ⟨file, fields, rfl, -, hnames⟩ := (h.extraction v hv).exists_table
    obtain ⟨names, htexts⟩ := Option.isSome_iff_exists.mp (hnames w hw)
    rw [Option.some_or, Option.bind_some, htexts, Option.some_or]

/-- A table that documents were merged into, so that its keys are plain words in small
letters. -/
structure IsTidy (root : Value) : Prop where
  keys : Keyed (fun k => Text.lower k = k ∧ IsBareKey k) root.entries
  fields : ∀ v ∈ root.get? extractionKey, Keyed (fun k => Text.lower k = k) v.entries

namespace IsTidy

variable {root : Value}

theorem emptyTable : IsTidy Value.emptyTable :=
  ⟨Keyed.nil, by simp [Value.get?, Value.entries, Value.emptyTable]⟩

theorem setFields (h : IsTidy root) {es : List (Text × Value)} (hes : IsPlainDocument es) :
    IsTidy (Value.setFields es root) := by
  constructor
  · apply h.keys.setFields
    intro e he
    exact ⟨Text.lower_lower e.1, (hes.bare e he).lower⟩
  · intro v hv
    rw [Option.mem_def, Value.get?_setFields hes.distinct] at hv
    cases hext : valueAt? extractionKey es with
    | none =>
      rw [hext] at hv
      exact h.fields v hv
    | some w =>
      obtain ⟨file, fields, rfl, -⟩ := (hes.extraction w hext).exists_table
      rw [hext] at hv
      obtain rfl := Option.some.inj hv
      have hold : Keyed (fun k => Text.lower k = k)
          ((root.get? extractionKey).getD Value.emptyTable).entries := by
        cases hroot : root.get? extractionKey with
        | none => exact Keyed.nil
        | some old => exact h.fields old hroot
      exact hold.setFields fun e _ => Text.lower_lower e.1

/-- Such a table is a plain document itself, with the tag names that it holds. -/
theorem isPlainDocument (h : IsTidy root) {names : List Text} (hnames : namesAt root = some names) :
    IsPlainDocument root.entries ∧ names? root.entries = some names := by
  have hlower : ∀ e ∈ root.entries, Text.lower e.1 = e.1 := fun e he => (h.keys.holds e he).1
  obtain ⟨v, hv, htexts⟩ := Option.bind_eq_some_iff.mp hnames
  obtain ⟨extraction, hextraction, hlist⟩ := Option.bind_eq_some_iff.mp hv
  have hfields := h.fields extraction hextraction
  have hentry : valueAt? extractionKey root.entries = some extraction := by
    rw [← lookup_eq_valueAt? hlower]
    exact hextraction
  have hfield : valueAt? namesKey extraction.entries = some v := by
    rw [← lookup_eq_valueAt? hfields.holds]
    exact hlist
  refine ⟨⟨fun e he => (h.keys.holds e he).2, distinctKeys_of_lower hlower h.keys.nodup, ?_⟩, ?_⟩
  · intro w hw
    obtain rfl : extraction = w := Option.some.inj (hentry.symm.trans hw)
    cases extraction with
    | table file fields =>
      refine ⟨fields, rfl, distinctKeys_of_lower hfields.holds hfields.nodup, ?_⟩
      intro w hw
      obtain rfl : v = w := Option.some.inj (hfield.symm.trans hw)
      rw [htexts]
      rfl
    | _ => simp [Value.get?, Value.entries] at hlist
  · rw [names?, list?, hentry, Option.bind_some, hfield, Option.bind_some, htexts]

end IsTidy

theorem namesFrom_map_text (place : Text) (i : ℕ) (names : List Text) :
    namesFrom place i (names.map .text) = .ok names := by
  induction names generalizing i with
  | nil => rfl
  | cons s names ih =>
    rw [List.map_cons, namesFrom, name?]
    simp only [ih]
    rfl

theorem ofRoot_of_listAt {root v : Value} (h : listAt root = some v) :
    ofRoot root = ofNames (extractionKey ++ '.' :: namesKey) v := by
  obtain ⟨extraction, hextraction, hlist⟩ := Option.bind_eq_some_iff.mp h
  rw [ofRoot, hextraction]
  cases extraction with
  | table file es =>
    have hlookup : es.lookup namesKey = some v := hlist
    simp only [ofExtraction, hlookup]
  | _ => simp [Value.get?, Value.entries] at hlist

theorem ofRoot_of_namesAt {root : Value} {names : List Text} (h : namesAt root = some names) :
    ofRoot root = .ok names := by
  obtain ⟨v, hv, htexts⟩ := Option.bind_eq_some_iff.mp h
  obtain ⟨file, rfl⟩ := texts?_eq_some_iff.mp htexts
  rw [ofRoot_of_listAt hv, ofNames, namesFrom_map_text]

end TagBalance.Config
