import TagBalance.Config.Layers
import TagBalance.Proofs.KeyGrammar
import Mathlib.Data.List.Nodup
import Mathlib.Tactic.Tauto

/-!
What a table comes to when other tables are merged into it, told by look-ups. A look-up sees
the last table that has the key, where keys are the same if they are in small letters. The
entries of a document are merged like those of any table as long as its keys are plain words,
which a key path reads as nothing but themselves.
-/
namespace TagBalance

namespace Text

/-- A property of all ASCII characters can be checked one by one. -/
theorem forall_ascii {P : Char → Prop} (h : ∀ n < 128, P (Char.ofNat n)) {c : Char}
    (hc : c.toNat < 128) : P c := by
  have hn := h c.toNat hc
  rwa [Char.ofNat_toNat] at hn

theorem toLower_eq_self {c : Char} (h : ¬ c.toNat < 128) : c.toLower = c := by
  apply dif_neg
  rintro ⟨-, hle⟩
  exact h (Nat.lt_of_le_of_lt (UInt32.le_iff_toNat_le.mp hle) (by decide))

theorem lowerChar_lowerChar (c : Char) : lowerChar (lowerChar c) = lowerChar c := by
  by_cases hascii : c.toNat < 128
  · exact forall_ascii (P := fun c => lowerChar (lowerChar c) = lowerChar c)
      (by decide +kernel) hascii
  · by_cases hk : c = kelvinSign
    · rw [hk]
      decide
    · have hc : lowerChar c = c := by rw [lowerChar, if_neg hk, toLower_eq_self hascii]
      rw [hc, hc]

theorem lower_lower (s : Text) : lower (lower s) = lower s := by
  rw [lower, lower, List.map_map]
  exact List.map_congr_left fun c _ => lowerChar_lowerChar c

end Text

namespace Config

def IsBareKey (k : Text) : Prop := k ≠ [] ∧ k.all Toml.isBareKeyChar

instance : DecidablePred IsBareKey := fun _ => inferInstanceAs (Decidable (_ ∧ _))

theorem toNat_lt_of_isAlphanum {c : Char} (h : c.isAlphanum) : c.toNat < 128 := by
  have hval : ∀ {m : UInt32}, c.val ≤ m → m.toNat < 128 → c.toNat < 128 :=
    fun hle hm => Nat.lt_of_le_of_lt (UInt32.le_iff_toNat_le.mp hle) hm
  have hcases : (c.isUpper ∨ c.isLower) ∨ c.isDigit :=
    (Bool.or_eq_true_iff.mp h).imp_left Bool.or_eq_true_iff.mp
  rcases hcases with (hupper | hlower) | hdigit
  · exact hval (of_decide_eq_true hupper).2 (by decide)
  · exact hval (of_decide_eq_true (Bool.and_eq_true_iff.mp hlower).2) (by decide)
  · exact hval (of_decide_eq_true (Bool.and_eq_true_iff.mp hdigit).2) (by decide)

theorem toNat_lt_of_isBareKeyChar {c : Char} (h : Toml.isBareKeyChar c) : c.toNat < 128 := by
  simp only [Toml.isBareKeyChar, Bool.or_eq_true, decide_eq_true_eq] at h
  rcases h with (halphanum | rfl) | rfl
  · exact toNat_lt_of_isAlphanum halphanum
  · decide
  · decide

theorem IsBareKey.isBareKeyChar {k : Text} (h : IsBareKey k) :
    ∀ c ∈ k, Toml.isBareKeyChar c :=
  List.all_eq_true.mp h.2

theorem IsBareKey.lower {k : Text} (h : IsBareKey k) : IsBareKey (Text.lower k) := by
  refine ⟨fun hnil => h.1 (List.map_eq_nil_iff.mp hnil), List.all_eq_true.mpr ?_⟩
  intro c hc
  obtain ⟨d, hd, rfl⟩ := List.mem_map.mp hc
  have hbare := h.isBareKeyChar d hd
  exact Text.forall_ascii
    (P := fun d => Toml.isBareKeyChar d → Toml.isBareKeyChar (Text.lowerChar d))
    (by decide +kernel) (toNat_lt_of_isBareKeyChar hbare) hbare

theorem IsBareKey.isIdentifier {k : Text} (h : IsBareKey k) : KeyPath.IsIdentifier k := by
  refine ⟨h.1, fun c hc => ?_⟩
  have hbare := h.isBareKeyChar c hc
  simp only [Toml.isBareKeyChar, Bool.or_eq_true, decide_eq_true_eq] at hbare
  tauto

/-- A bare key spells the path that has no steps behind it. -/
theorem ofFileKey_of_isBareKey {k : Text} (h : IsBareKey k) : KeyPath.ofFileKey k = ⟨k, []⟩ := by
  have hspells : KeyPath.Spells ⟨k, []⟩ k := ⟨h.isIdentifier, [], .nil, (List.append_nil k).symm⟩
  rw [KeyPath.ofFileKey, KeyPath.parse_eq_ok_iff.mpr hspells]

def valueAt? (t : Text) (es : List (Text × Value)) : Option Value :=
  (es.find? fun e => Text.lower e.1 = t).map Prod.snd

/-- No two keys are the same in small letters. -/
def DistinctKeys (es : List (Text × Value)) : Prop := (es.map fun e => Text.lower e.1).Nodup

instance : DecidablePred DistinctKeys := fun _ => inferInstanceAs (Decidable (List.Nodup _))

theorem valueAt?_cons (t : Text) (e : Text × Value) (es : List (Text × Value)) :
    valueAt? t (e :: es) = if Text.lower e.1 = t then some e.2 else valueAt? t es := by
  rw [valueAt?, List.find?_cons]
  by_cases h : Text.lower e.1 = t
  · simp [h]
  · simp [h, valueAt?]

theorem valueAt?_eq_none {t : Text} {es : List (Text × Value)}
    (h : t ∉ es.map fun e => Text.lower e.1) : valueAt? t es = none := by
  rw [valueAt?, Option.map_eq_none_iff, List.find?_eq_none]
  intro e he hkey
  exact h (List.mem_map.mpr ⟨e, he, of_decide_eq_true hkey⟩)

structure Keyed (P : Text → Prop) (es : List (Text × Value)) : Prop where
  nodup : (es.map Prod.fst).Nodup
  holds : ∀ e ∈ es, P e.1

namespace Value

theorem get?_asTable (here : Value) (t : Text) : here.asTable.get? t = here.get? t := by
  cases here <;> rfl

theorem entries_put (here : Value) (k : Text) (v : Value) :
    (here.put k v).entries = putEntry k v here.entries := by
  cases here <;> rfl

theorem entries_asTable (here : Value) : here.asTable.entries = here.entries := by
  cases here <;> rfl

theorem get?_put (here : Value) (k t : Text) (v : Value) :
    (here.put k v).get? t = if t = k then some v else here.get? t := by
  rw [get?, entries_put, lookup_putEntry, get?]

/-- What stands under a key after a value has been merged into what was there. -/
def merged (new : Value) (old : Option Value) : Value :=
  match new with
  | table _ es => setFields es (old.getD emptyTable)
  | leaf => leaf

theorem setField_eq (k : Text) (new here : Value) :
    setField k new here =
      here.asTable.put (Text.lower k) (merged new (here.get? (Text.lower k))) := by
  rw [← get?_asTable]
  cases new <;> simp only [setField, merged]

theorem get?_setField (k t : Text) (new here : Value) :
    (setField k new here).get? t =
      if t = Text.lower k then some (merged new (here.get? t)) else here.get? t := by
  rw [setField_eq, get?_put, get?_asTable]
  by_cases h : t = Text.lower k
  · rw [if_pos h, if_pos h, h]
  · rw [if_neg h, if_neg h]

/-- Merging a table changes what its own keys lead to, and nothing else. -/
theorem get?_setFields {es : List (Text × Value)} (h : DistinctKeys es) (here : Value)
    (t : Text) :
    (setFields es here).get? t =
      ((valueAt? t es).map fun v => merged v (here.get? t)).or (here.get? t) := by
  induction es generalizing here with
  | nil => rfl
  | cons e es ih =>
    obtain ⟨k, v⟩ := e
    obtain ⟨hk, hes⟩ := List.nodup_cons.mp h
    rw [setFields, ih hes, get?_setField, valueAt?_cons]
    by_cases ht : t = Text.lower k
    · rw [if_pos ht, if_pos ht.symm, valueAt?_eq_none (ht ▸ hk)]
      rfl
    · rw [if_neg ht, if_neg (Ne.symm ht)]

end Value

theorem mem_keys_putEntry {k t : Text} {v : Value} {es : List (Text × Value)} :
    t ∈ (Value.putEntry k v es).map Prod.fst ↔ t = k ∨ t ∈ es.map Prod.fst := by
  induction es with
  | nil => simp [Value.putEntry]
  | cons e es ih =>
    obtain ⟨k', v'⟩ := e
    by_cases h : k' = k
    · simp [Value.putEntry, h]
    · rw [Value.putEntry, if_neg h, List.map_cons, List.mem_cons, ih, List.map_cons,
        List.mem_cons]
      exact or_left_comm

theorem nodup_keys_putEntry {k : Text} {v : Value} {es : List (Text × Value)}
    (h : (es.map Prod.fst).Nodup) : ((Value.putEntry k v es).map Prod.fst).Nodup := by
  induction es with
  | nil => exact List.nodup_singleton k
  | cons e es ih =>
    obtain ⟨k', v'⟩ := e
    obtain ⟨hk', hes⟩ := List.nodup_cons.mp h
    by_cases hkey : k' = k
    · rw [Value.putEntry, if_pos hkey]
      exact hkey ▸ h
    · rw [Value.putEntry, if_neg hkey, List.map_cons, List.nodup_cons, mem_keys_putEntry]
      exact ⟨not_or.mpr ⟨hkey, hk'⟩, ih hes⟩

/-- Keys that are in small letters already are found as they stand. -/
theorem lookup_eq_valueAt? {es : List (Text × Value)} (h : ∀ e ∈ es, Text.lower e.1 = e.1)
    (t : Text) : es.lookup t = valueAt? t es := by
  induction es with
  | nil => rfl
  | cons e es ih =>
    obtain ⟨hkey, hes⟩ := List.forall_mem_cons.mp h
    rw [List.lookup_cons, valueAt?_cons, hkey, ih hes]
    by_cases ht : e.1 = t
    · simp [ht]
    · simp [ht, beq_eq_false_iff_ne.mpr (Ne.symm ht)]

theorem distinctKeys_of_lower {es : List (Text × Value)} (h : ∀ e ∈ es, Text.lower e.1 = e.1)
    (hnodup : (es.map Prod.fst).Nodup) : DistinctKeys es := by
  have hkeys : (es.map fun e => Text.lower e.1) = es.map Prod.fst :=
    List.map_congr_left h
  rw [DistinctKeys, hkeys]
  exact hnodup

namespace Keyed

variable {P : Text → Prop} {es : List (Text × Value)}

theorem nil : Keyed P [] := ⟨List.nodup_nil, by simp⟩

theorem putEntry (h : Keyed P es) {k : Text} (hk : P k) (v : Value) :
    Keyed P (Value.putEntry k v es) := by
  refine ⟨nodup_keys_putEntry h.nodup, ?_⟩
  intro e he
  rcases mem_keys_putEntry.mp (List.mem_map_of_mem he) with hkey | hmem
  · exact hkey ▸ hk
  · obtain ⟨d, hd, hkey⟩ := List.mem_map.mp hmem
    exact hkey ▸ h.holds d hd

/-- A table keeps the property of its keys when entries with such keys are merged into it. -/
theorem setFields {here : Value} (h : Keyed P here.entries)
    (hes : ∀ e ∈ es, P (Text.lower e.1)) : Keyed P (Value.setFields es here).entries := by
  induction es generalizing here with
  | nil => exact h
  | cons e es ih =>
    obtain ⟨hkey, hes⟩ := List.forall_mem_cons.mp hes
    rw [Value.setFields]
    apply ih _ hes
    rw [Value.setField_eq, Value.entries_put, Value.entries_asTable]
    exact h.putEntry hkey _

end Keyed

/-- The entries of a document are merged one and all, whatever is there. -/
theorem mergeEntries_eq {es : List (Text × Value)} (h : ∀ e ∈ es, IsBareKey e.1)
    (root : Value) : Layers.mergeEntries es root = .ok (Value.setFields es root) := by
  induction es generalizing root with
  | nil => rfl
  | cons e es ih =>
    obtain ⟨hkey, hes⟩ := List.forall_mem_cons.mp h
    obtain ⟨k, v⟩ := e
    rw [Layers.mergeEntries, ofFileKey_of_isBareKey hkey, Value.setFields]
    exact ih hes _

end Config

end TagBalance
