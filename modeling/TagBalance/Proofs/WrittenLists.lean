import TagBalance.Proofs.BasicStrings
import TagBalance.Proofs.Layering

/-!
Documents that list the tag names and nothing else. The header, the key and the array are read
one after another, each with the rest of the text behind it, and the strings of the array one by
one. What is read is a plain document with the names in their order, so that a file with this
text decides the list of tag names.
-/
namespace TagBalance

namespace Toml

open Config (IsBareKey)
open Config.TagNames (extractionKey namesKey)

def listDocument (capitals : Bool) (names : List Text) : Text :=
  "[extraction]\ntag_names = [".toList ++
    (Text.commaList (names.map (writeBasic capitals)) ++ "]\n".toList)

section Keys

variable {k after rest : Text} {c : Char}

/-- A bare key has none of the characters that end it. -/
theorem exists_eq_cons_of_isBareKey (hk : IsBareKey k) :
    ∃ d ds, k = d :: ds ∧ isBareKeyChar d := by
  obtain ⟨d, ds, rfl⟩ := List.exists_cons_of_ne_nil hk.1
  exact ⟨d, ds, rfl, hk.isBareKeyChar d List.mem_cons_self⟩

theorem isBareKeyChar_ne {d : Char} (hd : isBareKeyChar d) (hc : isBareKeyChar c = false) :
    d ≠ c := by
  rintro rfl
  exact Bool.false_ne_true (hc.symm.trans hd)

theorem skipBlanks_of_not_isBlank (hc : isBlank c = false) (rest : Text) :
    skipBlanks (c :: rest) = c :: rest :=
  List.dropWhile_cons_of_neg (by rw [hc]; exact Bool.false_ne_true)

theorem isBlank_of_isBareKeyChar (hc : isBareKeyChar c) : isBlank c = false := by
  have hspace : c ≠ ' ' := isBareKeyChar_ne hc (by decide)
  have htab : c ≠ '\t' := isBareKeyChar_ne hc (by decide)
  simp [isBlank, hspace, htab]

theorem simpleKey_append (hk : IsBareKey k) (hc : isBareKeyChar c = false) :
    simpleKey (k ++ c :: rest) = some (k, c :: rest) := by
  have hstop : ∀ d ∈ (c :: rest).head?, isBareKeyChar d = false :=
    fun d hd => Option.some.inj hd ▸ hc
  have htake := Text.takeWhile_run hk.isBareKeyChar hstop
  have hdrop := Text.dropWhile_run hk.isBareKeyChar hstop
  obtain ⟨d, ds, rfl, -⟩ := exists_eq_cons_of_isBareKey hk
  rw [simpleKey, htake, hdrop]

/-- A bare key is a row of one key, if no point follows it. -/
theorem dottedKey_append (hk : IsBareKey k) {d : Char} (hd : isBareKeyChar d = false)
    (hafter : skipBlanks (d :: after) = c :: rest) (hc : c ≠ '.') :
    dottedKey (k ++ d :: after) = some ([k], c :: rest) := by
  have hskip : skipBlanks (k ++ d :: after) = k ++ d :: after := by
    obtain ⟨e, es, rfl, he⟩ := exists_eq_cons_of_isBareKey hk
    exact skipBlanks_of_not_isBlank (isBlank_of_isBareKeyChar he) _
  have hkey : spacedKey (k ++ d :: after) = some (k, c :: rest) := by
    rw [spacedKey, hskip, simpleKey_append hk hd, Option.map_some, hafter]
  change keyRow (78 + 1) (k ++ d :: after) = _
  simp [keyRow, hkey, hc]

variable {assemble : Assembly}

/-- The header of one table on a line of its own. -/
theorem statement_header (hk : IsBareKey k) (rest : Text) :
    statement assemble ('[' :: (k ++ ']' :: '\n' :: rest)) = some (some (.table [k]), rest) := by
  obtain ⟨d, ds, rfl, hd⟩ := exists_eq_cons_of_isBareKey hk
  have hbracket : d ≠ '[' := isBareKeyChar_ne hd (by decide)
  have hkeys : dottedKey (d :: ds ++ ']' :: '\n' :: rest) = some ([d :: ds], ']' :: '\n' :: rest) :=
    dottedKey_append hk (by decide) rfl (by decide)
  have hheader : headerKeys [']'] (d :: ds ++ ']' :: '\n' :: rest) = some ([d :: ds], rest) := by
    rw [headerKeys, hkeys]
    rfl
  have hskip : skipBlanks ('[' :: (d :: ds ++ ']' :: '\n' :: rest)) =
      '[' :: (d :: ds ++ ']' :: '\n' :: rest) := rfl
  rw [statement, hskip]
  split
  · rename_i heq
    exact absurd (List.cons.inj (List.cons.inj heq).2).1 hbracket
  · rename_i heq
    rw [← (List.cons.inj heq).2, hheader]
    rfl
  · rename_i hno
    exact absurd rfl (hno _)

/-- A line that starts with a key is not empty and holds no comment alone. -/
theorem restOfLine_append (hk : IsBareKey k) (rest : Text) : restOfLine (k ++ rest) = none := by
  obtain ⟨d, ds, rfl, hd⟩ := exists_eq_cons_of_isBareKey hk
  have hmark : d ≠ '#' := isBareKeyChar_ne hd (by decide)
  have hfeed : d ≠ '\n' := isBareKeyChar_ne hd (by decide)
  have hreturn : d ≠ '\r' := isBareKeyChar_ne hd (by decide)
  have hend : lineEnd (d :: (ds ++ rest)) = none := by simp [lineEnd, hfeed, hreturn]
  rw [List.cons_append, restOfLine,
    skipBlanks_of_not_isBlank (isBlank_of_isBareKeyChar hd)]
  split
  · rename_i heq
    exact absurd (List.cons.inj heq).1 hmark
  · exact hend

/-- A key with its value on a line of its own. -/
theorem statement_pair (hk : IsBareKey k) {text : Text} {v : Value}
    (htext : skipBlanks text = text)
    (hv : value assemble maxDepth text = some (v, '\n' :: rest)) :
    statement assemble (k ++ " = ".toList ++ text) = some (some (.pair ⟨[k], v⟩), rest) := by
  have hline : k ++ " = ".toList ++ text = k ++ ' ' :: '=' :: ' ' :: text := by
    rw [List.append_assoc]
    rfl
  have hkeys : dottedKey (k ++ ' ' :: '=' :: ' ' :: text) = some ([k], '=' :: ' ' :: text) :=
    dottedKey_append hk (by decide) rfl (by decide)
  have hskip : skipBlanks (' ' :: text) = text := htext
  have hpair : pair (value assemble maxDepth) (k ++ ' ' :: '=' :: ' ' :: text) =
      some (⟨[k], v⟩, '\n' :: rest) := by
    rw [pair, hkeys]
    change (value assemble maxDepth (skipBlanks (' ' :: text))).bind _ = _
    rw [hskip, hv]
    rfl
  have hrest := restOfLine_append hk (' ' :: '=' :: ' ' :: text)
  obtain ⟨d, ds, rfl, hd⟩ := exists_eq_cons_of_isBareKey hk
  have hbracket : d ≠ '[' := isBareKeyChar_ne hd (by decide)
  have hfirst : skipBlanks (d :: ds ++ ' ' :: '=' :: ' ' :: text) =
      d :: ds ++ ' ' :: '=' :: ' ' :: text :=
    skipBlanks_of_not_isBlank (isBlank_of_isBareKeyChar hd) _
  rw [hline, statement, hfirst]
  split
  · rename_i heq
    exact absurd (List.cons.inj heq).1 hbracket
  · rename_i heq
    exact absurd (List.cons.inj heq).1 hbracket
  · rw [hrest, hpair]
    rfl

end Keys

section Items

variable {capitals : Bool}

/-- A written string is a value, at any depth. -/
theorem value_writeBasic (assemble : Assembly) (depth : Nat) (s : Text) {rest : Text}
    (hrest : rest.head? ≠ some '"') :
    value assemble depth (writeBasic capitals s ++ rest) = some (.string s, rest) := by
  have hplain : plainValue (writeBasic capitals s ++ rest) = some (.string s, rest) := by
    change (quoted (writeBasic capitals s ++ rest)).map (fun p => (Value.string p.1, p.2)) = _
    rw [quoted_writeBasic s hrest, Option.map_some]
  cases depth with
  | zero => exact hplain
  | succ depth => exact hplain

/-- A blank behind a comma is passed over. -/
theorem items_blank (read : Reader Value) (fuel : Nat) (text : Text) :
    items read fuel (' ' :: text) = items read fuel text := by
  cases fuel <;> rfl

/-- The last item has the closing bracket behind it. -/
theorem items_last {read : Reader Value} {body rest : Text} {v : Value}
    (h : read ('"' :: body) = some (v, ']' :: rest)) (fuel : Nat) :
    items read (fuel + 1) ('"' :: body) = some ([v], rest) := by
  have hskip : skipLines false ('"' :: body) = some ('"' :: body) := rfl
  rw [items, hskip]
  change (read ('"' :: body)).bind _ = _
  rw [h]
  rfl

/-- Behind any other item a comma leads on to the next one. -/
theorem items_next {read : Reader Value} {body more : Text} {v : Value}
    (h : read ('"' :: body) = some (v, ',' :: ' ' :: more)) (fuel : Nat) :
    items read (fuel + 1) ('"' :: body) =
      (items read fuel more).map fun p => (v :: p.1, p.2) := by
  have hskip : skipLines false ('"' :: body) = some ('"' :: body) := rfl
  rw [items, hskip, ← items_blank read fuel more]
  change (read ('"' :: body)).bind _ = _
  rw [h]
  rfl

/-- The strings of an array are read one by one up to the bracket behind them. -/
theorem items_commaList {read : Reader Value}
    (hread : ∀ s rest, rest.head? ≠ some '"' →
      read (writeBasic capitals s ++ rest) = some (.string s, rest))
    (names : List Text) (rest : Text) (fuel : Nat)
    (hfuel : (Text.commaList (names.map (writeBasic capitals))).length < fuel) :
    items read fuel (Text.commaList (names.map (writeBasic capitals)) ++ ']' :: rest) =
      some (names.map .string, rest) := by
  induction names generalizing fuel with
  | nil =>
    obtain ⟨fuel, rfl⟩ := Nat.exists_eq_succ_of_ne_zero (Nat.ne_zero_of_lt hfuel)
    rfl
  | cons s names ih =>
    obtain ⟨fuel, rfl⟩ := Nat.exists_eq_succ_of_ne_zero (Nat.ne_zero_of_lt hfuel)
    cases names with
    | nil =>
      have hlast : Text.commaList ([s].map (writeBasic capitals)) = writeBasic capitals s :=
        List.append_nil _
      rw [hlast]
      exact items_last (hread s (']' :: rest) (by simp)) fuel
    | cons s' names =>
      have hcons : Text.commaList ((s :: s' :: names).map (writeBasic capitals)) =
          writeBasic capitals s ++
            ',' :: ' ' :: Text.commaList ((s' :: names).map (writeBasic capitals)) := by
        simp [Text.commaList, List.intercalate_cons_cons]
      rw [hcons, List.length_append, List.length_cons, List.length_cons] at hfuel
      have hmore := ih fuel (by omega)
      rw [hcons, List.append_assoc]
      have hnext := items_next (hread s (',' :: ' ' :: (Text.commaList
        ((s' :: names).map (writeBasic capitals)) ++ ']' :: rest)) (by simp)) fuel
      rw [hmore] at hnext
      exact hnext

theorem value_commaList (assemble : Assembly) (depth : Nat) (names : List Text) (rest : Text) :
    value assemble (depth + 1)
        ('[' :: (Text.commaList (names.map (writeBasic capitals)) ++ ']' :: rest)) =
      some (.array (names.map .string), rest) := by
  have hitems := items_commaList (fun s rest => @value_writeBasic capitals assemble depth s rest)
    names rest ((Text.commaList (names.map (writeBasic capitals)) ++ ']' :: rest).length + 1)
    (by rw [List.length_append]; omega)
  rw [value, hitems, Option.map_some]

end Items

section Documents

variable {assemble : Assembly}

theorem statementsFrom_nil (fuel : Nat) : statementsFrom assemble fuel [] = some [] := by
  rw [statementsFrom]

theorem statementsFrom_succ {text rest : Text} {s : Option (Statement Value)} (hne : text ≠ [])
    (h : statement assemble text = some (s, rest)) (fuel : Nat) :
    statementsFrom assemble (fuel + 1) text =
      (statementsFrom assemble fuel rest).map (s.toList ++ ·) := by
  rw [statementsFrom, h]
  · change (statementsFrom assemble fuel rest).bind _ = _
    cases statementsFrom assemble fuel rest <;> rfl
  · exact hne

/-- A document of one table with one pair in it. -/
theorem statements_header_pair {k k' text : Text} {v : Value} (hk : IsBareKey k)
    (hk' : IsBareKey k') (htext : skipBlanks text = text)
    (hv : value assemble maxDepth text = some (v, ['\n'])) :
    statements assemble ('[' :: (k ++ ']' :: '\n' :: (k' ++ " = ".toList ++ text))) =
      some [.table [k], .pair ⟨[k'], v⟩] := by
  have hheader := @statement_header k assemble hk (k' ++ " = ".toList ++ text)
  have hpair := @statement_pair k' [] assemble hk' text v htext hv
  have hne : k' ++ " = ".toList ++ text ≠ [] := by simp
  have hmark : behindMark ('[' :: (k ++ ']' :: '\n' :: (k' ++ " = ".toList ++ text))) =
      '[' :: (k ++ ']' :: '\n' :: (k' ++ " = ".toList ++ text)) := rfl
  rw [statements, hmark, List.length_cons, statementsFrom_succ (List.cons_ne_nil _ _) hheader,
    statementsFrom_succ hne hpair, statementsFrom_nil]
  rfl

/-- A list document is read as a header and a pair. -/
theorem statements_listDocument (capitals : Bool) (names : List Text) :
    statements assemble (listDocument capitals names) =
      some [.table [extractionKey], .pair ⟨[namesKey], .array (names.map .string)⟩] := by
  have htext : listDocument capitals names =
      '[' :: (extractionKey ++ ']' :: '\n' :: (namesKey ++ " = ".toList ++
        '[' :: (Text.commaList (names.map (writeBasic capitals)) ++ ']' :: ['\n']))) := rfl
  have hvalue := @value_commaList capitals assemble 78 names ['\n']
  rw [htext]
  exact statements_header_pair (by decide) (by decide) rfl hvalue

/-- Items that are strings hold no moments. -/
theorem unwrapItems_map_string (names : List Text) :
    unwrapItems (names.map .string) = some (names.map .string) := by
  induction names with
  | nil => rfl
  | cons s names ih =>
    rw [List.map_cons, unwrapItems, ih]
    rfl

/-- The one entry of a list document is a table with the names. -/
theorem read_listDocument (capitals : Bool) (names : List Text) :
    read (listDocument capitals names) =
      some [(extractionKey, .table [(namesKey, .array (names.map .string))])] := by
  have hdraft : Draft.start.addAll
      [.table [extractionKey], .pair ⟨[namesKey], .array (names.map .string)⟩] =
        some ⟨[extractionKey],
          [(extractionKey, .table .declared [(namesKey, .value (.array (names.map .string)))])]⟩ :=
    rfl
  have harray : unwrap (.array (names.map .string)) = some (.array (names.map .string)) := by
    rw [unwrap, unwrapItems_map_string, Option.map_some]
  have htable : unwrapEntries [(namesKey, .array (names.map .string))] =
      some [(namesKey, .array (names.map .string))] := by
    rw [unwrapEntries, harray]
    rfl
  have hentries : unwrapEntries [(extractionKey, .table [(namesKey, .array (names.map .string))])] =
      some [(extractionKey, .table [(namesKey, .array (names.map .string))])] := by
    change (Option.map Value.table (unwrapEntries [(namesKey, .array (names.map .string))])).bind
      _ = _
    rw [htable]
    rfl
  rw [read, statements_listDocument]
  simp only [Option.bind_eq_bind, Option.bind_some, hdraft]
  exact hentries

end Documents

end Toml

namespace Config

open TagNames

theorem itemsOfToml_map_string (file : Option Text) (names : List Text) :
    Value.itemsOfToml file (names.map .string) = names.map .text := by
  induction names with
  | nil => rfl
  | cons s names ih => rw [List.map_cons, Value.itemsOfToml, ih, Value.ofToml, List.map_cons]

def listEntries (file : Text) (names : List Text) : List (Text × Value) :=
  [(extractionKey, .table (some file) [(namesKey, .array (some file) (names.map .text))])]

theorem isPlainDocument_listEntries (file : Text) (names : List Text) :
    IsPlainDocument (listEntries file names) := by
  have hextraction : IsBareKey extractionKey := by decide
  refine ⟨List.forall_mem_singleton.mpr hextraction, List.nodup_singleton _, ?_⟩
  intro v hv
  obtain rfl : .table (some file) [(namesKey, .array (some file) (names.map .text))] = v :=
    Option.some.inj hv
  refine ⟨_, rfl, List.nodup_singleton _, ?_⟩
  intro w hw
  obtain rfl : .array (some file) (names.map .text) = w := Option.some.inj hw
  rw [texts?_eq_some_iff.mpr ⟨some file, rfl⟩]
  rfl

theorem names?_listEntries (file : Text) (names : List Text) :
    names? (listEntries file names) = some names := by
  have hlist : list? (listEntries file names) =
      some (.array (some file) (names.map .text)) := rfl
  rw [names?, hlist, Option.bind_some, texts?_eq_some_iff]
  exact ⟨some file, rfl⟩

theorem exists_document?_listDocument {tree : FileTree} {path : Text} {capitals : Bool}
    {names : List Text}
    (h : FileLayer.LeadsTo tree path (Utf8.encode (Toml.listDocument capitals names))) :
    ∃ file, document? tree path = some (listEntries file names) := by
  obtain ⟨file, hcontents⟩ := FileLayer.exists_contents_eq_ok_iff.mpr h
  refine ⟨file, ?_⟩
  have hentries : Value.entriesOfToml (some file)
      [(extractionKey, .table [(namesKey, .array (names.map .string))])] =
        listEntries file names := by
    simp only [Value.entriesOfToml, Value.ofToml, itemsOfToml_map_string, listEntries]
  simp only [document?, hcontents, Toml.read_listDocument, Option.map_some, hentries]

namespace Layers

/-- A file with a list document gives exactly the names that were written, whatever characters
they have. -/
theorem build_listDocument (tree : FileTree) (path : Text) (capitals : Bool) (names : List Text)
    (h : FileLayer.LeadsTo tree path (Utf8.encode (Toml.listDocument capitals names))) :
    ∃ layers, base.applyAll [.requireFile path] = .ok layers ∧ layers.build tree = .ok names := by
  obtain ⟨file, hdocument⟩ := exists_document?_listDocument h
  have hplain : ∀ c ∈ [Change.requireFile path], IsPlainChange tree c :=
    List.forall_mem_singleton.mpr ⟨_, hdocument, isPlainDocument_listEntries file names⟩
  have hnames : [Change.requireFile path].filterMap (Change.fileNames? tree) = [names] := by
    have hfile : (Change.requireFile path).fileNames? tree = some names := by
      change (document? tree path).bind names? = _
      rw [hdocument, Option.bind_some, names?_listEntries]
    rw [List.filterMap_cons_some hfile, List.filterMap_nil]
  have hbuild := @build_of_plain tree _ hplain none (by simp)
  rw [hnames] at hbuild
  exact ⟨_, rfl, hbuild⟩

def oddNames : List Text :=
  [[], "a\"b\\".toList, "\n\x7f".toList, [Char.ofNat 0x1F600, ']'], "a\"b\\".toList]

def oddFiles : FileTree :=
  [("odd.toml".toList, .file (Utf8.encode (Toml.listDocument true oddNames)))]

theorem build_oddNames :
    FileLayer.LeadsTo oddFiles "odd".toList (Utf8.encode (Toml.listDocument true oddNames)) ∧
      ∃ layers, base.applyAll [.requireFile "odd".toList] = .ok layers ∧
        layers.build oddFiles = .ok oddNames := by
  have hleads : FileLayer.LeadsTo oddFiles "odd".toList
      (Utf8.encode (Toml.listDocument true oddNames)) :=
    .suffixed "odd.toml".toList (by decide) (by decide) rfl
  exact ⟨hleads, build_listDocument oddFiles "odd".toList true oddNames hleads⟩

end Layers

end Config

end TagBalance
