import TagBalance.Proofs.Precedence
import TagBalance.CommandLine

/-!
What the program does with its arguments. Only a few shapes of argument lists lead to a check;
all others end before any file is looked at. A check reports what the standard list finds, as
the defaults of the configuration come to that list.
-/
namespace TagBalance.CommandLine

def doubleHyphen : Text := ['-', '-']

/-- The arguments ask for a check of the path. A path that looks like an option has to stand
behind a double hyphen. -/
def AsksFor (args : List Text) (p : Text) : Prop :=
  (args = [p] ∨ args = [p, doubleHyphen]) ∧ (p.head? ≠ some '-' ∨ p = ['-']) ∨
    args = [doubleHyphen, p]

instance (args : List Text) (p : Text) : Decidable (AsksFor args p) :=
  inferInstanceAs (Decidable (_ ∨ _))

section Arguments

variable {path : Option Text} {arg p q : Text} {args : List Text}

theorem isPath_iff : isPath arg ↔ arg.head? ≠ some '-' ∨ arg = ['-'] := by
  simp [isPath]

theorem ne_doubleHyphen_of_isPath (h : isPath arg) : arg ≠ doubleHyphen := by
  rintro rfl
  revert h
  decide

theorem option_ne_check : option arg ≠ .check p := by
  unfold option
  split
  · simp
  · split
    · simp
    · split <;> simp

theorem actionWith_doubleHyphen :
    actionWith path false (doubleHyphen :: args) = actionWith path true args := rfl

theorem actionWith_path (h : isPath arg) :
    actionWith none false (arg :: args) = actionWith (some arg) false args := by
  have hne := ne_doubleHyphen_of_isPath h
  rw [actionWith, if_neg (by simpa [doubleHyphen] using hne), if_pos (by simpa using h)]

theorem actionWith_secondPath (h : isPath arg) :
    actionWith (some q) false (arg :: args) = .usageError := by
  have hne := ne_doubleHyphen_of_isPath h
  rw [actionWith, if_neg (by simpa [doubleHyphen] using hne), if_pos (by simpa using h)]

theorem actionWith_option (hne : arg ≠ doubleHyphen) (h : ¬ isPath arg) :
    actionWith path false (arg :: args) = option arg := by
  unfold actionWith
  rw [if_neg (by simpa [doubleHyphen] using hne), if_neg (by simpa using h)]

/-- Behind a double hyphen every argument is a path, and there may be one path in all. -/
theorem actionWith_onlyPaths_eq_check_iff :
    actionWith path true args = .check p ↔ path.toList ++ args = [p] := by
  cases args with
  | nil => cases path <;> simp [actionWith]
  | cons arg args =>
    cases path with
    | some q => simp [actionWith]
    | none => cases args <;> simp [actionWith]

/-- Behind a path there may be nothing but a double hyphen. -/
theorem actionWith_some_eq_check_iff :
    actionWith (some q) false args = .check p ↔ q = p ∧ (args = [] ∨ args = [doubleHyphen]) := by
  cases args with
  | nil => simp [actionWith]
  | cons arg args =>
    by_cases hhyphens : arg = doubleHyphen
    · subst hhyphens
      rw [actionWith_doubleHyphen, actionWith_onlyPaths_eq_check_iff]
      simp
    · by_cases hpath : isPath arg
      · simp [actionWith_secondPath hpath, hhyphens]
      · simp [actionWith_option hhyphens hpath, option_ne_check, hhyphens]

theorem asksFor_cons_iff :
    AsksFor (arg :: args) p ↔
      isPath arg ∧ arg = p ∧ (args = [] ∨ args = [doubleHyphen]) ∨
        arg = doubleHyphen ∧ args = [p] := by
  rw [AsksFor, ← isPath_iff]
  apply or_congr _ List.cons_eq_cons
  rw [List.cons_eq_cons, List.cons_eq_cons, ← and_or_left]
  constructor
  · rintro ⟨⟨rfl, hargs⟩, hpath⟩
    exact ⟨hpath, rfl, hargs⟩
  · rintro ⟨hpath, rfl, hargs⟩
    exact ⟨⟨rfl, hargs⟩, hpath⟩

theorem action_eq_check_iff : action args = .check p ↔ AsksFor args p := by
  cases args with
  | nil => simp [action, actionWith, AsksFor]
  | cons arg args =>
    rw [action, asksFor_cons_iff]
    by_cases hhyphens : arg = doubleHyphen
    · subst hhyphens
      have hpath : ¬ isPath doubleHyphen := fun h => ne_doubleHyphen_of_isPath h rfl
      rw [actionWith_doubleHyphen, actionWith_onlyPaths_eq_check_iff]
      simp [hpath]
    · by_cases hpath : isPath arg
      · rw [actionWith_path hpath, actionWith_some_eq_check_iff]
        simp [hpath, hhyphens]
      · rw [actionWith_option hhyphens hpath]
        simp [option_ne_check, hpath, hhyphens]

end Arguments

/-- The list that the default configuration comes to is the standard list. -/
theorem checkSource_eq (source : Text) :
    checkSource source = ⟨0, Diagnostic.report (AllowList.standard.check source), []⟩ := by
  have hlist : AllowList.ofNames AllowList.standardNames = .ok AllowList.standard := by
    rw [AllowList.ofNames, AllowList.ofNamesWith_eq_ok_iff]
    exact ⟨rfl, by decide +kernel⟩
  unfold checkSource
  rw [Config.defaultNames_eq]
  simp only [hlist]

/-- What the program does where it does not come to a check. -/
theorem exists_outcome_of_ne_check {a : Action} (h : ∀ p, a ≠ .check p) :
    ∃ o, (∀ reading, a.outcome reading = o) ∧
      (o.exit = 0 ∧ (o.stdout = helpText ∨ o.stdout = versionText) ∨
        o.exit = 2 ∧ o.stdout = []) := by
  cases a with
  | check p => exact absurd rfl (h p)
  | help => exact ⟨⟨0, helpText, []⟩, by simp [Action.outcome], by simp⟩
  | version => exact ⟨⟨0, versionText, []⟩, by simp [Action.outcome], by simp⟩
  | usageError => exact ⟨⟨2, [], usageText⟩, by simp [Action.outcome], by simp⟩

/-- A check is made of the path that the arguments ask for. It fails if the path cannot be read,
and otherwise prints the lines of what the standard list finds. All other arguments have one
outcome for all trees of files, which is a text of help or of the version, or a usage error. -/
theorem run_eq_check_or_fixed (args : List Text) :
    (∀ p, action args = .check p ↔ AsksFor args p) ∧
      (∀ p, AsksFor args p → ∀ tree : FileTree,
        (∀ cause, tree.read p = .error cause → run tree args =
          ⟨1, [], "Error reading file: ".toList ++ p ++ ": ".toList ++ cause.message ++ ['\n']⟩) ∧
        ∀ content, tree.read p = .ok content →
          ∃ source, Source.load tree p = .ok source ∧ (run tree args).exit = 0 ∧
            (run tree args).stdout =
              (AllowList.standard.check source.value).flatMap fun d => d.line ++ ['\n']) ∧
      ((∀ p, ¬ AsksFor args p) → ∃ o, (∀ tree, run tree args = o) ∧
        (o.exit = 0 ∧ (o.stdout = helpText ∨ o.stdout = versionText) ∨
          o.exit = 2 ∧ o.stdout = [])) := by
  refine ⟨fun p => action_eq_check_iff, ?_, ?_⟩
  · intro p hp tree
    have haction := action_eq_check_iff.mpr hp
    constructor
    · intro cause hcause
      rw [run, haction, Action.outcome, hcause]
      simp [Source.ofReading, LoadError.message]
    · intro content hcontent
      have hload : Source.load tree p = .ok (Source.ofBytes p content) := by
        rw [Source.load, hcontent, Source.ofReading]
      have hrun : run tree args = checkSource (Source.ofBytes p content).value := by
        rw [run, haction, Action.outcome, hcontent, Source.ofReading]
      refine ⟨_, hload, ?_⟩
      rw [hrun, checkSource_eq]
      refine ⟨rfl, ?_⟩
      rw [Diagnostic.report, Text.unlines, List.flatMap_map]
  · intro h
    obtain ⟨o, ho, hshape⟩ :=
      exists_outcome_of_ne_check fun p hp => h p (action_eq_check_iff.mp hp)
    exact ⟨o, fun tree => ho tree.read, hshape⟩

def optionFile : FileTree := [("-p".toList, .file (Utf8.encode "<p></div>".toList))]

theorem run_optionFile :
    AsksFor ["--".toList, "-p".toList] "-p".toList ∧
      (run optionFile ["--".toList, "-p".toList]).exit = 0 ∧
      (run optionFile ["--".toList, "-p".toList]).stdout =
        "Mismatch: <p> closed by </div>\n".toList ∧
      run [] ["--".toList, "-p".toList] =
        ⟨1, [], "Error reading file: -p: No such file or directory (os error 2)\n".toList⟩ ∧
      (∀ p, ¬ AsksFor ["-p".toList] p) ∧
      run optionFile ["-p".toList] = run [] ["-p".toList] := by
  obtain ⟨haction, hcheck, -⟩ := run_eq_check_or_fixed ["--".toList, "-p".toList]
  have hasks : AsksFor ["--".toList, "-p".toList] "-p".toList := by decide
  have hread : FileTree.read optionFile "-p".toList = .ok (Utf8.encode "<p></div>".toList) := by
    rfl
  have hmissing : FileTree.read [] "-p".toList = .error .notFound := by
    rfl
  obtain ⟨-, hfound⟩ := hcheck _ hasks optionFile
  obtain ⟨source, hload, hexit, hstdout⟩ := hfound _ hread
  obtain ⟨hfails, -⟩ := hcheck _ hasks []
  have hsource : source.value = "<p></div>".toList := by
    obtain rfl := Except.ok.inj hload
    decide
  rw [hsource] at hstdout
  have hno : ∀ p, ¬ AsksFor ["-p".toList] p := by
    -- a lone option is neither a path nor as long as the other shapes
    rintro p (⟨h | h, hp⟩ | h)
    · obtain rfl := (List.cons.inj h).1
      revert hp
      decide
    · exact absurd (congrArg List.length h) (by simp)
    · exact absurd (congrArg List.length h) (by simp)
  obtain ⟨-, -, hfixed⟩ := run_eq_check_or_fixed ["-p".toList]
  obtain ⟨o, ho, -⟩ := hfixed hno
  refine ⟨hasks, hexit, hstdout.trans (by decide), (hfails _ hmissing).trans ?_, hno,
    (ho _).trans (ho _).symm⟩
  decide

end TagBalance.CommandLine
