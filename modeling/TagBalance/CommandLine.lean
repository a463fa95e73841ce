import TagBalance.Config.Layers
import TagBalance.Source

/-!
The command line. The arguments are read from left to right, and the first one that decides
settles what is done; a check reports on one file and fails only if that cannot be read.
-/
namespace TagBalance.CommandLine

inductive Action where
  | check (path : Text)
  | help
  | version
  | usageError
  deriving DecidableEq

/-- What a run leaves behind. Standard error is modelled where the exit code is 1. Elsewhere two
things are missing from it: the line in which a usage error names the argument at fault, and the
log, in which a source that is not valid UTF-8 leaves a warning. -/
structure Outcome where
  exit : Nat
  stdout : Text
  stderr : Text
  deriving DecidableEq

def option (arg : Text) : Action :=
  if arg = "--help".toList then .help
  else if arg = "--version".toList then .version
  else
    match arg with
    | '-' :: 'h' :: _ => .help
    | '-' :: 'V' :: _ => .version
    | _ => .usageError

/-- A lone hyphen and an empty argument are paths. -/
def isPath (arg : Text) : Bool := arg.head? ≠ some '-' || arg = ['-']

/-- The action for the arguments that are left, when `path` has been given before them. -/
def actionWith (path : Option Text) (onlyPaths : Bool) : List Text → Action
  | [] =>
    match path with
    | some p => .check p
    | none => .usageError
  | arg :: args =>
    if !onlyPaths && arg = "--".toList then actionWith path true args
    else if onlyPaths || isPath arg then
      match path with
      | some _ => .usageError
      | none => actionWith (some arg) onlyPaths args
    else option arg

def action (args : List Text) : Action := actionWith none false args

def helpText : Text := "Report mismatched or unclosed tags in a markup file

Usage: tagcheck <path>

Arguments:
  <path>  Path to the file to scan

Options:
  -h, --help     Print help
  -V, --version  Print version
".toList

def versionText : Text := "tagcheck 0.1.0\n".toList

def usageText : Text := "Usage: tagcheck <path>\n\nFor more information, try '--help'.\n".toList

def checkSource (source : Text) : Outcome :=
  match Config.defaultNames with
  | .error e => ⟨1, [], "Configuration error: ".toList ++ e.message?.getD [] ++ ['\n']⟩
  | .ok names =>
    match AllowList.ofNames names with
    | .error e => ⟨1, [], "Configuration error: ".toList ++ e.message ++ ['\n']⟩
    | .ok l => ⟨0, Diagnostic.report (l.check source), []⟩

def Action.outcome (reading : Text → Except ReadError Utf8.Bytes) : Action → Outcome
  | .help => ⟨0, helpText, []⟩
  | .version => ⟨0, versionText, []⟩
  | .usageError => ⟨2, [], usageText⟩
  | .check path =>
    match Source.ofReading path (reading path) with
    | .error e => ⟨1, [], "Error reading file: ".toList ++ e.message ++ ['\n']⟩
    | .ok source => checkSource source.value

def run (tree : FileTree) (args : List Text) : Outcome := (action args).outcome tree.read

end TagBalance.CommandLine
