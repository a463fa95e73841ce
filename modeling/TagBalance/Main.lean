import TagBalance.CommandLine

/-!
The program itself: it reads the file that its arguments name and prints the outcome.
-/
namespace TagBalance

/-- The code of a failure, which some calls give with its sign turned round. -/
def isCode (n code : UInt32) : Bool := code = n || code + n = 0

def readErrorOf (e : IO.Error) : ReadError :=
  match e with
  | .noFileOrDirectory .. => .notFound
  | .inappropriateType _ code _ => if isCode 20 code then .notADirectory else .isADirectory
  | .invalidArgument _ code _ =>
    if isCode 36 code then .nameTooLong else .other e.toString.toList
  | _ => .other e.toString.toList

def readFile (path : Text) : IO (Except ReadError Utf8.Bytes) := do
  if Char.ofNat 0 ∈ path then
    return .error .nulByte
  match ← (IO.FS.readBinFile (String.ofList path)).toBaseIO with
  | .ok content => return .ok content.toList
  | .error e => return .error (readErrorOf e)

end TagBalance

def main (args : List String) : IO UInt32 := do
  let action := TagBalance.CommandLine.action (args.map String.toList)
  let outcome ← match action with
    | .check path => do
      let reading ← TagBalance.readFile path
      pure (action.outcome fun _ => reading)
    | _ => pure (action.outcome fun _ => .error .notFound)
  (← IO.getStdout).putStr (String.ofList outcome.stdout)
  (← IO.getStderr).putStr (String.ofList outcome.stderr)
  return outcome.exit.toUInt32
