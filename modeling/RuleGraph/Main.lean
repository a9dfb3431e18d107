import RuleGraph.CommandLine.Execution

/-!
The program: it reads arguments, files and the standard input, and writes what the library says.
-/

namespace RuleGraph.CommandLine

/-- The wording of an error of the system. -/
def systemMessage (e : IO.Error) : String :=
  match e with
  | .noFileOrDirectory _ code details | .inappropriateType _ code details
  | .permissionDenied _ code details =>
    details ++ " (os error " ++ toString code.toNat ++ ")"
  | e => toString e

def openInput (i : Invocation) : IO (Except String Source) := do
  match i.file? with
  | none => return .ok ⟨← (← IO.getStdin).readBinToEnd, none⟩
  | some path =>
    match ← (IO.FS.Handle.mk path .read).toBaseIO with
    | .error e => return .error (systemMessage e)
    | .ok handle =>
      match ← handle.readBinToEnd.toBaseIO with
      | .error e => return .ok ⟨ByteArray.empty, some (systemMessage e)⟩
      | .ok bytes => return .ok ⟨bytes, none⟩

/-- Write log lines and a report to the standard error. -/
def tell (i : Invocation) (events : List Event) (report : String) : IO Unit := do
  for line in logLines i.level events do IO.eprintln line
  unless report.isEmpty do IO.eprintln report

/-- Carry out an invocation; the exit status comes out. -/
def carryOut (i : Invocation) : IO UInt32 := do
  let opened ← openInput i
  let events := i.events opened
  match i.convert opened with
  | .error f =>
    tell i events f.report
    return 1
  | .ok bytes =>
    match i.output with
    | none =>
      tell i events ""
      let out ← IO.getStdout
      out.write ⟨bytes.toArray⟩
      out.flush
      return 0
    | some path =>
      match ← (IO.FS.writeBinFile path ⟨bytes.toArray⟩).toBaseIO with
      | .ok _ =>
        tell i (events ++ [.wrote path]) ""
        return 0
      | .error e =>
        tell i events (Failure.cannotWrite path (systemMessage e)).report
        return 1

end RuleGraph.CommandLine

/-- Run the program. -/
def main (args : List String) : IO UInt32 := do
  match RuleGraph.CommandLine.Command.ofArguments args with
  | .misuse =>
    IO.eprint RuleGraph.CommandLine.helpLine
    return 2
  | .version =>
    IO.print RuleGraph.CommandLine.versionLine
    return 0
  | .help =>
    IO.print RuleGraph.CommandLine.helpLine
    return 0
  | .convert i => RuleGraph.CommandLine.carryOut i
