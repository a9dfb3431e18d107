import RuleGraph.CommandLine.Directory
import RuleGraph.CommandLine.Log

/-!
# Running the program

An invocation opens its input, converts it as a whole, and only then writes. `Execution` is all
that can be seen of that: the exit status, the standard output, the error report, the log and the
files.
-/

namespace RuleGraph.CommandLine

/-! ## Failures -/

/-- Why an invocation fails. -/
inductive Failure where
  | cannotOpen (path reason : String)
  | conversion (e : ConversionError)
  | cannotWrite (path reason : String)
deriving DecidableEq, Repr

/-- A text with every line set in by four. -/
def setIn (s : String) : String := "    " ++ "\n    ".intercalate (s.splitOn "\n")

/-- What lies behind a failure, as a part of its report. -/
def causedBy (reason : Option String) : String :=
  match reason with
  | none => ""
  | some reason => "\n\nCaused by:\n" ++ setIn reason

/-- The report of a failure. -/
def Failure.report : Failure → String
  | .cannotOpen path reason => "Error: cannot open " ++ path ++ causedBy (some reason)
  | .cannotWrite path reason => "Error: cannot write " ++ path ++ causedBy (some reason)
  | .conversion e =>
    "Error: " ++ e.message ConversionError.atPlace ++ "\ndisabled backtrace" ++
      causedBy (e.reason? ConversionError.atPlace)

/-! ## Steps of an invocation -/

namespace Invocation

/-- The file that an invocation reads, if it reads one. -/
def file? (i : Invocation) : Option String := i.input.filter (· ≠ "-")

/-- What is written when an input could be opened, or the failure; nothing is written before. -/
def convert (i : Invocation) (opened : Except String Source) : Except Failure (List UInt8) :=
  match opened with
  | .error reason => .error (.cannotOpen (i.file?.getD "") reason)
  | .ok source =>
    let outcome := RuleGraph.run source ⟨none, ""⟩
    match outcome.error with
    | some e => .error (.conversion e)
    | none => .ok outcome.written

/-- What is logged before anything is written. -/
def events (i : Invocation) (opened : Except String Source) : List Event :=
  (i.file?.map Event.reading).toList ++
    match opened with
    | .error _ => []
    | .ok source => conversionEvents source

end Invocation

/-! ## In a directory -/

/--
The input of an invocation, with the bytes of the standard input and the files there are. A
directory can be opened but not read.
-/
def Invocation.openIn (i : Invocation) (stdin : ByteArray) (dir : Directory) (home : List String) :
    Except String Source :=
  match i.file? with
  | none => .ok ⟨stdin, none⟩
  | some path =>
    match dir.read home path with
    | .ok (some bytes) => .ok ⟨bytes, none⟩
    | .ok none => .ok ⟨ByteArray.empty, some Refusal.isDirectory.message⟩
    | .error r => .error r.message

/-- What can be seen of a run of the program. -/
structure Execution where
  exit : Nat
  stdout : List UInt8
  /-- The error report; none if the arguments could not be understood. -/
  report : Option String
  log : List String
  files : Directory

/-- A run of an invocation. -/
def Invocation.execute (i : Invocation) (stdin : ByteArray) (dir : Directory)
    (home : List String) : Execution :=
  let opened := i.openIn stdin dir home
  let events := i.events opened
  match i.convert opened with
  | .error f => ⟨1, [], some f.report, logLines i.level events, dir⟩
  | .ok bytes =>
    match i.output with
    | none => ⟨0, bytes, some "", logLines i.level events, dir⟩
    | some path =>
      match dir.write home path ⟨bytes.toArray⟩ with
      | .error r =>
        ⟨1, [], some (Failure.cannotWrite path r.message).report, logLines i.level events, dir⟩
      | .ok dir => ⟨0, [], some "", logLines i.level (events ++ [.wrote path]), dir⟩

/-- The name and the version of the program, as a line. -/
def versionLine : String := "astgraph 0.1.0\n"

/-- How the program is used, as a line. -/
def helpLine : String := "Usage: astgraph [INPUT] [-o PATH] [-v...] [-q...]\n"

/-- A run of the program with some arguments, in the directory that the names of `home` lead to. -/
def execute (args : List String) (stdin : ByteArray) (dir : Directory)
    (home : List String := ["work"]) : Execution :=
  match Command.ofArguments args with
  | .misuse => ⟨2, [], none, [], dir⟩
  | .version => ⟨0, versionLine.toUTF8.toList, some "", [], dir⟩
  | .help => ⟨0, helpLine.toUTF8.toList, some "", [], dir⟩
  | .convert i => i.execute stdin dir home

end RuleGraph.CommandLine
