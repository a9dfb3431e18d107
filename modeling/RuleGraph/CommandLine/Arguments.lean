/-!
# Arguments of the command line

`[INPUT] [-o PATH] [-v…] [-q…]`, with the long forms `--output`, `--verbose` and `--quiet`. Short
options may share one argument, and a value may be joined to its option. Everything behind `--` is
an input. Arguments are taken from left to right; the first one that asks for help or the version,
or that cannot be taken, decides.
-/

namespace RuleGraph.CommandLine

/-- How much is logged. -/
inductive Level where
  | off
  | error
  | warn
  | info
  | debug
  | trace
deriving DecidableEq, Repr

namespace Level

/-- All levels, each one logging more than those before it. -/
def all : List Level := [off, error, warn, info, debug, trace]

def rank : Level → Nat
  | off => 0
  | error => 1
  | warn => 2
  | info => 3
  | debug => 4
  | trace => 5

/-- The level of a rank; ranks that are too high give the last one. -/
def ofRank (n : Nat) : Level := (all[n]?).getD trace

/-- The level that flags ask for, each one step from `info`. -/
def ofFlags (verbose quiet : Nat) : Level := ofRank (info.rank + verbose - quiet)

end Level

/-- What is asked of the program. -/
structure Invocation where
  /-- The file to read; none, or `-`, is the standard input. -/
  input : Option String
  /-- The file to write; none is the standard output. -/
  output : Option String
  level : Level
deriving DecidableEq, Repr

/-- What the arguments ask for. -/
inductive Command where
  | convert (i : Invocation)
  | version
  | help
  /-- The arguments cannot be understood. -/
  | misuse
deriving DecidableEq, Repr

/-- The arguments taken so far. -/
structure Taken where
  input : Option String
  output : Option String
  verbose : Nat
  quiet : Nat
deriving DecidableEq, Repr

namespace Taken

def nothing : Taken := ⟨none, none, 0, 0⟩

/-- One more input; there can be one that is not empty. -/
def withInput (t : Taken) (path : String) : Option Taken :=
  if path = "" ∨ t.input.isSome then none else some { t with input := some path }

/-- One more output; there can be one that is not empty. -/
def withOutput (t : Taken) (path : String) : Option Taken :=
  if path = "" ∨ t.output.isSome then none else some { t with output := some path }

/-- What the arguments ask for when all are taken; there is no being verbose and quiet at once. -/
def command (t : Taken) : Command :=
  if 0 < t.verbose ∧ 0 < t.quiet then .misuse
  else .convert ⟨t.input, t.output, .ofFlags t.verbose t.quiet⟩

end Taken

/-- Whether an argument reads as an option where a value was expected. -/
def looksLikeOption (arg : String) : Bool := arg.toList.head? = some '-' && arg ≠ "-"

/-- What short options in one argument come to. -/
inductive Cluster where
  /-- They are all taken. -/
  | taken (t : Taken)
  /-- The output's path is the next argument. -/
  | outputNext (t : Taken)
  | command (c : Command)

/-- Take the short options of one argument. -/
def takeShort (t : Taken) : List Char → Cluster
  | [] => .taken t
  | 'v' :: cs => takeShort { t with verbose := t.verbose + 1 } cs
  | 'q' :: cs => takeShort { t with quiet := t.quiet + 1 } cs
  | 'V' :: _ => .command .version
  | 'h' :: _ => .command .help
  | 'o' :: [] => .outputNext t
  | 'o' :: '=' :: path => (t.withOutput (String.ofList path)).elim (.command .misuse) .taken
  | 'o' :: path => (t.withOutput (String.ofList path)).elim (.command .misuse) .taken
  | _ :: _ => .command .misuse

/-- Take a long option, from behind its dashes. -/
def takeLong (t : Taken) (option : List Char) : Cluster :=
  let name := String.ofList (option.takeWhile (· ≠ '='))
  match option.dropWhile (· ≠ '=') with
  | _ :: path =>
    if name = "output" then (t.withOutput (String.ofList path)).elim (.command .misuse) .taken
    else .command .misuse
  | [] =>
    if name = "verbose" then .taken { t with verbose := t.verbose + 1 }
    else if name = "quiet" then .taken { t with quiet := t.quiet + 1 }
    else if name = "output" then .outputNext t
    else if name = "version" then .command .version
    else if name = "help" then .command .help
    else .command .misuse

/-- Take the inputs behind `--`. -/
def takeInputs (t : Taken) : List String → Command
  | [] => t.command
  | arg :: args => (t.withInput arg).elim .misuse (takeInputs · args)

/-- What the options of one argument come to; `none` if it is an input. -/
def takeOptions? (t : Taken) (arg : String) : Option Cluster :=
  match arg.toList with
  | '-' :: '-' :: option => some (takeLong t option)
  | '-' :: c :: cs => some (takeShort t (c :: cs))
  | _ => none

/-- Take arguments from left to right. -/
def takeArguments (t : Taken) : List String → Command
  | [] => t.command
  | arg :: args =>
    if arg = "--" then takeInputs t args
    else
      match takeOptions? t arg with
      | none => (t.withInput arg).elim .misuse (takeArguments · args)
      | some (.taken t) => takeArguments t args
      | some (.command c) => c
      | some (.outputNext t) =>
        match args with
        | [] => .misuse
        | path :: args =>
          if looksLikeOption path then .misuse
          else (t.withOutput path).elim .misuse (takeArguments · args)

/-- What arguments ask for. -/
def Command.ofArguments (args : List String) : Command := takeArguments .nothing args

end RuleGraph.CommandLine
