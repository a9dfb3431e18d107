import RuleGraph.Build.Walk
import RuleGraph.Document.Json
import RuleGraph.Graph.Json

/-!
# Converting a document's text

`graphOf` turns the bytes of a document into its graph. `run` reads a document from a source that
may fail and writes its graph to a sink that may take only so many bytes: piece by piece, and only
when the whole graph is there.
-/

namespace RuleGraph

open Json

/-- Why a conversion fails. -/
inductive ConversionError where
  /-- The input could not be read, or is not UTF-8. -/
  | unreadable (reason : String)
  /-- The input is not JSON; the place of the fault is its line and column. -/
  | notJson (fault : Fault) (place : Nat × Nat)
  /-- The input is JSON of the wrong shape. -/
  | notDocument (m : Mismatch)
  /-- The document has no graph. -/
  | noGraph (e : BuildError)
  /-- The graph could not be written. -/
  | unwritableGraph (reason : String)
  /-- The line break behind the graph could not be written. -/
  | unwritableEnd (reason : String)
deriving DecidableEq, Repr

/-- What errors of a conversion are told apart by. -/
inductive ErrorCategory where
  | invalidInput
  | malformedReference
  | deserialization
  | serialization
  | io
deriving DecidableEq, Repr

namespace ConversionError

def category : ConversionError → ErrorCategory
  | noGraph .notNormalized => .invalidInput
  | noGraph (.malformedReference ..) => .malformedReference
  | notJson .. | notDocument _ => .deserialization
  | unwritableGraph _ => .serialization
  | unreadable _ | unwritableEnd _ => .io

/-- What lies behind an error, where `place` spells the place of a fault. -/
def reason? (place : Nat × Nat → String) : ConversionError → Option String
  | unreadable reason | unwritableGraph reason | unwritableEnd reason => some reason
  | notJson f p => some (f.message ++ place p)
  | notDocument m => some m.message
  | noGraph _ => none

/-- The wording of an error, where `place` spells the place of a fault. -/
def message (place : Nat × Nat → String) (e : ConversionError) : String :=
  match e with
  | unreadable reason | unwritableEnd reason => "I/O error: " ++ reason
  | notJson f p => "failed to deserialize input: " ++ f.message ++ place p
  | notDocument m => "failed to deserialize input: " ++ m.message
  | noGraph b => b.message
  | unwritableGraph reason => "failed to serialize output: " ++ reason

/-- The spelling of a place in reports. -/
def atPlace (p : Nat × Nat) : String := " at line " ++ toString p.1 ++ " column " ++ toString p.2

def nowhere (_ : Nat × Nat) : String := ""

end ConversionError

/-! ## From bytes to text -/

/-- What is said of bytes that are not UTF-8. -/
def notUtf8 : String := "stream did not contain valid UTF-8"

/-- The document of a text; its root has to be an object. -/
def Document.ofText (text : String) : Except ConversionError Document :=
  match Value.ofText text with
  | .error f => .error (.notJson f (Fault.position text f))
  | .ok (.object members) =>
    (Document.format.ofValue (.object members)).mapError .notDocument
  | .ok _ => .error (.noGraph .notNormalized)

/-- The text of a graph document: over lines, with a line break at its end. -/
def GraphDocument.text (g : GraphDocument) : String := g.toValue.prettyText ++ "\n"

/-- The graph of a document's bytes. -/
def graphOf (bytes : ByteArray) : Except ConversionError GraphDocument :=
  match String.fromUTF8? bytes with
  | none => .error (.unreadable notUtf8)
  | some text =>
    match Document.ofText text with
    | .error e => .error e
    | .ok d => d.graph.mapError .noGraph

/-! ## Between a source and a sink -/

/-- Bytes to read, and what is said when reading fails behind them. -/
structure Source where
  bytes : ByteArray
  failure : Option String

/-- How many bytes can be written, and what is said when writing fails behind them. -/
structure Sink where
  room : Option Nat
  failure : String

/-- The bytes that were written, and how the conversion ended. -/
structure Outcome where
  written : List UInt8
  error : Option ConversionError

/-- The bytes that a sink has taken, and how many it can still take if there is a limit. -/
structure Intake where
  written : Array UInt8
  room : Option Nat

/-- Write bytes; those for which there is room are taken also when writing fails behind them. -/
def Intake.put (s : Intake) (bytes : List UInt8) : Except Intake Intake :=
  match s.room with
  | none => .ok ⟨s.written ++ bytes, none⟩
  | some room =>
    let after : Intake := ⟨s.written ++ bytes.take room, some (room - bytes.length)⟩
    if bytes.length ≤ room then .ok after else .error after

/-- The pieces in which a graph document is written: the characters of its text over lines. -/
def GraphDocument.pieces (g : GraphDocument) : List (List UInt8) :=
  (g.toValue.pretty 0).map String.utf8EncodeChar

/-- Write a graph document to a sink, then the line break behind it. -/
def GraphDocument.writeTo (g : GraphDocument) (sink : Sink) : Outcome :=
  match g.pieces.foldlM Intake.put ⟨#[], sink.room⟩ with
  | .error s => ⟨s.written.toList, some (.unwritableGraph sink.failure)⟩
  | .ok s =>
    match s.put (String.utf8EncodeChar '\n') with
    | .error s => ⟨s.written.toList, some (.unwritableEnd sink.failure)⟩
    | .ok s => ⟨s.written.toList, none⟩

/-- What is read from a source. -/
def Source.read (source : Source) : Except ConversionError ByteArray :=
  match source.failure with
  | some reason => .error (.unreadable reason)
  | none => .ok source.bytes

/-- Convert what a source holds and write it to a sink. -/
def run (source : Source) (sink : Sink) : Outcome :=
  match source.read.bind graphOf with
  | .error e => ⟨[], some e⟩
  | .ok g => g.writeTo sink

end RuleGraph
