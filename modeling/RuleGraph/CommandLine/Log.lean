import RuleGraph.CommandLine.Arguments
import RuleGraph.Conversion

/-!
# Log lines

What happens while a document is converted, as lines for those who asked for them. A line shows
its level, the spans it lies in, its target and what happened; spans of a level that is not logged
are not shown either.
-/

namespace RuleGraph.CommandLine

/-- A part of the work that has a name. -/
inductive Span where
  /-- Converting a document. -/
  | run
  /-- Building its graph. -/
  | graph
deriving DecidableEq, Repr

def Span.name : Span → String
  | run => "run"
  | graph => "build_graph"

def Span.level : Span → Level
  | run => .debug
  | graph => .info

/-- Where a span is reported from. -/
def Span.target : Span → String
  | run => "astgraph_build"
  | graph => "astgraph_build::builder"

/-- The spans around a span, itself included. -/
def Span.path : Span → List Span
  | run => [run]
  | graph => [run, graph]

/-- Something that is logged. -/
inductive Event where
  | reading (path : String)
  | entered (s : Span)
  | visiting (kind : Kind) (count : Nat)
  | built (s : Graph.Stats)
  | closed (s : Span)
  | wrote (path : String)
deriving DecidableEq, Repr

namespace Event

def level : Event → Level
  | reading _ | wrote _ => .info
  | entered s | closed s => s.level
  | visiting _ _ => .trace
  | built _ => .debug

def spans : Event → List Span
  | reading _ | wrote _ => []
  | entered s | closed s => s.path
  | visiting _ _ | built _ => Span.graph.path

/-- Where an event is reported from. -/
def target : Event → String
  | reading _ | wrote _ => "astgraph"
  | entered s | closed s => s.target
  | visiting _ _ | built _ => Span.graph.target

def text : Event → String
  | reading path => "Reading normalized AST path=" ++ path
  | entered _ => "enter"
  | visiting kind count => "Visiting bucket bucket=" ++ kind.name ++ " count=" ++ toString count
  | built s =>
    "Built graph entity_nodes=" ++ toString s.entityNodes ++ " synthetic_nodes=" ++
      toString s.syntheticNodes ++ " edges=" ++ toString s.edges
  | closed _ => "close"
  | wrote path => "Wrote graph path=" ++ path

end Event

/-- The name of a level in log lines. -/
def Level.name : Level → String
  | off => "OFF"
  | error => "ERROR"
  | warn => "WARN"
  | info => "INFO"
  | debug => "DEBUG"
  | trace => "TRACE"

/-- Whether something of a level is logged. -/
def Level.shows (threshold level : Level) : Bool := level.rank ≤ threshold.rank

/-- The line of an event, if it is logged. -/
def Event.line? (threshold : Level) (e : Event) : Option String :=
  if threshold.shows e.level then
    let spans := (e.spans.filter (threshold.shows ·.level)).map Span.name
    let around := if spans.isEmpty then "" else ":".intercalate spans ++ ": "
    some (e.level.name ++ " " ++ around ++ e.target ++ ": " ++ e.text)
  else none

def logLines (threshold : Level) (events : List Event) : List String :=
  events.filterMap (·.line? threshold)

/-! ## What a conversion logs -/

/-- What is logged between the start and the end of building a document's graph. -/
def buildEvents (d : Document) : List Event :=
  match d.buildable? with
  | none => []
  | some bs =>
    (Document.visited bs).map (fun b => .visiting b.1 b.2.length) ++
      (match d.graph with
      | .ok g => [.built g.graph.stats]
      | .error _ => [])

/-- The document that a source holds, if it holds one. -/
def Source.document? (source : Source) : Option Document := do
  let bytes ← source.read.toOption
  let text ← String.fromUTF8? bytes
  (Document.ofText text).toOption

/-- What is logged while a source is converted. -/
def conversionEvents (source : Source) : List Event :=
  .entered .run ::
    ((match Source.document? source with
      | none => []
      | some d => .entered .graph :: (buildEvents d ++ [.closed .graph])) ++ [.closed .run])

end RuleGraph.CommandLine
