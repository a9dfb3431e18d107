import RuleGraph.Entity.Basic

/-!
# Why a document has no graph
-/

namespace RuleGraph

/-- Why a document has no graph. -/
inductive BuildError where
  /-- The document has no truthy result or no entities. -/
  | notNormalized
  /-- A reference field of an entity holds something else than references. -/
  | malformedReference (kind : Kind) (id : EntityId) (field : String)
deriving DecidableEq, Repr

def BuildError.message : BuildError → String
  | notNormalized =>
    "input is not a normalized AST document (missing `result` or `entities`); " ++
      "normalize the parser output first"
  | malformedReference kind id field =>
    "malformed reference in " ++ kind.name ++ " " ++ toString id.toNat ++ "." ++ field

end RuleGraph
