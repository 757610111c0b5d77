import FieldQuery.Text.Quoted

/-!
# Errors of document operations

Every operation on a document fails with one of six kinds of errors, each of
which carries the path that the caller gave.
-/

namespace FieldQuery

/-- The kinds of errors that a document operation can end with. -/
inductive DocumentError where
  /-- The path does not start at the root. -/
  | missingRoot (path : String)
  /-- The path is no query. -/
  | malformedPath (path : String)
  /-- The path does not resolve in the stored document. -/
  | objectNotFound (path : String)
  /-- The place to write to is missing or has the wrong shape. -/
  | writeNotApplicable (path : String)
  /-- The record changed between being read and being written back. -/
  | conflict (path : String)
  /-- The store failed for reasons of its own. -/
  | store (path : String) (reason : String)
deriving DecidableEq

namespace DocumentError

/-- The path that the caller gave. -/
def path :
    DocumentError → String
  | missingRoot path => path
  | malformedPath path => path
  | objectNotFound path => path
  | writeNotApplicable path => path
  | conflict path => path
  | store path _ => path

/-- The wording of an error. -/
def message :
    DocumentError → String
  | missingRoot path =>
      "JSON path must start at the document root ($): " ++ Text.quoted path
  | malformedPath path => "invalid JSON path syntax: " ++ path
  | objectNotFound path => "JSON object not found at " ++ path
  | writeNotApplicable path =>
      "cannot write to " ++ path ++ ": target is missing or has the wrong shape"
  | conflict path => "record changed concurrently while updating " ++ path
  | store path reason => "store failure at " ++ path ++ ": " ++ reason

/-- The name of the kind of an error. -/
def kindName :
    DocumentError → String
  | missingRoot _ => "missing_root"
  | malformedPath _ => "path_syntax"
  | objectNotFound _ => "object_not_found"
  | writeNotApplicable _ => "write_not_applicable"
  | conflict _ => "conflict"
  | store .. => "store"

/-- Whether an error was raised before any call of the store. -/
def isMalformed :
    DocumentError → Bool
  | missingRoot _ => true
  | malformedPath _ => true
  | _ => false

/-- Whether the path did not resolve in the document. -/
def isNotFound :
    DocumentError → Bool
  | objectNotFound _ => true
  | _ => false

/-- Whether a guarded write lost a race. -/
def isConflict :
    DocumentError → Bool
  | conflict _ => true
  | _ => false

end DocumentError
end FieldQuery
