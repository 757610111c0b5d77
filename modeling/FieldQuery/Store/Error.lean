import FieldQuery.Accessor

/-!
# Store errors

A store call fails because the addressed place has the wrong shape, because
it is missing, because the record is missing or has another generation than
expected, or because the store cannot be reached. Errors about a place carry
the reason.
-/

namespace FieldQuery
namespace Store

/-- Why an operation does not fit the place that it addresses. -/
inductive Reason where
  | keyReadFrom (key : String) (shape : String)
  | indexReadFrom (index : Int) (shape : String)
  | keyPutInto (key : String) (shape : String)
  | indexSetIn (index : Int) (shape : String)
  | keyRemovedFrom (key : String) (shape : String)
  | indexPoppedFrom (index : Int) (shape : String)
  | outOfBounds (index : Int) (length : Nat)
  | noCollection (context : Accessor)
  | noField
  | noFieldNamed (field : String)
  | notARead (operation : String)
  | notAWrite (operation : String)
  /-- A reason in a store's own words. -/
  | stated (text : String)
deriving DecidableEq

/-- The wording of a reason. -/
def Reason.text :
    Reason → String
  | keyReadFrom key shape => "key " ++ Text.quoted key ++ " read from " ++ shape
  | indexReadFrom index shape => "index " ++ toString index ++ " read from " ++ shape
  | keyPutInto key shape => "cannot put key " ++ Text.quoted key ++ " into " ++ shape
  | indexSetIn index shape => "cannot set index " ++ toString index ++ " in " ++ shape
  | keyRemovedFrom key shape => "cannot remove key " ++ Text.quoted key ++ " from " ++ shape
  | indexPoppedFrom index shape => "cannot pop index " ++ toString index ++ " from " ++ shape
  | outOfBounds index length =>
      "index " ++ toString index ++ " out of bounds for list of " ++ toString length
  | noCollection context => "no collection at " ++ context.descent
  | noField => "field is missing"
  | noFieldNamed field => "field " ++ Text.quoted field ++ " is missing"
  | notARead operation => operation ++ " is not a read"
  | notAWrite operation => operation ++ " is not a write"
  | stated text => text

/-- How a store call can fail. -/
inductive StoreError where
  | typeMismatch (reason : Reason)
  | invalidAccessShape (reason : Reason)
  | notApplicable (reason : Reason)
  | recordNotFound
  | generationMismatch (expected actual : Nat)
  | unavailable (detail : String)
deriving DecidableEq

/-- The wording of a store error. -/
def StoreError.message :
    StoreError → String
  | typeMismatch reason => "type mismatch: " ++ reason.text
  | invalidAccessShape reason => "invalid access shape: " ++ reason.text
  | notApplicable reason => "operation not applicable: " ++ reason.text
  | recordNotFound => "record not found"
  | generationMismatch expected actual =>
      "generation mismatch: expected " ++ toString expected ++ ", found " ++ toString actual
  | unavailable detail => "store unavailable: " ++ detail

end Store
end FieldQuery
