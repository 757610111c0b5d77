/-!
# Record keys

A record is addressed by a namespace, a set and a key of the user's own,
which is a text, an integer or a string of bytes.
-/

namespace FieldQuery
namespace Store

/-- The part of a record key that the user chooses. -/
inductive UserKey where
  | text (value : String)
  | integer (value : Int)
  | bytes (value : List UInt8)
deriving DecidableEq

/-- The address of a record. -/
structure RecordKey where
  space : String
  set : String
  user : UserKey
deriving DecidableEq

/-- A byte as two lower-case hexadecimal digits. -/
def hexByte
    (byte : UInt8) :
    List Char :=
  [Nat.digitChar (byte.toNat / 16), Nat.digitChar (byte.toNat % 16)]

/-- The text of a user key; bytes are written in hexadecimal. -/
def UserKey.render :
    UserKey → String
  | text value => value
  | integer value => toString value
  | bytes value => String.ofList (value.flatMap hexByte)

/-- The text of a record key. -/
def RecordKey.render
    (key : RecordKey) :
    String :=
  key.space ++ "/" ++ key.set ++ "/" ++ key.user.render

end Store
end FieldQuery
