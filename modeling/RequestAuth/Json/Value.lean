import RequestAuth.Decimal.Binary64

/-!
# JSON values

A number is a whole number or a number of double precision. The members of an object are kept in
ascending order of their names, each name once.
-/

namespace RequestAuth

/-- A JSON value. -/
inductive JsonValue where
  | null
  | bool (value : Bool)
  | integer (value : Int)
  | decimal (negative : Bool) (size : Binary64)
  | string (text : String)
  | array (items : List JsonValue)
  | object (members : List (String × JsonValue))
  deriving Repr

namespace JsonValue

/-- Puts a member among members in ascending order, in the place of one of the same name. -/
def insertMember (name : String) (value : α) : List (String × α) → List (String × α)
  | [] => [(name, value)]
  | (n, v) :: rest =>
    if name < n then (name, value) :: (n, v) :: rest
    else if name = n then (name, value) :: rest
    else (n, v) :: insertMember name value rest

/-- Members in ascending order; of those with the same name, the last one. -/
def sortMembers (members : List (String × α)) : List (String × α) :=
  members.foldl (fun sorted (name, value) => insertMember name value sorted) []

end JsonValue

end RequestAuth
