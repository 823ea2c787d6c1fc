import ApiForge.Numeric.Binary
import ApiForge.Table
/-!
JSON values. A number is an integer when its text had neither point nor
exponent and a machine word holds it, and a double otherwise. The members of
an object are a table, so they stand in key order.
-/

namespace ApiForge.Json

open Numeric (Binary64)

/-- A JSON value. -/
inductive Value where
  | null
  | bool (b : Bool)
  | int (n : Int)
  | float (x : Binary64)
  | str (s : String)
  | arr (items : List Value)
  | obj (fields : List (String × Value))
deriving Inhabited

namespace Value

/-- The text of a string. -/
def text? : Value → Option String
  | str s => some s
  | _ => none

/-- The member of an object under a key. -/
def field? (k : String) : Value → Option Value
  | obj fields => Table.get? k fields
  | _ => none

end Value

end ApiForge.Json
