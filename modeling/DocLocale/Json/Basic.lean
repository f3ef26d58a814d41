import DocLocale.Decimal.Shortest

/-!
JSON values. Objects keep their fields in the order in which they were first written.
-/

set_option autoImplicit false
set_option relaxedAutoImplicit false

namespace DocLocale

namespace Json

/-- A JSON number: a whole number that fits 64 bits, or a double given by its bits. -/
inductive Number
  | natural (n : Nat)
  | negative (n : Nat)
  | real (bits : UInt64)
  deriving DecidableEq, Repr

end Json

/-- A JSON value. -/
inductive Json
  | null
  | bool (b : Bool)
  | number (n : Json.Number)
  | string (s : String)
  | array (items : List Json)
  | object (fields : List (String × Json))
  deriving Repr

namespace Json

/-- Writes `value` under `key`: a key already present keeps its place and takes the new value, a new
key goes to the end. -/
def setField (key : String) (value : Json) : List (String × Json) → List (String × Json)
  | [] => [(key, value)]
  | (k, v) :: rest => if k = key then (k, value) :: rest else (k, v) :: setField key value rest

/-- The value under `key`. -/
def field? (key : String) : List (String × Json) → Option Json
  | [] => none
  | (k, v) :: rest => if k = key then some v else field? key rest

/-- A whole number as a JSON value. -/
def nat (n : Nat) : Json := .number (.natural n)

end Json

end DocLocale
