import Mathlib.Data.Option.Basic

/-!
# JSON values as a script reads them

The values `JSON.parse` returns, property reads on them (`none` is `undefined`), and what
counts as true. The parser and the conversion of values other than strings to text belong to
the host: `Host` stands for them.
-/

set_option autoImplicit false

namespace ServerlessHarness.Library

/-- A JSON value; a number is `mantissa · 10 ^ exponent`. -/
inductive Json where
  | null
  | bool (b : Bool)
  | num (mantissa exponent : Int)
  | str (s : String)
  | arr (items : List Json)
  | obj (fields : List (String × Json))
deriving Repr

namespace Json

/-- A property read; on `null` it throws, which is for the caller to model. -/
def get : Json → String → Option Json
  | obj fields, key => fields.lookup key
  | _, _ => none

/-- What counts as true. -/
def truthy : Json → Bool
  | null => false
  | bool b => b
  | num mantissa _ => mantissa ≠ 0
  | str s => s ≠ ""
  | arr _ => true
  | obj _ => true

/-- `v && typeof v === 'object'`. -/
def isObject : Json → Bool
  | arr _ => true
  | obj _ => true
  | _ => false

end Json

/-- What the host supplies: `JSON.parse`, and the conversion of a value to text; `none` is a
throw. -/
structure Host where
  parse : String → Option Json
  toText : Json → Option String

/-- The text a template literal puts in place of a value. -/
def Host.template (host : Host) : Option Json → Option String
  | none => some "undefined"
  | some (.str s) => some s
  | some v => host.toText v

end ServerlessHarness.Library
