/-
  LineCalc/Value.lean
  ===================
  **Values and what the operators make of them.**  Numbers and booleans count as
  numbers in arithmetic; anything else makes the result null.  Two values of one
  kind are equal when they are written alike, a number and a boolean when they
  agree on being positive or true, and values of other different kinds are
  neither `==` nor `!=`.
-/
import LineCalc.Binary64.Arithmetic
import LineCalc.Decimal.Plain
import LineCalc.Program.Basic

namespace LineCalc

inductive Value where
  | null
  | number (value : Binary64)
  | boolean (value : Bool)
  | string (text : String)
  deriving DecidableEq

inductive Value.Kind where
  | null
  | number
  | boolean
  | string
  deriving DecidableEq, Repr

def Value.Kind.display : Value.Kind → String
  | .null => "null"
  | .number => "number"
  | .boolean => "boolean"
  | .string => "string"

namespace Value

def kind : Value → Kind
  | .null => .null
  | .number _ => .number
  | .boolean _ => .boolean
  | .string _ => .string

/-- A value as it is printed. -/
def text : Value → String
  | .null => "null"
  | .number value => value.render
  | .boolean true => "true"
  | .boolean false => "false"
  | .string text => text

/-- The number one. -/
def one : Binary64 := .ofRatio false Binary64.unitsPerOne 1

/-- A value in arithmetic. -/
def toNumber? : Value → Option Binary64
  | .number value => some value
  | .boolean true => some one
  | .boolean false => some (.zero false)
  | _ => none

/-- A value as a truth value: a number is true when it is positive. -/
def toBoolean? : Value → Option Bool
  | .number value => some value.isPositive
  | .boolean value => some value
  | _ => none

/-- Equal values, numbers compared by value. -/
def eqv : Value → Value → Bool
  | .null, .null => true
  | .number x, .number y => x.eqv y
  | .boolean a, .boolean b => a = b
  | .string a, .string b => a = b
  | _, _ => false

end Value

/-! ### The operators -/

def ArithOp.apply : ArithOp → Binary64 → Binary64 → Binary64
  | .add => .add
  | .sub => .sub
  | .mul => .mul
  | .div => .div

/-- Arithmetic on values. -/
def ArithOp.eval (op : ArithOp) (left right : Value) : Value :=
  match left.toNumber?, right.toNumber? with
  | some x, some y => .number (op.apply x y)
  | _, _ => .null

/-- The answer of a comparison, given whether the two sides are equal. -/
def CompareOp.answer : CompareOp → Bool → Bool
  | .equal, isEqual => isEqual
  | .notEqual, isEqual => !isEqual

/-- Comparison of values. -/
def CompareOp.eval (op : CompareOp) (left right : Value) : Value :=
  if left.kind = right.kind then .boolean (op.answer (left.text = right.text))
  else
    match left, right with
    | .number _, .boolean _ | .boolean _, .number _ =>
      .boolean (op.answer (left.toBoolean? = right.toBoolean?))
    | _, _ => .boolean false

end LineCalc
