import Lox.Decimal
import Lox.Text.Quoted

/-! # Values

The language has four kinds of values: numbers, strings, booleans and `nil`. This file says when two
values are equal, which values count as true, and how a value is printed.

An expression of a tree assembled by hand may yield no value at all, from a literal without one.
`Option Value` stands for what an expression yields; `none` counts as true, equals itself only, and
cannot be shown. -/

namespace Lox

/-- A value of the language. -/
inductive Value
  | number (n : Float)
  | string (s : String)
  | boolean (b : Bool)
  | nil
deriving DecidableEq

namespace Value

/-- The text a program prints for a value. -/
def text : Value → String
  | number n => plainNumber n
  | string s => s
  | boolean true => "true"
  | boolean false => "false"
  | nil => "nil"

@[simp] theorem text_string (s : String) : (string s).text = s := rfl

@[simp] theorem text_nil : nil.text = "nil" := rfl

/-- The value as it is named inside the description of a token. -/
def describe : Value → String
  | number n => "Number(value=" ++ exactNumber n ++ ")"
  | string s => "String(value=" ++ Text.quoted s ++ ")"
  | boolean true => "Boolean(value=True)"
  | boolean false => "Boolean(value=False)"
  | nil => "Nil()"

/-- Only `nil` and `false` count as false. -/
def isTruthy : Value → Bool
  | boolean b => b
  | nil => false
  | number _ | string _ => true

@[simp] theorem isTruthy_boolean (b : Bool) : (boolean b).isTruthy = b := rfl

@[simp] theorem isTruthy_nil : nil.isTruthy = false := rfl

/-- Equality as the language has it: numbers are compared as binary64 numbers, so that the number
that is none differs from itself and the two zeros are equal; values of different kinds differ. -/
def equals : Value → Value → Bool
  | number a, number b => a == b
  | string a, string b => a == b
  | boolean a, boolean b => a == b
  | nil, nil => true
  | _, _ => false

end Value

/-- What an expression yields counts as true unless it is a value that counts as false. -/
def yieldIsTruthy : Option Value → Bool
  | none => true
  | some v => v.isTruthy

@[simp] theorem yieldIsTruthy_none : yieldIsTruthy none = true := rfl

@[simp] theorem yieldIsTruthy_some (v : Value) : yieldIsTruthy (some v) = v.isTruthy := rfl

/-- Equality of what two expressions yield: a missing value equals only another missing one. -/
def yieldEquals : Option Value → Option Value → Bool
  | none, none => true
  | some a, some b => a.equals b
  | _, _ => false

end Lox
