import Stencil.Script.Heap

/-! # Comparing values

Equality with and without conversion, and the order of strings and numbers.
-/
namespace Stencil.Script

/-- Equality without conversion. Arrays, objects and functions are equal to themselves only; two
methods are never equal. -/
def Value.strictEquals : Value → Value → Bool
  | .undefined, .undefined => true
  | .null, .null => true
  | .boolean a, .boolean b => a == b
  | .number x, .number y => x == y
  | .string s, .string t => s == t
  | .array a, .array b => a == b
  | .object a, .object b => a == b
  | .function a _, .function b _ => a == b
  | .native f, .native g => f == g
  | _, _ => false

namespace Heap

variable (h : Heap)

/-- Equality of two values neither of which stands for nothing: a boolean, or a number and a
string, are compared as numbers, and a string with an array or an object as texts. -/
def convertedEquals (a b : Value) : Bool :=
  match a, b with
  | .boolean _, _ => h.number a == h.number b
  | _, .boolean _ => h.number a == h.number b
  | .number _, .string _ => h.number a == h.number b
  | .string _, .number _ => h.number a == h.number b
  | .string s, .array _ => s == h.text b
  | .string s, .object _ => s == h.text b
  | .array _, .string s => h.text a == s
  | .object _, .string s => h.text a == s
  | _, _ => a.strictEquals b

/-- Equality with conversion. The two values that stand for nothing are equal to each other and to
nothing else. -/
def looseEquals (a b : Value) : Bool :=
  if a.isNullish || b.isNullish then a.isNullish && b.isNullish else h.convertedEquals a b

/-- The order of two values: strings by their characters, all else as numbers. There is none if
one of them is not a number. -/
def order? (a b : Value) : Option Ordering :=
  match a, b with
  | .string s, .string t => some (compare s t)
  | a, b =>
    let x := h.number a
    let y := h.number b
    if x < y then some .lt
    else if y < x then some .gt
    else if x == y then some .eq
    else none

end Heap

end Stencil.Script
