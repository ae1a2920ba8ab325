import N8n.Lib.Dict
import Mathlib.Algebra.Order.Field.Rat

/-!
# Script values

The values that item data and node parameters are made of.  A number is an exact rational: every
finite number of the language is one, and the modelled code only compares and copies them.  An
object lists its properties in insertion order.

* `isEqual`: lodash `isEqual`, which compares the properties of objects regardless of their order.
-/

namespace N8n

/-- A value of the script language, as far as item data and parameters use it. -/
inductive JsValue where
  | undefined
  | null
  | bool (b : Bool)
  | num (q : ℚ)
  | str (s : String)
  | arr (xs : List JsValue)
  | obj (props : List (String × JsValue))

/-- The properties of an object. -/
abbrev JsObject := List (String × JsValue)

namespace JsValue

mutual

/-- Equality of values is decidable. -/
def decEq : (a b : JsValue) → Decidable (a = b)
  | undefined, undefined => isTrue rfl
  | null, null => isTrue rfl
  | bool a, bool b => decidable_of_iff (a = b) (by simp)
  | num a, num b => decidable_of_iff (a = b) (by simp)
  | str a, str b => decidable_of_iff (a = b) (by simp)
  | arr a, arr b => @decidable_of_iff _ (a = b) (by simp) (decEqList a b)
  | obj a, obj b => @decidable_of_iff _ (a = b) (by simp) (decEqProps a b)
  | undefined, null | undefined, bool _ | undefined, num _ | undefined, str _ | undefined, arr _
  | undefined, obj _ | null, undefined | null, bool _ | null, num _ | null, str _ | null, arr _
  | null, obj _ | bool _, undefined | bool _, null | bool _, num _ | bool _, str _ | bool _, arr _
  | bool _, obj _ | num _, undefined | num _, null | num _, bool _ | num _, str _ | num _, arr _
  | num _, obj _ | str _, undefined | str _, null | str _, bool _ | str _, num _ | str _, arr _
  | str _, obj _ | arr _, undefined | arr _, null | arr _, bool _ | arr _, num _ | arr _, str _
  | arr _, obj _ | obj _, undefined | obj _, null | obj _, bool _ | obj _, num _ | obj _, str _
  | obj _, arr _ => isFalse (by simp)

/-- Equality of lists of values is decidable. -/
def decEqList : (a b : List JsValue) → Decidable (a = b)
  | [], [] => isTrue rfl
  | [], _ :: _ | _ :: _, [] => isFalse (by simp)
  | x :: xs, y :: ys =>
    @decidable_of_iff _ (x = y ∧ xs = ys) (by simp)
      (@instDecidableAnd _ _ (decEq x y) (decEqList xs ys))

/-- Equality of property lists is decidable. -/
def decEqProps : (a b : List (String × JsValue)) → Decidable (a = b)
  | [], [] => isTrue rfl
  | [], _ :: _ | _ :: _, [] => isFalse (by simp)
  | (k, x) :: xs, (k', y) :: ys =>
    @decidable_of_iff _ (k = k' ∧ x = y ∧ xs = ys) (by simp [and_assoc])
      (@instDecidableAnd _ _ _ (@instDecidableAnd _ _ (decEq x y) (decEqProps xs ys)))

end

instance : DecidableEq JsValue := decEq

end JsValue

/-- The value of property `k`, `undefined` when the object has no such property. -/
def JsObject.get (o : JsObject) (k : String) : JsValue := (EntryList.lookup k o).getD .undefined

/-- The names that every plain object answers. -/
def objectPrototypeKeys : List String :=
  ["constructor", "__defineGetter__", "__defineSetter__", "hasOwnProperty", "__lookupGetter__",
    "__lookupSetter__", "isPrototypeOf", "propertyIsEnumerable", "toString", "valueOf", "__proto__",
    "toLocaleString"]

/-! ### Deep equality -/

mutual

/-- `isEqual(value, other)`. -/
def isEqual : (value other : JsValue) → Bool
  | .arr xs, .arr ys => isEqualList xs ys
  | .obj props, .obj others => props.length = others.length && isEqualProps props others
  | .undefined, .undefined => true
  | .null, .null => true
  | .bool a, .bool b => a = b
  | .num a, .num b => a = b
  | .str a, .str b => a = b
  | _, _ => false

/-- The elements of two arrays are equal, one by one. -/
def isEqualList : (values others : List JsValue) → Bool
  | [], [] => true
  | x :: xs, y :: ys => isEqual x y && isEqualList xs ys
  | _, _ => false

/-- Every property of `props` has an equal value in `others`. -/
def isEqualProps : (props others : JsObject) → Bool
  | [], _ => true
  | (k, x) :: props, others =>
    ((EntryList.lookup k others).any fun y => isEqual x y) && isEqualProps props others

end

end N8n
