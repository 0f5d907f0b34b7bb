import Bidding.Foundations.Dict

/-!
# JSON values

The values both sides of the program exchange and store: what `JSON.parse` and
`json.loads` return. Numbers are integers, the only numbers the modelled code computes
with. `undefined` and a missing key are the same thing here, the `none` of a lookup.
-/

namespace Foundations

/-- A JSON value. -/
inductive Value where
  | null
  | bool (b : Bool)
  | num (n : Int)
  | str (s : String)
  | arr (xs : List Value)
  | obj (fields : List (String × Value))
  deriving Inhabited

namespace Value

mutual

def same : Value → Value → Bool
  | null, null => true
  | bool b, bool c => b == c
  | num m, num n => m == n
  | str s, str t => s == t
  | arr xs, arr ys => sameList xs ys
  | obj fs, obj gs => sameFields fs gs
  | _, _ => false

def sameList : List Value → List Value → Bool
  | [], [] => true
  | x :: xs, y :: ys => same x y && sameList xs ys
  | _, _ => false

def sameFields : List (String × Value) → List (String × Value) → Bool
  | [], [] => true
  | (k, x) :: fs, (l, y) :: gs => (k == l) && same x y && sameFields fs gs
  | _, _ => false

end

mutual

theorem same_iff : ∀ a b : Value, same a b = true ↔ a = b
  | null, b => by cases b <;> simp [same]
  | bool x, b => by cases b <;> simp [same]
  | num x, b => by cases b <;> simp [same]
  | str x, b => by cases b <;> simp [same]
  | arr xs, b => by cases b <;> simp [same, sameList_iff xs]
  | obj fs, b => by cases b <;> simp [same, sameFields_iff fs]

theorem sameList_iff : ∀ xs ys : List Value, sameList xs ys = true ↔ xs = ys
  | [], ys => by cases ys <;> simp [sameList]
  | x :: xs, ys => by cases ys <;> simp [sameList, same_iff x, sameList_iff xs]

theorem sameFields_iff : ∀ fs gs : List (String × Value), sameFields fs gs = true ↔ fs = gs
  | [], gs => by cases gs <;> simp [sameFields]
  | (k, x) :: fs, gs => by
    cases gs with
    | nil => simp [sameFields]
    | cons g gs => simp [sameFields, same_iff x, sameFields_iff fs, Prod.ext_iff]

end

instance : DecidableEq Value := fun a b => decidable_of_iff (same a b = true) (same_iff a b)

/-- `if (value)` in JavaScript. -/
def jsTruthy : Value → Bool
  | null => false
  | bool b => b
  | num n => n != 0
  | str s => s != ""
  | arr _ => true
  | obj _ => true

mutual

/-- `String(value)` in JavaScript. -/
def jsString : Value → String
  | null => "null"
  | bool b => if b then "true" else "false"
  | num n => toString n
  | str s => s
  | arr xs => jsJoin xs
  | obj _ => "[object Object]"

/-- `array.join(",")`: `null` elements are written as the empty text. -/
def jsJoin : List Value → String
  | [] => ""
  | [x] => jsElement x
  | x :: xs => jsElement x ++ "," ++ jsJoin xs

def jsElement : Value → String
  | null => ""
  | bool b => if b then "true" else "false"
  | num n => toString n
  | str s => s
  | arr xs => jsJoin xs
  | obj _ => "[object Object]"

end

/-- `Number(value)` in JavaScript for values that denote integers; everything else is
`NaN`, the `none` here. -/
def jsNumber : Value → Option Int
  | null => some 0
  | bool b => some (if b then 1 else 0)
  | num n => some n
  | str s => s.toInt?
  | arr _ => none
  | obj _ => none

/-- `Number(value) > 0` of a possibly missing value. -/
def jsPositive (v : Option Value) : Bool :=
  match v.bind jsNumber with
  | some n => 0 < n
  | none => false

end Value

abbrev Record := Dict String Value

end Foundations
