import Bidding.Foundations.Dict

/-!
# Python scalars

The values a column of a record holds on the server: what a JSON document gives for a
field that is neither a list nor an object, and what the database stores. A floating-point
number is given by the text `str` writes for it, all the modelled code reads of one.
-/

namespace Foundations

open List

/-- A scalar value. -/
inductive Scalar where
  | none
  | bool (b : Bool)
  | int (n : Int)
  | float (text : String)
  | str (s : String)
  deriving DecidableEq, Inhabited

/-- A character `str.isspace` accepts. -/
def isPySpace (c : Char) : Bool :=
  let n := c.toNat
  (9 ≤ n && n ≤ 13) || (28 ≤ n && n ≤ 32) || n = 133 || n = 160 || n = 5760
    || (8192 ≤ n && n ≤ 8202) || n = 8232 || n = 8233 || n = 8239 || n = 8287 || n = 12288

/-- The characters without those of `p` at both ends. -/
def trimBoth (p : Char → Bool) (l : List Char) : List Char :=
  ((l.dropWhile p).reverse.dropWhile p).reverse

/-- `text.strip()`. -/
def pyStrip (text : String) : String := .ofList (trimBoth isPySpace text.toList)

namespace Scalar

/-- `str(value)`. -/
def text : Scalar → String
  | none => "None"
  | bool b => if b then "True" else "False"
  | int n => toString n
  | float t => t
  | str s => s

/-- `bool(value)`. -/
def truthy : Scalar → Bool
  | none => false
  | bool b => b
  | int n => n ≠ 0
  | float t => t ≠ "0.0" && t ≠ "-0.0"
  | str s => s ≠ ""

/-- `value in (None, "")`. -/
def blank : Scalar → Bool
  | none => true
  | str s => s = ""
  | _ => false

/-- `str(value if value is not None else "").strip()`, the text a field is compared by. -/
def fieldText : Scalar → String
  | none => ""
  | value => pyStrip value.text

/-- `str(value or "").strip()`. -/
def orEmptyText (value : Scalar) : String := if value.truthy then pyStrip value.text else ""

end Scalar

abbrev Fields := Dict String Scalar

/-- `item.get(key)`. -/
def Fields.getValue (fields : Fields) (key : String) : Scalar := (fields.get? key).getD .none

theorem head?_dropWhile_not (p : Char → Bool) (l : List Char) : ∀ c ∈ (l.dropWhile p).head?, p c = false := by
  induction l with
  | nil => simp
  | cons a l ih =>
    rw [dropWhile_cons]
    split
    · exact ih
    · rename_i h
      simpa using h

variable {p : Char → Bool} {l : List Char}

theorem dropWhile_eq_self (h : ∀ c ∈ l.head?, p c = false) : l.dropWhile p = l := by
  cases l with
  | nil => rfl
  | cons a l => exact dropWhile_cons_of_neg (by simpa using h)

theorem getLast?_dropWhile {c : Char} (h : (l.dropWhile p).getLast? = some c) : l.getLast? = some c := by
  obtain ⟨front, hfront⟩ := dropWhile_suffix p (l := l)
  rw [← hfront, getLast?_append, h]
  rfl

theorem trimBoth_eq_self (hhead : ∀ c ∈ l.head?, p c = false) (hlast : ∀ c ∈ l.getLast?, p c = false) : trimBoth p l = l := by
  unfold trimBoth
  rw [dropWhile_eq_self hhead, dropWhile_eq_self (by simpa using hlast), reverse_reverse]

theorem trimBoth_trimBoth (p : Char → Bool) (l : List Char) : trimBoth p (trimBoth p l) = trimBoth p l := by
  refine trimBoth_eq_self (fun c hc => ?_) fun c hc => ?_
  · -- the first character is the first one that is kept
    have hlast : (l.dropWhile p).reverse.getLast? = some c := by
      rw [trimBoth, head?_reverse] at hc
      exact getLast?_dropWhile hc
    rw [getLast?_reverse] at hlast
    exact head?_dropWhile_not p l c hlast
  · rw [trimBoth, getLast?_reverse] at hc
    exact head?_dropWhile_not p _ c hc

@[simp] theorem pyStrip_pyStrip (text : String) : pyStrip (pyStrip text) = pyStrip text := by
  unfold pyStrip
  rw [String.toList_ofList, trimBoth_trimBoth]

theorem pyStrip_eq_self {text : String} (h : ∀ c ∈ text.toList, isPySpace c = false) : pyStrip text = text := by
  unfold pyStrip
  rw [trimBoth_eq_self (fun c hc => h c (mem_of_mem_head? hc))
    (fun c hc => h c (mem_of_mem_getLast? hc)), String.ofList_toList]

namespace Scalar

theorem fieldText_of_ne {value : Scalar} (h : value ≠ .none) : value.fieldText = pyStrip value.text := by
  cases value <;> first | rfl | exact absurd rfl h

@[simp] theorem fieldText_str (s : String) : (Scalar.str s).fieldText = pyStrip s := rfl

@[simp] theorem fieldText_strip (s : String) : (Scalar.str (pyStrip s)).fieldText = (Scalar.str s).fieldText := by simp

end Scalar

end Foundations
