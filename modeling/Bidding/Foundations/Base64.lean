import Mathlib.Data.List.TakeWhile
import Mathlib.Tactic.Common

/-!
# Base64

The URL-safe alphabet without padding: three bytes are four symbols, and one or two bytes left over are two or three.
Decoding accepts what `base64.b64decode` accepts with `altchars=b"-_", validate=True`.
-/

namespace Foundations.Base64

open List
open Option hiding map_map

abbrev Byte := Fin 256

/-- The symbol of a value below 64: capitals, small letters, digits, then `-` and `_`. -/
def symbol (n : ℕ) : Char :=
  if n < 26 then Char.ofNat (65 + n)
  else if n < 52 then Char.ofNat (97 + (n - 26))
  else if n < 62 then Char.ofNat (48 + (n - 52))
  else if n = 62 then '-'
  else '_'

def valueOf (c : Char) : Option ℕ :=
  let code := c.toNat
  if 65 ≤ code ∧ code ≤ 90 then some (code - 65)
  else if 97 ≤ code ∧ code ≤ 122 then some (code - 97 + 26)
  else if 48 ≤ code ∧ code ≤ 57 then some (code - 48 + 52)
  else if code = 43 ∨ code = 45 then some 62
  else if code = 47 ∨ code = 95 then some 63
  else none

/-- `base64.urlsafe_b64encode(payload).rstrip("=")`. -/
def encode : List Byte → List Char
  | [] => []
  | [a] => [symbol (a.val / 4), symbol (a.val % 4 * 16)]
  | [a, b] => [symbol (a.val / 4), symbol (a.val % 4 * 16 + b.val / 16), symbol (b.val % 16 * 4)]
  | a :: b :: c :: rest =>
    symbol (a.val / 4) :: symbol (a.val % 4 * 16 + b.val / 16) ::
      symbol (b.val % 16 * 4 + c.val / 64) :: symbol (c.val % 64) :: encode rest

def byte (n : ℕ) : Byte := ⟨n % 256, Nat.mod_lt n (by decide)⟩

/-- The bytes of the symbols in front of the padding. -/
def decodeGroups : List Char → Option (List Byte)
  | [] => some []
  | [_] => none
  | [a, b] => do
    let x ← valueOf a
    let y ← valueOf b
    return [byte (x * 4 + y / 16)]
  | [a, b, c] => do
    let x ← valueOf a
    let y ← valueOf b
    let z ← valueOf c
    return [byte (x * 4 + y / 16), byte (y % 16 * 16 + z / 4)]
  | a :: b :: c :: d :: rest => do
    let x ← valueOf a
    let y ← valueOf b
    let z ← valueOf c
    let w ← valueOf d
    let tail ← decodeGroups rest
    return byte (x * 4 + y / 16) :: byte (y % 16 * 16 + z / 4) :: byte (z % 4 * 64 + w) :: tail

/-- `"=" * (-length % 4)`. -/
def padding (length : ℕ) : List Char := List.replicate ((4 - length % 4) % 4) '='

/-- `base64.b64decode(payload + padding, altchars=b"-_", validate=True)`, where an empty
payload is an error. Symbols left over by the groups of four are filled up with exactly the
padding they need. -/
def decode (payload : List Char) : Option (List Byte) :=
  let symbols := payload.takeWhile (· ≠ '=')
  if payload = [] then none
  else if (payload ++ padding payload.length).drop symbols.length = padding symbols.length then
    decodeGroups symbols
  else none

theorem valueOf_symbol : ∀ n < 64, valueOf (symbol n) = some n := by decide

variable (bytes : List Byte)

theorem symbol_of_mem_encode : ∀ c ∈ encode bytes, ∃ n < 64, c = symbol n := by
  fun_induction encode bytes with
  | case1 => simp
  | case2 a =>
    have := a.isLt
    simp only [mem_cons, not_mem_nil, or_false, forall_eq_or_imp, forall_eq]
    exact ⟨⟨_, by omega, rfl⟩, ⟨_, by omega, rfl⟩⟩
  | case3 a b =>
    have := a.isLt
    have := b.isLt
    simp only [mem_cons, not_mem_nil, or_false, forall_eq_or_imp, forall_eq]
    exact ⟨⟨_, by omega, rfl⟩, ⟨_, by omega, rfl⟩, ⟨_, by omega, rfl⟩⟩
  | case4 a b c rest ih =>
    have := a.isLt
    have := b.isLt
    have := c.isLt
    simp only [mem_cons, forall_eq_or_imp]
    exact ⟨⟨_, by omega, rfl⟩, ⟨_, by omega, rfl⟩, ⟨_, by omega, rfl⟩, ⟨_, by omega, rfl⟩, ih⟩

theorem decodeGroups_encode : decodeGroups (encode bytes) = some bytes := by
  fun_induction encode bytes with
  | case1 => rfl
  | case2 a =>
    have ha := a.isLt
    simp only [decodeGroups, valueOf_symbol (a.val / 4) (by omega),
      valueOf_symbol (a.val % 4 * 16) (by omega), Option.pure_def, bind_eq_bind,
      bind_some, some.injEq, List.cons.injEq, and_true]
    exact Fin.ext (by simp only [byte]; omega)
  | case3 a b =>
    have ha := a.isLt
    have hb := b.isLt
    simp only [decodeGroups, valueOf_symbol (a.val / 4) (by omega), valueOf_symbol (a.val % 4 * 16 + b.val / 16) (by omega),
      valueOf_symbol (b.val % 16 * 4) (by omega), Option.pure_def, bind_eq_bind,
      bind_some, some.injEq, List.cons.injEq, and_true]
    exact ⟨Fin.ext (by simp only [byte]; omega), Fin.ext (by simp only [byte]; omega)⟩
  | case4 a b c rest ih =>
    have ha := a.isLt
    have hb := b.isLt
    have hc := c.isLt
    simp only [decodeGroups, valueOf_symbol (a.val / 4) (by omega),
      valueOf_symbol (a.val % 4 * 16 + b.val / 16) (by omega), valueOf_symbol (b.val % 16 * 4 + c.val / 64) (by omega),
      valueOf_symbol (c.val % 64) (by omega), ih, Option.pure_def, bind_eq_bind,
      bind_some, some.injEq, List.cons.injEq, and_true]
    exact ⟨Fin.ext (by simp only [byte]; omega), Fin.ext (by simp only [byte]; omega), Fin.ext (by simp only [byte]; omega)⟩

theorem encode_eq_nil {bytes : List Byte} (h : encode bytes = []) : bytes = [] := by
  fun_cases encode bytes with
  | case1 => rfl
  | case2 => cases h
  | case3 => cases h
  | case4 => cases h

theorem decode_encode {bytes : List Byte} (h : bytes ≠ []) : decode (encode bytes) = some bytes := by
  have hsymbols : (encode bytes).takeWhile (· ≠ '=') = encode bytes := by
    rw [takeWhile_eq_self_iff]
    intro c hc
    obtain ⟨n, hn, rfl⟩ := symbol_of_mem_encode bytes c hc
    have hno : ∀ n < 64, symbol n ≠ '=' := by decide
    simpa using hno n hn
  unfold decode
  simp only [hsymbols]
  rw [if_neg fun hnil => h (encode_eq_nil hnil), if_pos (by simp), decodeGroups_encode]

theorem length_encode : (encode bytes).length = (4 * bytes.length + 2) / 3 := by
  fun_induction encode bytes with
  | case1 => rfl
  | case2 => simp
  | case3 => simp
  | case4 a b c rest ih =>
    simp only [length_cons, ih]
    omega

/-- `text.encode("utf-8")`. -/
def utf8 (text : List Char) : List Byte :=
  (text.flatMap String.utf8EncodeChar).map UInt8.toFin

/-- `payload.decode("utf-8")`. -/
def ofUtf8 : Option (List Char) :=
  (String.fromUTF8? (bytes.map UInt8.ofFin).toByteArray).map String.toList

theorem ofUtf8_utf8 (text : List Char) : ofUtf8 (utf8 text) = some text := by
  unfold ofUtf8 utf8
  have hbytes : ((text.flatMap String.utf8EncodeChar).map UInt8.toFin).map UInt8.ofFin =
      text.flatMap String.utf8EncodeChar := by
    rw [map_map]
    exact map_id _
  have harray : (text.flatMap String.utf8EncodeChar).toByteArray = (String.ofList text).toByteArray := by
    rw [String.toByteArray_ofList]
    rfl
  rw [hbytes, harray]
  unfold String.fromUTF8? String.fromUTF8
  rw [dif_pos (String.ofList text).isValidUTF8]
  exact congrArg some String.toList_ofList

theorem length_utf8 {text : List Char} (h : ∀ c ∈ text, c.toNat < 128) : (utf8 text).length = text.length := by
  induction text with
  | nil => rfl
  | cons c text ih =>
    have hone : (String.utf8EncodeChar c).length = 1 := by
      have hc : c.toNat < 128 := h c (by simp)
      rw [String.length_utf8EncodeChar, Char.utf8Size_eq_one_iff]
      apply UInt32.le_iff_toNat_le.mpr
      change c.toNat ≤ 127
      omega
    have hrest := ih fun d hd => h d (by simp [hd])
    simp only [utf8, length_map] at hrest ⊢
    rw [flatMap_cons, length_append, hone, hrest, length_cons]
    omega

end Foundations.Base64
