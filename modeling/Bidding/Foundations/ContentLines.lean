import Mathlib.Data.List.Infix
import Mathlib.Algebra.GroupWithZero.Nat

/-!
# Content lines

A text of content lines ends each line with a CR and an LF, and writes a long line as several physical lines. A text that is
written so is read back, provided no line holds a break of its own.
-/

namespace Foundations

open List

def crlf : List Char := ['\r', '\n']

def Unbroken (text : List Char) : Prop := ¬crlf <:+: text

def splitCrlf : List Char → List (List Char)
  | [] => [[]]
  | '\r' :: '\n' :: rest => [] :: splitCrlf rest
  | c :: rest =>
    match splitCrlf rest with
    | [] => [[c]]
    | line :: lines => (c :: line) :: lines

def unfoldText : List Char → List Char
  | [] => []
  | '\r' :: '\n' :: ' ' :: rest => unfoldText rest
  | '\r' :: '\n' :: '\t' :: rest => unfoldText rest
  | c :: rest => c :: unfoldText rest

def octets (text : List Char) : ℕ := (text.map Char.utf8Size).sum

theorem Unbroken.of_part {text part : List Char} (h : Unbroken text) (hpart : part <:+: text) : Unbroken part :=
  fun hbreak => h (hbreak.trans hpart)

variable {c : Char} {text : List Char}

theorem Unbroken.tail (h : Unbroken (c :: text)) : Unbroken text :=
  h.of_part (suffix_cons c text).isInfix

theorem Unbroken.not_lf (h : Unbroken ('\r' :: text)) : text.head? ≠ some '\n' := by
  intro hhead
  cases text with
  | nil => cases hhead
  | cons c rest =>
    obtain rfl : c = '\n' := Option.some.inj hhead
    exact h (prefix_append crlf rest).isInfix

theorem unbroken_of_not_mem (h : '\n' ∉ text) : Unbroken text :=
  fun hbreak => h (hbreak.subset (mem_cons_of_mem _ mem_cons_self))

theorem unbroken_cons (hc : c ≠ '\r') (h : Unbroken text) : Unbroken (c :: text) := by
  intro hbreak
  rcases infix_cons_iff.mp hbreak with hprefix | hinside
  · exact hc (cons_prefix_cons.mp hprefix).1.symm
  · exact h hinside

theorem unbroken_append {first text : List Char} (hfirst : '\r' ∉ first) (h : Unbroken text) : Unbroken (first ++ text) := by
  induction first with
  | nil => exact h
  | cons c first ih =>
    rw [mem_cons, not_or] at hfirst
    exact unbroken_cons (Ne.symm hfirst.1) (ih hfirst.2)

variable {rest : List Char} {line : List Char} {lines : List (List Char)}

theorem splitCrlf_cons (h : c = '\r' → rest.head? ≠ some '\n') (hrest : splitCrlf rest = line :: lines) :
    splitCrlf (c :: rest) = (c :: line) :: lines := by
  unfold splitCrlf
  split
  · rename_i heq
    cases heq
  · rename_i rest' heq
    obtain ⟨rfl, rfl⟩ := List.cons.inj heq
    exact absurd rfl (h rfl)
  · rename_i heq
    obtain ⟨rfl, rfl⟩ := List.cons.inj heq
    rw [hrest]

theorem splitCrlf_append (h : Unbroken line) (rest : List Char) :
    splitCrlf (line ++ (crlf ++ rest)) = line :: splitCrlf rest := by
  induction line with
  | nil => rfl
  | cons c line ih =>
    apply splitCrlf_cons _ (ih h.tail)
    rintro rfl
    cases line with
    | nil => exact fun hhead => by cases hhead
    | cons c' line => exact h.not_lf

theorem unfoldText_cons (h : c = '\r' → rest.head? ≠ some '\n') :
    unfoldText (c :: rest) = c :: unfoldText rest := by
  conv_lhs => unfold unfoldText
  split
  · rename_i heq
    cases heq
  · rename_i heq
    obtain ⟨rfl, rfl⟩ := List.cons.inj heq
    exact absurd rfl (h rfl)
  · rename_i heq
    obtain ⟨rfl, rfl⟩ := List.cons.inj heq
    exact absurd rfl (h rfl)
  · rename_i heq
    obtain ⟨rfl, rfl⟩ := List.cons.inj heq
    rfl

theorem unfoldText_append (h : Unbroken line) (rest : List Char) :
    unfoldText (line ++ (crlf ++ rest)) = line ++ unfoldText (crlf ++ rest) := by
  induction line with
  | nil => rfl
  | cons c line ih =>
    have hcons : unfoldText (c :: (line ++ (crlf ++ rest))) = c :: unfoldText (line ++ (crlf ++ rest)) := by
      apply unfoldText_cons
      rintro rfl
      cases line with
      | nil => exact fun hhead => by cases hhead
      | cons c' line => exact h.not_lf
    rw [cons_append, hcons, ih h.tail, cons_append]

/-- A text starts a line of its own: no blank continues the line before. -/
def StartsLine (text : List Char) : Prop := text.head? ≠ some ' ' ∧ text.head? ≠ some '\t'

instance StartsLine.decidable (text : List Char) : Decidable (StartsLine text) :=
  inferInstanceAs (Decidable (text.head? ≠ some ' ' ∧ text.head? ≠ some '\t'))

theorem StartsLine.append {first : List Char} (hne : first ≠ []) (h : StartsLine first) (text : List Char) :
    StartsLine (first ++ text) := by
  unfold StartsLine
  rw [head?_append_of_ne_nil _ hne]
  exact h

theorem unfoldText_crlf (h : StartsLine rest) : unfoldText (crlf ++ rest) = crlf ++ unfoldText rest := by
  have hlf : unfoldText ('\n' :: rest) = '\n' :: unfoldText rest := unfoldText_cons fun hc => by cases hc
  show unfoldText ('\r' :: '\n' :: rest) = '\r' :: '\n' :: unfoldText rest
  rw [← hlf]
  cases rest with
  | nil => rfl
  | cons c rest =>
    have hblank : c ≠ ' ' := fun hc => h.1 (congrArg some hc)
    have htab : c ≠ '\t' := fun hc => h.2 (congrArg some hc)
    conv_lhs => unfold unfoldText
    split
    · rename_i heq
      cases heq
    · rename_i heq
      cases heq
      exact absurd rfl hblank
    · rename_i heq
      cases heq
      exact absurd rfl htab
    · rename_i heq
      cases heq
      rfl

def foldedText (pieces : List (List Char)) : List Char := List.intercalate (crlf ++ [' ']) pieces

def physicalLines : List (List Char) → List (List Char)
  | [] => []
  | piece :: pieces => piece :: pieces.map fun piece => ' ' :: piece

theorem foldedText_cons (piece piece' : List Char) (pieces : List (List Char)) :
    foldedText (piece :: piece' :: pieces) = piece ++ (crlf ++ ' ' :: foldedText (piece' :: pieces)) := by
  unfold foldedText
  rw [intercalate_cons_cons, append_assoc, append_assoc]
  rfl

variable {pieces : List (List Char)}

theorem unfoldText_foldedText (hpieces : ∀ piece ∈ pieces, Unbroken piece) (hne : pieces ≠ []) (hrest : StartsLine rest) :
    unfoldText (foldedText pieces ++ (crlf ++ rest)) = pieces.flatten ++ (crlf ++ unfoldText rest) := by
  induction pieces with
  | nil => exact absurd rfl hne
  | cons piece pieces ih =>
    rw [forall_mem_cons] at hpieces
    cases pieces with
    | nil =>
      have hone : foldedText [piece] = piece := intercalate_singleton
      rw [hone, unfoldText_append hpieces.1, unfoldText_crlf hrest, flatten_singleton]
    | cons piece' pieces =>
      have hfold : unfoldText (crlf ++ (' ' :: foldedText (piece' :: pieces) ++ (crlf ++ rest))) =
          unfoldText (foldedText (piece' :: pieces) ++ (crlf ++ rest)) := rfl
      rw [foldedText_cons, append_assoc, append_assoc, unfoldText_append hpieces.1, hfold,
        ih hpieces.2 (cons_ne_nil _ _), @flatten_cons _ piece, append_assoc]

theorem splitCrlf_foldedText (hpieces : ∀ piece ∈ pieces, Unbroken piece) (hne : pieces ≠ []) (rest : List Char) :
    splitCrlf (foldedText pieces ++ (crlf ++ rest)) = physicalLines pieces ++ splitCrlf rest := by
  obtain ⟨piece, pieces, rfl⟩ := exists_cons_of_ne_nil hne
  rw [forall_mem_cons] at hpieces
  suffices hblank : ∀ start : List Char, Unbroken (start ++ piece) →
      splitCrlf (start ++ (foldedText (piece :: pieces) ++ (crlf ++ rest))) =
        (start ++ piece) :: pieces.map (fun piece => ' ' :: piece) ++ splitCrlf rest from hblank [] hpieces.1
  clear hne
  induction pieces generalizing piece with
  | nil =>
    intro start hstart
    have hone : foldedText [piece] = piece := intercalate_singleton
    rw [hone, ← append_assoc, splitCrlf_append hstart]
    rfl
  | cons piece' pieces ih =>
    intro start hstart
    rw [forall_mem_cons] at hpieces
    have hnext := ih piece' ⟨hpieces.2.1, hpieces.2.2⟩ [' '] (unbroken_cons (by decide) hpieces.2.1)
    rw [foldedText_cons, append_assoc, ← append_assoc start, append_assoc crlf, splitCrlf_append hstart]
    exact congrArg _ hnext

def foldedLines (lines : List (List (List Char))) : List Char :=
  lines.flatMap fun pieces => foldedText pieces ++ crlf

theorem intercalate_crlf (h : lines ≠ []) : List.intercalate crlf lines ++ crlf = lines.flatMap fun line => line ++ crlf := by
  induction lines with
  | nil => exact absurd rfl h
  | cons line lines ih =>
    rw [flatMap_cons]
    cases lines with
    | nil => rw [intercalate_singleton, flatMap_nil, append_nil]
    | cons line' lines =>
      rw [intercalate_cons_cons, append_assoc, append_assoc, ih (cons_ne_nil _ _), append_assoc]

/-- The pieces of a line: there is one, and the line does not start with a blank. -/
structure LinePieces (pieces : List (List Char)) : Prop where
  nonempty : pieces ≠ []
  starts : StartsLine pieces.flatten

theorem startsLine_crlf (rest : List Char) : StartsLine (crlf ++ rest) :=
  ⟨fun hhead => absurd (Option.some.inj hhead) (by decide), fun hhead => absurd (Option.some.inj hhead) (by decide)⟩

theorem LinePieces.startsLine (h : LinePieces pieces) (rest : List Char) :
    StartsLine (foldedText pieces ++ (crlf ++ rest)) := by
  obtain ⟨piece, pieces, rfl⟩ := exists_cons_of_ne_nil h.nonempty
  have hstarts := h.starts
  cases pieces with
  | nil =>
    have hone : foldedText [piece] = piece := intercalate_singleton
    rw [hone]
    cases piece with
    | nil => exact startsLine_crlf rest
    | cons c piece => exact hstarts
  | cons piece' pieces =>
    rw [foldedText_cons, append_assoc]
    cases piece with
    | nil => exact startsLine_crlf _
    | cons c piece => exact hstarts

variable {lines : List (List (List Char))}

theorem foldedLines_cons (pieces : List (List Char)) :
    foldedLines (pieces :: lines) = foldedText pieces ++ (crlf ++ foldedLines lines) := by
  unfold foldedLines
  rw [flatMap_cons, append_assoc]

theorem startsLine_foldedLines (h : ∀ pieces ∈ lines, LinePieces pieces) : StartsLine (foldedLines lines) := by
  cases lines with
  | nil =>
    constructor
    · exact fun hhead => by cases hhead
    · exact fun hhead => by cases hhead
  | cons pieces lines =>
    rw [foldedLines_cons]
    exact (h pieces mem_cons_self).startsLine _

theorem splitCrlf_unfoldText_foldedLines
    (hlines : ∀ pieces ∈ lines, LinePieces pieces) (hunbroken : ∀ pieces ∈ lines, Unbroken pieces.flatten) :
    splitCrlf (unfoldText (foldedLines lines)) = lines.map List.flatten ++ [[]] := by
  induction lines with
  | nil => rfl
  | cons pieces lines ih =>
    rw [forall_mem_cons] at hlines hunbroken
    have hpieces : ∀ piece ∈ pieces, Unbroken piece := fun piece hpiece =>
      hunbroken.1.of_part (infix_of_mem_flatten hpiece)
    rw [foldedLines_cons, unfoldText_foldedText hpieces hlines.1.nonempty (startsLine_foldedLines hlines.2),
      splitCrlf_append hunbroken.1, ih hlines.2 hunbroken.2]
    rfl

theorem splitCrlf_foldedLines (hlines : ∀ pieces ∈ lines, pieces ≠ []) (hunbroken : ∀ pieces ∈ lines, Unbroken pieces.flatten) :
    splitCrlf (foldedLines lines) = lines.flatMap physicalLines ++ [[]] := by
  induction lines with
  | nil => rfl
  | cons pieces lines ih =>
    rw [forall_mem_cons] at hlines hunbroken
    have hpieces : ∀ piece ∈ pieces, Unbroken piece := fun piece hpiece =>
      hunbroken.1.of_part (infix_of_mem_flatten hpiece)
    rw [foldedLines_cons, splitCrlf_foldedText hpieces hlines.1, ih hlines.2 hunbroken.2, flatMap_cons, append_assoc]

end Foundations
