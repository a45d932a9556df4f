import Keyfile.Text.Blank
import Mathlib.Data.List.TakeWhile
import Mathlib.Tactic.Common

/-!
# White space around a text

What trimming leaves of a text, told without the procedure: it is the only part of the text with
white space alone around it and none at its ends.
-/
namespace Keyfile.Blank

variable {text core before rest : List Char}

/-- The text is the core with white space around it, and the core has none at its ends. -/
structure Trims (text core : List Char) : Prop where
  around : ∃ before behind, text = before ++ core ++ behind ∧
    (∀ c ∈ before, isBlank c = true) ∧ ∀ c ∈ behind, isBlank c = true
  first : ∀ c ∈ core.head?, isBlank c = false
  last : ∀ c ∈ core.getLast?, isBlank c = false

theorem dropWhile_blanks (hbefore : ∀ c ∈ before, isBlank c = true)
    (hrest : ∀ c ∈ rest.head?, isBlank c = false) :
    (before ++ rest).dropWhile isBlank = rest := by
  rw [List.dropWhile_append_of_pos hbefore]
  cases rest with
  | nil => rfl
  | cons c rest => rw [List.dropWhile_cons_of_neg (by simp [hrest c rfl])]

theorem isBlank_head?_dropWhile (text : List Char) :
    ∀ c ∈ (text.dropWhile isBlank).head?, isBlank c = false := by
  intro c hc
  have hnot := List.head?_dropWhile_not isBlank text
  rw [Option.mem_def.mp hc] at hnot
  exact hnot

theorem Trims.trim_eq (h : Trims text core) : trim text = core := by
  obtain ⟨before, behind, rfl, hbefore, hbehind⟩ := h.around
  have hreverse : ∀ c ∈ behind.reverse, isBlank c = true := by
    intro c hc
    exact hbehind c (List.mem_reverse.mp hc)
  unfold trim
  cases core with
  | nil =>
    have hall : ∀ c ∈ before ++ behind, isBlank c = true := by
      intro c hc
      exact (List.mem_append.mp hc).elim (hbefore c) (hbehind c)
    rw [List.append_nil, List.dropWhile_eq_nil_iff.mpr hall]
    rfl
  | cons c core =>
    have hfirst : ∀ d ∈ (c :: core ++ behind).head?, isBlank d = false := h.first
    have hlast : ∀ d ∈ (c :: core).reverse.head?, isBlank d = false := by
      rw [List.head?_reverse]
      exact h.last
    rw [List.append_assoc, dropWhile_blanks hbefore hfirst, List.reverse_append,
      dropWhile_blanks hreverse hlast, List.reverse_reverse]

theorem trims_trim (text : List Char) : Trims text (trim text) := by
  have hleft := @List.takeWhile_append_dropWhile _ isBlank text
  have hright := @List.takeWhile_append_dropWhile _ isBlank (text.dropWhile isBlank).reverse
  have hmiddle : text.dropWhile isBlank =
      trim text ++ ((text.dropWhile isBlank).reverse.takeWhile isBlank).reverse := by
    conv_lhs => rw [← List.reverse_reverse (text.dropWhile isBlank), ← hright]
    rw [List.reverse_append, trim]
  rw [hmiddle, ← List.append_assoc] at hleft
  refine ⟨⟨_, _, hleft.symm, ?_, ?_⟩, ?_, ?_⟩
  · intro c hc
    exact List.mem_takeWhile_imp hc
  · intro c hc
    exact List.mem_takeWhile_imp (List.mem_reverse.mp hc)
  · intro c hc
    apply isBlank_head?_dropWhile text
    rw [hmiddle, List.head?_append, Option.mem_def.mp hc]
    rfl
  · intro c hc
    rw [trim, List.getLast?_reverse] at hc
    exact isBlank_head?_dropWhile _ c hc

theorem trim_eq_iff : trim text = core ↔ Trims text core := by
  constructor
  · rintro rfl
    exact trims_trim text
  · exact Trims.trim_eq

end Keyfile.Blank
