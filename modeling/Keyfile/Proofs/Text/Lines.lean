import Keyfile.Path
import Keyfile.Proofs.Text.Utf8
import Mathlib

/-!
# Lines of a text

Lines that are written one after the other, each with a line feed behind it, are read back if none
of them is broken: it holds no line feed, and no carriage return stands at its end, where it would
belong to the line feed. Paths are shown as they are written in this respect.
-/
namespace Keyfile

namespace Lines

/-- The lines of a text. A line feed ends a line, or a carriage return and a line feed together;
behind the last one there is no line unless something is written there. -/
def ofText : List Char → List (List Char)
  | [] => []
  | c :: r =>
    if c = '\n' then [] :: ofText r
    else if c = '\r' ∧ r.head? = some '\n' then ofText r
    else
      match ofText r with
      | l :: ls => (c :: l) :: ls
      | [] => [[c]]

/-- What the lines that start with a label carry behind it. -/
def values (label : String) (text : List Char) : List (List Char) :=
  (ofText text).filterMap label.toList.isPrefixOf?

/-- What can be written as one line. -/
structure Unbroken (l : List Char) : Prop where
  no_feed : '\n' ∉ l
  no_return : l.getLast? ≠ some '\r'

variable {l rest : List Char} {ls : List (List Char)}

/-- A line with a line feed behind it is read back. -/
theorem Unbroken.ofText_append (h : Unbroken l) (rest : List Char) :
    ofText (l ++ '\n' :: rest) = l :: ofText rest := by
  induction l with
  | nil => rw [List.nil_append, ofText, if_pos rfl]
  | cons c l ih =>
    have hc : c ≠ '\n' := fun heq => h.no_feed (heq ▸ List.mem_cons_self)
    have hreturn : ¬ (c = '\r' ∧ (l ++ '\n' :: rest).head? = some '\n') := by
      rintro ⟨rfl, hhead⟩
      cases l with
      | nil => exact h.no_return rfl
      | cons d l =>
        cases hhead
        exact h.no_feed (List.mem_cons_of_mem _ List.mem_cons_self)
    have hl : Unbroken l := by
      refine ⟨fun hmem => h.no_feed (List.mem_cons_of_mem c hmem), fun hlast => h.no_return ?_⟩
      rw [List.getLast?_cons, hlast]
      rfl
    rw [List.cons_append, ofText, if_neg hc, if_neg hreturn, ih hl]

theorem ofText_flatMap (h : ∀ l ∈ ls, Unbroken l) (rest : List Char) :
    ofText (ls.flatMap (· ++ ['\n']) ++ rest) = ls ++ ofText rest := by
  induction ls with
  | nil => rfl
  | cons l ls ih =>
    obtain ⟨hl, hls⟩ := List.forall_mem_cons.mp h
    rw [List.flatMap_cons, List.append_assoc, List.append_assoc, List.singleton_append,
      hl.ofText_append, ih hls, List.cons_append]

/-- What is written last is a line without a line feed behind it. -/
theorem ofText_of_no_feed (h : '\n' ∉ l) (hne : l ≠ []) : ofText l = [l] := by
  induction l with
  | nil => exact (hne rfl).elim
  | cons c l ih =>
    have hc : c ≠ '\n' := fun heq => h (heq ▸ List.mem_cons_self)
    have hl : '\n' ∉ l := fun hmem => h (List.mem_cons_of_mem c hmem)
    have hreturn : ¬ (c = '\r' ∧ l.head? = some '\n') :=
      fun hhead => hl (List.mem_of_mem_head? hhead.2)
    rw [ofText, if_neg hc, if_neg hreturn]
    cases l with
    | nil => rfl
    | cons d l => rw [ih hl (List.cons_ne_nil d l)]

theorem unbroken_of_not_mem (hfeed : '\n' ∉ l) (hreturn : '\r' ∉ l) : Unbroken l where
  no_feed := hfeed
  no_return hlast := hreturn (List.mem_of_getLast? hlast)

/-- Two parts that are not broken may be written side by side. -/
theorem Unbroken.append {l' : List Char} (h : Unbroken l) (h' : Unbroken l') :
    Unbroken (l ++ l') := by
  refine ⟨?_, ?_⟩
  · rw [List.mem_append, not_or]
    exact ⟨h.no_feed, h'.no_feed⟩
  · have hlast := h'.no_return
    rw [List.getLast?_append]
    cases hl : l'.getLast? with
    | none => exact h.no_return
    | some c => rwa [hl] at hlast

end Lines

/-! ## Paths that are shown -/

/-- A path that is shown within one line, also where the line ends behind it. -/
structure Path.Unbroken (p : Path) : Prop where
  no_feed : 0x0A ∉ p
  no_return : p.getLast? ≠ some 0x0D

theorem Path.no_feed_display {p : Path} (h : 0x0A ∉ p) : '\n' ∉ p.display.toList := by
  intro hmem
  have hinfix : [0x0A] <:+: p := Utf8.infix_of_mem_lossy hmem (by decide)
  exact h ((List.singleton_infix_iff _ p).mp hinfix)

theorem Path.Unbroken.display {p : Path} (h : p.Unbroken) : Lines.Unbroken p.display.toList where
  no_feed := no_feed_display h.no_feed
  no_return := by
    intro hlast
    have hsuffix : [0x0D] <:+ p := Utf8.suffix_of_getLast?_lossy hlast (by decide)
    obtain ⟨before, rfl⟩ := hsuffix
    exact h.no_return List.getLast?_concat

end Keyfile
