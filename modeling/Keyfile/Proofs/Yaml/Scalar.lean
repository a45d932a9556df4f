import Keyfile.Yaml.Token.Scalar
import Mathlib

/-!
# Scalars in one line

Text is marked line by line. In a line of printable ASCII a plain scalar of letters is read up to
what ends it, and a scalar between double quotes up to its closing quote, whatever its characters
would mean elsewhere.
-/
namespace Keyfile.Yaml

/-- A printable ASCII character, from the space to the tilde. -/
def IsShown (c : Char) : Prop := 0x20 ≤ c.toNat ∧ c.toNat ≤ 0x7E

instance (c : Char) : Decidable (IsShown c) := inferInstanceAs (Decidable (_ ∧ _))

/-- A letter or an underscore: what names and words consist of. -/
def isLetter (c : Char) : Bool := c.isAlpha || c = '_'

variable {c d : Char} {m : Mark} {s t u : List Char} {rest : List Glyph}

/-! ## Characters -/

theorem ne_of_isLetter (h : isLetter c = true) (hd : isLetter d = false) : c ≠ d := by
  rintro rfl
  rw [h] at hd
  cases hd

theorem isShown_of_isLetter (h : isLetter c = true) : IsShown c := by
  unfold isLetter at h
  rw [Bool.or_eq_true, decide_eq_true_eq] at h
  rcases h with h | rfl
  · have hval : 65 ≤ c.val.toNat ∧ c.val.toNat ≤ 90 ∨ 97 ≤ c.val.toNat ∧ c.val.toNat ≤ 122 := by
      simpa [Char.isAlpha, Char.isUpper, Char.isLower, UInt32.le_iff_toNat_le] using h
    have hc : c.toNat = c.val.toNat := rfl
    unfold IsShown
    omega
  · decide

theorem IsShown.ne (h : IsShown c) (hd : ¬ IsShown d) : c ≠ d := by
  rintro rfl
  exact hd h

theorem IsShown.isBreak_eq (h : IsShown c) : isBreak c = false := by
  have h₁ : c ≠ '\n' := h.ne (by decide)
  have h₂ : c ≠ '\u2028' := h.ne (by decide)
  have h₃ : c ≠ '\u2029' := h.ne (by decide)
  simp [isBreak, h₁, h₂, h₃]

theorem isBlank_of_isLetter (h : isLetter c = true) : isBlank c = false := by
  have h₁ : c ≠ ' ' := ne_of_isLetter h (by decide)
  have h₂ : c ≠ '\t' := ne_of_isLetter h (by decide)
  simp [isBlank, h₁, h₂]

/-- Text that is printable throughout is not cut off anywhere. -/
theorem readable?_eq_none (h : ∀ c ∈ s, isPrintable c = true) : readable? s = none := by
  have hfrom (front here used : Nat) : readableFrom front here used s = none := by
    induction s generalizing front here used with
    | nil => rfl
    | cons c s ih =>
      obtain ⟨hc, hs⟩ := List.forall_mem_cons.mp h
      unfold readableFrom
      dsimp only
      rw [if_pos hc]
      exact ih hs ..
  exact hfrom 0 0 0

theorem IsShown.isPrintable_eq (h : IsShown c) : isPrintable c = true := by
  simp only [IsShown, isPrintable] at h ⊢
  simp [h.1, h.2]

/-! ## Lines -/

/-- The position `n` characters further in the same line. -/
def Mark.advance (m : Mark) (n : Nat) : Mark := ⟨m.index + n, m.line, m.column + n⟩

theorem Mark.advance_next (m : Mark) (n : Nat) : m.next.advance n = m.advance (n + 1) := by
  simp only [advance, next, Nat.add_assoc, Nat.add_comm 1 n]

/-- The characters of a line with their positions, the first one at `m`. -/
def inline (m : Mark) : List Char → List Glyph
  | [] => []
  | c :: t => ⟨c, m⟩ :: inline m.next t

theorem inline_append (m : Mark) (t u : List Char) :
    inline m (t ++ u) = inline m t ++ inline (m.advance t.length) u := by
  induction t generalizing m with
  | nil => rfl
  | cons c t ih => rw [List.cons_append, inline, ih, Mark.advance_next, List.length_cons]; rfl

theorem length_inline (m : Mark) (t : List Char) : (inline m t).length = t.length := by
  induction t generalizing m with
  | nil => rfl
  | cons c t ih => rw [inline, List.length_cons, ih, List.length_cons]

/-- What may come behind a line: nothing, or a line that starts with a letter. -/
def BeginsLine (rest : List Glyph) : Prop :=
  ∀ g ∈ rest.head?, g.mark.column = 0 ∧ isLetter g.char = true

theorem marked_cons (h : IsShown c) (m : Mark) (s : List Char) :
    marked m (c :: s) = (⟨c, m⟩ :: (marked m.next s).1, (marked m.next s).2) := by
  have h₁ : c ≠ '\r' := h.ne (by decide)
  have h₂ : c ≠ '\n' := h.ne (by decide)
  have h₃ : c ≠ '\u0085' := h.ne (by decide)
  rw [marked]
  · simp [h₁, h₂, h₃, h.isBreak_eq]
  · rintro _ rfl
    exact (h₁ rfl).elim

theorem marked_break (m : Mark) (s : List Char) :
    marked m ('\n' :: s) =
      (⟨'\n', m⟩ :: (marked (m.newLine 1) s).1, (marked (m.newLine 1) s).2) := by
  rw [marked]
  · simp
  · rintro _ h
    exact absurd h (by decide)

/-- A line of text is marked before what comes behind it. -/
theorem marked_line (h : ∀ c ∈ t, IsShown c) (m : Mark) (s : List Char) :
    let next := marked ((m.advance t.length).newLine 1) s
    marked m (t ++ '\n' :: s) =
      (inline m t ++ ⟨'\n', m.advance t.length⟩ :: next.1, next.2) := by
  dsimp only
  induction t generalizing m with
  | nil => exact marked_break m s
  | cons c t ih =>
    obtain ⟨hc, ht⟩ := List.forall_mem_cons.mp h
    rw [List.cons_append, marked_cons hc, ih ht, Mark.advance_next, List.length_cons]
    rfl

namespace Scalar

/-! ## Plain scalars -/

variable {place : Setting} {seen : List Char}

/-- The letters at the front are read. -/
theorem plainFrom_letters (h : ∀ c ∈ t, isLetter c = true) (hflow : place.inFlow = false) :
    plainFrom place {} seen m (inline m t ++ rest) =
      plainFrom place {} (t.reverse ++ seen) (m.advance t.length) rest := by
  induction t generalizing m seen with
  | nil => rfl
  | cons c t ih =>
    obtain ⟨hc, ht⟩ := List.forall_mem_cons.mp h
    have hcolon : c ≠ ':' := ne_of_isLetter hc (by decide)
    have hstep : plainFrom place {} seen m (⟨c, m⟩ :: (inline m.next t ++ rest)) =
        plainFrom place {} (c :: seen) m.next (inline m.next t ++ rest) := by
      simp [plainFrom, isBlank_of_isLetter hc, (isShown_of_isLetter hc).isBreak_eq, Gap.isEmpty,
        hflow, endsWord, hcolon, Gap.folded]
    rw [inline, List.cons_append, hstep, ih ht, Mark.advance_next, List.length_cons,
      List.reverse_cons, List.append_assoc]
    rfl

/-- A key is read up to its colon. -/
theorem plain_key (h : ∀ c ∈ t, isLetter c = true) (hflow : place.inFlow = false)
    (hstart : place.start = m) {m₁ m₂ : Mark} :
    plain place (inline m t ++ ⟨':', m₁⟩ :: ⟨' ', m₂⟩ :: rest) =
      .ok { text := t, stop := m.advance t.length, rest := ⟨':', m₁⟩ :: ⟨' ', m₂⟩ :: rest } := by
  rw [plain, hstart, plainFrom_letters h hflow]
  have hgap : isGap ' ' = true := by decide
  have hblank : isBlank ':' = false ∧ isBreak ':' = false := by decide
  simp [plainFrom, hblank.1, hblank.2, Gap.isEmpty, hflow, endsWord, peek, hgap]

/-- A word is read up to the end of its line, and reading goes on into the next line. -/
theorem plain_word (h : ∀ c ∈ t, isLetter c = true) (hflow : place.inFlow = false)
    (hstart : place.start = m) (hindent : 0 < place.indent) (hrest : BeginsLine rest) {m₁ : Mark} :
    plain place (inline m t ++ ⟨'\n', m₁⟩ :: rest) =
      .ok { text := t, stop := m.advance t.length, rest := rest, broke := true } := by
  rw [plain, hstart, plainFrom_letters h hflow]
  have hbreak : isBlank '\n' = false ∧ isBreak '\n' = true := by decide
  cases rest with
  | nil => simp [plainFrom, hbreak.1, hbreak.2, Gap.add]
  | cons g rest =>
    obtain ⟨hcolumn, hletter⟩ := hrest g rfl
    have hblank := isBlank_of_isLetter hletter
    have hnoBreak := (isShown_of_isLetter hletter).isBreak_eq
    simp [plainFrom, hbreak.1, hbreak.2, Gap.add, hblank, hnoBreak, Gap.isEmpty, endsAfterGap,
      hflow, hcolumn, hindent]

/-! ## Quoted scalars -/

/-- A character between double quotes: a quote and a backslash have a backslash in front. -/
def escape (c : Char) : List Char := if c = '\x22' ∨ c = '\\' then ['\\', c] else [c]

theorem forall_escape (h : IsShown c) : ∀ d ∈ escape c, IsShown d := by
  unfold escape
  split_ifs
  · exact List.forall_mem_cons.mpr ⟨by decide, List.forall_mem_singleton.mpr h⟩
  · exact List.forall_mem_singleton.mpr h

/-- What is between double quotes is read up to the closing one. The blanks right in front of a
character are held back as `blanks` when it is read. -/
theorem quotedFrom_escaped (h : ∀ c ∈ s, IsShown c) (start stop : Mark) (hcolumn : m.column ≠ 0)
    (blanks seen : List Char) {m₁ : Mark} (hm₁ : m₁.column ≠ 0) :
    quotedFrom true start stop .text { blanks } seen
        (inline m (s.flatMap escape) ++ ⟨'\x22', m₁⟩ :: rest) =
      .ok { text := seen.reverse ++ blanks ++ s, stop := m₁.next, rest := rest } := by
  induction s generalizing m blanks seen with
  | nil =>
    have hquote : isBlank '\x22' = false ∧ isBreak '\x22' = false := by decide
    simp [inline, quotedFrom, hquote.1, hquote.2, hm₁, Gap.folded]
  | cons c s ih =>
    obtain ⟨hc, hs⟩ := List.forall_mem_cons.mp h
    have hcolumn' (n : Nat) : (m.advance n).column ≠ 0 := by
      have hsum : (m.advance n).column = m.column + n := rfl
      omega
    rw [List.flatMap_cons, inline_append, List.append_assoc]
    by_cases hescaped : c = '\x22' ∨ c = '\\'
    · have htext : escape c = ['\\', c] := if_pos hescaped
      have hslash : isBlank '\\' = false ∧ isBreak '\\' = false := by decide
      have hstands : escaped? c = some c := by rcases hescaped with rfl | rfl <;> rfl
      have hrest := ih hs (hcolumn' 2) [] (c :: (blanks.reverse ++ seen))
      rw [htext]
      simpa [inline, quotedFrom, hslash.1, hslash.2, hcolumn, hc.isBreak_eq, hstands, Gap.folded]
        using hrest
    have htext : escape c = [c] := if_neg hescaped
    rw [not_or] at hescaped
    rw [htext]
    by_cases hblank : isBlank c = true
    · have hrest := ih hs (hcolumn' 1) (blanks ++ [c]) seen
      simpa [inline, quotedFrom, hblank, Gap.add] using hrest
    · have hrest := ih hs (hcolumn' 1) [] (c :: (blanks.reverse ++ seen))
      rw [Bool.not_eq_true] at hblank
      simpa [inline, quotedFrom, hblank, hc.isBreak_eq, hcolumn, hescaped.1, hescaped.2,
        Gap.folded] using hrest

end Scalar

end Keyfile.Yaml
