import Keyfile.Text.Utf8

/-!
# What a terminal shows

Text may hold control sequences, with which a terminal moves, colours or listens instead of showing
something. `visible` leaves them out, along with control characters other than white space. White
space inside a sequence is shown with what follows it; the sequence goes on behind the next control
character.
-/
namespace Keyfile.Terminal

/-- Where a text stands with regard to control sequences. -/
inductive Place where
  /-- Outside all sequences. -/
  | outside
  /-- Behind an escape character. -/
  | escape
  /-- Inside an escape sequence of more than two characters. -/
  | escapeRest
  /-- Inside a control sequence, which ends with a letter or a character like one. -/
  | control
  /-- Inside a command to the system, which ends with a bell. -/
  | command
  /-- At the head of a control string for the device, or behind parameters or marks there. -/
  | deviceHead
  | deviceParameters
  | deviceMarks
  /-- Inside a string that ends with the byte `0x9C`. -/
  | message
  deriving DecidableEq

namespace Place

/-- What a character between space and tilde leads to. -/
def afterPrintable (p : Place) (c : Char) : Place :=
  let mark := c < '0'
  let parameter := '0' ≤ c && c < '@'
  match p with
  | outside => outside
  | escape =>
    if mark then escapeRest
    else if c = '[' then control
    else if c = ']' then command
    else if c = 'P' then deviceHead
    else if c = 'X' ∨ c = '^' ∨ c = '_' then message
    else outside
  | escapeRest => if mark then escapeRest else outside
  | control => if mark || parameter then control else outside
  | command => command
  | deviceHead =>
    if mark then deviceMarks else if parameter then deviceParameters else message
  | deviceParameters =>
    if mark then deviceMarks else if parameter && c < '<' then deviceParameters else message
  | deviceMarks => if mark then deviceMarks else message
  | message => message

/-- What a character that is not shown leads to. -/
def after (p : Place) (c : Char) : Place :=
  if c = '\x1B' then escape
  else if c = '\x18' ∨ c = '\x1A' then outside
  else if c < ' ' then if p = command ∧ c = '\x07' then outside else p
  else if c < '\x7F' then p.afterPrintable c
  else if p = message ∧ 0x9C ∈ Utf8.encodeChar c then outside
  else p

/-- Whether control characters keep their meaning. -/
def heedsControls : Place → Bool
  | outside | escape | escapeRest | control => true
  | _ => false

/-- Whether a character is shown. -/
def shows (p : Place) (c : Char) : Bool :=
  if c = '\t' ∨ c = '\n' ∨ c = '\x0C' ∨ c = '\r' then p.heedsControls
  else p = outside && ' ' ≤ c && c ≠ '\x7F'

end Place

/-- What is shown of a text that goes on at `p`. While something is `showing`, sequences rest. -/
def visibleFrom (showing : Bool) (p : Place) : List Char → List Char
  | [] => []
  | c :: r =>
    if (if showing then Place.outside else p).shows c then
      c :: visibleFrom true (if c < '\x7F' then p else .outside) r
    else visibleFrom false (p.after c) r

theorem Place.shows_outside {p : Place} {c : Char} (h : p.shows c) : outside.shows c := by
  simp only [shows] at h ⊢
  split at h <;> simp_all [heedsControls]

/-- Only characters that are shown outside sequences are visible. -/
theorem shows_of_mem_visibleFrom {showing : Bool} {p : Place} {s : List Char} {c : Char}
    (h : c ∈ visibleFrom showing p s) : Place.outside.shows c := by
  induction s generalizing showing p with
  | nil => simp [visibleFrom] at h
  | cons d r ih =>
    rw [visibleFrom] at h
    by_cases hd : (if showing then Place.outside else p).shows d
    · rw [if_pos hd] at h
      rcases List.mem_cons.1 h with rfl | h
      · exact Place.shows_outside hd
      · exact ih h
    · rw [if_neg hd] at h
      exact ih h

/-- A text without sequences and control characters is visible as it is. -/
theorem visibleFrom_eq_self {showing : Bool} {s : List Char}
    (h : ∀ c ∈ s, Place.outside.shows c) : visibleFrom showing .outside s = s := by
  induction s generalizing showing with
  | nil => rfl
  | cons c r ih =>
    rw [visibleFrom]
    simp [h c (by simp), ih fun d hd => h d (by simp [hd])]

/-- What is shown of a text. -/
def visible (s : String) : String := String.ofList (visibleFrom false .outside s.toList)

end Keyfile.Terminal
