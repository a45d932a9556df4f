import Keyfile.Proofs.History

/-!
# Runs of the program one after the other

What an operation writes is a file that only its owner can read, with the bytes of the operation in
full; everything else it leaves where it was. The only bytes that a run of the program writes are
those of the keypair that its random source gives.
-/
namespace Keyfile
open FileSystem

/-! ## Trees whose files were written by a history -/

/-- A tree has grown, and each of its files is what it was or was written with some of these
bytes. -/
structure Keeps (written : Bytes → Prop) (fs fs' : FileSystem) : Prop extends Grows fs fs' where
  file_cases {l : Location} {mode : Nat} {content : Bytes} :
    fs'.find? l = some (.file mode content) → fs.find? l = some (.file mode content) ∨
      mode = ownerOnly ∧ ∃ b f, written b ∧ content = Utf8.ofString (JsonFormat.arrayText f b)

namespace Keeps
variable {written written' : Bytes → Prop} {fs fs' fs'' : FileSystem}

theorem refl (written : Bytes → Prop) (fs : FileSystem) : Keeps written fs fs where
  toGrows := .refl fs
  file_cases := .inl

theorem trans (h : Keeps written fs fs') (h' : Keeps written fs' fs'') :
    Keeps written fs fs'' where
  toGrows := h.toGrows.trans h'.toGrows
  file_cases := by
    intro l mode content hl
    rcases h'.file_cases hl with hl' | hnew
    · exact h.file_cases hl'
    · exact .inr hnew

theorem mono (h : Keeps written fs fs') (hw : ∀ b, written b → written' b) :
    Keeps written' fs fs' where
  toGrows := h.toGrows
  file_cases := by
    intro l mode content hl
    rcases h.file_cases hl with hold | ⟨hmode, b, f, hb, hcontent⟩
    · exact .inl hold
    · exact .inr ⟨hmode, b, f, hw b hb, hcontent⟩

end Keeps

variable {fs fs' mid : FileSystem} {b : Bytes} {p : Path} {f : JsonFormat} {l : Location}

/-- A tree with more directories has no file that was not there before. -/
theorem FileSystem.AddsDirectories.keeps_files (h : AddsDirectories fs fs')
    (written : Bytes → Prop) : Keeps written fs fs' where
  toGrows := h.grows
  file_cases := fun hl => .inl ((h.sameFiles _ _ _).mp hl)

theorem Stored.keeps_files (h : Stored fs b p f mid l fs') : Keeps (· = b) fs fs' := by
  have hparents : Keeps (· = b) fs mid := h.adds.toAddsDirectories.keeps_files _
  refine hparents.trans ⟨h.grows_written, ?_⟩
  intro k mode content hk
  by_cases hkl : k = l
  · rw [hkl, h.find?_eq] at hk
    cases hk
    exact .inr ⟨rfl, b, f, rfl, rfl⟩
  · rw [h.eq_set, find?_set_of_ne _ _ h.writable.ne_nil hkl] at hk
    exact .inl hk

theorem Effect.keeps_files {bytes? : Option Bytes} {ps : List Path}
    (h : Effect fs bytes? fs' ps) : Keeps (bytes? = some ·) fs fs' := by
  cases h with
  | adds h => exact h.keeps_files _
  | stores hb h =>
    apply h.keeps_files.mono
    rintro _ rfl
    exact hb

end Keyfile
