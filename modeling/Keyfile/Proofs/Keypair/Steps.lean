import Keyfile.Proofs.Keypair.Saved

/-!
# Every state that a save goes through

Whatever becomes of a save, directories are added first. If it is refused, that was all. If not, the
file to which the path leads is emptied or made, closed to everybody but its owner, and only then
filled, so no state on the way shows the bytes to others.
-/
namespace Keyfile
open FileSystem

variable {fs fs' mid s : FileSystem} {b : Bytes} {p : Path} {f : JsonFormat} {l k : Location}

/-! ## Saves that are refused -/

/-- On the way to `m/..` the directory `m` is made before the save is refused. -/
example : (save armedTree [7] (Path.ofString "m/..") .pretty).2.result =
      .error (.writeFailure (Path.ofString "m/..") "Is a directory (os error 21)") ∧
    (save armedTree [7] (Path.ofString "m/..") .pretty).1.isDirectory (Path.ofString "m") := by
  cbv

/-! ## Files on the way -/

/-- The trees that a save goes through, seen at the file that it writes: before it is opened, when
it has been emptied or made, when it has been closed to others, and when it has been written. -/
structure Guarded (fs : FileSystem) (p : Path) (text : Bytes) (l : Location)
    (before : List FileSystem) (opened closed written : FileSystem) : Prop where
  leads : ∀ s ∈ [opened, closed, written], s.resolve .follow p = .ok (.found l)
  same_file {k : Location} : fs.resolve .follow p = .ok (.found k) → k = l
  waits : ∀ s ∈ before, SameFiles fs s
  opens : opened.find? l = some (.file 0o600 []) ∧ fs.find? l = none ∨
    ∃ mode content, opened.find? l = some (.file mode []) ∧
      fs.find? l = some (.file mode content)
  closes : closed.find? l = some (.file 0o600 [])
  writes : written.find? l = some (.file 0o600 text)
  elsewhere : ∀ s ∈ [opened, closed, written], ∀ k mode content, k ≠ l →
    (s.find? k = some (.file mode content) ↔ fs.find? k = some (.file mode content))

theorem Storing.guarded {before : List FileSystem} {mode : Nat}
    (h : Storing fs b p f before mid l mode) :
    Guarded fs p (Utf8.ofString (f.setOut (byteNumerals b))) l before
      (mid.set l (.file mode [])) (mid.set l (.file ownerOnly []))
      (mid.set l (.file ownerOnly (Utf8.ofString (f.arrayText b)))) := by
  have hne := h.opens.writable.ne_nil
  have hopened := find?_set_self mid (.file mode []) hne
  have hleads (e : Nat) (content : Bytes) :
      (mid.set l (.file e content)).resolve .follow p = .ok (.found l) := by
    rw [← set_set mid l (.file mode [])]
    exact resolve_follow_of_create ((grows_set_of_file hopened).resolve_found h.leads)
  have hstates {s : FileSystem} (hs : s ∈ [mid.set l (.file mode []),
      mid.set l (.file ownerOnly []),
      mid.set l (.file ownerOnly (Utf8.ofString (f.arrayText b)))]) :
      ∃ e content, s = mid.set l (.file e content) := by
    simp only [List.mem_cons, List.not_mem_nil, or_false] at hs
    rcases hs with rfl | rfl | rfl <;> exact ⟨_, _, rfl⟩
  refine ⟨?_, ?_, ?_, ?_, find?_set_self mid _ hne, ?_, ?_⟩
  · intro s hs
    obtain ⟨e, content, rfl⟩ := hstates hs
    exact hleads e content
  · intro k hk
    have hgrown : Grows fs (mid.set l (.file mode [])) :=
      h.adds.grows.trans (h.opens.writable.grows_set mode [])
    have hfound := hgrown.resolve_found hk
    rw [hleads] at hfound
    cases hfound
    rfl
  · intro s hs
    exact (h.adds_before s hs).sameFiles
  · have hsame := h.adds.sameFiles
    rcases h.opens with ⟨hnone, rfl⟩ | ⟨content, hfile⟩
    · refine .inl ⟨hopened, ?_⟩
      cases hl : fs.find? l with
      | none => rfl
      | some e =>
        rw [h.adds.keeps hl] at hnone
        cases hnone
    · exact .inr ⟨mode, content, hopened, (hsame l mode content).mp hfile⟩
  · rw [← arrayText_eq_setOut]
    exact find?_set_self mid _ hne
  · intro s hs k mode' content hk
    obtain ⟨e, c, rfl⟩ := hstates hs
    rw [find?_set_of_ne mid _ hne hk]
    exact h.adds.sameFiles k mode' content

/-- Every file in a tree on the way is one that was there before, or it is empty, or it holds the
text; and a text, like a new file, is its owner's only. -/
theorem Guarded.file_cases {text : Bytes} {before : List FileSystem}
    {opened closed written : FileSystem}
    (h : Guarded fs p text l before opened closed written)
    (hs : s ∈ before ++ [opened, closed, written]) {mode : Nat} {content : Bytes}
    (hk : s.find? k = some (.file mode content)) :
    fs.find? k = some (.file mode content) ∨
      content = [] ∧ (fs.find? k = none → mode = 0o600) ∨ content = text ∧ mode = 0o600 := by
  rcases List.mem_append.mp hs with hs | hs
  · exact .inl ((h.waits s hs k mode content).mp hk)
  · by_cases hkl : k = l
    · subst hkl
      simp only [List.mem_cons, List.not_mem_nil, or_false] at hs
      rcases hs with rfl | rfl | rfl
      · rcases h.opens with ⟨hnew, _⟩ | ⟨old, _, hold, hbefore⟩
        · rw [hnew] at hk
          cases hk
          exact .inr (.inl ⟨rfl, fun _ => rfl⟩)
        · rw [hold] at hk
          cases hk
          refine .inr (.inl ⟨rfl, ?_⟩)
          intro hnone
          rw [hbefore] at hnone
          cases hnone
      · rw [h.closes] at hk
        cases hk
        exact .inr (.inl ⟨rfl, fun _ => rfl⟩)
      · rw [h.writes] at hk
        cases hk
        exact .inr (.inr ⟨rfl, rfl⟩)
    · exact .inl ((h.elsewhere s hs k mode content hkl).mp hk)

/-- No tree that a save goes through shows its bytes to others. If it is refused, all trees have the
files of the first one. If it succeeds, they are guarded: the file is what it was until it is
opened, empty until it is closed to others, and filled in the last tree only. In all of them a file
that is new or holds the text is its owner's only. -/
theorem saveSteps_private (fs : FileSystem) (b : Bytes) (p : Path) (f : JsonFormat) :
    let steps := saveSteps fs b p f
    let text := Utf8.ofString (f.setOut (byteNumerals b))
    ((∃ e, steps.result = .error e ∧ ∀ s ∈ steps.states, SameFiles fs s) ∨
      ∃ l before opened closed written, steps.result = .ok () ∧
        steps.states = before ++ [opened, closed, written] ∧ steps.final fs = written ∧
        Guarded fs p text l before opened closed written) ∧
    ∀ s ∈ steps.states, ∀ k mode content, s.find? k = some (.file mode content) →
      fs.find? k = some (.file mode content) ∨
        content = [] ∧ (fs.find? k = none → mode = 0o600) ∨ content = text ∧ mode = 0o600 := by
  intro steps text
  rcases saveSteps_cases fs b p f with ⟨reason, hresult, hadds⟩ | ⟨before, mid, l, mode, h⟩
  · have hsame : ∀ s ∈ steps.states, SameFiles fs s := by
      intro s hs
      exact (hadds s hs).sameFiles
    refine ⟨.inl ⟨_, hresult, hsame⟩, ?_⟩
    intro s hs k mode content hk
    exact .inl ((hsame s hs k mode content).mp hk)
  · have hsteps : steps =
        ⟨before ++ writeStates mid l mode (Utf8.ofString (f.arrayText b)), .ok ()⟩ := h.steps_eq
    have hfinal := h.stored.2.eq_set
    refine ⟨.inr ⟨l, before, _, _, _, ?_, ?_, hfinal, h.guarded⟩, ?_⟩
    · rw [hsteps]
    · rw [hsteps]
      rfl
    · intro s hs k mode' content hk
      rw [hsteps] at hs
      exact h.guarded.file_cases hs hk

end Keyfile
