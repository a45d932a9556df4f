import Keyfile.Proofs.FileSystem.Ancestors
import Keyfile.Proofs.Keypair.ArrayText
import Keyfile.Proofs.Keypair.Store

/-!
# What a save leaves behind

A save that succeeds has written one file, which nobody but its owner can read then, and made the
directories that were missing on the way to it. Every other entry is what it was.
-/
namespace Keyfile
open FileSystem

variable {fs fs' mid : FileSystem} {p : Path} {b : Bytes} {f : JsonFormat} {l : Location}

/-! ## Well-formed trees -/

theorem makeParents_wellFormed (h : fs.WellFormed) (p : Path) :
    ∀ s ∈ (fs.makeParents p).states, s.WellFormed := by
  intro s hs
  unfold makeParents at hs
  split at hs
  · cases hs
  · split_ifs at hs
    · cases hs
    · exact h.ensureAll _ s hs

theorem writeOwnerOnly_wellFormed (h : fs.WellFormed) (p : Path) (content : Bytes) :
    ∀ s ∈ (fs.writeOwnerOnly p content).states, s.WellFormed := by
  intro s hs
  unfold writeOwnerOnly at hs
  split at hs
  · cases hs
  · rename_i opened l ho
    have hopened := h.openEmpty ho
    obtain ⟨mode, hopens, rfl, _⟩ := openEmpty_ok ho
    have hw := hopens.writable
    have hfile := find?_set_self fs (.file mode []) hw.ne_nil
    have hclosed := hopened.setModeAt hfile ownerOnly
    have hsame : (fs.set l (.file mode [])).setModeAt l ownerOnly =
        fs.set l (.file ownerOnly []) := setModeAt_set hw.ne_nil
    rw [hsame] at hclosed
    dsimp only at hs
    rw [hsame] at hs
    have hwritten := hclosed.setContentAt
      (find?_set_self fs (.file ownerOnly []) hw.ne_nil) content
    simp only [List.mem_cons, List.not_mem_nil, or_false] at hs
    rcases hs with rfl | rfl | rfl
    · exact hopened
    · exact hclosed
    · exact hwritten

/-- Every tree that a save goes through is well-formed. -/
theorem saveSteps_wellFormed (h : fs.WellFormed) (b : Bytes) (p : Path) (f : JsonFormat) :
    ∀ s ∈ (saveSteps fs b p f).states, s.WellFormed := by
  intro s hs
  have hparents := makeParents_wellFormed h p
  unfold saveSteps at hs
  dsimp only at hs
  split at hs
  · exact hparents s hs
  · rcases List.mem_append.mp hs with hs | hs
    · exact hparents s hs
    · exact writeOwnerOnly_wellFormed (h.final hparents) p _ s hs

theorem save_wellFormed (h : fs.WellFormed) (b : Bytes) (p : Path) (f : JsonFormat) :
    (save fs b p f).1.WellFormed :=
  h.final (saveSteps_wellFormed h b p f)

/-- What holds of the path that a path lies in holds of all that are above it, if it is handed on
from a path to the one that it lies in. -/
theorem Path.above_induction {holds : Path → Prop}
    (hands : ∀ p up, LiesIn p up → holds p → holds up) (hp : ∀ up, LiesIn p up → holds up) :
    ∀ q ∈ p.above, holds q := by
  intro q hq
  unfold above at hq
  split at hq
  · cases hq
  · rename_i up hup
    by_cases hne : up = []
    · rw [hne] at hq
      cases hq
    · exact ancestorsUpTo_induction hands (hp up (liesIn_of_parent? hup hne)) up.length q hq

/-- In a well-formed tree, what a file lies in are directories. -/
theorem isDirectory_above (h : fs.WellFormed) (hr : fs.resolve .follow p = .ok (.found l)) :
    ∀ q ∈ p.above, fs.isDirectory q = true := by
  refine Path.above_induction ?_ fun up hlies => isDirectory_of_liesIn h hlies hr
  intro q up hlies hq
  obtain ⟨d, hd, _⟩ := isDirectory_iff.mp hq
  exact isDirectory_of_liesIn h hlies hd

/-! ## Saves that succeed -/

/-- The directories on the way to a file are new in other places. -/
theorem Stored.writable_before (h : Stored fs b p f mid l fs') : fs.Writable l := by
  cases hl : fs.find? l with
  | none => exact .inl hl
  | some e =>
    have hmid := h.adds.keeps hl
    rcases h.writable with hnone | ⟨mode, content, hfile⟩
    · rw [hnone] at hmid
      cases hmid
    · rw [hfile] at hmid
      cases hmid
      exact .inr ⟨mode, content, hl⟩

/-- What a save leaves behind. In `content` the whole text of the file is given, and in `others`
what may be new besides the file. -/
structure Leaves (fs : FileSystem) (b : Bytes) (p : Path) (f : JsonFormat) (l : Location)
    (fs' : FileSystem) : Prop where
  leads : fs'.resolve .follow p = .ok (.found l)
  same_file {k : Location} : fs.resolve .follow p = .ok (.found k) → k = l
  writable : fs.find? l = none ∨ ∃ mode content, fs.find? l = some (.file mode content)
  content : fs'.find? l = some (.file 0o600 (Utf8.ofString (f.setOut (byteNumerals b))))
  others {k : Location} : k ≠ l → fs'.find? k = fs.find? k ∨
    fs.find? k = none ∧ (∃ mode, fs'.find? k = some (.directory mode)) ∧
      ∃ q ∈ p.above, fs'.resolve .follow q = .ok (.found k)
  working_eq : fs'.working = fs.working
  above : fs.WellFormed → fs'.WellFormed ∧ ∀ q ∈ p.above, fs'.isDirectory q = true

theorem Stored.others (h : Stored fs b p f mid l fs') {k : Location} (hk : k ≠ l) :
    fs'.find? k = fs.find? k ∨ fs.find? k = none ∧ (∃ mode, fs'.find? k = some (.directory mode)) ∧
      ∃ q ∈ p.above, fs'.resolve .follow q = .ok (.found k) := by
  have hsame : fs'.find? k = mid.find? k := by
    rw [h.eq_set, find?_set_of_ne _ _ h.writable.ne_nil hk]
  rw [hsame]
  cases hbefore : fs.find? k with
  | some e => exact .inl (h.adds.keeps hbefore)
  | none =>
    cases hmid : mid.find? k with
    | none => exact .inl rfl
    | some e =>
      obtain ⟨mode, rfl⟩ := h.adds.adds hbefore hmid
      obtain ⟨q, hq, hleads⟩ := h.adds.leads hbefore hmid
      exact .inr ⟨rfl, ⟨mode, rfl⟩, q, hq, h.grows_written.resolve_found hleads⟩

/-- A save that succeeds leaves the text of the bytes behind in the file to which the path leads,
and the directories on the way to that file, and nothing else. -/
theorem save_leaves (h : (save fs b p f).2.result = .ok ()) :
    ∃ l, Leaves fs b p f l (save fs b p f).1 := by
  obtain ⟨mid, l, hs⟩ := save_ok h
  have hleads := resolve_follow_of_create hs.leads
  refine ⟨l, hleads, ?_, hs.writable_before, ?_, hs.others, hs.grows.working_eq, ?_⟩
  · intro k hk
    have hfound := hs.grows.resolve_found hk
    rw [hleads] at hfound
    cases hfound
    rfl
  · rw [← arrayText_eq_setOut]
    exact hs.find?_eq
  · intro hwell
    have hafter := save_wellFormed hwell b p f
    exact ⟨hafter, isDirectory_above hafter hleads⟩

/-- A tree in which `k` is a link to the file `d/e`, which everybody runs as its owner and which is
longer than what will be stored. -/
def armedTree : FileSystem where
  entries := [([[0x6B]], .link [0x64, 0x2F, 0x65]), ([[0x64]], .directory 0o755),
    ([[0x64], [0x65]], .file 0o4755 (Utf8.ofString "something that is longer"))]
  working := []

/-- On the way through `m/..` the directory `m` is made; then `d/e` holds one byte and no more, for
its owner alone, and the link is what it was. -/
theorem save_leaves_link :
    (save armedTree [7] (Path.ofString "m/../k") .compact).2.result = .ok () ∧
      let fs' := (save armedTree [7] (Path.ofString "m/../k") .compact).1
      fs'.find? [[0x64], [0x65]] = some (.file 0o600 (Utf8.ofString "[7]")) ∧
        fs'.find? [[0x6B]] = some (.link [0x64, 0x2F, 0x65]) ∧
        fs'.isDirectory (Path.ofString "m") = true := by
  have h : (save armedTree [7] (Path.ofString "m/../k") .compact).2.result = .ok () := by cbv
  obtain ⟨l, hl⟩ := save_leaves h
  have hplace : (save armedTree [7] (Path.ofString "m/../k") .compact).1.resolve .follow
      (Path.ofString "m/../k") = .ok (.found [[0x64], [0x65]]) := by cbv
  rw [hl.leads] at hplace
  cases hplace
  have hwell : armedTree.WellFormed := wellFormed_of_entries (by decide) rfl
  have habove : (Path.ofString "m/../k").above = [Path.ofString "m/..", Path.ofString "m"] := by
    cbv
  have hmade : Path.ofString "m" ∈ (Path.ofString "m/../k").above := by
    rw [habove]
    exact List.mem_cons_of_mem _ (List.mem_singleton_self _)
  refine ⟨h, hl.content, ?_, (hl.above hwell).2 _ hmade⟩
  rcases hl.others (k := [[0x6B]]) (by decide) with hsame | ⟨hnone, _⟩
  · exact hsame
  · cases hnone

end Keyfile
