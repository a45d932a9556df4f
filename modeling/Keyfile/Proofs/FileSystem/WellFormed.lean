import Keyfile.Proofs.FileSystem.Change
import Mathlib.Data.List.Induction

/-!
# Trees in which every entry lies in a directory

Walks through a well-formed tree stay in directories until their last name. So whatever is made or
written where a path leads keeps the tree well-formed.
-/
namespace Keyfile.FileSystem

variable {fs fs' : FileSystem} {ending : Ending} {links : Nat} {here l : Location}
  {names : List Name} {slash : Bool} {p : Path}

theorem isDirectoryAt_iff :
    fs.isDirectoryAt l = true ↔ ∃ mode, fs.find? l = some (.directory mode) := by
  unfold isDirectoryAt
  constructor
  · intro h
    split at h
    · rename_i mode hl
      exact ⟨mode, hl⟩
    · cases h
  · rintro ⟨mode, hl⟩
    rw [hl]

theorem isDirectoryAt_of_find? {mode : Nat} (h : fs.find? l = some (.directory mode)) :
    fs.isDirectoryAt l = true :=
  isDirectoryAt_iff.mpr ⟨mode, h⟩

theorem Grows.isDirectoryAt (hg : Grows fs fs') (h : fs.isDirectoryAt l = true) :
    fs'.isDirectoryAt l = true := by
  obtain ⟨mode, hl⟩ := isDirectoryAt_iff.mp h
  exact isDirectoryAt_of_find? (hg.directory hl)

/-- Below a place where nothing is, there is nothing. -/
theorem WellFormed.find?_below {k : Location} (h : fs.WellFormed) (hk : fs.find? k = none)
    (hl : k <+: l) : fs.find? l = none := by
  obtain ⟨names, rfl⟩ := hl
  induction names using List.reverseRecOn with
  | nil => rwa [List.append_nil]
  | append_singleton names n ih =>
    rw [← List.append_assoc]
    cases hn : fs.find? (k ++ names ++ [n]) with
    | none => rfl
    | some e =>
      have hdirectory := h.1 (k ++ names) n (by rw [hn]; rfl)
      obtain ⟨mode, hmode⟩ := isDirectoryAt_iff.mp hdirectory
      rw [ih] at hmode
      cases hmode

theorem WellFormed.find?_behind (h : fs.WellFormed) {n : Name} (hn : fs.find? (l ++ [n]) = none)
    (ns : List Name) : fs.find? (l ++ n :: ns) = none :=
  h.find?_below hn ⟨ns, by rw [List.append_assoc, List.singleton_append]⟩

/-- It is enough to look at the entries that are listed. -/
theorem wellFormed_of_entries (h : ∀ x ∈ fs.entries, fs.isDirectoryAt x.1.dropLast = true)
    (hworking : fs.isDirectoryAt fs.working = true) : fs.WellFormed := by
  refine ⟨?_, hworking⟩
  intro l n hs
  have hne : l ++ [n] ≠ [] := List.append_ne_nil_of_right_ne_nil l (List.cons_ne_nil n [])
  rw [find?, if_neg hne] at hs
  obtain ⟨x, hx, hkey⟩ := List.lookup_isSome_iff.mp hs
  have hdirectory := h x hx
  rwa [← eq_of_beq hkey, List.dropLast_concat] at hdirectory

/-- A tree that grows stays well-formed if what is new in it lies in directories. -/
theorem WellFormed.of_grows (h : fs.WellFormed) (hg : Grows fs fs')
    (hnew : ∀ l n, fs.find? (l ++ [n]) = none → (fs'.find? (l ++ [n])).isSome →
      fs'.isDirectoryAt l = true) : fs'.WellFormed := by
  refine ⟨?_, ?_⟩
  · intro l n hs
    cases hl : fs.find? (l ++ [n]) with
    | none => exact hnew l n hl hs
    | some e =>
      have hd : fs.isDirectoryAt l = true := h.1 l n (by rw [hl]; rfl)
      exact hg.isDirectoryAt hd
  · rw [hg.working_eq]
    exact hg.isDirectoryAt h.2

/-! ## Walks -/

theorem WellFormed.dropLast (h : fs.WellFormed) (hl : fs.isDirectoryAt l = true) :
    fs.isDirectoryAt l.dropLast = true := by
  by_cases hnil : l = []
  · rw [hnil]
    rfl
  · apply h.1 l.dropLast (l.getLast hnil)
    rw [List.dropLast_concat_getLast hnil]
    obtain ⟨mode, hmode⟩ := isDirectoryAt_iff.mp hl
    rw [hmode]
    rfl

theorem isDirectoryAt_start (h : fs.isDirectoryAt here = true) (target : Path) :
    fs.isDirectoryAt (start here target) = true := by
  unfold start
  split_ifs
  · rfl
  · exact h

theorem WellFormed.vacant (h : fs.WellFormed) {directory : Location} {n : Name}
    (hw : Walks fs ending links here names slash (.vacant directory n))
    (hhere : fs.isDirectoryAt here = true) : fs.isDirectoryAt directory = true := by
  generalize hs : Spot.vacant directory n = spot at hw
  induction hw with
  | done => cases hs
  | dot _ ih => exact ih hhere hs
  | dotDot _ ih => exact ih (h.dropLast hhere) hs
  | vacant =>
    cases hs
    exact hhere
  | directory _ hn _ ih => exact ih (isDirectoryAt_of_find? hn) hs
  | file => cases hs
  | keep => cases hs
  | link _ _ _ _ ih => exact ih (isDirectoryAt_start hhere _) hs

theorem WellFormed.resolve_vacant (h : fs.WellFormed) {directory : Location} {n : Name}
    (hr : fs.resolve ending p = .ok (.vacant directory n)) :
    fs.isDirectoryAt directory = true := by
  obtain ⟨_, hw⟩ := resolve_eq_ok_iff.mp hr
  exact h.vacant hw (isDirectoryAt_start h.2 p)

/-- No slash comes behind where a path leads to a file, so the file can be opened to be written. -/
theorem Walks.create {mode : Nat} {content : Bytes}
    (h : Walks fs .follow links here names slash (.found l)) (hfs : fs.WellFormed)
    (hhere : fs.isDirectoryAt here = true) (hl : fs.find? l = some (.file mode content)) :
    slash = false ∧ Walks fs .create links here names slash (.found l) := by
  generalize hs : Spot.found l = spot at h
  have looks {n : Name} {rest : List Name} {slash : Bool} (h : LooksUp .follow n rest slash)
      (hslash : slash = false) : LooksUp .create n rest slash :=
    ⟨h.ne_dot, h.ne_dotDot, (fun hend => by rw [hslash] at hend; cases hend.2.1), h.length_le⟩
  induction h with
  | done =>
    cases hs
    obtain ⟨_, hd⟩ := isDirectoryAt_iff.mp hhere
    rw [hl] at hd
    cases hd
  | dot _ ih =>
    obtain ⟨hslash, hw⟩ := ih hhere hs
    exact ⟨hslash, .dot hw⟩
  | dotDot _ ih =>
    obtain ⟨hslash, hw⟩ := ih (hfs.dropLast hhere) hs
    exact ⟨hslash, .dotDot hw⟩
  | vacant => cases hs
  | directory hlooks hn _ ih =>
    obtain ⟨hslash, hw⟩ := ih (isDirectoryAt_of_find? hn) hs
    exact ⟨hslash, .directory (looks hlooks hslash) hn hw⟩
  | file hlooks hn hlast =>
    have hslash := hlast.resolve_right nofun
    exact ⟨hslash, .file (looks hlooks hslash) hn (.inl hslash)⟩
  | keep _ _ hlast => cases hlast
  | link hlooks hn _ _ ih =>
    obtain ⟨hslash, hw⟩ := ih (isDirectoryAt_start hhere _) hs
    obtain ⟨hslash', _⟩ := Bool.or_eq_false_iff.mp hslash
    exact ⟨hslash', .link (looks hlooks hslash') hn nofun hw⟩

theorem WellFormed.resolve_create (hfs : fs.WellFormed) {mode : Nat} {content : Bytes}
    (h : fs.resolve .follow p = .ok (.found l)) (hl : fs.find? l = some (.file mode content)) :
    fs.resolve .create p = .ok (.found l) := by
  obtain ⟨hp, hw⟩ := resolve_eq_ok_iff.mp h
  exact resolve_eq_ok_iff.mpr ⟨hp, (hw.create hfs (isDirectoryAt_start hfs.2 p) hl).2⟩

/-! ## Changes -/

theorem WellFormed.set_vacant (h : fs.WellFormed) {directory : Location} {n : Name}
    (hr : fs.resolve ending p = .ok (.vacant directory n)) (e : Entry) :
    (fs.set (directory ++ [n]) e).WellFormed := by
  have hnone := find?_of_resolve_vacant hr
  have hg := grows_set_of_none e hnone
  apply h.of_grows hg
  intro l m hl hs
  rw [find?_set fs _ _ e (ne_nil_of_find?_eq_none hnone)] at hs
  split_ifs at hs with heq
  · obtain ⟨rfl, _⟩ := List.append_inj' heq rfl
    exact hg.isDirectoryAt (h.resolve_vacant hr)
  · rw [hl] at hs
    cases hs

theorem WellFormed.set_file (h : fs.WellFormed) {mode mode' : Nat} {content content' : Bytes}
    (hf : fs.find? l = some (.file mode content)) :
    (fs.set l (.file mode' content')).WellFormed := by
  apply h.of_grows (grows_set_of_file hf)
  intro k n hk hs
  have hne : k ++ [n] ≠ l := ne_of_find? hk hf nofun
  rw [find?_set_of_ne _ _ (ne_nil_of_find?_eq_file hf) hne, hk] at hs
  cases hs

theorem WellFormed.makeDirectory (h : fs.WellFormed) (hm : fs.makeDirectory p = .ok fs') :
    fs'.WellFormed := by
  obtain ⟨spot, hs, hm⟩ := bind_eq_ok_iff.mp hm
  cases spot with
  | found l => cases hm
  | vacant l n =>
    cases hm
    exact h.set_vacant hs _

theorem WellFormed.ensureDirectory (h : fs.WellFormed) (p : Path) :
    ∀ s ∈ (fs.ensureDirectory p).states, s.WellFormed := by
  intro s hs
  unfold FileSystem.ensureDirectory at hs
  split at hs
  · rename_i hm
    rw [List.mem_singleton] at hs
    rw [hs]
    exact h.makeDirectory hm
  · cases hs

theorem WellFormed.final {ε : Type} {progress : Progress ε} (h : fs.WellFormed)
    (hs : ∀ s ∈ progress.states, s.WellFormed) : (progress.final fs).WellFormed := by
  rcases progress.final_mem fs with he | hm
  · rw [he]
    exact h
  · exact hs _ hm

theorem WellFormed.ensureAll (h : fs.WellFormed) (ps : List Path) :
    ∀ s ∈ (fs.ensureAll ps).states, s.WellFormed := by
  induction ps with
  | nil =>
    intro s hs
    cases hs
  | cons p up ih =>
    intro s hs
    rw [FileSystem.ensureAll] at hs
    dsimp only at hs
    split at hs
    · split at hs
      · exact ih s hs
      · rcases List.mem_append.mp hs with hs | hs
        · exact ih s hs
        · exact (h.final ih).ensureDirectory p s hs
    · exact h.ensureDirectory p s hs

theorem WellFormed.openEmpty (h : fs.WellFormed) {mode : Nat}
    (ho : fs.openEmpty mode p = .ok (fs', l)) : fs'.WellFormed := by
  obtain ⟨spot, hs, ho⟩ := bind_eq_ok_iff.mp ho
  cases spot with
  | vacant d n =>
    cases ho
    exact h.set_vacant hs _
  | found k =>
    dsimp only at ho
    split at ho
    · rename_i hk
      cases ho
      exact h.set_file hk
    · cases ho

theorem WellFormed.setModeAt (h : fs.WellFormed) {mode : Nat} {content : Bytes}
    (hf : fs.find? l = some (.file mode content)) (mode' : Nat) :
    (fs.setModeAt l mode').WellFormed := by
  unfold FileSystem.setModeAt
  rw [hf]
  exact h.set_file hf

theorem WellFormed.setContentAt (h : fs.WellFormed) {mode : Nat} {content : Bytes}
    (hf : fs.find? l = some (.file mode content)) (content' : Bytes) :
    (fs.setContentAt l content').WellFormed := by
  unfold FileSystem.setContentAt
  rw [hf]
  exact h.set_file hf

end Keyfile.FileSystem
