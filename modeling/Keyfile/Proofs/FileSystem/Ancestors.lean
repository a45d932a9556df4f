import Keyfile.Proofs.FileSystem.WellFormed
import Keyfile.Proofs.Path

/-!
# The directories on the way to an entry

Where a path leads to a place in a well-formed tree, its parent and all that are above it lead to
directories: a walk takes the names of the parent first, and it goes on from a directory only.
-/
namespace Keyfile.FileSystem

variable {fs : FileSystem} {ending : Ending} {links : Nat} {here : Location} {slash : Bool}
  {spot : Spot} {p up : Path}

/-- The first names of a walk, if others come behind them, lead to a directory. -/
theorem Walks.init {ns ms : List Name} (hw : Walks fs ending links here (ns ++ ms) slash spot)
    (h : fs.WellFormed) (hhere : fs.isDirectoryAt here = true) (hms : ms ≠ []) (slash' : Bool) :
    ∃ d, fs.isDirectoryAt d = true ∧ Walks fs .follow links here ns slash' (.found d) := by
  generalize hnames : ns ++ ms = names at hw
  -- on the names of the walk, where the first ones end being general: a link puts names before them
  induction hw generalizing ns slash' with
  | done =>
    obtain ⟨_, hnil⟩ := List.append_eq_nil_iff.mp hnames
    exact absurd hnil hms
  | @dot _ here rest _ _ _ ih =>
    rcases List.append_eq_cons_iff.mp hnames with ⟨rfl, _⟩ | ⟨ns', rfl, hrest⟩
    · exact ⟨here, hhere, .done⟩
    · obtain ⟨d, hd, hwalk⟩ := ih hhere slash' hrest.symm
      exact ⟨d, hd, .dot hwalk⟩
  | @dotDot _ here rest _ _ _ ih =>
    rcases List.append_eq_cons_iff.mp hnames with ⟨rfl, _⟩ | ⟨ns', rfl, hrest⟩
    · exact ⟨here, hhere, .done⟩
    · obtain ⟨d, hd, hwalk⟩ := ih (h.dropLast hhere) slash' hrest.symm
      exact ⟨d, hd, .dotDot hwalk⟩
  | @vacant _ here n _ _ _ =>
    rcases List.append_eq_cons_iff.mp hnames with ⟨rfl, _⟩ | ⟨ns', rfl, hrest⟩
    · exact ⟨here, hhere, .done⟩
    · obtain ⟨_, hnil⟩ := List.append_eq_nil_iff.mp hrest.symm
      exact absurd hnil hms
  | @directory _ here n rest _ _ _ hl hn _ ih =>
    rcases List.append_eq_cons_iff.mp hnames with ⟨rfl, _⟩ | ⟨ns', rfl, hrest⟩
    · exact ⟨here, hhere, .done⟩
    · obtain ⟨d, hd, hwalk⟩ := ih (isDirectoryAt_of_find? hn) slash' hrest.symm
      exact ⟨d, hd, .directory hl.follow hn hwalk⟩
  | @file _ here n _ _ _ _ _ _ =>
    rcases List.append_eq_cons_iff.mp hnames with ⟨rfl, _⟩ | ⟨ns', rfl, hrest⟩
    · exact ⟨here, hhere, .done⟩
    · obtain ⟨_, hnil⟩ := List.append_eq_nil_iff.mp hrest.symm
      exact absurd hnil hms
  | @keep _ here n _ _ _ _ _ =>
    rcases List.append_eq_cons_iff.mp hnames with ⟨rfl, _⟩ | ⟨ns', rfl, hrest⟩
    · exact ⟨here, hhere, .done⟩
    · obtain ⟨_, hnil⟩ := List.append_eq_nil_iff.mp hrest.symm
      exact absurd hnil hms
  | @link _ here n rest _ target _ hl hn _ _ ih =>
    rcases List.append_eq_cons_iff.mp hnames with ⟨rfl, _⟩ | ⟨ns', rfl, hrest⟩
    · exact ⟨here, hhere, .done⟩
    · have htarget : (target.names ++ ns') ++ ms = target.names ++ rest := by
        rw [hrest, List.append_assoc]
      obtain ⟨d, hd, hwalk⟩ := ih (isDirectoryAt_start hhere target)
        (slash' || (ns'.isEmpty && target.endsInSlash)) htarget
      exact ⟨d, hd, .link hl.follow hn nofun hwalk⟩

theorem Passable.of_prefix (h : Passable p) (hup : up <+: p) (hne : up ≠ []) : Passable up where
  no_zero := fun hmem => h.no_zero (hup.subset hmem)
  ne_nil := hne
  length_lt := Nat.lt_of_le_of_lt hup.length_le h.length_lt

theorem isDirectory_iff : fs.isDirectory p = true ↔
    ∃ d, fs.resolve .follow p = .ok (.found d) ∧ fs.isDirectoryAt d = true := by
  unfold isDirectory
  constructor
  · intro h
    split at h
    · rename_i d hd
      exact ⟨d, hd, h⟩
    · cases h
  · rintro ⟨d, hd, h⟩
    rw [hd]
    exact h

theorem isDirectory_of_liesIn (h : fs.WellFormed) (hp : Path.LiesIn p up)
    (hr : fs.resolve ending p = .ok spot) : fs.isDirectory up = true := by
  obtain ⟨hpassable, hwalk⟩ := resolve_eq_ok_iff.mp hr
  obtain ⟨ns, hns, hnames⟩ := hp.names_eq
  have hstart : start fs.working p = start fs.working up := by
    unfold start
    rw [hp.isAbsolute_eq]
  rw [hnames, hstart] at hwalk
  obtain ⟨d, hd, hup⟩ := hwalk.init h (isDirectoryAt_start h.2 up) hns up.endsInSlash
  have hresolve := resolve_eq_ok_iff.mpr ⟨hpassable.of_prefix hp.is_prefix hp.ne_nil, hup⟩
  exact isDirectory_iff.mpr ⟨d, hresolve, hd⟩

end Keyfile.FileSystem
