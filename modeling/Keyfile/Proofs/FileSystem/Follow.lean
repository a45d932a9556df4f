import Keyfile.Proofs.FileSystem.WellFormed
import Mathlib.Logic.Relation

/-!
# Following a path name by name

A walk for reading is a run of steps, each of which takes one name from the place reached so far. A
run comes to an end where no name can be taken any more: at a place that holds something, at a name
that is missing, or at one that is in the way. Every run ends, and how it ends is the result of the
walk.
-/
namespace Keyfile.FileSystem

/-- What is left to follow, and from where. -/
structure Position where
  /-- How many more links may be followed. -/
  links : Nat
  here : Location
  names : List Name
  /-- Whether a slash comes behind the last name. -/
  slash : Bool

variable {fs : FileSystem} {s t : Position} {l : Location} {p : Path} {e : AccessError}

/-- One name is taken. -/
inductive Step (fs : FileSystem) : Position → Position → Prop
  | dot {links : Nat} {here : Location} {rest : List Name} {slash : Bool} :
      Step fs ⟨links, here, Path.dot :: rest, slash⟩ ⟨links, here, rest, slash⟩
  | dotDot {links : Nat} {here : Location} {rest : List Name} {slash : Bool} :
      Step fs ⟨links, here, Path.dotDot :: rest, slash⟩ ⟨links, here.dropLast, rest, slash⟩
  | directory {links : Nat} {here : Location} {n : Name} {rest : List Name} {slash : Bool}
      {mode : Nat} :
      LooksUp .follow n rest slash → fs.find? (here ++ [n]) = some (.directory mode) →
      Step fs ⟨links, here, n :: rest, slash⟩ ⟨links, here ++ [n], rest, slash⟩
  | link {links : Nat} {here : Location} {n : Name} {rest : List Name} {slash : Bool}
      {target : Path} :
      LooksUp .follow n rest slash → fs.find? (here ++ [n]) = some (.link target) →
      Step fs ⟨links + 1, here, n :: rest, slash⟩
        ⟨links, start here target, target.names ++ rest,
          slash || (rest.isEmpty && target.endsInSlash)⟩

/-- All names are taken, or the last one is that of a file. -/
inductive Arrives (fs : FileSystem) : Position → Location → Prop
  | place {links : Nat} {here : Location} {slash : Bool} : Arrives fs ⟨links, here, [], slash⟩ here
  | file {links : Nat} {here : Location} {n : Name} {mode : Nat} {content : Bytes} :
      LooksUp .follow n [] false → fs.find? (here ++ [n]) = some (.file mode content) →
      Arrives fs ⟨links, here, [n], false⟩ (here ++ [n])

/-- The next name is not there. -/
inductive Missing (fs : FileSystem) : Position → Prop
  | intro {links : Nat} {here : Location} {n : Name} {rest : List Name} {slash : Bool} :
      LooksUp .follow n rest slash → fs.find? (here ++ [n]) = none →
      Missing fs ⟨links, here, n :: rest, slash⟩

/-- The next name cannot be taken for another reason than that it is missing. -/
inductive Blocked (fs : FileSystem) : Position → AccessError → Prop
  | nameTooLong {links : Nat} {here : Location} {n : Name} {rest : List Name} {slash : Bool} :
      255 < n.length → Blocked fs ⟨links, here, n :: rest, slash⟩ .nameTooLong
  | notDirectory {links : Nat} {here : Location} {n : Name} {rest : List Name} {slash : Bool}
      {mode : Nat} {content : Bytes} :
      LooksUp .follow n rest slash → fs.find? (here ++ [n]) = some (.file mode content) →
      (rest ≠ [] ∨ slash = true) → Blocked fs ⟨links, here, n :: rest, slash⟩ .notDirectory
  | tooManyLinks {here : Location} {n : Name} {rest : List Name} {slash : Bool} {target : Path} :
      LooksUp .follow n rest slash → fs.find? (here ++ [n]) = some (.link target) →
      Blocked fs ⟨0, here, n :: rest, slash⟩ .tooManyLinks

/-! ## Steps and walks -/

/-- The result of the walk that goes on from a position. -/
def Position.walk (fs : FileSystem) (s : Position) : Except AccessError Spot :=
  fs.walk .follow s.links s.here s.names s.slash

theorem Step.walk_eq (h : Step fs s t) : s.walk fs = t.walk fs := by
  cases h with
  | dot => rw [Position.walk, FileSystem.walk, if_pos rfl, Position.walk]
  | dotDot => rw [Position.walk, FileSystem.walk, if_neg (by decide), if_pos rfl, Position.walk]
  | directory hl hn =>
    rw [Position.walk, hl.walk_eq, hn]
    rfl
  | link hl hn =>
    rw [Position.walk, hl.walk_eq, hn]
    exact if_neg fun h => absurd h.2 (by decide)

/-- The result is the same all along a run. -/
theorem walk_eq_of_run (h : Relation.ReflTransGen (Step fs) s t) : s.walk fs = t.walk fs := by
  induction h with
  | refl => rfl
  | tail _ hstep ih => exact ih.trans hstep.walk_eq

theorem Arrives.walk_eq (h : Arrives fs s l) : s.walk fs = .ok (.found l) := by
  cases h with
  | place => rw [Position.walk, FileSystem.walk]
  | file hl hn =>
    rw [Position.walk, hl.walk_eq, hn]
    exact if_pos ⟨rfl, .inl rfl⟩

theorem Missing.walk_eq (h : Missing fs s) :
    s.walk fs = .error .notFound ∨ ∃ l n, s.walk fs = .ok (.vacant l n) := by
  cases h with
  | @intro _ here n rest _ hl hn =>
    rw [Position.walk, hl.walk_eq, hn]
    by_cases hrest : rest = []
    · exact .inr ⟨here, n, if_pos hrest⟩
    · exact .inl (if_neg hrest)

theorem Blocked.walk_eq (h : Blocked fs s e) : s.walk fs = .error e := by
  cases h with
  | @nameTooLong _ _ n _ _ hlen =>
    have hdot : n ≠ Path.dot := by
      rintro rfl
      exact absurd hlen (by decide)
    have hdotDot : n ≠ Path.dotDot := by
      rintro rfl
      exact absurd hlen (by decide)
    rw [Position.walk, FileSystem.walk, if_neg hdot, if_neg hdotDot,
      if_neg fun h => absurd h.2.2 (by decide), if_pos hlen]
  | notDirectory hl hn hmore =>
    rw [Position.walk, hl.walk_eq, hn]
    refine if_neg ?_
    rintro ⟨hrest, hslash | hkeep⟩
    · rcases hmore with hmore | hmore
      · exact hmore hrest
      · rw [hmore] at hslash
        cases hslash
    · cases hkeep
  | tooManyLinks hl hn =>
    rw [Position.walk, hl.walk_eq, hn]
    exact if_neg fun h => absurd h.2 (by decide)

/-! ## Every run ends -/

/-- How a run can end. -/
def Ended (fs : FileSystem) (s : Position) : Prop :=
  (∃ l, Arrives fs s l) ∨ Missing fs s ∨ ∃ e, Blocked fs s e

/-- Unless the run is at its end, one name more is taken. -/
theorem step_or_ended (fs : FileSystem) (s : Position) : (∃ t, Step fs s t) ∨ Ended fs s := by
  obtain ⟨links, here, names, slash⟩ := s
  cases names with
  | nil => exact .inr (.inl ⟨here, .place⟩)
  | cons n rest =>
    by_cases hdot : n = Path.dot
    · rw [hdot]
      exact .inl ⟨_, .dot⟩
    by_cases hdotDot : n = Path.dotDot
    · rw [hdotDot]
      exact .inl ⟨_, .dotDot⟩
    by_cases hlen : 255 < n.length
    · exact .inr (.inr (.inr ⟨_, .nameTooLong hlen⟩))
    have hl : LooksUp .follow n rest slash :=
      ⟨hdot, hdotDot, fun h => absurd h.2.2 (by decide), Nat.not_lt.mp hlen⟩
    cases hn : fs.find? (here ++ [n]) with
    | none => exact .inr (.inr (.inl ⟨hl, hn⟩))
    | some entry =>
      cases entry with
      | directory mode => exact .inl ⟨_, .directory hl hn⟩
      | file mode content =>
        by_cases hmore : rest ≠ [] ∨ slash = true
        · exact .inr (.inr (.inr ⟨_, .notDirectory hl hn hmore⟩))
        · rw [not_or, not_not, Bool.not_eq_true] at hmore
          obtain ⟨rfl, rfl⟩ := hmore
          exact .inr (.inl ⟨_, .file hl hn⟩)
      | link target =>
        cases links with
        | zero => exact .inr (.inr (.inr ⟨_, .tooManyLinks hl hn⟩))
        | succ links => exact .inl ⟨_, .link hl hn⟩

theorem exists_ended (fs : FileSystem) (s : Position) :
    ∃ t, Relation.ReflTransGen (Step fs) s t ∧ Ended fs t := by
  rcases step_or_ended fs s with ⟨t, hstep⟩ | hend
  · obtain ⟨u, hrun, hend⟩ := exists_ended fs t
    exact ⟨u, .head hstep hrun, hend⟩
  · exact ⟨s, .refl, hend⟩
termination_by (s.links, s.names.length)
decreasing_by
  -- a link uses up one of those that may be followed, every other step a name
  cases hstep with
  | link => exact .left _ _ (Nat.lt_succ_self _)
  | _ => exact .right _ (Nat.lt_succ_self _)

/-! ## Paths -/

/-- A run along a path gets to a position. -/
def Reaches (fs : FileSystem) (p : Path) (s : Position) : Prop :=
  Relation.ReflTransGen (Step fs) ⟨linkLimit, start fs.working p, p.names, p.endsInSlash⟩ s

/-- A path leads to a place, whatever it holds. -/
def LeadsTo (fs : FileSystem) (p : Path) (l : Location) : Prop :=
  Passable p ∧ ∃ s, Reaches fs p s ∧ Arrives fs s l

theorem Reaches.resolve_eq (h : Reaches fs p s) (hp : Passable p) :
    fs.resolve .follow p = s.walk fs := by
  rw [← walk_eq_of_run h, hp.resolve_eq]
  rfl

theorem LeadsTo.resolve_eq (h : LeadsTo fs p l) : fs.resolve .follow p = .ok (.found l) := by
  obtain ⟨hp, s, hs, hl⟩ := h
  rw [hs.resolve_eq hp, hl.walk_eq]

/-! ## Well-formed trees -/

theorem Step.isDirectoryAt (hfs : fs.WellFormed) (h : Step fs s t)
    (hs : fs.isDirectoryAt s.here = true) : fs.isDirectoryAt t.here = true := by
  cases h with
  | dot => exact hs
  | dotDot => exact hfs.dropLast hs
  | directory _ hn => exact isDirectoryAt_of_find? hn
  | link => exact isDirectoryAt_start hs _

/-- A run through a well-formed tree stays in directories. -/
theorem Reaches.isDirectoryAt (hfs : fs.WellFormed) (h : Reaches fs p s) :
    fs.isDirectoryAt s.here = true := by
  induction h with
  | refl => exact isDirectoryAt_start hfs.2 p
  | tail _ hstep ih => exact hstep.isDirectoryAt hfs ih

/-- So it arrives at a directory or a file. -/
theorem LeadsTo.find?_eq (hfs : fs.WellFormed) (h : LeadsTo fs p l) :
    (∃ mode, fs.find? l = some (.directory mode)) ∨
      ∃ mode content, fs.find? l = some (.file mode content) := by
  obtain ⟨_, s, hs, hl⟩ := h
  cases hl with
  | place => exact .inl (isDirectoryAt_iff.mp (hs.isDirectoryAt hfs))
  | file _ hn => exact .inr ⟨_, _, hn⟩

end Keyfile.FileSystem
