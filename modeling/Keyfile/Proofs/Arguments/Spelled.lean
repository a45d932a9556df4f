import Keyfile.Proofs.Arguments
import Mathlib

/-!
# What arguments spell

An argument is an option, the value of the option before it, or a keypair file. The pieces that
arguments spell make up a run if every switch may have the value that it has, none is spelled twice
and no two of them exclude each other.
-/
namespace Keyfile.Arguments

/-- A piece of a command line. -/
inductive Piece where
  | switch (s : Switch) (value : Option Path)
  /-- An option of a name that there is not. -/
  | unknown
  deriving DecidableEq

def Piece.of (g : Switch × Option Path) : Piece := .switch g.1 g.2

/-- The keypair file that a piece names. -/
def Piece.file? : Piece → Option Path
  | .switch .keypairFile value => value
  | _ => none

def filePiece (arg : Bytes) : Piece := .switch .keypairFile (some arg)

/-- The first letter behind a hyphen decides. -/
def lettersPiece (text : Bytes) : Piece :=
  if text.head? = some 0x68 then .switch .help none
  else if text.head? = some 0x56 then .switch .version none
  else .unknown

/-- An option that gets no value. -/
def leftOpen : Option Switch → List Piece
  | none => []
  | some s => [.switch s none]

/-- The pieces that arguments spell, behind an option that is still open for a value. -/
def piecesFrom (opened : Option Switch) : List Bytes → List Piece
  | [] => leftOpen opened
  | arg :: rest =>
    match Shape.of arg with
    | .separator => leftOpen opened ++ rest.map filePiece
    | .plain => .switch (opened.getD .keypairFile) (some arg) :: piecesFrom none rest
    | .short text => leftOpen opened ++ lettersPiece text :: piecesFrom none rest
    | .long name value =>
      leftOpen opened ++
        match switchNamed? name with
        | none => .unknown :: piecesFrom none rest
        | some s =>
          if s.takesValue ∧ value = none then piecesFrom (some s) rest
          else .switch s value :: piecesFrom none rest

/-- The pieces of a command line. -/
def pieces (args : List Bytes) : List Piece := piecesFrom none args

/-- The arguments that are neither options nor values of options. -/
def files (args : List Bytes) : List Path := (pieces args).filterMap Piece.file?

/-- The name behind an option that takes a value is its value, and the name behind that is a
file. -/
example : pieces (["--save", "a", "b"].map Utf8.ofString) =
    [.switch .save (some [0x61]), .switch .keypairFile (some [0x62])] := by cbv

/-! ## Switches that may be given -/

/-- Whether a switch may have this value: a file is never empty, and only `save` goes with or
without one. -/
def admits : Switch → Option Path → Bool
  | .keypairFile, some (_ :: _) | .config, some (_ :: _) | .save, some (_ :: _) => true
  | .save, none | .interactive, none | .json, none | .jsonCompact, none => true
  | _, _ => false

/-- Switches that may be given next to each other, as far as their values go. -/
structure Proper (given : List (Switch × Option Path)) : Prop where
  nodup : (given.map (·.1)).Nodup
  admitted : ∀ g ∈ given, admits g.1 g.2 = true

/-- Switches that make up a run. -/
structure Lawful (given : List (Switch × Option Path)) : Prop extends Proper given where
  compatible : ∀ s ∈ given.map (·.1), ∀ t ∈ given.map (·.1), t ∉ s.excludes

/-- These pieces ask for a run with these arguments. -/
def Amounts (ps : List Piece) (a : Arguments) : Prop :=
  ∃ given, ps = given.map Piece.of ∧ Lawful given ∧ a = ofGiven given

variable {given rest : List (Switch × Option Path)} {g : Switch × Option Path} {ps : List Piece}
  {a : Arguments} {s : Switch} {v : Option Path}

theorem Proper.of_append (h : Proper (given ++ rest)) : Proper given where
  nodup := by
    have hnodup := h.nodup
    rw [List.map_append, List.nodup_append] at hnodup
    exact hnodup.1
  admitted := by
    intro x hx
    exact h.admitted x (by simp [hx])

theorem proper_concat : Proper (given ++ [g]) ↔
    Proper given ∧ g.1 ∉ given.map (·.1) ∧ admits g.1 g.2 = true := by
  have hnodup : ((given ++ [g]).map (·.1)).Nodup ↔
      (given.map (·.1)).Nodup ∧ g.1 ∉ given.map (·.1) := by
    rw [List.map_append, List.map_singleton, List.nodup_append_comm, List.singleton_append,
      List.nodup_cons, and_comm]
  constructor
  · intro h
    exact ⟨h.of_append, (hnodup.mp h.nodup).2, h.admitted g (by simp)⟩
  · rintro ⟨hgiven, hnew, hg⟩
    refine ⟨hnodup.mpr ⟨hgiven.nodup, hnew⟩, ?_⟩
    intro x hx
    rcases List.mem_append.mp hx with hx | hx
    · exact hgiven.admitted x hx
    · rw [List.mem_singleton.mp hx]
      exact hg

theorem of_injective : Function.Injective Piece.of := by
  rintro ⟨s, v⟩ ⟨s', v'⟩ h
  cases h
  rfl

/-- What has been said must be proper if all of it is to amount to a run. -/
theorem Amounts.proper (h : Amounts (given.map Piece.of ++ ps) a) : Proper given := by
  obtain ⟨all, hall, hlawful, _⟩ := h
  obtain ⟨before, behind, rfl, hbefore, _⟩ := List.map_eq_append_iff.mp hall.symm
  have hsame : before = given := List.map_injective_iff.mpr of_injective hbefore
  rw [← hsame]
  exact hlawful.toProper.of_append

/-- The next piece must be proper too. -/
theorem Amounts.proper_next (h : Amounts (given.map Piece.of ++ .switch s v :: ps) a) :
    Proper (given ++ [(s, v)]) := by
  have hall : given.map Piece.of ++ .switch s v :: ps =
      (given ++ [(s, v)]).map Piece.of ++ ps := by
    simp [Piece.of]
  rw [hall] at h
  exact h.proper

theorem Amounts.new_file {arg : Bytes}
    (h : Amounts (given.map Piece.of ++ filePiece arg :: ps) a) :
    Switch.keypairFile ∉ given.map (·.1) ∧ Proper given := by
  obtain ⟨hgiven, hnew, _⟩ := proper_concat.mp h.proper_next
  exact ⟨hnew, hgiven⟩

/-- A piece that may not be said spoils all. -/
theorem not_amounts {x : Piece} {qs : List Piece}
    (hx : ∀ s v, x = .switch s v → admits s v = false) :
    ¬ Amounts (ps ++ x :: qs) a := by
  rintro ⟨all, hall, hlawful, _⟩
  have hmem : x ∈ all.map Piece.of := by
    rw [← hall]
    simp
  obtain ⟨⟨s, v⟩, hg, rfl⟩ := List.mem_map.mp hmem
  have hadmitted := hlawful.admitted _ hg
  rw [hx s v rfl] at hadmitted
  cases hadmitted

theorem not_amounts_switch {qs : List Piece} (h : admits s v = false) :
    ¬ Amounts (ps ++ .switch s v :: qs) a := by
  apply not_amounts
  rintro _ _ ⟨⟩
  exact h

theorem amounts_map_iff : Amounts (given.map Piece.of) a ↔ Lawful given ∧ a = ofGiven given := by
  constructor
  · rintro ⟨all, hall, hlawful, ha⟩
    have hsame : given = all := List.map_injective_iff.mpr of_injective hall
    rw [hsame]
    exact ⟨hlawful, ha⟩
  · rintro ⟨hlawful, ha⟩
    exact ⟨given, rfl, hlawful, ha⟩

end Keyfile.Arguments
