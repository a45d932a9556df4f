import Keyfile.Proofs.Arguments.Reading
import Keyfile.Proofs.Program.Run

/-!
# What arguments lead to

Arguments ask for a text to be shown, or they are refused, or they make up a run. Only in the last
case a command sees the world. The switches of a run go together, and what its command is told is
everything that the arguments spell.
-/
namespace Keyfile

namespace Arguments
variable {args : List Bytes} {a : Arguments} {given : List (Switch × Option Path)}

/-- The switches of these arguments go together. -/
structure Consistent (a : Arguments) : Prop where
  file_save : ¬ (a.keypairFile.isSome = true ∧ a.save.isSome = true)
  file_interactive : ¬ (a.keypairFile.isSome = true ∧ a.interactive = true)
  interactive_json : ¬ (a.interactive = true ∧ a.json = true)
  interactive_jsonCompact : ¬ (a.interactive = true ∧ a.jsonCompact = true)
  json_jsonCompact : ¬ (a.json = true ∧ a.jsonCompact = true)

theorem consistent_of_read (h : read args = .ok (.run a)) : a.Consistent := by
  have hno (s t : Switch) (hex : t ∈ s.excludes) : ¬ (a.uses s = true ∧ a.uses t = true) := by
    rintro ⟨hs, ht⟩
    exact not_excludes_of_uses h hs ht hex
  exact
    { file_save := hno .keypairFile .save (by decide)
      file_interactive := hno .keypairFile .interactive (by decide)
      interactive_json := hno .interactive .json (by decide)
      interactive_jsonCompact := hno .interactive .jsonCompact (by decide)
      json_jsonCompact := hno .json .jsonCompact (by decide) }

theorem files_of_not_mem (h : Switch.keypairFile ∉ given.map (·.1)) :
    (given.map Piece.of).filterMap Piece.file? = [] := by
  rw [List.filterMap_eq_nil_iff]
  intro piece hpiece
  obtain ⟨⟨s, v⟩, hg, rfl⟩ := List.mem_map.mp hpiece
  cases s with
  | keypairFile => exact (h (List.mem_map_of_mem hg)).elim
  | _ => rfl

/-- The one file that proper switches name is the file of the run. -/
theorem files_of_proper (h : Proper given) :
    (given.map Piece.of).filterMap Piece.file? = (ofGiven given).keypairFile.toList := by
  have hfile : (ofGiven given).keypairFile = (given.lookup .keypairFile).join := rfl
  rw [hfile]
  induction given with
  | nil => rfl
  | cons g rest ih =>
    obtain ⟨s, v⟩ := g
    have hnodup := h.nodup
    rw [List.map_cons, List.nodup_cons] at hnodup
    by_cases hs : s = .keypairFile
    · subst hs
      rw [List.map_cons, List.filterMap_cons, files_of_not_mem hnodup.1, List.lookup_cons_self]
      cases v <;> rfl
    · have hrest : Proper rest := ⟨hnodup.2, fun g hg => h.admitted g (List.mem_cons_of_mem _ hg)⟩
      have hskip : (Piece.of (s, v)).file? = none := by
        cases s <;> first | rfl | exact (hs rfl).elim
      have hne : (Switch.keypairFile == s) = false := beq_eq_false_iff_ne.mpr (Ne.symm hs)
      rw [List.map_cons, List.filterMap_cons, hskip, List.lookup_cons, hne]
      exact ih hrest rfl

/-- The arguments of a run spell its file and no other. -/
theorem files_of_read (h : read args = .ok (.run a)) : files args = a.keypairFile.toList := by
  obtain ⟨given, hgiven, hlawful, rfl⟩ := read_eq_run_iff.mp h
  unfold files
  rw [hgiven]
  exact files_of_proper hlawful.toProper

/-- Where a file is to be loaded, nothing in the arguments asks for a file to be saved. -/
theorem save_notMem_of_read (h : read args = .ok (.run a)) (hfile : a.keypairFile.isSome = true)
    (value : Option Path) : .switch .save value ∉ pieces args := by
  obtain ⟨given, hgiven, hlawful, rfl⟩ := read_eq_run_iff.mp h
  have hloads : Switch.keypairFile ∈ given.map (·.1) := mem_of_uses (s := .keypairFile) hfile
  intro hmem
  rw [hgiven] at hmem
  obtain ⟨⟨s, v⟩, hg, hpiece⟩ := List.mem_map.mp hmem
  cases hpiece
  have hsaves : Switch.save ∈ given.map (·.1) := List.mem_map_of_mem hg
  exact hlawful.compatible _ hloads _ hsaves (by decide)

end Arguments

/-- The world in which as much of these bytes has been written as there was room for. -/
def World.fitted (w : World) (b : Bytes) : World :=
  { w with
    output := w.output ++ (match w.room with
      | none => b
      | some n => b.take n)
    room := w.room.map (· - b.length) }

theorem Action.print_after (s : String) (w : World) :
    (print s).after w = w.fitted (Utf8.ofString s) := by
  obtain ⟨files, input, asked, output, room, entropy, messages⟩ := w
  unfold after
  rw [print_run]
  cases room with
  | none => rfl
  | some n =>
    dsimp only
    split_ifs with h
    · simp [World.fitted, Nat.sub_eq_zero_of_le (Nat.le_of_lt h)]
    · simp [World.fitted, World.printed, List.take_of_length_le (Nat.not_lt.mp h)]

theorem Misuse.message_ne_empty (m : Misuse) : m.message ≠ "" := by
  intro h
  have hlength := congrArg String.length h
  simp [message] at hlength

namespace Program
variable {args : List Bytes} {a : Arguments}

/-- A text is shown, and that is all. -/
def Informs (args : List Bytes) : Prop :=
  ∃ request text, Arguments.read args = .ok request ∧
    (request = .help ∧ text = helpText ∨ request = .version ∧ text = versionText) ∧
      ∀ env w, run args env w = ⟨0, "", w.fitted (Utf8.ofString text)⟩

/-- The arguments are refused, and that is all. -/
def Refuses (args : List Bytes) : Prop :=
  ∃ m, Arguments.read args = .error m ∧ m.message ≠ "" ∧ ∀ env w, run args env w = ⟨1, m.message, w⟩

/-- The command for these arguments runs; they go together, and they leave out nothing that would
matter. -/
structure Accepts (args : List Bytes) (a : Arguments) : Prop where
  read_eq : Arguments.read args = .ok (.run a)
  run_eq (env : Environment) (w : World) :
    run args env w = outcome ((command a env).result w) ((command a env).after w)
  consistent : a.Consistent
  files_eq : Arguments.files args = a.keypairFile.toList
  no_save : a.keypairFile.isSome = true →
    a.save = none ∧ ∀ value, .switch .save value ∉ Arguments.pieces args

theorem accepts_of_read (h : Arguments.read args = .ok (.run a)) : Accepts args a where
  read_eq := h
  run_eq env w := run_eq_outcome env w h
  consistent := Arguments.consistent_of_read h
  files_eq := Arguments.files_of_read h
  no_save := by
    intro hfile
    have hsave := (Arguments.consistent_of_read h).file_save
    refine ⟨?_, Arguments.save_notMem_of_read h hfile⟩
    cases hasked : a.save with
    | none => rfl
    | some _ => exact (hsave ⟨hfile, by rw [hasked]; rfl⟩).elim

theorem cases_of_read (args : List Bytes) :
    Informs args ∨ Refuses args ∨ ∃ a, Accepts args a := by
  have hinform (text : String) (w : World) :
      inform text w = ⟨0, "", w.fitted (Utf8.ofString text)⟩ := by
    rw [inform_eq, Action.print_after]
  cases hread : Arguments.read args with
  | error m =>
    refine .inr (.inl ⟨m, hread, m.message_ne_empty, ?_⟩)
    intro env w
    unfold run
    rw [hread]
  | ok request =>
    cases request with
    | help =>
      refine .inl ⟨.help, helpText, hread, .inl ⟨rfl, rfl⟩, ?_⟩
      intro env w
      unfold run
      rw [hread]
      exact hinform helpText w
    | version =>
      refine .inl ⟨.version, versionText, hread, .inr ⟨rfl, rfl⟩, ?_⟩
      intro env w
      unfold run
      rw [hread]
      exact hinform versionText w
    | run a => exact .inr (.inr ⟨a, accepts_of_read hread⟩)

/-- What a run shows is up to the arguments alone, apart from the room that is left for output, and
the files stay as they are. -/
structure Unconcerned (args : List Bytes) : Prop where
  files_eq (env : Environment) (w : World) : (run args env w).world.files = w.files
  shown_eq {env env' : Environment} {w w' : World} : w.output = w'.output → w.room = w'.room →
    (run args env w).exitCode = (run args env' w').exitCode ∧
      (run args env w).errorText = (run args env' w').errorText ∧
      (run args env w).world.output = (run args env' w').world.output

theorem unconcerned_of_informs (h : Informs args) : Unconcerned args := by
  obtain ⟨_, text, _, _, hrun⟩ := h
  refine ⟨?_, ?_⟩
  · intro env w
    rw [hrun]
    rfl
  · intro env env' w w' houtput hroom
    rw [hrun, hrun]
    refine ⟨rfl, rfl, ?_⟩
    dsimp only [World.fitted]
    rw [houtput, hroom]

theorem unconcerned_of_refuses (h : Refuses args) : Unconcerned args := by
  obtain ⟨m, _, _, hrun⟩ := h
  refine ⟨?_, ?_⟩
  · intro env w
    rw [hrun]
  · intro env env' w w' houtput _
    rw [hrun, hrun]
    exact ⟨rfl, rfl, houtput⟩

/-- Arguments ask for a text, or are refused, or make up a run, and never two of these. Only a run
depends on the world or changes files, and no arguments with two files make one up. -/
theorem gate (args : List Bytes) :
    (Informs args ∨ Refuses args ∨ ∃ a, Accepts args a) ∧
      ¬ (Informs args ∧ Refuses args) ∧
      (∀ a, Accepts args a → ¬ Informs args ∧ ¬ Refuses args) ∧
      (Informs args ∨ Refuses args → Unconcerned args) ∧
      (2 ≤ (Arguments.files args).length → ∀ a, ¬ Accepts args a) := by
  refine ⟨cases_of_read args, ?_, ?_, ?_, ?_⟩
  · rintro ⟨⟨_, _, hok, _⟩, m, herror, _⟩
    rw [hok] at herror
    cases herror
  · intro a ha
    constructor
    · rintro ⟨_, _, hok, hrequest, _⟩
      rw [ha.read_eq] at hok
      cases hok
      rcases hrequest with ⟨h, _⟩ | ⟨h, _⟩ <;> cases h
    · rintro ⟨m, herror, _⟩
      rw [ha.read_eq] at herror
      cases herror
  · rintro (h | h)
    · exact unconcerned_of_informs h
    · exact unconcerned_of_refuses h
  · intro htwo a ha
    have hlength := congrArg List.length ha.files_eq
    have hone : a.keypairFile.toList.length ≤ 1 := by
      cases a.keypairFile <;> simp
    omega

end Program

end Keyfile
