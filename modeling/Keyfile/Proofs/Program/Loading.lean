import Keyfile.Proofs.Program.Run

/-!
# What a run that loads a keypair depends on

A run with a keypair file shows what can be read from that file. Its settings, the input, the random
source and all other files make no difference to it, and it changes no file.
-/
namespace Keyfile
open Keyfile.Action

/-- Two worlds in which the same can be read from one file, and in which as much has been written
and logged. -/
structure Alike (p : Path) (w₁ w₂ : World) : Prop where
  content_eq : w₁.files.readFile p = w₂.files.readFile p
  output_eq : w₁.output = w₂.output
  room_eq : w₁.room = w₂.room
  messages_eq : w₁.messages = w₂.messages

/-- An action that ends alike in worlds that are alike. -/
def Indifferent {α : Type} (p : Path) (a : Action α) : Prop :=
  ∀ w₁ w₂, Alike p w₁ w₂ → a.result w₁ = a.result w₂ ∧ Alike p (a.after w₁) (a.after w₂)

variable {α β : Type} {a : Action α} {f : α → Action β} {p : Path} {w₁ w₂ : World}

theorem Alike.printed (h : Alike p w₁ w₂) (b : Bytes) :
    Alike p (w₁.printed b) (w₂.printed b) where
  content_eq := h.content_eq
  output_eq := congrArg (· ++ b) h.output_eq
  room_eq := congrArg (Option.map (· - b.length)) h.room_eq
  messages_eq := h.messages_eq

theorem Alike.logged (h : Alike p w₁ w₂) (ms : List Message) :
    Alike p (w₁.logged ms) (w₂.logged ms) where
  content_eq := h.content_eq
  output_eq := h.output_eq
  room_eq := h.room_eq
  messages_eq := congrArg (· ++ ms) h.messages_eq

/-- Loading looks at nothing but the content of its file. -/
theorem Alike.load_eq (h : Alike p w₁ w₂) :
    Keypair.load w₁.files p = Keypair.load w₂.files p := by
  have htext : w₁.files.readText p = w₂.files.readText p := by
    unfold FileSystem.readText
    rw [h.content_eq]
  unfold Keypair.load
  rw [htext]

/-! ## Actions to which nothing else matters -/

theorem indifferent_pure (x : α) : Indifferent p (pure x : Action α) :=
  fun _ _ h => ⟨rfl, h⟩

theorem Indifferent.bind (ha : Indifferent p a) (hf : ∀ x, Indifferent p (f x)) :
    Indifferent p (a >>= f) := by
  intro w₁ w₂ h
  obtain ⟨hr, hafter⟩ := ha w₁ w₂ h
  cases hx : a.result w₂ with
  | error e =>
    have hx₁ := hr.trans hx
    rw [result_bind_of_error hx₁, result_bind_of_error hx, after_bind_of_error hx₁,
      after_bind_of_error hx]
    exact ⟨rfl, hafter⟩
  | ok x =>
    have hx₁ := hr.trans hx
    rw [result_bind_of_ok hx₁, result_bind_of_ok hx, after_bind_of_ok hx₁, after_bind_of_ok hx]
    exact hf x _ _ hafter

theorem indifferent_print (s : String) : Indifferent p (print s) := by
  intro w₁ w₂ h
  unfold result after
  rw [print_run, print_run, h.room_eq]
  cases w₂.room with
  | none => exact ⟨rfl, h.printed _⟩
  | some n =>
    dsimp only
    -- alike worlds have the same room, so their output closes in the same place or in neither
    split_ifs
    · exact ⟨rfl, h.content_eq, congrArg (· ++ _) h.output_eq, rfl, h.messages_eq⟩
    · exact ⟨rfl, h.printed _⟩

theorem indifferent_printAll (texts : List String) : Indifferent p (printAll texts) := by
  induction texts with
  | nil => exact indifferent_pure ()
  | cons s texts ih => exact (indifferent_print s).bind fun _ => ih

theorem indifferent_loadKeypair (p : Path) : Indifferent p (loadKeypair p) := by
  intro w₁ w₂ h
  obtain ⟨hr₁, ha₁⟩ := loadKeypair_ends p w₁
  obtain ⟨hr₂, ha₂⟩ := loadKeypair_ends p w₂
  rw [hr₁, hr₂, ha₁, ha₂, h.load_eq]
  exact ⟨rfl, h.logged _⟩

theorem indifferent_load (p : Path) (output : OutputOptions) :
    Indifferent p (Command.load p output) := by
  rw [Command.load_eq]
  refine (indifferent_printAll _).bind fun _ => ?_
  refine (indifferent_loadKeypair p).bind fun _ => ?_
  exact (indifferent_printAll _).bind fun _ => indifferent_printAll _

namespace Program
variable {args₁ args₂ : List Bytes} {a₁ a₂ : Arguments}

/-- Two runs that load the same file with the same output options end with the same code and write
the same texts if the same can be read from the file, whatever settings are named, and whatever
else the environment, the input, the random source and the files hold. Neither changes a file. -/
theorem load_depends (env₁ env₂ : Environment) (hread₁ : Arguments.read args₁ = .ok (.run a₁))
    (hread₂ : Arguments.read args₂ = .ok (.run a₂)) (hfile₁ : a₁.keypairFile = some p)
    (hfile₂ : a₂.keypairFile = some p) (hjson : a₁.json = a₂.json)
    (hcompact : a₁.jsonCompact = a₂.jsonCompact) (h : Alike p w₁ w₂) :
    (run args₁ env₁ w₁).exitCode = (run args₂ env₂ w₂).exitCode ∧
      (run args₁ env₁ w₁).errorText = (run args₂ env₂ w₂).errorText ∧
      (run args₁ env₁ w₁).world.output = (run args₂ env₂ w₂).world.output ∧
      (run args₁ env₁ w₁).world.messages = (run args₂ env₂ w₂).world.messages ∧
      (run args₁ env₁ w₁).world.files = w₁.files ∧
      (run args₂ env₂ w₂).world.files = w₂.files := by
  have houtput : a₁.output = a₂.output := by
    unfold Arguments.output
    rw [hjson, hcompact]
  obtain ⟨hr, halike⟩ := indifferent_load p a₂.output w₁ w₂ h
  have hquiet (w : World) := (Command.quiet_load p a₂.output w).files_eq
  rw [run_eq_outcome env₁ w₁ hread₁, run_eq_outcome env₂ w₂ hread₂, command_of_file hfile₁,
    command_of_file hfile₂, houtput, hr]
  simp only [world_outcome]
  refine ⟨?_, ?_, halike.output_eq, halike.messages_eq, hquiet w₁, hquiet w₂⟩
  · cases (Command.load p a₂.output).result w₂ <;> rfl
  · cases (Command.load p a₂.output).result w₂ <;> rfl

/-- A tree in which one byte is stored in `k`. -/
def byteTree : FileSystem where
  entries := [([[0x6B]], .file 0o600 (Utf8.ofString (JsonFormat.compact.arrayText [7])))]
  working := []

/-- The same content in a file of another mode, next to a directory `c`. -/
def besideTree : FileSystem where
  entries := [([[0x63]], .directory 0o755),
    ([[0x6B]], .file 0o644 (Utf8.ofString (JsonFormat.compact.arrayText [7])))]
  working := []

/-- Settings that cannot be read, and a source without random bytes, do not matter to a run that
loads a file of one byte. -/
theorem load_depends_settings :
    let plain := run [Utf8.ofString "k", Utf8.ofString "--json"] {} { files := byteTree }
    let loaded := run [Utf8.ofString "--config=c", Utf8.ofString "--json", Utf8.ofString "k"]
      { home := some [0x2F] }
      { files := besideTree, input := [0x79], entropy := .unavailable "none" }
    plain.exitCode = 1 ∧ loaded.exitCode = 1 ∧ loaded.errorText = plain.errorText ∧
      loaded.world.output = plain.world.output ∧ loaded.world.files = besideTree := by
  have hread₁ : Arguments.read [Utf8.ofString "k", Utf8.ofString "--json"] =
      .ok (.run { keypairFile := some [0x6B], json := true }) := by cbv
  have hread₂ : Arguments.read
      [Utf8.ofString "--config=c", Utf8.ofString "--json", Utf8.ofString "k"] =
      .ok (.run { keypairFile := some [0x6B], json := true, config := some [0x63] }) := by cbv
  have hleads : byteTree.resolve .follow [0x6B] = .ok (.found [[0x6B]]) := by cbv
  have hload : Keypair.load byteTree [0x6B] = Keypair.ofBytes [7] (Path.display [0x6B]) :=
    Keypair.load_eq_ofBytes hleads rfl
  have hplain := (@Command.load_ends { files := byteTree } [0x6B] { json := true } rfl).1
  rw [hload] at hplain
  have hcontent : byteTree.readFile [0x6B] = besideTree.readFile [0x6B] := by cbv
  have hcode : (run [Utf8.ofString "k", Utf8.ofString "--json"] {}
      { files := byteTree }).exitCode = 1 := by
    rw [run_eq_outcome {} { files := byteTree } hread₁, command_of_file rfl]
    unfold Arguments.output
    rw [hplain]
    rfl
  have halike : Alike [0x6B] { files := byteTree }
      { files := besideTree, input := [0x79], entropy := .unavailable "none" } :=
    ⟨hcontent, rfl, rfl, rfl⟩
  obtain ⟨hexit, herror, houtput, _, _, hfiles⟩ :=
    load_depends {} { home := some [0x2F] } hread₁ hread₂ rfl rfl rfl rfl halike
  exact ⟨hcode, hexit.symm.trans hcode, herror.symm, houtput.symm, hfiles⟩

end Program

end Keyfile
