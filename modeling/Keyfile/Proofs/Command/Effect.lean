import Keyfile.Command.Generate
import Keyfile.Command.Load
import Keyfile.Proofs.Keypair.Store
import Keyfile.Proofs.Session

/-!
# What the commands do to the store

Showing a keypair leaves the store alone. Making one adds directories at most, or stores exactly the
bytes of the keypair whose seed the random source gives, at one path.
-/
namespace Keyfile

/-! ## Messages that record nothing -/

theorem Keypair.savedPaths_load (fs : FileSystem) (p : Path) :
    savedPaths (load fs p).messages = [] := by
  unfold load
  split
  · rfl
  · rfl
  · unfold ofText
    split <;> rfl

theorem Keypair.savedPaths_generate (source : Entropy) :
    savedPaths (generate source).messages = [] := by
  unfold generate
  split <;> rfl

namespace Action

theorem quiet_loadKeypair (p : Path) : Quiet (loadKeypair p) := by
  intro w
  rw [after, loadKeypair_run]
  exact quiet_ofLogged (Keypair.savedPaths_load _ _) w

theorem quiet_generateKeypair : Quiet generateKeypair := by
  intro w
  rw [after, generateKeypair_run]
  exact quiet_ofLogged (Keypair.savedPaths_generate _) w

/-- A new keypair belongs to the seed that the random source gives, and its public key is logged. -/
theorem generateKeypair_ok_iff {w w' : World} {k : Keypair} :
    generateKeypair.run w = .ok k w' ↔ ∃ s, w.entropy.seed? = .ok s ∧ k = .ofSeed s ∧
      w' = w.logged [.generated k.publicKey.text] := by
  rw [generateKeypair_run, ofLogged_ok_iff, Keypair.generate]
  cases w.entropy.seed? with
  | error reason =>
    constructor
    · rintro ⟨h, _⟩
      cases h
    · rintro ⟨_, h, _⟩
      cases h
  | ok s =>
    constructor
    · rintro ⟨h, hw⟩
      cases h
      exact ⟨s, rfl, rfl, hw⟩
    · rintro ⟨s', h, rfl, hw⟩
      cases h
      exact ⟨rfl, hw⟩

end Action

/-! ## Stores that change -/

/-- What became of the store: directories were added at most, or these bytes were stored at one
path. -/
inductive Effect (fs : FileSystem) (bytes? : Option Bytes) : FileSystem → List Path → Prop
  | adds {fs' : FileSystem} : fs.AddsDirectories fs' → Effect fs bytes? fs' []
  | stores {fs' mid : FileSystem} {b : Bytes} {p : Path} {f : JsonFormat} {l : Location} :
      bytes? = some b → Stored fs b p f mid l fs' → Effect fs bytes? fs' [p]

theorem save_effect (fs : FileSystem) (b : Bytes) (p : Path) (f : JsonFormat) :
    Effect fs (some b) (save fs b p f).1 (savedPaths (save fs b p f).2.messages) := by
  rcases save_cases fs b p f with ⟨_, hr, ha⟩ | ⟨_, _, hr, hs⟩
  · rw [hr]
    exact .adds ha.toAddsDirectories
  · rw [hr]
    exact .stores rfl hs

/-- The bytes of the keypair that a random source gives. -/
def Entropy.keypairBytes? (source : Entropy) : Option Bytes :=
  source.seed?.toOption.map fun s => (Keypair.ofSeed s).bytes

/-- What became of the store of a world that makes at most one keypair. -/
def StoreEffect (w w' : World) : Prop :=
  ∃ ps, w'.stored = w.stored ++ ps ∧ Effect w.files w.entropy.keypairBytes? w'.files ps

variable {w w' w'' : World}

theorem SameStore.effect (h : SameStore w w') : StoreEffect w w' := by
  refine ⟨[], ?_, ?_⟩
  · rw [h.stored_eq, List.append_nil]
  · rw [h.files_eq]
    exact .adds (.refl _)

theorem SameStore.trans_effect (h : SameStore w w') (h' : StoreEffect w' w'') :
    StoreEffect w w'' := by
  obtain ⟨ps, hs, he⟩ := h'
  rw [h.files_eq, h.entropy_eq] at he
  rw [h.stored_eq] at hs
  exact ⟨ps, hs, he⟩

theorem StoreEffect.trans_same (h : StoreEffect w w') (h' : SameStore w' w'') :
    StoreEffect w w'' := by
  obtain ⟨ps, hs, he⟩ := h
  rw [← h'.files_eq] at he
  exact ⟨ps, h'.stored_eq.trans hs, he⟩

namespace Action
variable {α β : Type} {a : Action α} {f : α → Action β}

/-- After an action that leaves the store alone, only what follows can matter. -/
theorem Quiet.bind_effect (ha : Quiet a)
    (hf : ∀ x w', a.run w = .ok x w' → StoreEffect w' ((f x).after w')) :
    StoreEffect w ((a >>= f).after w) := by
  rcases after_bind a f w with ⟨x, w₁, hx, h⟩ | h
  · rw [h]
    exact (ha.of_ok hx).trans_effect (hf x w₁ hx)
  · rw [h]
    exact (ha w).effect

/-- Before actions that leave the store alone, only what was done can matter. -/
theorem bind_effect (ha : StoreEffect w (a.after w)) (hf : ∀ x, Quiet (f x)) :
    StoreEffect w ((a >>= f).after w) := by
  rcases after_bind a f w with ⟨x, w₁, hx, h⟩ | h
  · rw [h]
    rw [after_of_ok hx] at ha
    exact ha.trans_same (hf x w₁)
  · rw [h]
    exact ha

theorem saveBytes_after (b : Bytes) (p : Path) (f : JsonFormat) (w : World) :
    (saveBytes b p f).after w =
      World.logged { w with files := (save w.files b p f).1 } (save w.files b p f).2.messages := by
  rw [after, saveBytes_run]
  exact ofLogged_after _ _

theorem saveBytes_effect {b : Bytes} (h : w.entropy.keypairBytes? = some b) (p : Path)
    (f : JsonFormat) : StoreEffect w ((saveBytes b p f).after w) := by
  rw [saveBytes_after]
  refine ⟨_, World.stored_logged _ _, ?_⟩
  rw [h]
  exact save_effect w.files b p f

end Action

/-! ## The commands -/

namespace Command
open Keyfile.Action

/-- What is shown before a keypair is read. -/
def loadBanner (p : Path) (output : OutputOptions) : List String :=
  if output.isJson then [] else ["=== Loading Keypair from File: " ++ p.display ++ " ===\n"]

/-- What is shown before a keypair is made. -/
def generateBanner (output : OutputOptions) : List String :=
  if output.isJson then [] else ["=== Creating New Keypair ===\n"]

/-- What is shown after a keypair has been stored. -/
def savedLines (k : Keypair) (p : Path) (output : OutputOptions) : List String :=
  (if output.isJson then [] else ["Keypair saved to: " ++ p.display ++ "\n"]) ++
    ({ Report.ofKeypair k with savedTo := some p.display }.document? output).toList

theorem load_eq (p : Path) (output : OutputOptions) : load p output = (do
    printAll (loadBanner p output)
    let k ← loadKeypair p
    printAll ((Report.ofKeypair k).lines output)
    printAll ((Report.ofKeypair k).document? output).toList) :=
  print_unless _ _ _

/-- What is done with a keypair once it has been shown. -/
def settle (k : Keypair) (config : Config) (output : OutputOptions) :
    Option Path → Action Unit
  | none => printAll ((Report.ofKeypair k).document? output).toList
  | some p => do
    saveBytes k.bytes p config.jsonFormat
    printAll (savedLines k p output)

theorem generate_eq (options : GenerateOptions) (config : Config) (output : OutputOptions) :
    generate options config output = (do
      printAll (generateBanner output)
      let k ← generateKeypair
      printAll ((Report.ofKeypair k).lines output)
      settle k config output (← destination options config)) := by
  refine (print_unless _ _ _).trans ?_
  refine bind_congr fun _ => bind_congr fun k => bind_congr fun _ => bind_congr fun d => ?_
  cases d with
  | none => rfl
  | some p => exact bind_congr fun _ => (print_unless _ _ _).trans (printAll_append _ _).symm

theorem quiet_load (p : Path) (output : OutputOptions) : Quiet (load p output) := by
  rw [load_eq]
  refine (quiet_printAll _).bind fun _ => ?_
  refine (quiet_loadKeypair p).bind fun _ => ?_
  refine (quiet_printAll _).bind fun _ => ?_
  exact quiet_printAll _

theorem quiet_askDestination (config : Config) : Quiet (askDestination config) := by
  unfold askDestination
  refine (quiet_print _).bind fun _ => ?_
  refine (quiet_print _).bind fun _ => ?_
  refine quiet_readAnswer.bind fun answer => ?_
  split
  · exact quiet_pure none
  · refine (quiet_print _).bind fun _ => ?_
    refine quiet_readAnswer.bind fun _ => ?_
    exact quiet_pure _

theorem quiet_destination (options : GenerateOptions) (config : Config) :
    Quiet (destination options config) := by
  unfold destination
  split
  · exact quiet_pure _
  · split
    · exact quiet_askDestination config
    · exact quiet_pure none

/-- Once a keypair has been shown, directories are added at most, or the keypair is stored. -/
theorem settle_effect {w : World} {k : Keypair} (h : w.entropy.keypairBytes? = some k.bytes)
    (config : Config) (output : OutputOptions) (d : Option Path) :
    StoreEffect w ((settle k config output d).after w) := by
  cases d with
  | none => exact (quiet_printAll _ w).effect
  | some p => exact bind_effect (saveBytes_effect h p _) fun _ => quiet_printAll _

theorem generate_effect (options : GenerateOptions) (config : Config) (output : OutputOptions)
    (w : World) : StoreEffect w ((generate options config output).after w) := by
  rw [generate_eq]
  refine (quiet_printAll _).bind_effect fun _ w₁ _ => ?_
  refine quiet_generateKeypair.bind_effect fun k w₂ hk => ?_
  obtain ⟨s, hs, rfl, _⟩ := generateKeypair_ok_iff.mp hk
  have h₂ : w₂.entropy.keypairBytes? = some (Keypair.ofSeed s).bytes := by
    rw [(quiet_generateKeypair.of_ok hk).entropy_eq, Entropy.keypairBytes?, hs]
    rfl
  refine (quiet_printAll _).bind_effect fun _ w₃ hw₃ => ?_
  have h₃ := (quiet_printAll _).of_ok hw₃
  refine (quiet_destination _ _).bind_effect fun d w₄ hw₄ => ?_
  have h₄ := (quiet_destination _ _).of_ok hw₄
  rw [← h₃.entropy_eq, ← h₄.entropy_eq] at h₂
  exact settle_effect h₂ config output d

end Command

end Keyfile
