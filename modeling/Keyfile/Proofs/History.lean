import Keyfile.Program
import Keyfile.Proofs.Command.Effect

/-!
# Whole histories

A history runs operations one after the other on the same file tree, each with input, random bytes
and room for output of its own. An operation adds directories at most, or stores bytes at one path;
so what has been stored stays what is loaded until something else is stored in the same file.
-/
namespace Keyfile
open FileSystem

namespace Config

theorem savedPaths_load (fs : FileSystem) (asked : Option Path) (env : Environment) :
    savedPaths (load fs asked env).messages = [] := by
  unfold load
  split
  · rfl
  · split
    · rfl
    · rfl
    · split <;> rfl

end Config

namespace Program
open Keyfile.Action

theorem quiet_settings (asked : Option Path) (env : Environment) : Quiet (settings asked env) := by
  intro w
  have hload := quiet_ofLogged (Config.savedPaths_load w.files asked env)
  refine (hload.bind fun loaded => ?_) w
  obtain ⟨_ | p, config⟩ := loaded
  · exact quiet_pure config
  · exact (quiet_log rfl).bind fun _ => quiet_pure config

theorem command_effect (a : Arguments) (env : Environment) (w : World) :
    StoreEffect w ((command a env).after w) := by
  unfold command
  dsimp only
  split
  · exact (Command.quiet_load _ _ w).effect
  · exact (quiet_settings _ _).bind_effect fun _ _ _ => Command.generate_effect _ _ _ _

theorem perform_world (action : Action Unit) (w : World) :
    (perform action w).world = action.after w := by
  unfold perform after
  cases action.run w <;> rfl

theorem inform_eq (text : String) (w : World) :
    inform text w = ⟨0, "", (print text).after w⟩ := by
  unfold inform after
  cases (print text).run w <;> rfl

theorem run_effect (args : List Bytes) (env : Environment) (w : World) :
    StoreEffect w (run args env w).world := by
  unfold run
  split
  · exact (SameStore.refl w).effect
  · rw [inform_eq]
    exact (quiet_print _ w).effect
  · rw [inform_eq]
    exact (quiet_print _ w).effect
  · rw [perform_world]
    exact command_effect _ env w

end Program

/-! ## Operations -/

/-- What an operation meets besides the files. -/
structure Console where
  input : Bytes := []
  entropy : Entropy := .ofBytes []
  room : Option Nat := none

def Console.world (c : Console) (fs : FileSystem) : World :=
  { files := fs, input := c.input, entropy := c.entropy, room := c.room }

inductive Operation where
  | save (b : Bytes) (p : Path) (f : JsonFormat)
  | load (p : Path)
  | settings (asked : Option Path) (env : Environment)
  | loadCommand (p : Path) (output : OutputOptions) (c : Console)
  | generateCommand (options : GenerateOptions) (config : Config) (output : OutputOptions)
      (c : Console)
  | program (args : List Bytes) (env : Environment) (c : Console)

namespace Operation

/-- The bytes that an operation stores, if it stores any. -/
def bytes? : Operation → Option Bytes
  | save b _ _ => some b
  | load _ | settings _ _ | loadCommand _ _ _ => none
  | generateCommand _ _ _ c | program _ _ c => c.entropy.keypairBytes?

/-- The tree after an operation, and the paths at which it stored its bytes. -/
def run (fs : FileSystem) : Operation → FileSystem × List Path
  | save b p f =>
    let (fs, saved) := Keyfile.save fs b p f
    (fs, savedPaths saved.messages)
  | load p => (fs, savedPaths (Keypair.load fs p).messages)
  | settings asked env => (fs, savedPaths (Config.load fs asked env).messages)
  | loadCommand p output c =>
    let w := (Command.load p output).after (c.world fs)
    (w.files, w.stored)
  | generateCommand options config output c =>
    let w := (Command.generate options config output).after (c.world fs)
    (w.files, w.stored)
  | program args env c =>
    let w := (Program.run args env (c.world fs)).world
    (w.files, w.stored)

/-- Every operation adds directories at most, or stores its bytes at one path. -/
theorem effect (op : Operation) (fs : FileSystem) :
    Effect fs op.bytes? (op.run fs).1 (op.run fs).2 := by
  have inWorld {c : Console} {w : World} (h : StoreEffect (c.world fs) w) :
      Effect fs c.entropy.keypairBytes? w.files w.stored := by
    obtain ⟨ps, hs, he⟩ := h
    rw [hs]
    exact he
  have nothing {ms : List Message} (h : savedPaths ms = []) :
      Effect fs none fs (savedPaths ms) := by
    rw [h]
    exact .adds (.refl fs)
  cases op with
  | save b p f => exact save_effect fs b p f
  | load p => exact nothing (Keypair.savedPaths_load fs p)
  | settings asked env => exact nothing (Config.savedPaths_load fs asked env)
  | loadCommand p output c =>
    have hw := Command.quiet_load p output (c.world fs)
    have hs : savedPaths ((Command.load p output).after (c.world fs)).messages = [] := hw.stored_eq
    change Effect fs none ((Command.load p output).after (c.world fs)).files _
    rw [hw.files_eq]
    exact nothing hs
  | generateCommand options config output c =>
    exact inWorld (Command.generate_effect options config output (c.world fs))
  | program args env c => exact inWorld (Program.run_effect args env (c.world fs))

/-- A save stores exactly when it succeeds. -/
theorem mem_run_save_iff {b : Bytes} {p : Path} {f : JsonFormat} {fs : FileSystem} :
    p ∈ ((save b p f).run fs).2 ↔ (Keyfile.save fs b p f).2.result = .ok () := by
  change p ∈ savedPaths (Keyfile.save fs b p f).2.messages ↔ _
  rcases save_cases fs b p f with ⟨_, hr, _⟩ | ⟨_, _, hr, _⟩
  · rw [hr]
    constructor <;> intro h <;> cases h
  · rw [hr]
    exact iff_of_true (List.mem_singleton_self p) rfl

/-- An operation without bytes stores nothing. -/
theorem stored_eq_nil {op : Operation} (h : op.bytes? = none) (fs : FileSystem) :
    (op.run fs).2 = [] := by
  have he := op.effect fs
  generalize op.run fs = r at he ⊢
  obtain ⟨fs', ps⟩ := r
  cases he with
  | adds => rfl
  | stores hb =>
    rw [h] at hb
    cases hb

end Operation

/-- The tree after a history. -/
def runAll (fs : FileSystem) (ops : List Operation) : FileSystem :=
  ops.foldl (fun s op => (op.run s).1) fs

/-- Whether a history stores nothing in the file to which a path leads. -/
def Untouched (p : Path) : FileSystem → List Operation → Prop
  | _, [] => True
  | fs, op :: ops =>
    (∀ q ∈ (op.run fs).2, (op.run fs).1.resolve .follow q ≠ (op.run fs).1.resolve .follow p) ∧
      Untouched p (op.run fs).1 ops

theorem untouched_cons {p : Path} {fs : FileSystem} {op : Operation} {ops : List Operation}
    (h : (op.run fs).2 = []) (hu : Untouched p (op.run fs).1 ops) :
    Untouched p fs (op :: ops) := by
  refine ⟨?_, hu⟩
  intro q hq
  rw [h] at hq
  cases hq

/-! ## What stays stored -/

/-- The path leads to a file that holds the bytes in one of the layouts. -/
structure Holds (fs : FileSystem) (b : Bytes) (p : Path) (f : JsonFormat) (l : Location) :
    Prop where
  leads : fs.resolve .follow p = .ok (.found l)
  content : fs.find? l = some (.file ownerOnly (Utf8.ofString (f.arrayText b)))

variable {fs fs' : FileSystem} {b : Bytes} {p : Path} {f : JsonFormat} {l : Location}

theorem Stored.holds {mid : FileSystem} (h : Stored fs b p f mid l fs') : Holds fs' b p f l :=
  ⟨resolve_follow_of_create h.leads, h.find?_eq⟩

/-- What is held stays held unless something is stored in the same file. -/
theorem Holds.step (h : Holds fs b p f l) {bytes? : Option Bytes} {ps : List Path}
    (he : Effect fs bytes? fs' ps)
    (hp : ∀ q ∈ ps, fs'.resolve .follow q ≠ fs'.resolve .follow p) : Holds fs' b p f l := by
  cases he with
  | adds ha => exact ⟨ha.grows.resolve_found h.leads, ha.keeps h.content⟩
  | @stores mid b' q f' k _ hs =>
    have hmid : Holds mid b p f l := ⟨hs.adds.grows.resolve_found h.leads, hs.adds.keeps h.content⟩
    have hleads := hs.grows_written.resolve_found hmid.leads
    -- both paths lead to their files in the tree afterwards, and not to the same one
    have hne : l ≠ k := by
      rintro rfl
      exact hp q (List.mem_singleton_self q) (hs.holds.leads.trans hleads.symm)
    refine ⟨hleads, ?_⟩
    rw [hs.eq_set, find?_set_of_ne _ _ hs.writable.ne_nil hne]
    exact hmid.content

theorem Holds.runAll {ops : List Operation} (h : Holds fs b p f l) (hu : Untouched p fs ops) :
    Holds (runAll fs ops) b p f l := by
  induction ops generalizing fs with
  | nil => exact h
  | cons op ops ih => exact ih (h.step (op.effect fs) hu.1) hu.2

/-- Whatever was stored at a path is what is loaded from it in the end, if nothing else has been
stored in the file to which the path leads. -/
theorem load_runAll (fs : FileSystem) (before after : List Operation) (op : Operation)
    (hb : op.bytes? = some b) (hp : p ∈ (op.run (runAll fs before)).2)
    (hu : Untouched p (op.run (runAll fs before)).1 after) :
    Keypair.load (runAll fs (before ++ op :: after)) p = Keypair.ofBytes b p.display := by
  have hafter : runAll fs (before ++ op :: after) =
      runAll (op.run (runAll fs before)).1 after := by
    rw [runAll, List.foldl_append, List.foldl_cons]
    rfl
  rw [hafter]
  generalize runAll fs before = mid at hp hu ⊢
  obtain ⟨f, l, h⟩ : ∃ f l, Holds (op.run mid).1 b p f l := by
    have he := op.effect mid
    generalize op.run mid = r at he hp ⊢
    obtain ⟨fs', ps⟩ := r
    cases he with
    | adds => cases hp
    | stores hb' hs =>
      rw [hb] at hb'
      cases hb'
      cases List.mem_singleton.mp hp
      exact ⟨_, _, hs.holds⟩
  have hend := h.runAll hu
  exact Keypair.load_eq_ofBytes hend.leads hend.content

/-- Bytes stored through a link outlive a save next to it, a failing save below it and a run of the
program without random bytes. -/
theorem load_runAll_link :
    Keypair.load
      (runAll Keypair.linkedTree
        ([.load [0x6B]] ++ .save [1, 2, 3] [0x6B] .pretty ::
          [.save [9] [0x78] .compact, .save [8] [0x6B, 0x2F, 0x78] .pretty,
            .program [] {} { entropy := .unavailable "none" }]))
      [0x6B] = ⟨[.loadedLength 3], .error (.invalidLength "k" 3)⟩ := by
  have hp : [0x6B] ∈ ((Operation.save [1, 2, 3] [0x6B] .pretty).run Keypair.linkedTree).2 := by
    have h : ((Operation.save [1, 2, 3] [0x6B] .pretty).run Keypair.linkedTree).2 = [[0x6B]] := by
      cbv
    rw [h]
    exact List.mem_singleton_self _
  rw [load_runAll Keypair.linkedTree [.load [0x6B]] _ _ rfl hp]
  · cbv
  · generalize hs : ((Operation.save [1, 2, 3] [0x6B] .pretty).run _).1 = stored
    have hbeside : ((Operation.save [9] [0x78] .compact).run stored).2 = [[0x78]] := by
      rw [← hs]
      cbv
    have hx : ((Operation.save [9] [0x78] .compact).run stored).1.resolve .follow [0x78] =
        .ok (.found [[0x78]]) := by
      rw [← hs]
      cbv
    have hk : ((Operation.save [9] [0x78] .compact).run stored).1.resolve .follow [0x6B] =
        .ok (.found [[0x64], [0x65]]) := by
      rw [← hs]
      cbv
    have hbelow : ((Operation.save [8] [0x6B, 0x2F, 0x78] .pretty).run
        ((Operation.save [9] [0x78] .compact).run stored).1).2 = [] := by
      rw [← hs]
      cbv
    have hrun (fs : FileSystem) : ((Operation.program [] {} { entropy := .unavailable "none" }).run
        fs).2 = [] := Operation.stored_eq_nil rfl fs
    refine ⟨?_, untouched_cons hbelow (untouched_cons (hrun _) trivial)⟩
    intro q hq h
    rw [hbeside, List.mem_singleton] at hq
    rw [hq, hx, hk] at h
    cases h

end Keyfile
