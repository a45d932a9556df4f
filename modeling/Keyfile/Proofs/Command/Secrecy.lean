import Keyfile.Proofs.Command.Choice
import Keyfile.Proofs.Keypair.Layouts
import Keyfile.Proofs.Keypair.SharedKey

/-!
# What becomes known of a secret

What is logged, what is shown of a keypair for diagnosis and why bytes are refused is up to its
public key: each is given here as a function of the public key and of what is no secret. So two
secrets that share a public key cannot be told apart by any of these.
-/
namespace Keyfile

/-! ## Bytes that start with a secret -/

namespace Keypair
variable {s : Seed}

/-- What is logged of bytes that start with a secret, and what is made of them. -/
theorem ofBytes_append (s : Seed) (tail : Bytes) (origin : String) :
    (ofBytes (s.bytes ++ tail) origin).messages = [.loadedLength (32 + tail.length)] ∧
      (ofBytes (s.bytes ++ tail) origin).result.map publicKey =
        (s.publicKey.verdict tail origin).map fun _ => s.publicKey := by
  rw [ofBytes, ofLayout_append]
  constructor
  · simp [s.length_eq]
  · cases s.publicKey.verdict tail origin <;> rfl

end Keypair

/-! ## Runs that make a keypair -/

namespace Command
open Keyfile.Action
variable {options : GenerateOptions} {config : Config} {output : OutputOptions} {w : World}
  {s : Seed} {k : Keypair}

/-- What is logged once it is settled where a keypair is to be stored, and how the run ends. -/
def settledTrace (config : Config) (files : FileSystem) :
    Option Path → List Message × Except Failure Unit
  | none => ([], .ok ())
  | some p =>
    let saved := (save files [] p config.jsonFormat).2
    (saved.messages, saved.result.mapError .keypair)

/-- What is logged in a run that makes a keypair with this public key, and how the run ends. -/
def generateTrace (key : PublicKey) (options : GenerateOptions) (config : Config)
    (files : FileSystem) (input : Bytes) : List Message × Except Failure Unit :=
  match (choice options config input).result with
  | .error e => ([.generated key.text], .error e)
  | .ok d =>
    let settled := settledTrace config files d
    (.generated key.text :: settled.1, settled.2)

theorem printAll_messages (h : w.room = none) (texts : List String) :
    (printAll texts).result w = .ok () ∧ ((printAll texts).after w).messages = w.messages := by
  obtain ⟨hr, ha⟩ := run_eq_ok_iff.mp (printAll_run h texts)
  rw [ha]
  exact ⟨hr, rfl⟩

/-- Neither the secret nor the report on the keypair shows in the trace. -/
theorem settle_trace (h : w.room = none) (d : Option Path) :
    (settle k config output d).result w = (settledTrace config w.files d).2 ∧
      ((settle k config output d).after w).messages =
        w.messages ++ (settledTrace config w.files d).1 := by
  cases d with
  | none =>
    rw [settledTrace, List.append_nil]
    exact printAll_messages h _
  | some p =>
    have hlogged := save_logged_eq w.files p k.bytes [] config.jsonFormat config.jsonFormat
    have hr := (saveBytes_saves k.bytes p config.jsonFormat w).1
    have ha := saveBytes_after k.bytes p config.jsonFormat w
    have hroom : ((saveBytes k.bytes p config.jsonFormat).after w).room = none := by
      rw [ha]
      exact h
    have hmessages : ((saveBytes k.bytes p config.jsonFormat).after w).messages =
        w.messages ++ (save w.files [] p config.jsonFormat).2.messages := by
      rw [ha, ← hlogged]
      rfl
    rw [hlogged] at hr
    unfold settle settledTrace
    dsimp only
    cases hsaved : (save w.files [] p config.jsonFormat).2.result with
    | error e =>
      rw [hsaved] at hr
      rw [result_bind_of_error hr, after_bind_of_error hr]
      exact ⟨rfl, hmessages⟩
    | ok _ =>
      rw [hsaved] at hr
      obtain ⟨hdone, hquiet⟩ := printAll_messages hroom (savedLines k p output)
      rw [result_bind_of_ok hr, after_bind_of_ok hr]
      exact ⟨hdone, hquiet.trans hmessages⟩

/-- With room for all output, a run that makes a keypair leaves the trace of its public key. -/
theorem generate_trace (h : w.room = none) (hs : w.entropy.seed? = .ok s) :
    (generate options config output).result w =
        (generateTrace s.publicKey options config w.files w.input).2 ∧
      ((generate options config output).after w).messages =
        w.messages ++ (generateTrace s.publicKey options config w.files w.input).1 := by
  obtain ⟨hr, hshows, hroom⟩ := @prepare_of_ok options config output w s h hs
  have hmade : (made w s output).room = none := World.room_printed h _
  have hmessages : ((prepare options config output).after w).messages =
      w.messages ++ [.generated s.publicKey.text] := by
    rw [(prepare_eq_destination h hs).2, (destination_follows options hmade).2.messages_eq]
    rfl
  rw [generate_eq_prepare]
  unfold generateTrace
  cases hc : (choice options config w.input).result with
  | error e =>
    rw [hc] at hr
    rw [result_bind_of_error hr, after_bind_of_error hr]
    exact ⟨rfl, hmessages⟩
  | ok d =>
    rw [hc] at hr
    obtain ⟨hdone, hsettled⟩ := @settle_trace config output _ (.ofSeed s) hroom d
    rw [hshows.files_eq] at hdone hsettled
    rw [result_bind_of_ok hr, after_bind_of_ok hr]
    refine ⟨hdone, hsettled.trans ?_⟩
    rw [hmessages, List.append_assoc]
    rfl

/-- What is seen of a run besides its output: how it ends and the messages logged so far. -/
def seen (options : GenerateOptions) (config : Config) (output : OutputOptions) (w : World) :
    Except Failure Unit × List Message :=
  ((generate options config output).result w, ((generate options config output).after w).messages)

theorem seen_eq (h : w.room = none) {source : Entropy} (hs : source.seed? = .ok s) :
    seen options config output { w with entropy := source } =
      let trace := generateTrace s.publicKey options config w.files w.input
      (trace.2, w.messages ++ trace.1) := by
  obtain ⟨hr, hm⟩ := @generate_trace options config output { w with entropy := source } s h hs
  rw [seen, hr, hm]

end Command

/-! ## Two secrets with one public key -/

/-- Nothing that is logged or shown for diagnosis, and no error, tells two secrets apart that share
a public key. -/
theorem not_told_apart {s₁ s₂ : Seed} (h : s₁.publicKey = s₂.publicKey) :
    (Keypair.ofSeed s₁).describe = (Keypair.ofSeed s₂).describe ∧
      (∀ e₁ e₂ : Entropy, e₁.seed? = .ok s₁ → e₂.seed? = .ok s₂ →
        (Keypair.generate e₁).messages = (Keypair.generate e₂).messages ∧
          ∀ options config output (w : World), w.room = none →
            Command.seen options config output { w with entropy := e₁ } =
              Command.seen options config output { w with entropy := e₂ }) ∧
      ∀ (tail : Bytes) (origin : String),
        (Keypair.ofBytes (s₁.bytes ++ tail) origin).messages =
            (Keypair.ofBytes (s₂.bytes ++ tail) origin).messages ∧
          (Keypair.ofBytes (s₁.bytes ++ tail) origin).result.map Keypair.publicKey =
            (Keypair.ofBytes (s₂.bytes ++ tail) origin).result.map Keypair.publicKey := by
  refine ⟨?_, ?_, ?_⟩
  · unfold Keypair.describe
    rw [Keypair.publicKey_ofSeed, Keypair.publicKey_ofSeed, h]
  · intro e₁ e₂ he₁ he₂
    refine ⟨?_, ?_⟩
    · rw [Keypair.generate_of_ok he₁, Keypair.generate_of_ok he₂, h]
    · intro options config output w hroom
      rw [Command.seen_eq hroom he₁, Command.seen_eq hroom he₂, h]
  · intro tail origin
    obtain ⟨hm₁, hr₁⟩ := Keypair.ofBytes_append s₁ tail origin
    obtain ⟨hm₂, hr₂⟩ := Keypair.ofBytes_append s₂ tail origin
    rw [hm₁, hm₂, hr₁, hr₂, h]
    exact ⟨rfl, rfl⟩

/-- There are two such secrets, and whoever makes keypairs of them in a tree with a link sees the
same. -/
theorem not_told_apart_shared : ∃ s₁ s₂ : Seed, s₁ ≠ s₂ ∧ s₁.publicKey = s₂.publicKey ∧
    (Keypair.ofSeed s₁).describe = (Keypair.ofSeed s₂).describe ∧
      Command.seen { save := some (some [0x6B]) } {} {}
          { files := Keypair.linkedTree, entropy := .ofBytes s₁.bytes } =
        Command.seen { save := some (some [0x6B]) } {} {}
          { files := Keypair.linkedTree, entropy := .ofBytes s₂.bytes } := by
  obtain ⟨s₁, s₂, hne, h⟩ := exists_shared_publicKey
  obtain ⟨hdescribe, hruns, _⟩ := not_told_apart h
  have hseen := (hruns _ _ (Entropy.seed?_ofBytes s₁) (Entropy.seed?_ofBytes s₂)).2
  exact ⟨s₁, s₂, hne, h, hdescribe, hseen _ _ _ { files := Keypair.linkedTree } rfl⟩

end Keyfile
