import Keyfile.Proofs.Program.Run

/-!
# What the exit code tells about the files

A run that fails has stored nothing: it has added directories on the way to the chosen destination
at most. A run that succeeds has stored its keypair where it was to be stored.
-/
namespace Keyfile
open FileSystem

namespace Command
variable {options : GenerateOptions} {config : Config} {output : OutputOptions} {w w' : World}

/-- A run that makes a keypair and succeeds has stored it where it was to be stored. -/
theorem Ends.of_ok {p : Path} (h : Ends options config output w (.ok ()) w')
    (hp : (choice options config w.input).result = .ok (some p)) :
    ∃ s l, w.entropy.seed? = .ok s ∧
      save w.files (Keypair.ofSeed s).bytes p config.jsonFormat =
        (w'.files, ⟨[.saved p], .ok ()⟩) ∧
      w'.stored = w.stored ++ [p] ∧
      Holds w'.files (Keypair.ofSeed s).bytes p config.jsonFormat l := by
  cases h with
  | shown _ hc _ =>
    rw [hc] at hp
    cases hp
  | @stored s q _ hs hc hsave hsaves =>
    rw [hc] at hp
    cases hp
    rcases save_cases w.files (Keypair.ofSeed s).bytes p config.jsonFormat with
      ⟨_, hr, _⟩ | ⟨_, l, hr, hstored⟩
    · rw [hr] at hsave
      cases hsave
    · have hrecord := hsaves.stored_eq
      rw [hr] at hrecord
      rw [← hsaves.files_eq] at hstored
      refine ⟨s, l, hs, ?_, hrecord, hstored.holds⟩
      rw [← hr, hsaves.files_eq]

/-- Without a destination the files stay what they are. -/
theorem Ends.files_eq {r : Except Failure Unit} (h : Ends options config output w r w')
    (hno : ¬ ∃ p, (choice options config w.input).result = .ok (some p)) :
    w'.files = w.files := by
  cases h with
  | unseeded _ hshows => exact hshows.files_eq
  | unanswered _ _ hshows => exact hshows.files_eq
  | shown _ _ hshows => exact hshows.files_eq
  | refused _ hc _ _ => exact absurd ⟨_, hc⟩ hno
  | stored _ hc _ _ => exact absurd ⟨_, hc⟩ hno

end Command

namespace Program
variable {args : List Bytes} {env : Environment} {w : World}

end Program

end Keyfile
