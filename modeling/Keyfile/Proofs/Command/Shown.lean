import Keyfile.Proofs.Command.Effect
import Keyfile.Proofs.Report

/-!
# The key that is shown is the key that is stored

A generating run that stores its keypair shows the public key and the secret that a later run shows
when it loads the stored file.
-/
namespace Keyfile

/-- From one world to the other, these bytes were printed and the store was left alone. -/
structure Shows (w : World) (b : Bytes) (w' : World) : Prop extends SameStore w w' where
  output_eq : w'.output = w.output ++ b

theorem Shows.trans {w w' w'' : World} {b b' : Bytes} (h : Shows w b w') (h' : Shows w' b' w'') :
    Shows w (b ++ b') w'' := by
  refine ⟨h.toSameStore.trans h'.toSameStore, ?_⟩
  rw [h'.output_eq, h.output_eq, List.append_assoc]

theorem Shows.refl (w : World) : Shows w [] w := ⟨.refl w, (List.append_nil _).symm⟩

namespace Action
variable {w w' : World}

theorem shows_printAll {texts : List String} {u : Unit} (h : (printAll texts).run w = .ok u w') :
    Shows w (textBytes texts) w' := by
  refine ⟨(quiet_printAll texts).of_ok h, ?_⟩
  rw [(printAll_ok_iff.mp h).2]
  rfl

/-- With room for all output, texts are shown. -/
theorem printAll_shows (h : w.room = none) (texts : List String) :
    (printAll texts).result w = .ok () ∧
      Shows w (textBytes texts) ((printAll texts).after w) := by
  obtain ⟨hr, ha⟩ := run_eq_ok_iff.mp (printAll_run h texts)
  refine ⟨hr, ?_⟩
  rw [ha]
  exact shows_printAll (printAll_run h texts)

theorem shows_print {s : String} {u : Unit} (h : (print s).run w = .ok u w') :
    Shows w (textBytes [s]) w' := by
  rw [← printAll_singleton] at h
  exact shows_printAll h

theorem shows_readAnswer {answer : List Char} (h : readAnswer.run w = .ok answer w') :
    Shows w [] w' := by
  refine ⟨quiet_readAnswer.of_ok h, ?_⟩
  obtain ⟨line, w₁, hline, hanswer⟩ := run_bind_ok_iff.mp h
  rw [readLine_run] at hline
  obtain ⟨_, rfl⟩ := run_pure_ok_iff.mp hanswer
  rw [List.append_nil]
  split at hline
  · cases hline
    rfl
  · cases hline

/-- Bytes that were stored are recorded, and the file loads as these bytes. -/
theorem saveBytes_ok {b : Bytes} {p : Path} {f : JsonFormat} {u : Unit}
    (h : (saveBytes b p f).run w = .ok u w') :
    w'.stored = w.stored ++ [p] ∧ w'.output = w.output ∧
      Keypair.load w'.files p = Keypair.ofBytes b p.display := by
  rw [saveBytes_run] at h
  obtain ⟨hres, rfl⟩ := ofLogged_ok_iff.mp h
  refine ⟨?_, rfl, Keypair.load_of_save_ok hres⟩
  rw [World.stored_logged, save_messages hres]
  rfl

end Action

namespace Command
open Keyfile.Action

variable {options : GenerateOptions} {config : Config} {output : OutputOptions} {w w' : World}
  {p : Path}

/-- What a user who agrees to store a keypair has been asked. -/
def questions (options : GenerateOptions) (config : Config) : List String :=
  if options.save.isSome then []
  else
    ["\n", "Do you want to save this keypair to a file? (y/n): ",
      "Enter filename (default: " ++ config.defaultOutfile.display ++ "): "]

theorem shows_destination (h : (destination options config).run w = .ok (some p) w') :
    Shows w (textBytes (questions options config)) w' := by
  unfold destination at h
  unfold questions
  split at h
  · rename_i file hs
    obtain ⟨_, rfl⟩ := run_pure_ok_iff.mp h
    rw [hs]
    exact .refl w
  · rename_i hs
    rw [hs]
    split at h
    · obtain ⟨_, w₁, h₁, h⟩ := run_bind_ok_iff.mp h
      obtain ⟨_, w₂, h₂, h⟩ := run_bind_ok_iff.mp h
      obtain ⟨answer, w₃, h₃, h⟩ := run_bind_ok_iff.mp h
      split at h
      · obtain ⟨hn, _⟩ := run_pure_ok_iff.mp h
        cases hn
      · obtain ⟨_, w₄, h₄, h⟩ := run_bind_ok_iff.mp h
        obtain ⟨name, w₅, h₅, h⟩ := run_bind_ok_iff.mp h
        obtain ⟨_, rfl⟩ := run_pure_ok_iff.mp h
        have hq := ((shows_print h₁).trans (shows_print h₂)).trans (shows_readAnswer h₃)
        have ha := (shows_print h₄).trans (shows_readAnswer h₅)
        have hall := hq.trans ha
        simp only [List.append_nil, ← textBytes_append] at hall
        exact hall
    · obtain ⟨hn, _⟩ := run_pure_ok_iff.mp h
      cases hn

/-- What has been shown when it is settled where a new keypair is to be stored. -/
def madeLines (s : Seed) (output : OutputOptions) : List String :=
  generateBanner output ++ (Report.ofKeypair (.ofSeed s)).lines output

/-- The world in which a new keypair has been made and shown. -/
def made (w : World) (s : Seed) (output : OutputOptions) : World :=
  (w.printed (textBytes (madeLines s output))).logged
    [.generated (Keypair.ofSeed s).publicKey.text]

/-- A keypair is made between its banner and its lines. -/
theorem made_eq (w : World) (s : Seed) (output : OutputOptions) :
    ((w.printed (textBytes (generateBanner output))).logged
      [.generated (Keypair.ofSeed s).publicKey.text]).printed
        (textBytes ((Report.ofKeypair (.ofSeed s)).lines output)) = made w s output := by
  rw [made, madeLines, textBytes_append, ← World.printed_printed, World.printed_logged]

theorem shows_made (w : World) (s : Seed) (output : OutputOptions) :
    Shows w (textBytes (madeLines s output)) (made w s output) := by
  refine ⟨⟨rfl, rfl, ?_⟩, rfl⟩
  exact (World.stored_logged _ _).trans (List.append_nil _)

/-- A generating run succeeds if a seed is given, the keypair is shown, and what is to become of it
is settled. -/
theorem generate_ok_iff : (generate options config output).run w = .ok () w' ↔
    ∃ s d w₁, w.entropy.seed? = .ok s ∧ w.Takes (textBytes (madeLines s output)) ∧
      (destination options config).run (made w s output) = .ok d w₁ ∧
        (settle (.ofSeed s) config output d).run w₁ = .ok () w' := by
  have htakes (s : Seed) : w.Takes (textBytes (madeLines s output)) ↔
      w.Takes (textBytes (generateBanner output)) ∧
        (w.printed (textBytes (generateBanner output))).Takes
          (textBytes ((Report.ofKeypair (.ofSeed s)).lines output)) := by
    rw [madeLines, textBytes_append, World.takes_append]
  rw [generate_eq]
  simp only [run_bind_ok_iff, printAll_ok_iff, generateKeypair_ok_iff]
  constructor
  · rintro ⟨_, _, ⟨ht, rfl⟩, _, _, ⟨s, hs, rfl, rfl⟩, _, _, ⟨ht', rfl⟩, d, w₁, hd, h⟩
    rw [made_eq] at hd
    exact ⟨s, d, w₁, hs, (htakes s).mpr ⟨ht, ht'⟩, hd, h⟩
  · rintro ⟨s, d, w₁, hs, ht, hd, h⟩
    rw [← made_eq] at hd
    obtain ⟨ht, ht'⟩ := (htakes s).mp ht
    exact ⟨(), _, ⟨ht, rfl⟩, _, _, ⟨s, hs, rfl, rfl⟩, (), _, ⟨ht', rfl⟩, d, w₁, hd, h⟩

/-- A generating run that stores its keypair shows it, and the file loads as its bytes. -/
theorem generate_ok (h : (generate options config output).run w = .ok () w')
    (hp : w'.stored = w.stored ++ [p]) :
    ∃ s, w.entropy.seed? = .ok s ∧
      Keypair.load w'.files p = Keypair.ofBytes (Keypair.ofSeed s).bytes p.display ∧
      w'.output = w.output ++ textBytes (madeLines s output ++ questions options config ++
        savedLines (.ofSeed s) p output) := by
  obtain ⟨s, d, w₁, hs, _, hd, h⟩ := generate_ok_iff.mp h
  have hlines := shows_made w s output
  have hdestination := (quiet_destination _ _).of_ok hd
  have hstored : w₁.stored = w.stored := hdestination.stored_eq.trans hlines.stored_eq
  cases d with
  | none =>
    -- a run without a destination records nothing
    have hend := (quiet_printAll _).of_ok h
    rw [hend.stored_eq, hstored, List.self_eq_append_right] at hp
    cases hp
  | some q =>
    obtain ⟨_, w₂, h₂, h⟩ := run_bind_ok_iff.mp h
    obtain ⟨hsaved, houtput, hload⟩ := saveBytes_ok h₂
    have hend := shows_printAll h
    have hq : q = p := by
      rw [hend.stored_eq, hsaved, hstored] at hp
      simpa using hp
    rw [hq, ← hend.files_eq] at hload
    rw [hq] at hend
    have hshown := hlines.trans (shows_destination hd)
    refine ⟨s, hs, hload, ?_⟩
    rw [hend.output_eq, houtput, hshown.output_eq]
    simp only [textBytes_append, List.append_assoc]

/-- What is shown of a file, from which a keypair is read or not. -/
def loadLines (p : Path) (output : OutputOptions) (r : Except KeypairError Keypair) :
    List String :=
  loadBanner p output ++
    match r with
    | .error _ => []
    | .ok k => (Report.ofKeypair k).lines output ++ ((Report.ofKeypair k).document? output).toList

/-- With room for all output, what is read from a file settles how loading it ends and what is
shown. -/
theorem load_ends (p : Path) (output : OutputOptions) (h : w.room = none) :
    (load p output).result w =
        ((Keypair.load w.files p).result.map fun _ => ()).mapError .keypair ∧
      Shows w (textBytes (loadLines p output (Keypair.load w.files p).result))
        ((load p output).after w) := by
  have hbanner : Shows w (textBytes (loadBanner p output))
      ((w.printed (textBytes (loadBanner p output))).logged
        (Keypair.load w.files p).messages) := by
    refine ⟨⟨rfl, rfl, ?_⟩, rfl⟩
    rw [World.stored_logged, Keypair.savedPaths_load]
    exact List.append_nil _
  obtain ⟨hr, ha⟩ := loadKeypair_ends p (w.printed (textBytes (loadBanner p output)))
  change _ = (Keypair.load w.files p).result.mapError Failure.keypair at hr
  rw [load_eq, result_printAll_bind h, after_printAll_bind h]
  unfold loadLines
  cases hk : (Keypair.load w.files p).result with
  | error e =>
    rw [hk] at hr
    rw [result_bind_of_error hr, after_bind_of_error hr, ha, List.append_nil]
    exact ⟨rfl, hbanner⟩
  | ok k =>
    rw [hk] at hr
    rw [result_bind_of_ok hr, after_bind_of_ok hr, ha, ← printAll_append]
    obtain ⟨hdone, hshows⟩ := @printAll_shows ((w.printed _).logged _)
      (World.room_printed h _)
      ((Report.ofKeypair k).lines output ++ ((Report.ofKeypair k).document? output).toList)
    refine ⟨hdone, ?_⟩
    rw [textBytes_append]
    exact hbanner.trans hshows

/-- With room for all output, loading a keypair shows it. -/
theorem load_shows {k : Keypair} (output : OutputOptions) (hroom : w.room = none)
    (hk : (Keypair.load w.files p).result = .ok k) :
    ∃ w', (load p output).run w = .ok () w' ∧
      Shows w (textBytes (loadBanner p output ++ ((Report.ofKeypair k).lines output ++
        ((Report.ofKeypair k).document? output).toList))) w' := by
  obtain ⟨hr, hshows⟩ := load_ends p output hroom
  rw [hk] at hr hshows
  exact ⟨_, run_eq_ok_iff.mpr ⟨hr, rfl⟩, hshows⟩

/-- With room for all output, a new keypair is stored in the file named for it if that file can be
written. -/
theorem generate_stores {s : Seed} {file : Option Path} (hroom : w.room = none)
    (hs : w.entropy.seed? = .ok s) (hfile : options.save = some file)
    (hp : file.getD config.defaultOutfile = p)
    (hsave : (save w.files [] p .compact).2.result = .ok ()) :
    ∃ w', (generate options config output).run w = .ok () w' ∧ w'.stored = w.stored ++ [p] := by
  have hmade := shows_made w s output
  have hroom₁ : (made w s output).room = none := World.room_printed hroom _
  have hd : (destination options config).run (made w s output) =
      .ok (some p) (made w s output) := by
    rw [destination, hfile, ← hp]
    rfl
  obtain ⟨w₂, h₂, hroom₂⟩ : ∃ w₂,
      (saveBytes (Keypair.ofSeed s).bytes p config.jsonFormat).run (made w s output) =
        .ok () w₂ ∧ w₂.room = none := by
    refine ⟨_, ofLogged_ok_iff.mpr ⟨?_, rfl⟩, hroom₁⟩
    rw [hmade.files_eq]
    exact (save_result_eq _ _ _ _ _ _).trans hsave
  have h₃ := printAll_run hroom₂ (savedLines (.ofSeed s) p output)
  refine ⟨_, generate_ok_iff.mpr ⟨s, some p, _, hs, World.takes_of_room_eq_none hroom _, hd,
    run_bind_ok_iff.mpr ⟨(), w₂, h₂, h₃⟩⟩, ?_⟩
  rw [((quiet_printAll _).of_ok h₃).stored_eq, (saveBytes_ok h₂).1, hmade.stored_eq]

open OutputOptions

/-- The lines that show a keypair. -/
def keyLines (k : Keypair) : List String :=
  ["Public Key: " ++ k.publicKey.text ++ "\n", "Base58 Secret Key: " ++ k.secretText ++ "\n"]

/-- The members that show a keypair. -/
def keyMembers (k : Keypair) : List (String × Json) :=
  [("pubkey", .string k.publicKey.text), ("secret_base58", .string k.secretText)]

/-- A run that stored the keypair that it made at a path has shown the keys that loading the path
shows: the same two lines of text, or the same two members of a JSON document that has the path as
one member more. -/
theorem load_generate (h : (generate options config output).run w = .ok () w')
    (hp : w'.stored = w.stored ++ [p]) {v : World} (hv : v.files = w'.files)
    (hroom : v.room = none) :
    ∃ s v', w.entropy.seed? = .ok s ∧ (load p output).run v = .ok () v' ∧ v'.files = v.files ∧
      (output.isJson = false →
        w'.output = w.output ++ textBytes (["=== Creating New Keypair ===\n"] ++
          keyLines (.ofSeed s) ++ questions options config ++
          ["Keypair saved to: " ++ p.display ++ "\n"]) ∧
        v'.output = v.output ++ textBytes
          (["=== Loading Keypair from File: " ++ p.display ++ " ===\n"] ++
          keyLines (.ofSeed s))) ∧
      ∀ f, output.format? = some f →
        w'.output = w.output ++ textBytes (questions options config ++
          [f.render (.object (keyMembers (.ofSeed s) ++ [("saved_to", .string p.display)])) ++
            "\n"]) ∧
        v'.output =
          v.output ++ textBytes [f.render (.object (keyMembers (.ofSeed s))) ++ "\n"] := by
  obtain ⟨s, hs, hload, hshown⟩ := generate_ok h hp
  have hk : (Keypair.load v.files p).result = .ok (.ofSeed s) := by
    rw [hv, hload]
    exact Keypair.ofBytes_bytes s _
  obtain ⟨v', hrun, hv'⟩ := load_shows output hroom hk
  refine ⟨s, v', hs, hrun, hv'.files_eq, ?_, ?_⟩
  · intro htext
    have hnone := format?_eq_none_iff.mpr htext
    rw [hshown, hv'.output_eq]
    unfold madeLines generateBanner loadBanner savedLines Report.lines Report.document?
    rw [htext, hnone]
    exact ⟨rfl, rfl⟩
  · intro f hf
    have hjson : output.isJson = true := by
      by_contra h
      rw [format?_eq_none_iff.mpr (by simpa using h)] at hf
      cases hf
    rw [hshown, hv'.output_eq]
    unfold madeLines generateBanner loadBanner savedLines Report.lines Report.document?
    rw [hjson, hf]
    exact ⟨rfl, rfl⟩

/-- A keypair that is stored through a link in the standard file is shown again. -/
theorem load_generate_link :
    ∃ w' v', (generate { save := some none } { defaultOutfile := [0x6B] } {}).run
        { files := Keypair.linkedTree } = .ok () w' ∧
      (load [0x6B] {}).run { files := w'.files } = .ok () v' ∧
      ∃ s, w'.output = textBytes (["=== Creating New Keypair ===\n"] ++ keyLines (.ofSeed s) ++
          ["Keypair saved to: k\n"]) ∧
        v'.output = textBytes (["=== Loading Keypair from File: k ===\n"] ++
          keyLines (.ofSeed s)) := by
  have hsave : (save Keypair.linkedTree [] [0x6B] .compact).2.result = .ok () := by cbv
  obtain ⟨s, hs⟩ : ∃ s, (Entropy.ofBytes []).seed? = .ok s := ⟨_, rfl⟩
  have hstores := @generate_stores { save := some none } { defaultOutfile := [0x6B] } {}
    { files := Keypair.linkedTree } [0x6B] s none rfl hs rfl rfl hsave
  obtain ⟨w', h, hp⟩ := hstores
  have hshown := load_generate (v := { files := w'.files }) h hp rfl rfl
  obtain ⟨s, v', _, hv, _, htext, _⟩ := hshown
  have hsaved : "Keypair saved to: " ++ Path.display [0x6B] ++ "\n" = "Keypair saved to: k\n" := by
    cbv
  have hloading : "=== Loading Keypair from File: " ++ Path.display [0x6B] ++ " ===\n" =
      "=== Loading Keypair from File: k ===\n" := by cbv
  have houtput := htext rfl
  rw [hsaved, hloading] at houtput
  exact ⟨w', v', h, hv, s, houtput⟩

end Command

end Keyfile
