import Keyfile.Proofs.Command.Shown

/-!
# Where a new keypair is to be stored

`choice` says what options, settings and typed lines amount to: what is asked, which input is left,
and where the keypair is to be stored, if anywhere. With room for all output a run that makes a
keypair follows its choice, and `Ends` holds the ways in which it can end.
-/
namespace Keyfile.Command
open Keyfile.Action

/-- How it is settled where a new keypair is to be stored. -/
structure Choice where
  /-- What is asked. -/
  asked : List String := []
  /-- The input that is left. -/
  unread : Bytes
  result : Except Failure (Option Path)

/-- The first line of an input without the white space around it. -/
def answer (input : Bytes) : Except Failure (List Char) :=
  match Utf8.decode? (splitLine input).1 with
  | none => .error .inputNotText
  | some text => .ok (Blank.trim text)

/-- The question whether to store a keypair. -/
def offer : List String := ["\n", "Do you want to save this keypair to a file? (y/n): "]

def nameQuestion (config : Config) : List String :=
  ["Enter filename (default: " ++ config.defaultOutfile.display ++ "): "]

/-- The file that an answer names. An empty answer stands for the usual one. -/
def namedFile (config : Config) (name : List Char) : Path :=
  if name.isEmpty then config.defaultOutfile else Utf8.encode name

/-- The choice of a user who wants to store the keypair. -/
def nameChoice (config : Config) (input : Bytes) : Choice where
  asked := nameQuestion config
  unread := (splitLine input).2
  result := (answer input).map fun name => some (namedFile config name)

def offerChoice (config : Config) (input : Bytes) : Choice :=
  let left := (splitLine input).2
  match answer input with
  | .error e => { asked := offer, unread := left, result := .error e }
  | .ok reply =>
    if agrees reply then
      let named := nameChoice config left
      { named with asked := offer ++ named.asked }
    else { asked := offer, unread := left, result := .ok none }

/-- What options, settings and input amount to. Only a user who is to be asked uses up input. -/
def choice (options : GenerateOptions) (config : Config) (input : Bytes) : Choice :=
  match options.save with
  | some file => { unread := input, result := .ok (some (file.getD config.defaultOutfile)) }
  | none =>
    if options.interactive then offerChoice config input
    else { unread := input, result := .ok none }

/-! ## Runs that follow a choice -/

/-- From one world to the other a choice was made, and nothing but that. -/
structure Follows (c : Choice) (w w' : World) : Prop extends Shows w (textBytes c.asked) w' where
  unread_eq : w'.input = c.unread
  room_eq : w'.room = none
  messages_eq : w'.messages = w.messages

theorem readAnswer_result (w : World) : readAnswer.result w = answer w.input := by
  have hr : readLine.result w =
      match Utf8.decode? (splitLine w.input).1 with
      | none => .error .inputNotText
      | some text => .ok text := by
    rw [result, readLine_run]
    cases Utf8.decode? (splitLine w.input).1 <;> rfl
  unfold answer readAnswer
  rw [result_bind, hr]
  cases Utf8.decode? (splitLine w.input).1 <;> rfl

/-- A line is used up whether or not it is text. -/
theorem readAnswer_after (w : World) : readAnswer.after w =
    { w with input := (splitLine w.input).2, asked := w.asked ++ [w.output.length] } := by
  have ha : readLine.after w =
      { w with input := (splitLine w.input).2, asked := w.asked ++ [w.output.length] } := by
    rw [after, readLine_run]
    cases Utf8.decode? (splitLine w.input).1 <;> rfl
  unfold readAnswer
  cases hr : readLine.result w with
  | error e => rw [after_bind_of_error hr, ha]
  | ok text =>
    rw [after_bind_of_ok hr, ha]
    rfl

def askName (config : Config) : Action (Option Path) := do
  printAll (nameQuestion config)
  let name ← readAnswer
  return some (namedFile config name)

theorem askDestination_eq (config : Config) : askDestination config = (do
    printAll offer
    let reply ← readAnswer
    if agrees reply then askName config else return none) := by
  unfold askDestination askName offer nameQuestion
  simp only [printAll_cons, printAll_nil, bind_assoc, pure_bind]
  refine bind_congr fun _ => bind_congr fun _ => bind_congr fun reply => ?_
  cases agrees reply <;> rfl

section
variable {config : Config} {w : World}

theorem follows_readAnswer (h : w.room = none) (texts : List String)
    (r : Except Failure (Option Path)) :
    Follows ⟨texts, (splitLine w.input).2, r⟩ w
      (readAnswer.after (w.printed (textBytes texts))) := by
  rw [readAnswer_after]
  exact ⟨⟨⟨rfl, rfl, rfl⟩, rfl⟩, rfl, World.room_printed h _, rfl⟩

theorem askName_follows (h : w.room = none) :
    (askName config).result w = (nameChoice config w.input).result ∧
      Follows (nameChoice config w.input) w ((askName config).after w) := by
  have hr : readAnswer.result (w.printed (textBytes (nameQuestion config))) = answer w.input :=
    readAnswer_result _
  have hf := follows_readAnswer h (nameQuestion config) (nameChoice config w.input).result
  unfold askName
  rw [result_printAll_bind h, after_printAll_bind h]
  unfold nameChoice at hf ⊢
  cases hanswer : answer w.input with
  | error e =>
    rw [result_bind_of_error (hr.trans hanswer), after_bind_of_error (hr.trans hanswer)]
    rw [hanswer] at hf
    exact ⟨rfl, hf⟩
  | ok name =>
    rw [result_bind_of_ok (hr.trans hanswer), after_bind_of_ok (hr.trans hanswer)]
    rw [hanswer] at hf
    exact ⟨rfl, hf⟩

theorem askDestination_follows (h : w.room = none) :
    (askDestination config).result w = (offerChoice config w.input).result ∧
      Follows (offerChoice config w.input) w ((askDestination config).after w) := by
  have hr : readAnswer.result (w.printed (textBytes offer)) = answer w.input :=
    readAnswer_result _
  have hf (r : Except Failure (Option Path)) := follows_readAnswer h offer r
  rw [askDestination_eq, result_printAll_bind h, after_printAll_bind h]
  unfold offerChoice
  cases hanswer : answer w.input with
  | error e =>
    rw [result_bind_of_error (hr.trans hanswer), after_bind_of_error (hr.trans hanswer)]
    exact ⟨rfl, hf _⟩
  | ok reply =>
    rw [result_bind_of_ok (hr.trans hanswer), after_bind_of_ok (hr.trans hanswer)]
    dsimp only
    split_ifs with hagrees
    · -- the second line is read from what the first one left
      have hoffer := hf (.ok none)
      obtain ⟨hname, hnamed⟩ := @askName_follows config _ hoffer.room_eq
      rw [hoffer.unread_eq] at hname hnamed
      refine ⟨hname, ⟨?_, hnamed.unread_eq, hnamed.room_eq, ?_⟩⟩
      · dsimp only
        rw [textBytes_append]
        exact hoffer.toShows.trans hnamed.toShows
      · rw [hnamed.messages_eq, hoffer.messages_eq]
    · exact ⟨rfl, hf _⟩

theorem destination_follows (options : GenerateOptions) (h : w.room = none) :
    (destination options config).result w = (choice options config w.input).result ∧
      Follows (choice options config w.input) w ((destination options config).after w) := by
  unfold destination choice
  cases options.save with
  | some file => exact ⟨rfl, .refl w, rfl, h, rfl⟩
  | none =>
    dsimp only
    split_ifs
    · exact askDestination_follows h
    · exact ⟨rfl, .refl w, rfl, h, rfl⟩

end

/-! ## Runs that make a keypair -/

/-- Makes a keypair, shows it, and settles where it is to be stored. -/
def prepare (options : GenerateOptions) (config : Config) (output : OutputOptions) :
    Action (Keypair × Option Path) := do
  printAll (generateBanner output)
  let k ← generateKeypair
  printAll ((Report.ofKeypair k).lines output)
  let d ← destination options config
  return (k, d)

/-- What has been shown when it is settled where a new keypair is to be stored. -/
def settledLines (s : Seed) (options : GenerateOptions) (config : Config)
    (output : OutputOptions) (input : Bytes) : List String :=
  madeLines s output ++ (choice options config input).asked

/-- What becomes of a world in which bytes are stored, or are refused to be stored, and some text
is shown. -/
structure Saves (w : World) (b : Bytes) (p : Path) (f : JsonFormat) (text : Bytes) (w' : World) :
    Prop where
  files_eq : w'.files = (save w.files b p f).1
  stored_eq : w'.stored = w.stored ++ savedPaths (save w.files b p f).2.messages
  output_eq : w'.output = w.output ++ text

/-- The ways in which a run that makes a keypair ends when there is room for all output. -/
inductive Ends (options : GenerateOptions) (config : Config) (output : OutputOptions)
    (w : World) : Except Failure Unit → World → Prop
  | unseeded {reason : String} {w' : World} :
      w.entropy.seed? = .error reason → Shows w (textBytes (generateBanner output)) w' →
      Ends options config output w (.error (.keypair (.randomSource reason))) w'
  | unanswered {s : Seed} {e : Failure} {w' : World} :
      w.entropy.seed? = .ok s → (choice options config w.input).result = .error e →
      Shows w (textBytes (settledLines s options config output w.input)) w' →
      Ends options config output w (.error e) w'
  | shown {s : Seed} {w' : World} :
      w.entropy.seed? = .ok s → (choice options config w.input).result = .ok none →
      Shows w (textBytes (settledLines s options config output w.input ++
        ((Report.ofKeypair (.ofSeed s)).document? output).toList)) w' →
      Ends options config output w (.ok ()) w'
  | refused {s : Seed} {p : Path} {e : KeypairError} {w' : World} :
      w.entropy.seed? = .ok s → (choice options config w.input).result = .ok (some p) →
      (save w.files (Keypair.ofSeed s).bytes p config.jsonFormat).2.result = .error e →
      Saves w (Keypair.ofSeed s).bytes p config.jsonFormat
        (textBytes (settledLines s options config output w.input)) w' →
      Ends options config output w (.error (.keypair e)) w'
  | stored {s : Seed} {p : Path} {w' : World} :
      w.entropy.seed? = .ok s → (choice options config w.input).result = .ok (some p) →
      (save w.files (Keypair.ofSeed s).bytes p config.jsonFormat).2.result = .ok () →
      Saves w (Keypair.ofSeed s).bytes p config.jsonFormat
        (textBytes (settledLines s options config output w.input ++
          savedLines (.ofSeed s) p output)) w' →
      Ends options config output w (.ok ()) w'

section
variable {options : GenerateOptions} {config : Config} {output : OutputOptions} {w : World}

theorem generate_eq_prepare (options : GenerateOptions) (config : Config)
    (output : OutputOptions) : generate options config output =
      prepare options config output >>= fun m => settle m.1 config output m.2 := by
  rw [generate_eq]
  simp only [prepare, bind_assoc, pure_bind]

theorem quiet_prepare (options : GenerateOptions) (config : Config) (output : OutputOptions) :
    Quiet (prepare options config output) := by
  refine (quiet_printAll _).bind fun _ => ?_
  refine quiet_generateKeypair.bind fun _ => ?_
  refine (quiet_printAll _).bind fun _ => ?_
  exact (quiet_destination _ _).bind fun _ => quiet_pure _

theorem generateKeypair_of_error {reason : String} (h : w.entropy.seed? = .error reason) :
    generateKeypair.result w = .error (.keypair (.randomSource reason)) ∧
      generateKeypair.after w = w.logged [] := by
  have hrun := generateKeypair_run w
  unfold Keypair.generate at hrun
  rw [h, ofLogged_run] at hrun
  rw [result, after, hrun]
  exact ⟨rfl, rfl⟩

theorem generateKeypair_of_ok {s : Seed} (h : w.entropy.seed? = .ok s) :
    generateKeypair.result w = .ok (.ofSeed s) ∧
      generateKeypair.after w = w.logged [.generated (Keypair.ofSeed s).publicKey.text] :=
  run_eq_ok_iff.mp (generateKeypair_ok_iff.mpr ⟨s, h, rfl, rfl⟩)

theorem prepare_of_error {reason : String} (h : w.room = none)
    (hs : w.entropy.seed? = .error reason) :
    (prepare options config output).result w = .error (.keypair (.randomSource reason)) ∧
      Shows w (textBytes (generateBanner output)) ((prepare options config output).after w) := by
  obtain ⟨hr, ha⟩ : _ ∧ generateKeypair.after (w.printed (textBytes (generateBanner output))) = _ :=
    generateKeypair_of_error hs
  unfold prepare
  rw [result_printAll_bind h, after_printAll_bind h, result_bind_of_error hr,
    after_bind_of_error hr, ha]
  refine ⟨rfl, ⟨rfl, rfl, ?_⟩, rfl⟩
  exact (World.stored_logged _ _).trans (List.append_nil _)

/-- Once there is a seed, what is left to be settled is the destination. -/
theorem prepare_eq_destination {s : Seed} (h : w.room = none) (hs : w.entropy.seed? = .ok s) :
    (prepare options config output).result w =
        ((destination options config).result (made w s output)).map (Keypair.ofSeed s, ·) ∧
      (prepare options config output).after w =
        (destination options config).after (made w s output) := by
  obtain ⟨hr, ha⟩ : _ ∧ generateKeypair.after (w.printed (textBytes (generateBanner output))) = _ :=
    generateKeypair_of_ok hs
  have hroom : ((w.printed (textBytes (generateBanner output))).logged
      [.generated (Keypair.ofSeed s).publicKey.text]).room = none := World.room_printed h _
  unfold prepare
  rw [result_printAll_bind h, after_printAll_bind h, result_bind_of_ok hr, after_bind_of_ok hr, ha,
    result_printAll_bind hroom, after_printAll_bind hroom, made_eq]
  cases hd : (destination options config).result (made w s output) with
  | error e =>
    rw [result_bind_of_error hd, after_bind_of_error hd]
    exact ⟨rfl, rfl⟩
  | ok d =>
    rw [result_bind_of_ok hd, after_bind_of_ok hd]
    exact ⟨rfl, rfl⟩

/-- Once there is a seed, the keypair is shown and its destination is what the choice says. -/
theorem prepare_of_ok {s : Seed} (h : w.room = none) (hs : w.entropy.seed? = .ok s) :
    (prepare options config output).result w =
        (choice options config w.input).result.map (Keypair.ofSeed s, ·) ∧
      Shows w (textBytes (settledLines s options config output w.input))
        ((prepare options config output).after w) ∧
      ((prepare options config output).after w).room = none := by
  obtain ⟨hr, ha⟩ := @prepare_eq_destination options config output w s h hs
  have hmade : (made w s output).room = none := World.room_printed h _
  obtain ⟨hd, hf⟩ := @destination_follows config _ options hmade
  rw [hr, ha, hd]
  refine ⟨rfl, ?_, hf.room_eq⟩
  rw [settledLines, textBytes_append]
  exact (shows_made w s output).trans hf.toShows

theorem saveBytes_saves (b : Bytes) (p : Path) (f : JsonFormat) (w : World) :
    (saveBytes b p f).result w = (save w.files b p f).2.result.mapError .keypair ∧
      Saves w b p f [] ((saveBytes b p f).after w) := by
  constructor
  · rw [result, saveBytes_run, ofLogged_run]
    cases (save w.files b p f).2.result <;> rfl
  · rw [saveBytes_after]
    exact ⟨rfl, World.stored_logged _ _, (List.append_nil _).symm⟩

theorem Saves.shown_before {w' w'' : World} {b : Bytes} {p : Path} {f : JsonFormat}
    {shown text : Bytes} (hs : Saves w' b p f text w'') (h : Shows w shown w') :
    Saves w b p f (shown ++ text) w'' where
  files_eq := by rw [hs.files_eq, h.files_eq]
  stored_eq := by rw [hs.stored_eq, h.stored_eq, h.files_eq]
  output_eq := by rw [hs.output_eq, h.output_eq, List.append_assoc]

theorem Saves.shown_after {w' w'' : World} {b : Bytes} {p : Path} {f : JsonFormat}
    {text shown : Bytes} (hs : Saves w b p f text w') (h : Shows w' shown w'') :
    Saves w b p f (text ++ shown) w'' where
  files_eq := by rw [h.files_eq, hs.files_eq]
  stored_eq := by rw [h.stored_eq, hs.stored_eq]
  output_eq := by rw [h.output_eq, hs.output_eq, List.append_assoc]

theorem settle_of_error {k : Keypair} {p : Path} {e : KeypairError}
    (hsave : (save w.files k.bytes p config.jsonFormat).2.result = .error e) :
    (settle k config output (some p)).result w = .error (.keypair e) ∧
      Saves w k.bytes p config.jsonFormat [] ((settle k config output (some p)).after w) := by
  obtain ⟨hr, hs⟩ := saveBytes_saves k.bytes p config.jsonFormat w
  rw [hsave] at hr
  unfold settle
  rw [result_bind_of_error hr, after_bind_of_error hr]
  exact ⟨rfl, hs⟩

theorem settle_of_ok {k : Keypair} {p : Path} (h : w.room = none)
    (hsave : (save w.files k.bytes p config.jsonFormat).2.result = .ok ()) :
    (settle k config output (some p)).result w = .ok () ∧
      Saves w k.bytes p config.jsonFormat (textBytes (savedLines k p output))
        ((settle k config output (some p)).after w) := by
  obtain ⟨hr, hs⟩ := saveBytes_saves k.bytes p config.jsonFormat w
  rw [hsave] at hr
  have hroom : ((saveBytes k.bytes p config.jsonFormat).after w).room = none := by
    rw [saveBytes_after]
    exact h
  obtain ⟨hdone, hshows⟩ := printAll_shows hroom (savedLines k p output)
  unfold settle
  rw [result_bind_of_ok hr, after_bind_of_ok hr]
  exact ⟨hdone, hs.shown_after hshows⟩

/-- What was logged before a run, unless it records something, does not matter to how it ends. -/
theorem Ends.of_logged {ms : List Message} {r : Except Failure Unit} {w' : World}
    (h : Ends options config output (w.logged ms) r w') (hms : savedPaths ms = []) :
    Ends options config output w r w' := by
  have hw : Shows w [] (w.logged ms) := ⟨sameStore_logged hms w, (List.append_nil _).symm⟩
  cases h with
  | unseeded hs hshows => exact .unseeded hs (hw.trans hshows)
  | unanswered hs hc hshows => exact .unanswered hs hc (hw.trans hshows)
  | shown hs hc hshows => exact .shown hs hc (hw.trans hshows)
  | refused hs hc hsave hsaves => exact .refused hs hc hsave (hsaves.shown_before hw)
  | stored hs hc hsave hsaves => exact .stored hs hc hsave (hsaves.shown_before hw)

theorem generate_ends (options : GenerateOptions) (config : Config) (output : OutputOptions)
    (h : w.room = none) : Ends options config output w
      ((generate options config output).result w) ((generate options config output).after w) := by
  rw [generate_eq_prepare]
  cases hs : w.entropy.seed? with
  | error reason =>
    obtain ⟨hr, hshows⟩ := prepare_of_error h hs
    rw [result_bind_of_error hr, after_bind_of_error hr]
    exact .unseeded hs hshows
  | ok s =>
    obtain ⟨hr, hshows, hroom⟩ := prepare_of_ok h hs
    cases hc : (choice options config w.input).result with
    | error e =>
      rw [hc] at hr
      rw [result_bind_of_error hr, after_bind_of_error hr]
      exact .unanswered hs hc hshows
    | ok d =>
      rw [hc] at hr
      rw [result_bind_of_ok hr, after_bind_of_ok hr]
      cases d with
      | none =>
        obtain ⟨hdone, hdocument⟩ := printAll_shows hroom
          ((Report.ofKeypair (.ofSeed s)).document? output).toList
        have hall := hshows.trans hdocument
        rw [← textBytes_append] at hall
        change Ends _ _ _ _ ((printAll _).result _) _
        rw [hdone]
        exact .shown hs hc hall
      | some p =>
        -- until then no file has changed, so it is the tree at the start in which this is stored
        have hfiles := hshows.files_eq
        cases hsave : (save w.files (Keypair.ofSeed s).bytes p config.jsonFormat).2.result with
        | error e =>
          have hsave' := hsave
          rw [← hfiles] at hsave'
          obtain ⟨hdone, hsaves⟩ := @settle_of_error config output _ _ _ _ hsave'
          have hall := hsaves.shown_before hshows
          rw [List.append_nil] at hall
          rw [hdone]
          exact .refused hs hc hsave hall
        | ok _ =>
          have hsave' := hsave
          rw [← hfiles] at hsave'
          obtain ⟨hdone, hsaves⟩ := @settle_of_ok config output _ _ _ hroom hsave'
          have hall := hsaves.shown_before hshows
          rw [← textBytes_append] at hall
          rw [hdone]
          exact .stored hs hc hsave hall

/-- With a seed and a destination, a run succeeds exactly if its keypair can be stored there. -/
theorem Ends.eq_ok_iff {r : Except Failure Unit} {s : Seed} {p : Path}
    (h : Ends options config output w r w') (hs : w.entropy.seed? = .ok s)
    (hp : (choice options config w.input).result = .ok (some p)) :
    r = .ok () ↔ (save w.files (Keypair.ofSeed s).bytes p config.jsonFormat).2.result = .ok () := by
  cases h with
  | unseeded hs' _ =>
    rw [hs] at hs'
    cases hs'
  | unanswered _ hc _ =>
    rw [hp] at hc
    cases hc
  | shown _ hc _ =>
    rw [hp] at hc
    cases hc
  | refused hs' hc hsave _ =>
    -- the seed and the destination are those of the run, so its save is the one that is asked about
    rw [hp] at hc
    cases hc
    rw [hs] at hs'
    cases hs'
    rw [hsave]
    exact iff_of_false nofun nofun
  | stored hs' hc hsave _ =>
    rw [hp] at hc
    cases hc
    rw [hs] at hs'
    cases hs'
    exact iff_of_true rfl hsave

end

end Keyfile.Command
