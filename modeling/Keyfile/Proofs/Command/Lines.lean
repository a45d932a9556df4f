import Keyfile.Proofs.Base58
import Keyfile.Proofs.Command.Dialogue
import Keyfile.Proofs.Text.Lines

/-!
# The text of a run, line by line

In text mode a run that makes a keypair shows each key in a line of its own. Where a keypair is
stored without a question, the line that tells so is one as well. The questions have no line feed
behind them, since the user's answer ends their line; so what is shown behind them stands in the
same line of the output.
-/
namespace Keyfile.Command
open Keyfile.Action Lines

variable {options : GenerateOptions} {config : Config} {output : OutputOptions} {w w' : World}
  {d : Option Path} {p : Path} {k : Keypair} {asked : List String}

/-! ## What is shown -/

/-- What is asked until it is settled where a keypair is to be stored. -/
inductive Asked (options : GenerateOptions) (config : Config) : Option Path → List String → Prop
  | named {p : Path} : options.save.isSome = true → Asked options config (some p) []
  | unasked : options.save = none → Asked options config none []
  | declined : options.save = none → Asked options config none offer
  | accepted {p : Path} : options.save = none →
      Asked options config (some p) (offer ++ nameQuestion config)

theorem destination_asked (h : (destination options config).run w = .ok d w') :
    ∃ asked, Asked options config d asked ∧ Shows w (textBytes asked) w' := by
  cases d with
  | some p =>
    have hshows := shows_destination h
    unfold questions at hshows
    cases hsave : options.save with
    | none =>
      rw [hsave] at hshows
      exact ⟨_, .accepted hsave, hshows⟩
    | some file =>
      rw [hsave] at hshows
      exact ⟨_, .named (by rw [hsave]; rfl), hshows⟩
  | none =>
    unfold destination at h
    cases hsave : options.save with
    | some file =>
      rw [hsave] at h
      obtain ⟨hn, _⟩ := run_pure_ok_iff.mp h
      cases hn
    | none =>
      rw [hsave] at h
      dsimp only at h
      split at h
      · rw [askDestination_eq] at h
        obtain ⟨_, w₁, hoffer, h⟩ := run_bind_ok_iff.mp h
        obtain ⟨reply, w₂, hreply, h⟩ := run_bind_ok_iff.mp h
        have hshows := (shows_printAll hoffer).trans (shows_readAnswer hreply)
        rw [List.append_nil] at hshows
        split at h
        · obtain ⟨_, w₃, _, h⟩ := run_bind_ok_iff.mp h
          obtain ⟨_, w₄, _, h⟩ := run_bind_ok_iff.mp h
          obtain ⟨hn, _⟩ := run_pure_ok_iff.mp h
          cases hn
        · obtain ⟨_, rfl⟩ := run_pure_ok_iff.mp h
          exact ⟨_, .declined hsave, hshows⟩
      · obtain ⟨_, rfl⟩ := run_pure_ok_iff.mp h
        exact ⟨_, .unasked hsave, .refl w⟩

/-- From one world to the other a keypair was stored at a path. -/
structure SavesAt (k : Keypair) (p : Path) (f : JsonFormat) (w w' : World) : Prop where
  stored_eq : w'.stored = w.stored ++ [p]
  result_eq : (save w.files k.bytes p f).2.result = .ok ()
  files_eq : w'.files = (save w.files k.bytes p f).1

/-- A keypair was stored at a path, or nothing was stored. -/
def Keeps (k : Keypair) (f : JsonFormat) (w w' : World) : Option Path → Prop
  | none => SameStore w w'
  | some p => SavesAt k p f w w'

/-- What tells where a keypair was stored. -/
def savedTexts (d : Option Path) : List String :=
  (d.map fun p => "Keypair saved to: " ++ p.display ++ "\n").toList

theorem settle_text (h : (settle k config output d).run w = .ok () w')
    (htext : output.isJson = false) : Keeps k config.jsonFormat w w' d ∧
      w'.output = w.output ++ textBytes (savedTexts d) := by
  have hnone : output.format? = none := OutputOptions.format?_eq_none_iff.mpr htext
  cases d with
  | none =>
    have hshows := shows_printAll h
    unfold Report.document? at hshows
    rw [hnone] at hshows
    exact ⟨hshows.toSameStore, hshows.output_eq⟩
  | some p =>
    obtain ⟨_, w₁, hsave, h⟩ := run_bind_ok_iff.mp h
    obtain ⟨hresult, rfl⟩ := ofLogged_ok_iff.mp ((saveBytes_run k.bytes p _ w).symm.trans hsave)
    have hend := shows_printAll h
    have hlines : savedLines k p output = ["Keypair saved to: " ++ p.display ++ "\n"] := by
      unfold savedLines Report.document?
      rw [htext, hnone]
      rfl
    rw [hlines] at hend
    refine ⟨⟨?_, hresult, hend.files_eq⟩, hend.output_eq⟩
    rw [hend.stored_eq, (saveBytes_ok hsave).1]

/-- What is shown in text mode before anything is asked. -/
def shownTexts (k : Keypair) : List String := "=== Creating New Keypair ===\n" :: keyLines k

theorem generate_text (h : (generate options config output).run w = .ok () w')
    (htext : output.isJson = false) :
    ∃ s d asked, w.entropy.seed? = .ok s ∧ Asked options config d asked ∧
      Keeps (.ofSeed s) config.jsonFormat w w' d ∧
      w'.output = w.output ++ textBytes (shownTexts (.ofSeed s) ++ asked ++ savedTexts d) := by
  obtain ⟨s, d, w₁, hs, _, hd, h⟩ := generate_ok_iff.mp h
  obtain ⟨asked, hasked, hshown⟩ := destination_asked hd
  have hbefore := (shows_made w s output).trans hshown
  obtain ⟨hkeeps, houtput⟩ := settle_text h htext
  have hlines : madeLines s output = shownTexts (.ofSeed s) := by
    unfold madeLines generateBanner Report.lines
    rw [htext]
    rfl
  refine ⟨s, d, asked, hs, hasked, ?_, ?_⟩
  · cases d with
    | none => exact hbefore.toSameStore.trans hkeeps
    | some p =>
      obtain ⟨hstored, hresult, hfiles⟩ := hkeeps
      rw [hbefore.files_eq] at hresult hfiles
      rw [hbefore.stored_eq] at hstored
      exact ⟨hstored, hresult, hfiles⟩
  · rw [houtput, hbefore.output_eq, hlines]
    simp only [textBytes_append, List.append_assoc]

/-! ## Lines -/

theorem textBytes_eq_encode (texts : List String) :
    textBytes texts = Utf8.encode (texts.flatMap String.toList) := by
  induction texts with
  | nil => rfl
  | cons s texts ih =>
    rw [List.flatMap_cons, Utf8.encode_append, ← ih]
    rfl

theorem unbroken_base58 (b : Bytes) : Unbroken (Base58.encode b).toList := by
  have hfeed : '\n' ∉ Base58.alphabet := by decide
  have hreturn : '\r' ∉ Base58.alphabet := by decide
  rw [Base58.encode, String.toList_ofList]
  exact unbroken_of_not_mem (mt Base58.mem_alphabet hfeed) (mt Base58.mem_alphabet hreturn)

/-- The lines that are shown in text mode before anything is asked. -/
def shownLines (k : Keypair) : List (List Char) :=
  ["=== Creating New Keypair ===".toList, "Public Key: ".toList ++ k.publicKey.text.toList,
    "Base58 Secret Key: ".toList ++ k.secretText.toList]

theorem shownLines_unbroken (k : Keypair) : ∀ l ∈ shownLines k, Unbroken l := by
  have hbanner : Unbroken "=== Creating New Keypair ===".toList :=
    unbroken_of_not_mem (by decide) (by decide)
  have hpublic : Unbroken "Public Key: ".toList :=
    unbroken_of_not_mem (by decide) (by decide)
  have hsecret : Unbroken "Base58 Secret Key: ".toList :=
    unbroken_of_not_mem (by decide) (by decide)
  simp only [shownLines, List.forall_mem_cons, List.not_mem_nil, false_imp_iff, implies_true,
    and_true]
  exact ⟨hbanner, hpublic.append (unbroken_base58 _), hsecret.append (unbroken_base58 _)⟩

theorem toList_shownTexts (k : Keypair) :
    (shownTexts k).flatMap String.toList = (shownLines k).flatMap (· ++ ['\n']) := by
  simp [shownTexts, keyLines, shownLines, String.toList_append]

/-- The line that tells where a keypair was stored. -/
def savedLine (p : Path) : List Char := "Keypair saved to: ".toList ++ p.display.toList

/-- The question whether to store the keypair. -/
def question : List Char := "Do you want to save this keypair to a file? (y/n): ".toList

/-- Both questions, which stand in one line. -/
def prompt (config : Config) : List Char :=
  question ++ "Enter filename (default: ".toList ++ config.defaultOutfile.display.toList ++
    "): ".toList

/-- The lines behind those of the keys. -/
inductive Closes (options : GenerateOptions) (config : Config) :
    Option Path → List (List Char) → Prop
  | named {p : Path} : options.save.isSome = true → Closes options config (some p) [savedLine p]
  | unasked : options.save = none → Closes options config none []
  | declined : options.save = none →
      Closes options config none [[], question]
  | accepted {p : Path} : options.save = none →
      Closes options config (some p) [[], prompt config ++ savedLine p]

theorem savedLine_unbroken (h : p.Unbroken) : Unbroken (savedLine p) := by
  have hlabel : Unbroken "Keypair saved to: ".toList :=
    unbroken_of_not_mem (by decide) (by decide)
  exact hlabel.append h.display

theorem prompt_unbroken (h : 0x0A ∉ config.defaultOutfile) : Unbroken (prompt config) := by
  have hquestion : '\n' ∉ question := by decide
  have hname : '\n' ∉ "Enter filename (default: ".toList := by decide
  have hend : '\n' ∉ "): ".toList := by decide
  have hlast : "): ".toList.getLast? = some ' ' := by decide
  refine ⟨?_, ?_⟩
  · simp only [prompt, List.mem_append, not_or]
    exact ⟨⟨⟨hquestion, hname⟩, Path.no_feed_display h⟩, hend⟩
  · rw [prompt, List.getLast?_append, hlast, Option.some_or]
    decide

theorem toList_savedText (p : Path) :
    ("Keypair saved to: " ++ p.display ++ "\n").toList = savedLine p ++ ['\n'] := by
  rw [String.toList_append, String.toList_append]
  rfl

theorem toList_offer : offer.flatMap String.toList = '\n' :: question := by
  have hfeed : "\n".toList = ['\n'] := rfl
  unfold offer question
  rw [List.flatMap_cons, List.flatMap_singleton, hfeed, List.singleton_append]

theorem toList_questions (config : Config) :
    (offer ++ nameQuestion config).flatMap String.toList = '\n' :: prompt config := by
  rw [List.flatMap_append, toList_offer, nameQuestion, List.flatMap_singleton,
    String.toList_append, String.toList_append, List.cons_append, prompt, List.append_assoc,
    List.append_assoc, List.append_assoc]

theorem ofText_closing (hasked : Asked options config d asked)
    (hconfig : 0x0A ∉ config.defaultOutfile) (hd : ∀ p, d = some p → p.Unbroken) :
    ∃ closing, Closes options config d closing ∧
      ofText ((asked ++ savedTexts d).flatMap String.toList) = closing := by
  have hempty : Unbroken [] := unbroken_of_not_mem List.not_mem_nil List.not_mem_nil
  cases hasked with
  | @named p hsave =>
    have hline := (savedLine_unbroken (hd p rfl)).ofText_append []
    refine ⟨_, .named hsave, ?_⟩
    rw [List.nil_append, savedTexts, Option.map_some, Option.toList_some, List.flatMap_singleton,
      toList_savedText, hline]
    rfl
  | unasked hsave => exact ⟨_, .unasked hsave, rfl⟩
  | declined hsave =>
    have hquestion : ofText question = [question] := ofText_of_no_feed (by decide) (by decide)
    refine ⟨_, .declined hsave, ?_⟩
    rw [savedTexts, Option.map_none, Option.toList_none, List.append_nil, toList_offer,
      ← List.nil_append ('\n' :: question), hempty.ofText_append, hquestion]
  | @accepted p hsave =>
    have hline := (prompt_unbroken hconfig).append (savedLine_unbroken (hd p rfl))
    refine ⟨_, .accepted hsave, ?_⟩
    rw [savedTexts, Option.map_some, Option.toList_some, List.flatMap_append, toList_questions,
      List.flatMap_singleton, toList_savedText, List.cons_append, ← List.append_assoc,
      ← List.nil_append ('\n' :: _), hempty.ofText_append, hline.ofText_append []]
    rfl

/-- The lines of a run that makes a keypair. -/
theorem generate_ofText (h : (generate options config output).run w = .ok () w')
    (htext : output.isJson = false) (hconfig : 0x0A ∉ config.defaultOutfile)
    (hstored : ∀ p, w'.stored = w.stored ++ [p] → p.Unbroken) :
    ∃ s d closing text, w.entropy.seed? = .ok s ∧ Closes options config d closing ∧
      Keeps (.ofSeed s) config.jsonFormat w w' d ∧ w'.output = w.output ++ Utf8.encode text ∧
      ofText text = shownLines (.ofSeed s) ++ closing := by
  obtain ⟨s, d, asked, hs, hasked, hkeeps, houtput⟩ := generate_text h htext
  have hd (p : Path) (hp : d = some p) : p.Unbroken := by
    rw [hp] at hkeeps
    exact hstored p hkeeps.stored_eq
  obtain ⟨closing, hcloses, hclosing⟩ := ofText_closing hasked hconfig hd
  rw [textBytes_eq_encode] at houtput
  refine ⟨s, d, closing, _, hs, hcloses, hkeeps, houtput, ?_⟩
  rw [List.append_assoc, List.flatMap_append, toList_shownTexts,
    ofText_flatMap (shownLines_unbroken _), hclosing]

/-! ## What is read back -/

section
variable {closing : List (List Char)} {text : List Char}

theorem values_publicKey (h : Closes options config d closing)
    (hlines : ofText text = shownLines k ++ closing) :
    values "Public Key: " text = [k.publicKey.text.toList] := by
  rw [values, hlines]
  cases h <;> rfl

theorem values_secretKey (h : Closes options config d closing)
    (hlines : ofText text = shownLines k ++ closing) :
    values "Base58 Secret Key: " text = [k.secretText.toList] := by
  rw [values, hlines]
  cases h <;> rfl

theorem values_saved (h : Closes options config d closing)
    (hlines : ofText text = shownLines k ++ closing) :
    values "Keypair saved to: " text =
      if options.save.isSome then d.toList.map fun p => p.display.toList else [] := by
  rw [values, hlines]
  cases h with
  | named hsave =>
    rw [if_pos hsave]
    rfl
  | unasked hsave | declined hsave | accepted hsave =>
    rw [hsave]
    rfl

end

/-- In text mode each key stands behind its label in a line of its own. Where a file was asked for,
the line with the label of a stored keypair is there if and only if one was stored, and shows its
path. A user who is asked first has the path shown behind the questions, in their line. -/
theorem generate_lines (h : (generate options config output).run w = .ok () w')
    (htext : output.isJson = false) (hconfig : 0x0A ∉ config.defaultOutfile)
    (hstored : ∀ p, w'.stored = w.stored ++ [p] → p.Unbroken) :
    ∃ s text, w.entropy.seed? = .ok s ∧ w'.output = w.output ++ Utf8.encode text ∧
      values "Public Key: " text = [(Keypair.ofSeed s).publicKey.text.toList] ∧
      values "Base58 Secret Key: " text = [(Keypair.ofSeed s).secretText.toList] ∧
      (SameStore w w' ∧ values "Keypair saved to: " text = [] ∨
        ∃ p, SavesAt (.ofSeed s) p config.jsonFormat w w' ∧
          (options.save.isSome = true → values "Keypair saved to: " text = [p.display.toList]) ∧
          (options.save = none → values "Keypair saved to: " text = [] ∧
            (ofText text).getLast? = some (prompt config ++ savedLine p))) := by
  obtain ⟨s, d, closing, text, hs, hcloses, hkeeps, houtput, hlines⟩ :=
    generate_ofText h htext hconfig hstored
  refine ⟨s, text, hs, houtput, values_publicKey hcloses hlines,
    values_secretKey hcloses hlines, ?_⟩
  have hsaved := values_saved hcloses hlines
  cases hcloses with
  | named hsave =>
    rw [if_pos hsave] at hsaved
    refine .inr ⟨_, hkeeps, fun _ => hsaved, fun hnone => ?_⟩
    rw [hnone] at hsave
    cases hsave
  | unasked hsave | declined hsave =>
    rw [hsave] at hsaved
    exact .inl ⟨hkeeps, hsaved⟩
  | accepted hsave =>
    rw [hsave] at hsaved
    refine .inr ⟨_, hkeeps, fun hsome => ?_, fun _ => ⟨hsaved, ?_⟩⟩
    · rw [hsave] at hsome
      cases hsome
    · rw [hlines]
      rfl

/-- With room for all output, a keypair is stored in the file that was chosen if that file can be
written. -/
theorem generate_chosen {s : Seed} (hroom : w.room = none) (hs : w.entropy.seed? = .ok s)
    (hchoice : (choice options config w.input).result = .ok (some p))
    (hsave : (save w.files [] p .compact).2.result = .ok ()) :
    ∃ w', (generate options config output).run w = .ok () w' ∧ w'.stored = w.stored ++ [p] := by
  have hsaved : (save w.files (Keypair.ofSeed s).bytes p config.jsonFormat).2.result = .ok () :=
    (save_result_eq _ _ _ _ _ _).trans hsave
  have hends := generate_ends options config output hroom
  have hresult : (generate options config output).result w = .ok () := by
    obtain ⟨hresult, _⟩ := Prod.mk.inj (hends.settled hs)
    rw [hresult, hchoice]
    exact congrArg (Except.mapError Failure.keypair) hsaved
  refine ⟨_, run_eq_ok_iff.mpr ⟨hresult, rfl⟩, ?_⟩
  rw [hresult] at hends
  cases hends with
  | shown _ hc _ =>
    rw [hchoice] at hc
    cases hc
  | stored _ hc hsave' hsaves =>
    rw [hchoice] at hc
    cases hc
    rw [hsaves.stored_eq, save_messages hsave']
    rfl

/-- A keypair that is stored through a link in the standard file. -/
theorem generate_lines_link :
    ∃ s w' text, (generate { save := some none } { defaultOutfile := [0x6B] } {}).run
        { files := Keypair.linkedTree } = .ok () w' ∧ w'.output = Utf8.encode text ∧
      values "Public Key: " text = [(Keypair.ofSeed s).publicKey.text.toList] ∧
      values "Base58 Secret Key: " text = [(Keypair.ofSeed s).secretText.toList] ∧
      values "Keypair saved to: " text = [['k']] := by
  have hsave : (save Keypair.linkedTree [] [0x6B] .compact).2.result = .ok () := by cbv
  obtain ⟨s, hs⟩ : ∃ s, (Entropy.ofBytes []).seed? = .ok s := ⟨_, rfl⟩
  obtain ⟨w', h, hp⟩ := @generate_chosen { save := some none } { defaultOutfile := [0x6B] } {}
    { files := Keypair.linkedTree } [0x6B] s rfl hs rfl hsave
  have hpath (p : Path) (hq : w'.stored = World.stored { files := Keypair.linkedTree } ++ [p]) :
      p.Unbroken := by
    rw [hp] at hq
    cases List.append_cancel_left hq
    exact ⟨by decide, by decide⟩
  obtain ⟨s', text, _, houtput, hpublic, hsecret, hend⟩ :=
    generate_lines h rfl (by decide) hpath
  refine ⟨s', w', text, h, houtput, hpublic, hsecret, ?_⟩
  rcases hend with ⟨hsame, _⟩ | ⟨p, hsaves, hline, _⟩
  · rw [hsame.stored_eq] at hp
    cases hp
  · rw [hsaves.stored_eq] at hp
    cases hp
    have hdisplay : (Path.display [0x6B]).toList = ['k'] := by cbv
    rw [← hdisplay]
    exact hline rfl

/-- The path that a user names is shown behind the questions: no line starts with its label. -/
theorem saved_behind_questions :
    ∃ w' text, (generate { interactive := true } {} {}).run
        { files := Keypair.linkedTree, input := Utf8.ofString "y\nk\n" } = .ok () w' ∧
      0x0A ∉ ({} : Config).defaultOutfile ∧ Path.Unbroken [0x6B] ∧ w'.stored = [[0x6B]] ∧
      w'.output = Utf8.encode text ∧ values "Keypair saved to: " text = [] := by
  have hsave : (save Keypair.linkedTree [] [0x6B] .compact).2.result = .ok () := by cbv
  have hchoice : (choice { interactive := true } {} (Utf8.ofString "y\nk\n")).result =
      .ok (some [0x6B]) := by cbv
  obtain ⟨s, hs⟩ : ∃ s, (Entropy.ofBytes []).seed? = .ok s := ⟨_, rfl⟩
  obtain ⟨w', h, hp⟩ := @generate_chosen { interactive := true } {} {}
    { files := Keypair.linkedTree, input := Utf8.ofString "y\nk\n" } [0x6B] s rfl hs hchoice hsave
  have hconfig : 0x0A ∉ ({} : Config).defaultOutfile := by decide
  have hpath : Path.Unbroken [0x6B] := ⟨by decide, by decide⟩
  obtain ⟨_, _, _, text, _, hcloses, _, houtput, hlines⟩ := generate_ofText h rfl hconfig
    fun p hq => by
      rw [hp] at hq
      cases List.append_cancel_left hq
      exact hpath
  exact ⟨w', text, h, hconfig, hpath, hp, houtput, values_saved hcloses hlines⟩

end Keyfile.Command
