import Keyfile.Proofs.Command.Choice
import Keyfile.Proofs.Text.Blank

/-!
# What a user asks for

`Settles` tells where a new keypair is to be stored and how much input is read for that, in terms of
lines, text and white space rather than of the steps that read them. A run with a seed and with room
for all output does exactly what its options and its input settle.
-/
namespace Keyfile.Command
open Keyfile.Action

/-! ## Lines -/

/-- The first line of an input with its line feed, or all of the input if no line ends, and what is
behind it. -/
inductive FirstLine : (input line rest : Bytes) → Prop
  | ended {body rest : Bytes} : 0x0A ∉ body →
      FirstLine (body ++ 0x0A :: rest) (body ++ [0x0A]) rest
  | last {input : Bytes} : 0x0A ∉ input → FirstLine input input []

variable {input line rest : Bytes}

theorem takeWhile_of_notMem {body : Bytes} (h : 0x0A ∉ body) :
    body.takeWhile (· ≠ 0x0A) = body := by
  refine List.takeWhile_eq_self_iff.mpr ?_
  intro x hx
  refine decide_eq_true ?_
  rintro rfl
  exact h hx

theorem FirstLine.splitLine_eq (h : FirstLine input line rest) :
    splitLine input = (line, rest) := by
  unfold splitLine
  dsimp only
  cases h with
  | @ended body rest hbody =>
    have hall : ∀ x ∈ body, decide (x ≠ 0x0A) = true := List.takeWhile_eq_self_iff.mp
      (takeWhile_of_notMem hbody)
    have htake : (body ++ 0x0A :: rest).takeWhile (· ≠ 0x0A) = body := by
      rw [List.takeWhile_append_of_pos hall, List.takeWhile_cons_of_neg (by decide),
        List.append_nil]
    rw [htake, List.drop_left]
  | last hinput =>
    rw [takeWhile_of_notMem hinput, List.drop_length]

theorem exists_firstLine (input : Bytes) : ∃ line rest, FirstLine input line rest := by
  by_cases h : 0x0A ∈ input
  · obtain ⟨body, rest, rfl, hbody⟩ := List.eq_append_cons_of_mem h
    exact ⟨_, _, .ended hbody⟩
  · exact ⟨_, _, .last h⟩

theorem firstLine_iff : FirstLine input line rest ↔ splitLine input = (line, rest) := by
  constructor
  · exact FirstLine.splitLine_eq
  · intro h
    obtain ⟨line', rest', hfirst⟩ := exists_firstLine input
    rw [hfirst.splitLine_eq] at h
    cases h
    exact hfirst

/-! ## Answers -/

/-- An answer is a word of small letters, each of which may be a capital instead. -/
def Spells (word answer : List Char) : Prop :=
  List.Forall₂ (fun letter c => c = letter ∨ c = letter.toUpper) word answer

theorem toLower_eq_iff {c letter : Char} (h : letter.isLower = true) :
    c.toLower = letter ↔ c = letter ∨ c = letter.toUpper := by
  have hletter : ¬ letter.isUpper = true := Char.not_isUpper_of_isLower h
  have hsame : letter.toLower = letter := Char.toLower_eq_of_not_isUpper hletter
  constructor
  · rintro rfl
    by_cases hc : c.isUpper = true
    · rw [Char.toUpper_toLower_eq_toUpper,
        Char.toUpper_eq_of_not_isLower (Char.not_isLower_of_isUpper hc)]
      exact .inr rfl
    · exact .inl (Char.toLower_eq_of_not_isUpper hc).symm
  · rintro (rfl | rfl)
    · exact hsame
    · rw [Char.toLower_toUpper_eq_toLower, hsame]

theorem map_toLower_eq_iff {word answer : List Char} (h : ∀ c ∈ word, c.isLower = true) :
    answer.map Char.toLower = word ↔ Spells word answer := by
  induction answer generalizing word with
  | nil =>
    rw [List.map_nil, Spells, List.forall₂_nil_right_iff, eq_comm]
  | cons c answer ih =>
    cases word with
    | nil =>
      rw [Spells, List.forall₂_nil_left_iff]
      exact iff_of_false nofun nofun
    | cons letter word =>
      have hrest : answer.map Char.toLower = word ↔ Spells word answer :=
        ih fun d hd => h d (List.mem_cons_of_mem letter hd)
      rw [List.map_cons, List.cons.injEq, hrest, toLower_eq_iff (h letter List.mem_cons_self)]
      unfold Spells
      rw [List.forall₂_cons]

/-- An answer by which a user agrees. -/
def Agreement (reply : List Char) : Prop := Spells ['y'] reply ∨ Spells ['y', 'e', 's'] reply

theorem agrees_iff {reply : List Char} : agrees reply = true ↔ Agreement reply := by
  have hshort : ∀ c ∈ ['y'], c.isLower = true := by simp
  have hlong : ∀ c ∈ ['y', 'e', 's'], c.isLower = true := by simp
  unfold agrees Agreement
  rw [← map_toLower_eq_iff hshort, ← map_toLower_eq_iff hlong, Bool.or_eq_true,
    decide_eq_true_eq, decide_eq_true_eq]

/-- The first line of an input is no text. -/
def Garbled (input rest : Bytes) : Prop :=
  ∃ line, FirstLine input line rest ∧ ∀ text, line ≠ Utf8.encode text

/-- The first line of an input is this reply, with or without white space around it. -/
def Replies (input : Bytes) (reply : List Char) (rest : Bytes) : Prop :=
  ∃ text, FirstLine input (Utf8.encode text) rest ∧ Blank.Trims text reply

theorem garbled_iff :
    Garbled input rest ↔ answer input = .error .inputNotText ∧ (splitLine input).2 = rest := by
  unfold Garbled answer
  simp only [firstLine_iff, ← Utf8.decode?_eq_none_iff]
  constructor
  · rintro ⟨line, hsplit, hnone⟩
    rw [hsplit, hnone]
    exact ⟨rfl, rfl⟩
  · rintro ⟨hanswer, rfl⟩
    refine ⟨(splitLine input).1, rfl, ?_⟩
    split at hanswer
    · assumption
    · cases hanswer

theorem replies_iff {reply : List Char} :
    Replies input reply rest ↔ answer input = .ok reply ∧ (splitLine input).2 = rest := by
  unfold Replies answer
  simp only [firstLine_iff, ← Blank.trim_eq_iff]
  constructor
  · rintro ⟨text, hsplit, rfl⟩
    rw [hsplit, Utf8.decode?_encode]
    exact ⟨rfl, rfl⟩
  · rintro ⟨hanswer, rfl⟩
    split at hanswer
    · cases hanswer
    · rename_i text htext
      cases hanswer
      exact ⟨text, Prod.ext (Utf8.decode?_eq_some_iff.mp htext) rfl, rfl⟩

theorem not_inputNotText_of_answer {e : Failure} (h : answer input = .error e) :
    e = .inputNotText := by
  unfold answer at h
  split at h
  · cases h
    rfl
  · cases h

/-! ## Destinations -/

/-- Where options, settings and input say that a new keypair is to be stored, if anywhere, or why
they do not say it, and the input that is not read for that. -/
inductive Settles (options : GenerateOptions) (config : Config) (input : Bytes) :
    Except Failure (Option Path) → (unread : Bytes) → Prop
  | named {p : Path} : options.save = some (some p) →
      Settles options config input (.ok (some p)) input
  | standard : options.save = some none →
      Settles options config input (.ok (some config.defaultOutfile)) input
  | unasked : options.save = none → options.interactive = false →
      Settles options config input (.ok none) input
  | garbled {rest : Bytes} : options.save = none → options.interactive = true →
      Garbled input rest → Settles options config input (.error .inputNotText) rest
  | declined {reply : List Char} {rest : Bytes} :
      options.save = none → options.interactive = true → Replies input reply rest →
      ¬ Agreement reply → Settles options config input (.ok none) rest
  | nameGarbled {reply : List Char} {left rest : Bytes} :
      options.save = none → options.interactive = true → Replies input reply left →
      Agreement reply → Garbled left rest →
      Settles options config input (.error .inputNotText) rest
  | unnamed {reply : List Char} {left rest : Bytes} :
      options.save = none → options.interactive = true → Replies input reply left →
      Agreement reply → Replies left [] rest →
      Settles options config input (.ok (some config.defaultOutfile)) rest
  | typed {reply name : List Char} {left rest : Bytes} :
      options.save = none → options.interactive = true → Replies input reply left →
      Agreement reply → Replies left name rest → name ≠ [] →
      Settles options config input (.ok (some (Utf8.encode name))) rest

variable {options : GenerateOptions} {config : Config} {output : OutputOptions}
  {r : Except Failure (Option Path)} {unread : Bytes}

theorem choice_of_asked (hsave : options.save = none) (hasked : options.interactive = true) :
    choice options config input = offerChoice config input := by
  unfold choice
  rw [hsave, hasked]
  rfl

theorem offerChoice_of_agreement {reply : List Char} {left : Bytes}
    (hreply : Replies input reply left) (hagrees : Agreement reply) :
    (offerChoice config input).result =
        (answer left).map (fun name => some (namedFile config name)) ∧
      (offerChoice config input).unread = (splitLine left).2 := by
  obtain ⟨hanswer, rfl⟩ := replies_iff.mp hreply
  unfold offerChoice
  rw [hanswer]
  dsimp only
  rw [if_pos (agrees_iff.mpr hagrees)]
  exact ⟨rfl, rfl⟩

theorem Settles.choice_eq (h : Settles options config input r unread) :
    (choice options config input).result = r ∧ (choice options config input).unread = unread := by
  cases h with
  | named hsave =>
    unfold choice
    rw [hsave]
    exact ⟨rfl, rfl⟩
  | standard hsave =>
    unfold choice
    rw [hsave]
    exact ⟨rfl, rfl⟩
  | unasked hsave hasked =>
    unfold choice
    rw [hsave, hasked]
    exact ⟨rfl, rfl⟩
  | garbled hsave hasked hline =>
    obtain ⟨hanswer, rfl⟩ := garbled_iff.mp hline
    rw [choice_of_asked hsave hasked]
    unfold offerChoice
    rw [hanswer]
    exact ⟨rfl, rfl⟩
  | declined hsave hasked hreply hrefused =>
    obtain ⟨hanswer, rfl⟩ := replies_iff.mp hreply
    rw [choice_of_asked hsave hasked]
    unfold offerChoice
    rw [hanswer]
    dsimp only
    rw [if_neg (mt agrees_iff.mp hrefused)]
    exact ⟨rfl, rfl⟩
  | nameGarbled hsave hasked hreply hagrees hname =>
    obtain ⟨hanswer, rfl⟩ := garbled_iff.mp hname
    obtain ⟨hresult, hunread⟩ := @offerChoice_of_agreement _ config _ _ hreply hagrees
    rw [choice_of_asked hsave hasked, hresult, hunread, hanswer]
    exact ⟨rfl, rfl⟩
  | unnamed hsave hasked hreply hagrees hname =>
    obtain ⟨hanswer, rfl⟩ := replies_iff.mp hname
    obtain ⟨hresult, hunread⟩ := @offerChoice_of_agreement _ config _ _ hreply hagrees
    rw [choice_of_asked hsave hasked, hresult, hunread, hanswer]
    exact ⟨rfl, rfl⟩
  | @typed _ name _ _ hsave hasked hreply hagrees hname hne =>
    obtain ⟨hanswer, rfl⟩ := replies_iff.mp hname
    obtain ⟨hresult, hunread⟩ := @offerChoice_of_agreement _ config _ _ hreply hagrees
    have hnamed : namedFile config name = Utf8.encode name := by
      unfold namedFile
      rw [if_neg (by simpa using hne)]
    rw [choice_of_asked hsave hasked, hresult, hunread, hanswer, ← hnamed]
    exact ⟨rfl, rfl⟩

/-- Options, settings and input always settle it. -/
theorem exists_settles (options : GenerateOptions) (config : Config) (input : Bytes) :
    ∃ r unread, Settles options config input r unread := by
  rcases hsave : options.save with _ | _ | p
  · cases hasked : options.interactive with
    | false => exact ⟨_, _, .unasked hsave hasked⟩
    | true =>
      cases hfirst : answer input with
      | error e =>
        rw [not_inputNotText_of_answer hfirst] at hfirst
        exact ⟨_, _, .garbled hsave hasked (garbled_iff.mpr ⟨hfirst, rfl⟩)⟩
      | ok reply =>
        have hreply := replies_iff.mpr ⟨hfirst, rfl⟩
        by_cases hagrees : Agreement reply
        · cases hsecond : answer (splitLine input).2 with
          | error e =>
            rw [not_inputNotText_of_answer hsecond] at hsecond
            have hname := garbled_iff.mpr ⟨hsecond, rfl⟩
            exact ⟨_, _, .nameGarbled hsave hasked hreply hagrees hname⟩
          | ok name =>
            have hname := replies_iff.mpr ⟨hsecond, rfl⟩
            by_cases hne : name = []
            · rw [hne] at hname
              exact ⟨_, _, .unnamed hsave hasked hreply hagrees hname⟩
            · exact ⟨_, _, .typed hsave hasked hreply hagrees hname hne⟩
        · exact ⟨_, _, .declined hsave hasked hreply hagrees⟩
  · exact ⟨_, _, .standard hsave⟩
  · exact ⟨_, _, .named hsave⟩

theorem settles_iff : Settles options config input r unread ↔
    r = (choice options config input).result ∧
      unread = (choice options config input).unread := by
  constructor
  · intro h
    exact ⟨h.choice_eq.1.symm, h.choice_eq.2.symm⟩
  · rintro ⟨rfl, rfl⟩
    obtain ⟨r, unread, h⟩ := exists_settles options config input
    rw [h.choice_eq.1, h.choice_eq.2]
    exact h

/-! ## Runs -/

/-- How a run ends, and the file tree that it leaves, once it is settled where its bytes are to be
stored. -/
def settledEnd (files : FileSystem) (b : Bytes) (f : JsonFormat) :
    Except Failure (Option Path) → Except Failure Unit × FileSystem
  | .error e => (.error e, files)
  | .ok none => (.ok (), files)
  | .ok (some p) => ((save files b p f).2.result.mapError .keypair, (save files b p f).1)

variable {w : World} {s : Seed}

theorem Ends.settled {r : Except Failure Unit} {w' : World}
    (h : Ends options config output w r w') (hs : w.entropy.seed? = .ok s) :
    (r, w'.files) = settledEnd w.files (Keypair.ofSeed s).bytes config.jsonFormat
      (choice options config w.input).result := by
  cases h with
  | unseeded hs' _ =>
    rw [hs] at hs'
    cases hs'
  | unanswered _ hc hshows =>
    rw [hc, hshows.files_eq]
    rfl
  | shown _ hc hshows =>
    rw [hc, hshows.files_eq]
    rfl
  | refused hs' hc hsave hsaves =>
    rw [hs] at hs'
    cases hs'
    rw [hc, hsaves.files_eq, settledEnd, hsave]
    rfl
  | stored hs' hc hsave hsaves =>
    rw [hs] at hs'
    cases hs'
    rw [hc, hsaves.files_eq, settledEnd, hsave]
    rfl

theorem settle_input {k : Keypair} (h : w.room = none) (d : Option Path) :
    ((settle k config output d).after w).input = w.input := by
  have hprinted {v : World} (hv : v.room = none) (texts : List String) :
      ((printAll texts).after v).input = v.input := by
    rw [(run_eq_ok_iff.mp (printAll_run hv texts)).2]
    rfl
  cases d with
  | none => exact hprinted h _
  | some p =>
    have hsaved := saveBytes_after k.bytes p config.jsonFormat w
    have hinput : ((saveBytes k.bytes p config.jsonFormat).after w).input = w.input := by
      rw [hsaved]
      rfl
    have hroom : ((saveBytes k.bytes p config.jsonFormat).after w).room = none := by
      rw [hsaved]
      exact h
    unfold settle
    cases hr : (saveBytes k.bytes p config.jsonFormat).result w with
    | error e => rw [after_bind_of_error hr, hinput]
    | ok _ => rw [after_bind_of_ok hr, hprinted hroom, hinput]

/-- The input that a run leaves is what its choice leaves. -/
theorem generate_input (h : w.room = none) (hs : w.entropy.seed? = .ok s) :
    ((generate options config output).after w).input =
      (choice options config w.input).unread := by
  have hroom := (@prepare_of_ok options config output w s h hs).2.2
  have hmade : (made w s output).room = none := World.room_printed h _
  have hinput : ((prepare options config output).after w).input =
      (choice options config w.input).unread := by
    rw [(prepare_eq_destination h hs).2, (destination_follows options hmade).2.unread_eq]
    rfl
  rw [generate_eq_prepare]
  cases hr : (prepare options config output).result w with
  | error e => rw [after_bind_of_error hr, hinput]
  | ok m => rw [after_bind_of_ok hr, settle_input hroom, hinput]

/-- A run that makes a keypair stores it where, and only where, options, settings and input settle
that it is to be stored, and fails as storing it there fails. It leaves all input but the lines by
which that was settled. -/
theorem generate_settled (options : GenerateOptions) (config : Config) (output : OutputOptions)
    (h : w.room = none) (hs : w.entropy.seed? = .ok s) :
    ∃ r unread,
      (∀ r' unread', Settles options config w.input r' unread' ↔ r' = r ∧ unread' = unread) ∧
      ((generate options config output).result w,
          ((generate options config output).after w).files) =
        settledEnd w.files (Keypair.ofSeed s).bytes config.jsonFormat r ∧
      ((generate options config output).after w).input = unread :=
  ⟨_, _, fun _ _ => settles_iff, (generate_ends options config output h).settled hs,
    generate_input h hs⟩

/-- A user agrees in capitals, on a line that ends in a carriage return as well, and names a link
with white space around it; the line behind that is not read. -/
theorem generate_settled_typed : ∃ s,
    let w : World :=
      { files := Keypair.linkedTree, input := Utf8.ofString "\tYeS \r\n k \nn\n" }
    let run := generate { interactive := true } {} {}
    run.result w = .ok () ∧ (run.after w).input = Utf8.ofString "n\n" ∧
      (run.after w).files =
        (save Keypair.linkedTree (Keypair.ofSeed s).bytes [0x6B] .pretty).1 := by
  obtain ⟨s, hs⟩ : ∃ s, (Entropy.ofBytes []).seed? = .ok s := ⟨_, rfl⟩
  obtain ⟨r, unread, hsettles, hends, hinput⟩ := @generate_settled
    { files := Keypair.linkedTree, input := Utf8.ofString "\tYeS \r\n k \nn\n" } s
    { interactive := true } {} {} rfl hs
  have hchoice : (choice { interactive := true } {}
      (Utf8.ofString "\tYeS \r\n k \nn\n")).result = .ok (some [0x6B]) := by cbv
  have hunread : (choice { interactive := true } {}
      (Utf8.ofString "\tYeS \r\n k \nn\n")).unread = Utf8.ofString "n\n" := by cbv
  obtain ⟨rfl, rfl⟩ := (hsettles _ _).mp (settles_iff.mpr ⟨hchoice.symm, hunread.symm⟩)
  have hsave : (save Keypair.linkedTree (Keypair.ofSeed s).bytes [0x6B] .pretty).2.result =
      .ok () := by
    rw [save_result_eq _ _ _ [] _ .pretty]
    cbv
  obtain ⟨hresult, hfiles⟩ := Prod.mk.inj hends
  refine ⟨s, ?_, hinput, hfiles⟩
  rw [hresult]
  exact congrArg (Except.mapError Failure.keypair) hsave

end Keyfile.Command
