import Keyfile.Proofs.Arguments
import Keyfile.Proofs.Json.Object
import Keyfile.Proofs.Program.Run

/-!
# Runs that are asked for a JSON document

Such a run writes one whole document and nothing else, or it fails and writes nothing.
-/
namespace Keyfile
open Keyfile.Json OutputOptions

/-! ## The document -/

/-- The text is one JSON object with these members, from its first character to its last. -/
structure IsObject (doc : List Char) (members : List (String × Json)) : Prop where
  opens : doc.head? = some '\x7b'
  closes : doc.getLast? = some '\x7d'
  read_eq : Json.read doc = .ok (.object members)

/-- The report on a keypair that was stored somewhere or not. -/
def Report.ofStored (k : Keypair) (saved : Option Path) : Report :=
  { Report.ofKeypair k with savedTo := saved.map Path.display }

/-- The members of the document on a keypair, in the order of their names. -/
def documentMembers (k : Keypair) (saved : Option Path) : List (String × Json) :=
  ("pubkey", .string k.publicKey.text) ::
    ((saved.map fun p => ("saved_to", Json.string p.display)).toList ++
      [("secret_base58", .string k.secretText)])

theorem render_object_ends (f : JsonFormat) (ms : List (String × Json)) :
    ∃ t, (f.render (.object ms)).toList = '\x7b' :: t ++ ['\x7d'] := by
  cases f with
  | compact =>
    rw [JsonFormat.render, compact, String.toList_ofList, compactChars]
    exact ⟨_, rfl⟩
  | pretty =>
    rw [JsonFormat.render, indented, String.toList_ofList]
    cases ms with
    | nil =>
      rw [indentedChars]
      exact ⟨[], rfl⟩
    | cons m ms =>
      rw [indentedChars]
      exact ⟨_, rfl⟩

/-- The text of the document on a keypair. -/
def documentText (f : JsonFormat) (k : Keypair) (saved : Option Path) : List Char :=
  (f.render (.object (Report.ofStored k saved).members)).toList

theorem sortedMembers_ofStored (k : Keypair) (saved : Option Path) :
    (Report.ofStored k saved).sortedMembers = documentMembers k saved := by
  cases saved <;> rfl

theorem isObject_documentText (f : JsonFormat) (k : Keypair) (saved : Option Path) :
    IsObject (documentText f k saved) (documentMembers k saved) := by
  obtain ⟨t, ht⟩ := render_object_ends f (Report.ofStored k saved).members
  refine ⟨?_, ?_, ?_⟩
  · rw [documentText, ht]
    rfl
  · rw [documentText, ht]
    exact List.getLast?_concat
  · rw [← sortedMembers_ofStored]
    exact read_eq_ok_iff.mpr (Report.document_documentChars f _)

/-! ## Commands that show the document only -/

namespace Command
variable {options : GenerateOptions} {config : Config} {output : OutputOptions} {w w' : World}

theorem lines_json (h : output.isJson = true) (k : Keypair) :
    (Report.ofKeypair k).lines output = [] := by
  rw [Report.lines, if_pos h]

theorem generateBanner_json (h : output.isJson = true) : generateBanner output = [] := by
  rw [generateBanner, if_pos h]

theorem loadLines_json (h : output.isJson = true) (p : Path) (r : Except KeypairError Keypair) :
    loadLines p output r =
      match r with
      | .error _ => []
      | .ok k => ((Report.ofStored k none).document? output).toList := by
  unfold loadLines loadBanner
  rw [if_pos h]
  cases r with
  | error _ => rfl
  | ok k =>
    dsimp only
    rw [lines_json h]
    rfl

theorem savedLines_json (h : output.isJson = true) (k : Keypair) (p : Path) :
    savedLines k p output = ((Report.ofStored k (some p)).document? output).toList := by
  unfold savedLines
  rw [if_pos h]
  rfl

/-- Questions would be written among the output, but JSON excludes that they are asked. -/
theorem settledLines_json (h : output.isJson = true) (hi : options.interactive = false)
    (s : Seed) (input : Bytes) : settledLines s options config output input = [] := by
  have hasked : (choice options config input).asked = [] := by
    unfold choice
    cases options.save with
    | some _ => rfl
    | none =>
      rw [hi]
      rfl
  rw [settledLines, madeLines, generateBanner_json h, lines_json h, hasked]
  rfl

/-- One whole document in a layout has been written and nothing else, on a keypair that is stored
where the document says, or no file has changed. -/
structure WritesDocument (w : World) (f : JsonFormat) (k : Keypair) (saved : Option Path)
    (w' : World) : Prop where
  output_eq : w'.output = w.output ++ Utf8.encode (documentText f k saved ++ ['\n'])
  isObject : IsObject (documentText f k saved) (documentMembers k saved)
  stored_eq : w'.stored = w.stored ++ saved.toList
  files_eq : saved = none → w'.files = w.files
  holds {p : Path} : saved = some p → ∃ f l, Holds w'.files k.bytes p f l

theorem writesDocument_of_shows {f : JsonFormat} (hf : output.format? = some f) {k : Keypair}
    (h : Shows w (textBytes ((Report.ofStored k none).document? output).toList) w') :
    WritesDocument w f k none w' := by
  have houtput := h.output_eq
  rw [Report.textBytes_document hf] at houtput
  exact ⟨houtput, isObject_documentText f k none, h.stored_eq.trans (List.append_nil _).symm,
    fun _ => h.files_eq, nofun⟩

theorem Ends.document {r : Except Failure Unit} (h : Ends options config output w r w')
    (hjson : output.isJson = true) (hi : options.interactive = false) {f : JsonFormat}
    (hf : output.format? = some f) :
    (r = .ok () ∧ ∃ k saved, WritesDocument w f k saved w') ∨
      ((∃ e, r = .error e) ∧ w'.output = w.output) := by
  cases h with
  | unseeded _ hshows =>
    rw [generateBanner_json hjson] at hshows
    exact .inr ⟨⟨_, rfl⟩, hshows.output_eq.trans (List.append_nil _)⟩
  | unanswered _ _ hshows =>
    rw [settledLines_json hjson hi] at hshows
    exact .inr ⟨⟨_, rfl⟩, hshows.output_eq.trans (List.append_nil _)⟩
  | @shown s _ _ _ hshows =>
    rw [settledLines_json hjson hi] at hshows
    exact .inl ⟨rfl, .ofSeed s, none, writesDocument_of_shows (k := .ofSeed s) hf hshows⟩
  | refused _ _ _ hsaves =>
    have houtput := hsaves.output_eq
    rw [settledLines_json hjson hi] at houtput
    exact .inr ⟨⟨_, rfl⟩, houtput.trans (List.append_nil _)⟩
  | @stored s p _ _ _ hsave hsaves =>
    have houtput := hsaves.output_eq
    rw [settledLines_json hjson hi, List.nil_append, savedLines_json hjson,
      Report.textBytes_document hf] at houtput
    have hstored : w'.stored = w.stored ++ [p] := by
      rw [hsaves.stored_eq, save_messages hsave]
      rfl
    obtain ⟨_, l, hfile⟩ := save_ok hsave
    rw [← hsaves.files_eq] at hfile
    refine .inl ⟨rfl, .ofSeed s, some p, houtput, isObject_documentText f _ _, hstored, nofun, ?_⟩
    intro q hq
    cases hq
    exact ⟨_, l, hfile.holds⟩

end Command

namespace Program
open Keyfile.Command
variable {args : List Bytes} {w : World} {a : Arguments}

theorem not_interactive (hread : Arguments.read args = .ok (.run a))
    (hjson : a.json = true ∨ a.jsonCompact = true) : a.interactive = false := by
  by_contra hi
  rw [Bool.not_eq_false] at hi
  rcases hjson with hj | hj
  · exact Arguments.not_excludes_of_uses (s := .interactive) (t := .json) hread hi hj (by decide)
  · exact Arguments.not_excludes_of_uses (s := .interactive) (t := .jsonCompact) hread hi hj
      (by decide)

/-- A run that is asked for JSON succeeds and writes one document in the layout that is asked for,
with one line feed behind it, or it fails and writes nothing. -/
theorem json_document (env : Environment) (h : w.room = none)
    (hread : Arguments.read args = .ok (.run a)) (hjson : a.json = true ∨ a.jsonCompact = true) :
    ((run args env w).exitCode = 0 ∧
      ∃ f k saved, a.output.format? = some f ∧
        WritesDocument w f k saved (run args env w).world) ∨
    ((run args env w).exitCode = 1 ∧ (run args env w).world.output = w.output) := by
  have hmode : a.output.isJson = true := Bool.or_eq_true_iff.mpr hjson
  have hcourse := command_course a env h
  rw [run_eq_outcome env w hread, world_outcome]
  generalize (command a env).result w = r, (command a env).after w = w' at hcourse ⊢
  obtain ⟨f, hf⟩ := exists_format hmode
  cases hcourse with
  | @loads p _ =>
    obtain ⟨hr, hshows⟩ := load_ends p a.output h
    rw [loadLines_json hmode] at hshows
    rw [hr]
    cases hk : (Keypair.load w.files p).result with
    | error e =>
      rw [hk] at hshows
      exact .inr ⟨rfl, hshows.output_eq.trans (List.append_nil _)⟩
    | ok k =>
      rw [hk] at hshows
      exact .inl ⟨rfl, f, k, none, hf, writesDocument_of_shows hf hshows⟩
  | unset => exact .inr ⟨rfl, rfl⟩
  | makes _ hends =>
    rcases hends.document hmode (not_interactive hread hjson) hf with
      ⟨rfl, k, saved, hdoc⟩ | ⟨⟨e, rfl⟩, ho⟩
    · exact .inl ⟨rfl, f, k, saved, hf, hdoc⟩
    · exact .inr ⟨rfl, ho⟩

/-- With a keypair stored through a link, the document says so; without random bytes there is
none. -/
theorem json_document_link :
    (∃ k saved, WritesDocument { files := Keypair.linkedTree } .pretty k saved
      (run [Utf8.ofString "--json", Utf8.ofString "--save=k"] {}
        { files := Keypair.linkedTree }).world) ∧
    (run [Utf8.ofString "--json"] {}
      { files := Keypair.linkedTree, entropy := .unavailable "none" }).world.output = [] := by
  obtain ⟨s, hs⟩ : ∃ s, (Entropy.ofBytes []).seed? = .ok s := ⟨_, rfl⟩
  constructor
  · have hread : Arguments.read [Utf8.ofString "--json", Utf8.ofString "--save=k"] =
        .ok (.run { json := true, save := some (some [0x6B]) }) := by cbv
    have hsave : (save Keypair.linkedTree [] [0x6B] .pretty).2.result = .ok () := by cbv
    have hchooses : Chooses [Utf8.ofString "--json", Utf8.ofString "--save=k"] {}
        { files := Keypair.linkedTree } {} [0x6B] := ⟨_, hread, ⟨rfl, none, rfl⟩, rfl⟩
    have hstores := (save_result_eq Keypair.linkedTree [0x6B] (Keypair.ofSeed s).bytes []
      .pretty .pretty).trans hsave
    have hcode := (hchooses.exitCode_eq_zero_iff rfl hs).mpr hstores
    rcases @json_document _ { files := Keypair.linkedTree } _ {} rfl hread (.inl rfl) with
      ⟨_, _, k, saved, hf, hdoc⟩ | ⟨hfails, _⟩
    · cases hf
      exact ⟨k, saved, hdoc⟩
    · rw [hcode] at hfails
      cases hfails
  · have hread : Arguments.read [Utf8.ofString "--json"] = .ok (.run { json := true }) := by cbv
    have hcode : (run [Utf8.ofString "--json"] {}
        { files := Keypair.linkedTree, entropy := .unavailable "none" }).exitCode = 1 := by
      unfold run
      rw [hread]
      rfl
    rcases @json_document _ { files := Keypair.linkedTree, entropy := .unavailable "none" } _ {}
      rfl hread (.inl rfl) with ⟨hworks, _⟩ | ⟨_, houtput⟩
    · rw [hcode] at hworks
      cases hworks
    · exact houtput

end Program

end Keyfile
