import Keyfile.Proofs.Program.Gate

/-!
# Command lines in another order and spelling

Where every value is given, in an argument of its own or behind an equals sign, each option and each
file is a group of arguments that says the same wherever it stands. So the ways in which the groups
of a command line can be ordered and spelled are all refused, or they all lead to the same run.
-/
namespace Keyfile.Arguments

/-- A value, or the name of a file, that is not taken for an option. -/
structure Word where
  bytes : Bytes
  ne_nil : bytes ≠ []
  head?_ne : bytes.head? ≠ some hyphen
  deriving DecidableEq

/-- Arguments that belong together: an option, with its value if it has one, or a keypair file. -/
inductive Group where
  | json
  | jsonCompact
  | interactive
  | save (file : Word)
  | config (file : Word)
  | file (name : Word)
  deriving DecidableEq

namespace Group

def switch : Group → Switch
  | json => .json
  | jsonCompact => .jsonCompact
  | interactive => .interactive
  | save _ => .save
  | config _ => .config
  | file _ => .keypairFile

def word? : Group → Option Word
  | save w | config w | file w => some w
  | json | jsonCompact | interactive => none

/-- The switch of a group with the value that it gets. -/
def given (g : Group) : Switch × Option Path := (g.switch, g.word?.map Word.bytes)

end Group

/-- An option, with its value behind an equals sign if it has one there. -/
def optionArg (s : Switch) : (value : Option Bytes) → Bytes
  | none => Utf8.ofString ("--" ++ s.name)
  | some v => Utf8.ofString ("--" ++ s.name) ++ equalsSign :: v

/-- The ways in which a group is spelled. -/
inductive Spells : Group → List Bytes → Prop
  | flag {g : Group} : g.word? = none → Spells g [optionArg g.switch none]
  | attached {g : Group} {w : Word} : g.switch.takesValue = true → g.word? = some w →
      Spells g [optionArg g.switch (some w.bytes)]
  | apart {g : Group} {w : Word} : g.switch.takesValue = true → g.word? = some w →
      Spells g [optionArg g.switch none, w.bytes]
  | file (w : Word) : Spells (.file w) [w.bytes]

/-- A command line that spells groups in their order. -/
inductive SpellsAll : List Group → List Bytes → Prop
  | nil : SpellsAll [] []
  | cons {g : Group} {gs : List Group} {args rest : List Bytes} :
      Spells g args → SpellsAll gs rest → SpellsAll (g :: gs) (args ++ rest)

/-- A command line that spells groups in some order. -/
def Variant (gs : List Group) (args : List Bytes) : Prop :=
  ∃ gs', gs'.Perm gs ∧ SpellsAll gs' args

variable {g : Group} {gs gs' : List Group} {args rest : List Bytes} {a a' : Arguments} {s : Switch}

/-! ## The shapes of arguments -/

theorem shape_word (w : Word) : Shape.of w.bytes = .plain := by
  obtain ⟨bytes, hne, hhead⟩ := w
  match bytes, hne, hhead with
  | [_], _, _ => rfl
  | a :: b :: r, _, hhead =>
    have ha : a ≠ hyphen := fun h => hhead (congrArg some h)
    rw [Shape.of, if_pos ha]

theorem shape_long {name : Bytes} (hne : name ≠ []) (h : equalsSign ∉ name) (value : Option Bytes) :
    Shape.of (hyphen :: hyphen :: name ++ (value.map (equalsSign :: ·)).getD []) =
      .long name value := by
  have hname : ∀ c ∈ name, decide (c ≠ equalsSign) = true := by
    intro c hc
    exact decide_eq_true fun heq => h (heq ▸ hc)
  have hempty : (name ++ (value.map (equalsSign :: ·)).getD []).isEmpty = false := by
    simp [hne]
  have htake : (name ++ (value.map (equalsSign :: ·)).getD []).takeWhile (· ≠ equalsSign) =
      name := by
    rw [List.takeWhile_append_of_pos hname]
    cases value <;> simp
  rw [List.cons_append, List.cons_append, Shape.of]
  dsimp only
  rw [if_neg (not_not.mpr rfl), if_neg (not_not.mpr rfl), hempty, if_neg Bool.false_ne_true, htake,
    List.drop_left]
  cases value <;> rfl

theorem switchNamed?_name (h : s ≠ .keypairFile) :
    switchNamed? (Utf8.ofString s.name) = some s := by
  cases s with
  | keypairFile => exact (h rfl).elim
  | _ => cbv

/-- An option is read as its name, with the value behind the equals sign if there is one. -/
theorem shape_option (h : s ≠ .keypairFile) (value : Option Bytes) :
    Shape.of (optionArg s value) = .long (Utf8.ofString s.name) value := by
  have hname : Utf8.ofString s.name ≠ [] ∧ equalsSign ∉ Utf8.ofString s.name := by
    cases s with
    | keypairFile => exact (h rfl).elim
    | _ => decide
  have hhyphens : Utf8.ofString ("--" ++ s.name) = hyphen :: hyphen :: Utf8.ofString s.name := by
    unfold Utf8.ofString
    rw [String.toList_append, Utf8.encode_append]
    rfl
  have hshape := shape_long hname.1 hname.2 value
  cases value with
  | none => simpa [optionArg, hhyphens] using hshape
  | some v => simpa [optionArg, hhyphens] using hshape

/-! ## What groups spell -/

theorem ne_keypairFile_of_flag (h : g.word? = none) : g.switch ≠ .keypairFile := by
  cases g with
  | json | jsonCompact | interactive => decide
  | save | config | file => cases h

theorem ne_keypairFile (h : s.takesValue = true) : s ≠ .keypairFile := by
  rintro rfl
  cases h

theorem piecesFrom_option (h : s ≠ .keypairFile) (value : Option Bytes) :
    piecesFrom none ((optionArg s value) :: rest) =
      if s.takesValue ∧ value = none then piecesFrom (some s) rest
      else .switch s value :: piecesFrom none rest := by
  rw [piecesFrom, shape_option h]
  dsimp only
  rw [switchNamed?_name h]
  rfl

theorem piecesFrom_word (opened : Option Switch) (w : Word) :
    piecesFrom opened (w.bytes :: rest) =
      .switch (opened.getD .keypairFile) (some w.bytes) :: piecesFrom none rest := by
  rw [piecesFrom, shape_word]

/-- However a group is spelled, it is one piece. -/
theorem Spells.piecesFrom_append (h : Spells g args) (rest : List Bytes) :
    piecesFrom none (args ++ rest) = Piece.of g.given :: piecesFrom none rest := by
  cases h with
  | flag hw =>
    have htakes : ¬ g.switch.takesValue = true := by
      cases g with
      | json | jsonCompact | interactive => decide
      | save | config | file => cases hw
    have hpieces := @piecesFrom_option rest g.switch (ne_keypairFile_of_flag hw) none
    rw [if_neg fun h => htakes h.1] at hpieces
    simpa [Group.given, Piece.of, hw] using hpieces
  | @attached _ w htakes hw =>
    have hpieces := @piecesFrom_option rest g.switch (ne_keypairFile htakes) (some w.bytes)
    rw [if_neg fun h => Option.some_ne_none _ h.2] at hpieces
    simpa [Group.given, Piece.of, hw] using hpieces
  | @apart _ w htakes hw =>
    have hpieces := @piecesFrom_option (w.bytes :: rest) g.switch (ne_keypairFile htakes) none
    rw [if_pos ⟨htakes, rfl⟩, piecesFrom_word] at hpieces
    simpa [Group.given, Piece.of, hw] using hpieces
  | file w => exact piecesFrom_word none w

theorem SpellsAll.pieces_eq (h : SpellsAll gs args) :
    pieces args = (gs.map Group.given).map Piece.of := by
  induction h with
  | nil => rfl
  | cons hg _ ih =>
    rw [pieces, hg.piecesFrom_append]
    exact congrArg _ ih

/-! ## Arguments that ask for a text -/

/-- An argument by which help or the version can be asked for. -/
inductive Asks (arg : Bytes) : Prop
  | short {text : Bytes} : Shape.of arg = .short text → Asks arg
  | long {name : Bytes} {value : Option Bytes} {s : Switch} : Shape.of arg = .long name value →
      switchNamed? name = some s → s = .help ∨ s = .version → Asks arg

theorem exists_switch_of_named {p : Progress} {name : Bytes} {v : Option Bytes} {r : Request}
    (h : named p name v = .ok (.inl r)) :
    ∃ s, switchNamed? name = some s ∧ (s = .help ∨ s = .version) := by
  unfold named at h
  split at h
  · cases h
  · rename_i s hs
    refine ⟨s, hs, ?_⟩
    split at h
    · split at h
      · obtain ⟨_, _, hr⟩ := map_eq_ok_iff.mp h
        cases hr
      · obtain ⟨_, _, hr⟩ := map_eq_ok_iff.mp h
        cases hr
    · split at h
      · cases h
      · exact .inl rfl
      · exact .inr rfl
      · obtain ⟨_, _, hr⟩ := map_eq_ok_iff.mp h
        cases hr

/-- Unless an argument asks for a text, arguments that are accepted make up a run. -/
theorem exists_run {filesOnly : Bool} {p : Progress} {r : Request}
    (h : readFrom filesOnly p args = .ok r) (hargs : ∀ arg ∈ args, ¬ Asks arg) :
    ∃ a, r = .run a := by
  induction args generalizing filesOnly p with
  | nil =>
    obtain ⟨q, _, h⟩ := bind_eq_ok_iff.mp h
    obtain ⟨_, _, h⟩ := bind_eq_ok_iff.mp h
    cases h
    exact ⟨_, rfl⟩
  | cons arg rest ih =>
    have hno := hargs arg List.mem_cons_self
    have hrest : ∀ arg ∈ rest, ¬ Asks arg := fun a ha => hargs a (List.mem_cons_of_mem arg ha)
    unfold readFrom at h
    split at h
    · obtain ⟨_, _, h⟩ := bind_eq_ok_iff.mp h
      exact ih h hrest
    · split at h
      · exact ih h hrest
      · obtain ⟨_, _, h⟩ := bind_eq_ok_iff.mp h
        exact ih h hrest
      · rename_i hshape
        obtain ⟨next, hnext, h⟩ := bind_eq_ok_iff.mp h
        cases next with
        | inl request =>
          obtain ⟨s, hs, hasks⟩ := exists_switch_of_named hnext
          exact (hno (.long hshape hs hasks)).elim
        | inr q => exact ih h hrest
      · rename_i hshape
        exact (hno (.short hshape)).elim

theorem not_asks_word (w : Word) : ¬ Asks w.bytes := by
  intro h
  have hw := shape_word w
  cases h with
  | short hs =>
    rw [hw] at hs
    cases hs
  | long hs =>
    rw [hw] at hs
    cases hs

theorem not_asks_option (h : g.switch ≠ .keypairFile) (value : Option Bytes) :
    ¬ Asks (optionArg g.switch value) := by
  intro hasks
  have hg := shape_option h value
  cases hasks with
  | short hs =>
    rw [hg] at hs
    cases hs
  | long hs hnamed hasked =>
    rw [hg] at hs
    cases hs
    rw [switchNamed?_name h] at hnamed
    cases hnamed
    cases g <;> rcases hasked with hasked | hasked <;> cases hasked

/-- The groups ask for no text. -/
theorem Spells.not_asks (h : Spells g args) : ∀ arg ∈ args, ¬ Asks arg := by
  cases h with
  | flag hw =>
    exact List.forall_mem_singleton.mpr (not_asks_option (ne_keypairFile_of_flag hw) none)
  | attached htakes _ =>
    exact List.forall_mem_singleton.mpr (not_asks_option (ne_keypairFile htakes) _)
  | @apart _ w htakes _ =>
    rw [List.forall_mem_cons]
    exact ⟨not_asks_option (ne_keypairFile htakes) none,
      List.forall_mem_singleton.mpr (not_asks_word w)⟩
  | file w => exact List.forall_mem_singleton.mpr (not_asks_word w)

theorem SpellsAll.not_asks (h : SpellsAll gs args) : ∀ arg ∈ args, ¬ Asks arg := by
  induction h with
  | nil => exact List.forall_mem_nil _
  | cons hg _ ih => exact List.forall_mem_append.mpr ⟨hg.not_asks, ih⟩

/-! ## What groups say -/

/-- Groups that go together: none is given twice, and none excludes another. -/
structure Compatible (gs : List Group) : Prop where
  nodup : (gs.map Group.switch).Nodup
  excludes : ∀ g ∈ gs, ∀ h ∈ gs, h.switch ∉ g.switch.excludes

theorem Compatible.perm (h : Compatible gs) (hp : gs.Perm gs') : Compatible gs' where
  nodup := (hp.map Group.switch).nodup_iff.mp h.nodup
  excludes := fun g hg g' hg' => h.excludes g (hp.mem_iff.mpr hg) g' (hp.mem_iff.mpr hg')

theorem map_fst_given (gs : List Group) :
    (gs.map Group.given).map Prod.fst = gs.map Group.switch := by
  rw [List.map_map]
  rfl

theorem admits_given (g : Group) : admits g.given.1 g.given.2 = true := by
  have hword (w : Word) : ∃ c r, w.bytes = c :: r := List.exists_cons_of_ne_nil w.ne_nil
  cases g with
  | json | jsonCompact | interactive => rfl
  | save w | config w | file w =>
    obtain ⟨c, r, hw⟩ := hword w
    simp [Group.given, Group.switch, Group.word?, hw, admits]

theorem lawful_given_iff : Lawful (gs.map Group.given) ↔ Compatible gs := by
  constructor
  · intro h
    have hnodup := h.nodup
    have hcompatible := h.compatible
    rw [map_fst_given] at hnodup hcompatible
    exact ⟨hnodup, fun g hg g' hg' =>
      hcompatible _ (List.mem_map_of_mem hg) _ (List.mem_map_of_mem hg')⟩
  · intro h
    refine ⟨⟨?_, ?_⟩, ?_⟩
    · rw [map_fst_given]
      exact h.nodup
    · exact List.forall_mem_map.mpr fun g _ => admits_given g
    · rw [map_fst_given]
      exact List.forall_mem_map.mpr fun g hg => List.forall_mem_map.mpr (h.excludes g hg)

/-- The arguments hold what the groups give, and nothing else. -/
structure Says (gs : List Group) (a : Arguments) : Prop where
  keypairFile (p : Path) : a.keypairFile = some p ↔ ∃ w, Group.file w ∈ gs ∧ w.bytes = p
  save (v : Option Path) : a.save = some v ↔ ∃ w, Group.save w ∈ gs ∧ some w.bytes = v
  config (p : Path) : a.config = some p ↔ ∃ w, Group.config w ∈ gs ∧ w.bytes = p
  interactive : a.interactive = true ↔ Group.interactive ∈ gs
  json : a.json = true ↔ Group.json ∈ gs
  jsonCompact : a.jsonCompact = true ↔ Group.jsonCompact ∈ gs

theorem Says.perm (h : Says gs a) (hp : gs.Perm gs') : Says gs' a where
  keypairFile p := by simp only [h.keypairFile, hp.mem_iff]
  save v := by simp only [h.save, hp.mem_iff]
  config p := by simp only [h.config, hp.mem_iff]
  interactive := h.interactive.trans hp.mem_iff
  json := h.json.trans hp.mem_iff
  jsonCompact := h.jsonCompact.trans hp.mem_iff

theorem Says.unique (h : Says gs a) (h' : Says gs a') : a = a' := by
  have hsame {α : Type} {o o' : Option α} {P : α → Prop} (ho : ∀ x, o = some x ↔ P x)
      (ho' : ∀ x, o' = some x ↔ P x) : o = o' :=
    Option.ext fun x => (ho x).trans (ho' x).symm
  have hflag {b b' : Bool} {P : Prop} (hb : b = true ↔ P) (hb' : b' = true ↔ P) : b = b' :=
    Bool.eq_iff_iff.mpr (hb.trans hb'.symm)
  obtain ⟨file, save, interactive, json, jsonCompact, config⟩ := a
  obtain ⟨file', save', interactive', json', jsonCompact', config'⟩ := a'
  rw [Arguments.mk.injEq]
  exact ⟨hsame h.keypairFile h'.keypairFile, hsame h.save h'.save,
    hflag h.interactive h'.interactive, hflag h.json h'.json,
    hflag h.jsonCompact h'.jsonCompact, hsame h.config h'.config⟩

theorem lookup_eq_some_iff {given : List (Switch × Option Path)} {v : Option Path}
    (h : (given.map (·.1)).Nodup) : given.lookup s = some v ↔ (s, v) ∈ given := by
  induction given with
  | nil => simp
  | cons g given ih =>
    obtain ⟨t, u⟩ := g
    rw [List.map_cons, List.nodup_cons] at h
    rw [List.lookup_cons, List.mem_cons, Prod.mk.injEq]
    by_cases hs : s = t
    · subst hs
      have hnot : (s, v) ∉ given := by
        intro hmem
        have hkey : s ∈ given.map (·.1) := List.mem_map.mpr ⟨(s, v), hmem, rfl⟩
        exact h.1 hkey
      simp [hnot, eq_comm]
    · rw [beq_eq_false_iff_ne.mpr hs, ih h.2]
      simp [hs]

theorem lookup_given (h : (gs.map Group.switch).Nodup) (v : Option Path) :
    (gs.map Group.given).lookup s = some v ↔
      ∃ g ∈ gs, g.switch = s ∧ g.word?.map Word.bytes = v := by
  rw [← map_fst_given] at h
  rw [lookup_eq_some_iff h, List.mem_map]
  simp only [Group.given, Prod.mk.injEq]

section
variable (h : (gs.map Group.switch).Nodup)
include h

/-- A switch that only groups with a value are about has the value of such a group. -/
theorem lookup_valued {c : Word → Group} (hc : ∀ g, g.switch = s ↔ ∃ w, g = c w)
    (hw : ∀ w, (c w).word? = some w) (v : Option Path) :
    (gs.map Group.given).lookup s = some v ↔ ∃ w, c w ∈ gs ∧ some w.bytes = v := by
  rw [lookup_given h]
  constructor
  · rintro ⟨g, hg, hs, rfl⟩
    obtain ⟨w, rfl⟩ := (hc g).mp hs
    exact ⟨w, hg, by rw [hw, Option.map_some]⟩
  · rintro ⟨w, hmem, rfl⟩
    exact ⟨c w, hmem, (hc (c w)).mpr ⟨w, rfl⟩, by rw [hw, Option.map_some]⟩

theorem lookup_flag {g : Group} (hg : ∀ g', g'.switch = s ↔ g' = g) :
    ((gs.map Group.given).lookup s).isSome = true ↔ g ∈ gs := by
  rw [Option.isSome_iff_exists]
  simp only [lookup_given h]
  constructor
  · rintro ⟨_, g', hmem, hs, _⟩
    rwa [← (hg g').mp hs]
  · intro hmem
    exact ⟨_, g, hmem, (hg g).mpr rfl, rfl⟩

/-- What groups with different switches give is what they say. -/
theorem says_ofGiven : Says gs (ofGiven (gs.map Group.given)) where
  keypairFile p := by
    have hc (g : Group) : g.switch = .keypairFile ↔ ∃ w, g = .file w := by
      cases g <;> simp [Group.switch]
    have hfile := lookup_valued h hc (fun _ => rfl) (some p)
    simp only [Option.some.injEq] at hfile
    exact Option.join_eq_some_iff.trans hfile
  save v := by
    have hc (g : Group) : g.switch = .save ↔ ∃ w, g = .save w := by
      cases g <;> simp [Group.switch]
    exact lookup_valued h hc (fun _ => rfl) v
  config p := by
    have hc (g : Group) : g.switch = .config ↔ ∃ w, g = .config w := by
      cases g <;> simp [Group.switch]
    have hfile := lookup_valued h hc (fun _ => rfl) (some p)
    simp only [Option.some.injEq] at hfile
    exact Option.join_eq_some_iff.trans hfile
  interactive := lookup_flag h fun g => by cases g <;> simp [Group.switch]
  json := lookup_flag h fun g => by cases g <;> simp [Group.switch]
  jsonCompact := lookup_flag h fun g => by cases g <;> simp [Group.switch]

end

/-! ## Variants -/

theorem read_of_spellsAll (hspells : SpellsAll gs args) :
    read args = .ok (.run a) ↔ Compatible gs ∧ a = ofGiven (gs.map Group.given) := by
  rw [← lawful_given_iff, ← amounts_map_iff, ← hspells.pieces_eq]
  exact read_eq_run_iff

/-- Groups that do not go together are refused however they are written. -/
theorem refuses_of_spellsAll (hspells : SpellsAll gs args) (h : ¬ Compatible gs) :
    Program.Refuses args := by
  rcases Program.cases_of_read args with ⟨request, _, hread, hrequest, _⟩ | hrefuses | ⟨a, ha⟩
  · obtain ⟨a, rfl⟩ := exists_run hread hspells.not_asks
    rcases hrequest with ⟨hrun, _⟩ | ⟨hrun, _⟩ <;> cases hrun
  · exact hrefuses
  · exact (h ((read_of_spellsAll hspells).mp ha.read_eq).1).elim

/-- Groups that go together make up one run, which is told what they say, in every order and
spelling; all others are refused in every order and spelling, with the exit code for misuse. -/
theorem variants_alike (gs : List Group) :
    (Compatible gs ∧ ∃ a, Says gs a ∧ ∀ args, Variant gs args → read args = .ok (.run a)) ∨
      (¬ Compatible gs ∧ ∀ args, Variant gs args → Program.Refuses args) := by
  by_cases h : Compatible gs
  · have hsaid := says_ofGiven h.nodup
    refine .inl ⟨h, _, hsaid, ?_⟩
    rintro args ⟨gs', hp, hspells⟩
    have hother := h.perm hp.symm
    rw [hsaid.unique ((says_ofGiven hother.nodup).perm hp)]
    exact (read_of_spellsAll hspells).mpr ⟨hother, rfl⟩
  · refine .inr ⟨h, ?_⟩
    rintro args ⟨gs', hp, hspells⟩
    exact refuses_of_spellsAll hspells fun hother => h (hother.perm hp)

/-- A file with an equals sign in its name is named in front of a switch or behind it, attached or
apart; a switch too many spoils every order. -/
theorem variants_alike_named :
    ∃ a, a.save = some (some (Utf8.ofString "k=")) ∧
      read (["--save=k=", "--json"].map Utf8.ofString) = .ok (.run a) ∧
      read (["--json", "--save", "k="].map Utf8.ofString) = .ok (.run a) ∧
      Program.Refuses (["--json", "--save", "k=", "--interactive"].map Utf8.ofString) := by
  let w : Word := ⟨Utf8.ofString "k=", by decide, by decide⟩
  have hsave : Spells (.save w) [optionArg .save (some w.bytes)] := .attached rfl rfl
  have hapart : Spells (.save w) [optionArg .save none, w.bytes] := .apart rfl rfl
  have hjson : Spells .json [optionArg .json none] := .flag rfl
  have hasked : Spells .interactive [optionArg .interactive none] := .flag rfl
  have hfirst : Variant [.save w, .json] (["--save=k=", "--json"].map Utf8.ofString) :=
    ⟨_, .refl _, .cons hsave (.cons hjson .nil)⟩
  have hsecond : Variant [.save w, .json] (["--json", "--save", "k="].map Utf8.ofString) :=
    ⟨_, .swap _ _ _, .cons hjson (.cons hapart .nil)⟩
  have hthird : Variant [.json, .save w, .interactive]
      (["--json", "--save", "k=", "--interactive"].map Utf8.ofString) :=
    ⟨_, .refl _, .cons hjson (.cons hapart (.cons hasked .nil))⟩
  have hlone : Compatible [.save w, .json] :=
    ⟨by decide, by decide⟩
  have hcrowded : ¬ Compatible [.json, .save w, .interactive] := by
    intro h
    exact h.excludes .json (by decide) .interactive (by decide) (by decide)
  obtain ⟨_, a, hsaid, hread⟩ | ⟨hnot, _⟩ := variants_alike [.save w, .json]
  · obtain ⟨hgo, _⟩ | ⟨_, hrefused⟩ := variants_alike [.json, .save w, .interactive]
    · exact (hcrowded hgo).elim
    · have hfile : a.save = some (some (Utf8.ofString "k=")) :=
        (hsaid.save _).mpr ⟨w, List.mem_cons_self, rfl⟩
      exact ⟨a, hfile, hread _ hfirst, hread _ hsecond, hrefused _ hthird⟩
  · exact (hnot hlone).elim

end Keyfile.Arguments
