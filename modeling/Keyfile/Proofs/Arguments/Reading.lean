import Keyfile.Proofs.Arguments.Spelled

/-!
# Reading what is spelled

Reading keeps what has been said so far, with a switch that may still be open. Each argument adds
the piece that it spells, and is refused if that cannot belong to a run; so arguments lead to a run
exactly if what they spell makes one up.
-/
namespace Keyfile.Arguments

variable {given : List (Switch × Option Path)} {ps : List Piece} {a : Arguments} {s : Switch}
  {v : Option Path} {p q : Progress} {args : List Bytes}

/-! ## One argument after the other -/

/-- A form in which a switch can be spelled, though its value may be missing or empty. -/
def Spellable : Switch → Option Path → Prop
  | .keypairFile, v => v.isSome
  | .save, _ | .config, _ => True
  | .interactive, v | .json, v | .jsonCompact, v => v = none
  | .help, _ | .version, _ => False

theorem admits_iff (h : Spellable s v) :
    admits s v = true ↔ ¬ (s = .config ∧ v = none) ∧ v ≠ some [] := by
  rcases v with _ | ⟨_ | ⟨c, r⟩⟩ <;> cases s <;> simp_all [Spellable, admits]

/-- A switch that stays open until the next argument: an option that takes values, or a file. -/
def Opens (s : Switch) (v : Option Path) : Prop :=
  s.takesValue = true ∨ s = .keypairFile ∧ v.isSome

theorem Opens.spellable (h : Opens s v) : Spellable s v := by
  rcases h with h | ⟨rfl, h⟩
  · cases s <;> trivial
  · exact h

namespace Progress

/-- All that has been said, the open switch included. -/
def said (p : Progress) : List (Switch × Option Path) := p.given ++ p.pending.toList

/-- The option that is open for a value. -/
def opened (p : Progress) : Option Switch :=
  match p.pending with
  | some (s, none) => some s
  | _ => none

/-- What has been said in full. -/
def closed (p : Progress) : List (Switch × Option Path) :=
  match p.pending with
  | some (s, some v) => p.given ++ [(s, some v)]
  | _ => p.given

theorem closed_opened (p : Progress) :
    p.closed.map Piece.of ++ leftOpen p.opened = p.said.map Piece.of := by
  obtain ⟨given, _ | ⟨s, _ | v⟩⟩ := p <;> simp [closed, opened, said, leftOpen, Piece.of]

/-- What holds of the arguments that count while reading goes on. -/
structure Sound (p : Progress) : Prop where
  proper : Proper p.given
  opens : ∀ s v, p.pending = some (s, v) → Opens s v

theorem sound_said (h : Proper given) : Sound ⟨given, none⟩ := ⟨h, nofun⟩

theorem sound_pending (h : Proper given) (hs : Opens s v) : Sound ⟨given, some (s, v)⟩ where
  proper := h
  opens := by
    rintro _ _ ⟨⟩
    exact hs

theorem add_eq_iff (hp : Proper p.given) (hs : Spellable s v) : p.add s v = (q, none) ↔
    Proper (p.given ++ [(s, v)]) ∧ q = { p with given := p.given ++ [(s, v)] } := by
  have hadmits := admits_iff hs
  rw [proper_concat, and_iff_right hp]
  dsimp only
  rw [hadmits]
  unfold add used
  split_ifs with hmissing hused hempty
  · simp [hmissing]
  · simp [hused]
  · simp [hempty]
  · simp [hmissing, hused, hempty, eq_comm]

theorem settle_eq_ok_iff (h : Sound p) :
    p.settle = .ok q ↔ Proper p.said ∧ q = ⟨p.said, none⟩ := by
  obtain ⟨given, pending⟩ := p
  unfold settle close said
  cases pending with
  | none => simp [h.proper, eq_comm]
  | some g =>
    obtain ⟨s, v⟩ := g
    have hadd (q : Progress) := @add_eq_iff s v ⟨given, none⟩ q h.proper (h.opens s v rfl).spellable
    dsimp only [Option.toList_some]
    dsimp only at hadd
    rw [← hadd]
    generalize add ⟨given, none⟩ s v = added
    obtain ⟨q', _ | m⟩ := added <;> simp

theorem accept_eq_ok_iff (h : Sound p) (hs : Spellable s v) : p.accept s v = .ok q ↔
    Proper (p.said ++ [(s, v)]) ∧ q = ⟨p.said ++ [(s, v)], none⟩ := by
  have hadd (hsaid : Proper p.said) := @add_eq_iff s v ⟨p.said, none⟩ q hsaid hs
  unfold accept
  rw [bind_eq_ok_iff]
  constructor
  · rintro ⟨q', hq', hq⟩
    obtain ⟨hsaid, rfl⟩ := (settle_eq_ok_iff h).mp hq'
    split at hq
    · rename_i hadded
      cases hq
      exact (hadd hsaid).mp hadded
    · cases hq
  · intro hproper
    have hsaid : Proper p.said := hproper.1.of_append
    refine ⟨_, (settle_eq_ok_iff h).mpr ⟨hsaid, rfl⟩, ?_⟩
    rw [(hadd hsaid).mpr hproper]

theorem openWith_eq_ok_iff (h : Sound p) :
    p.openWith s v = .ok q ↔ Proper p.said ∧ q = ⟨p.said, some (s, v)⟩ := by
  unfold openWith
  rw [bind_eq_ok_iff]
  simp only [settle_eq_ok_iff h]
  constructor
  · rintro ⟨_, ⟨hsaid, rfl⟩, hq⟩
    cases hq
    exact ⟨hsaid, rfl⟩
  · rintro ⟨hsaid, rfl⟩
    exact ⟨_, ⟨hsaid, rfl⟩, rfl⟩

theorem hasFile_iff (p : Progress) : p.hasFile = true ↔ .keypairFile ∈ p.said.map (·.1) := by
  unfold hasFile said
  rw [Bool.or_eq_true, decide_eq_true_iff, decide_eq_true_iff, List.map_append, List.mem_append]
  apply or_congr Iff.rfl
  cases p.pending <;> simp [eq_comm]

theorem file_eq_ok_iff (h : Sound p) {arg : Bytes} : p.file arg = .ok q ↔
    (.keypairFile ∉ p.said.map (·.1) ∧ Proper p.said) ∧
      q = ⟨p.said, some (.keypairFile, some arg)⟩ := by
  unfold file
  split_ifs with hfile
  · have hsaid := p.hasFile_iff.mp hfile
    exact iff_of_false nofun fun hq => hq.1.1 hsaid
  · have hsaid := mt p.hasFile_iff.mpr hfile
    rw [openWith_eq_ok_iff h, and_iff_right hsaid]

end Progress

/-! ## Reading on -/

section
open Arguments.Progress
variable {filesOnly : Bool} {x : Except Misuse Progress} {rest : List Bytes}

/-- Reading goes on from a step, if what has to hold for the step holds for all that amounts to a
run. -/
theorem bind_eq_run_iff {C : Prop} (hx : ∀ q', x = .ok q' ↔ C ∧ q' = q)
    (hps : Amounts ps a → C)
    (hq : C → (readFrom filesOnly q args = .ok (.run a) ↔ Amounts ps a)) :
    (x >>= fun q' => readFrom filesOnly q' args) = .ok (.run a) ↔ Amounts ps a := by
  rw [bind_eq_ok_iff]
  constructor
  · rintro ⟨q', hq', hread⟩
    obtain ⟨hC, rfl⟩ := (hx q').mp hq'
    exact (hq hC).mp hread
  · intro hamounts
    have hC := hps hamounts
    exact ⟨q, (hx q).mpr ⟨hC, rfl⟩, (hq hC).mpr hamounts⟩

theorem check_eq_ok_iff {used : List Switch} :
    check used = .ok () ↔ ∀ s ∈ used, ∀ t ∈ used, t ∉ s.excludes := by
  refine ⟨fun h s hs t ht => not_excludes_of_check h hs ht, ?_⟩
  intro h
  have hnone : (used.find? fun s => !(used.filter fun t => decide (t ∈ s.excludes)).isEmpty) =
      none := by
    rw [List.find?_eq_none]
    intro s hs
    have hempty : (used.filter fun t => decide (t ∈ s.excludes)) = [] := by
      rw [List.filter_eq_nil_iff]
      intro t ht
      simpa using h s hs t ht
    simp [hempty]
  unfold check
  dsimp only
  rw [hnone]

theorem finish_eq_run_iff (h : Sound p) :
    finish p = .ok (.run a) ↔ Amounts (p.said.map Piece.of) a := by
  unfold finish
  rw [bind_eq_ok_iff, amounts_map_iff]
  constructor
  · rintro ⟨q, hq, hrun⟩
    obtain ⟨hsaid, rfl⟩ := (settle_eq_ok_iff h).mp hq
    obtain ⟨_, hcheck, hrun⟩ := bind_eq_ok_iff.mp hrun
    cases hrun
    exact ⟨⟨hsaid, check_eq_ok_iff.mp hcheck⟩, rfl⟩
  · rintro ⟨hlawful, rfl⟩
    refine ⟨_, (settle_eq_ok_iff h).mpr ⟨hlawful.toProper, rfl⟩, ?_⟩
    exact bind_eq_ok_iff.mpr ⟨(), check_eq_ok_iff.mpr hlawful.compatible, rfl⟩

/-- Behind two hyphens alone, all arguments are files. -/
theorem readFrom_files_iff (h : Sound p) : readFrom true p args = .ok (.run a) ↔
    Amounts (p.said.map Piece.of ++ args.map filePiece) a := by
  induction args generalizing p with
  | nil =>
    rw [List.map_nil, List.append_nil]
    exact finish_eq_run_iff h
  | cons arg rest ih =>
    unfold readFrom
    rw [if_pos rfl]
    refine bind_eq_run_iff (fun q => file_eq_ok_iff h) Amounts.new_file ?_
    rintro ⟨_, hsaid⟩
    rw [ih (sound_pending hsaid (.inr ⟨rfl, rfl⟩))]
    simp [said, Piece.of, filePiece]

/-- How reading goes on behind an option. -/
def onward (rest : List Bytes) : Request ⊕ Progress → Except Misuse Request
  | .inl request => .ok request
  | .inr p => readFrom false p rest

theorem readFrom_long {arg name : Bytes} {value : Option Bytes}
    (h : Shape.of arg = .long name value) :
    readFrom false p (arg :: rest) = named p name value >>= onward rest := by
  rw [readFrom, h]
  rfl

theorem readFrom_short {arg text : Bytes} (h : Shape.of arg = .short text) :
    readFrom false p (arg :: rest) = letters p text >>= onward rest := by
  rw [readFrom, h]
  rfl

theorem inr_onward (x : Except Misuse Progress) :
    (Sum.inr <$> x >>= onward rest) = x >>= fun q => readFrom false q rest := by
  cases x <;> rfl

/-- A request that ends the reading is no run. -/
theorem settle_onward_ne {r : Request} (hr : r ≠ .run a) :
    ((p.settle >>= fun _ => .ok (.inl r)) >>= onward rest) ≠ .ok (.run a) := by
  cases p.settle with
  | error m => exact nofun
  | ok q =>
    intro h
    exact hr (Except.ok.inj h)

theorem letters_onward_ne {text : Bytes} : (letters p text >>= onward rest) ≠ .ok (.run a) := by
  unfold letters
  split_ifs
  · exact settle_onward_ne nofun
  · exact settle_onward_ne nofun
  · exact nofun

theorem admits_lettersPiece (text : Bytes) (s : Switch) (v : Option Path)
    (h : lettersPiece text = .switch s v) : admits s v = false := by
  unfold lettersPiece at h
  split_ifs at h
  · cases h
    rfl
  · cases h
    rfl

/-- What is to be shown of the arguments behind an option. -/
def ReadsOn (rest : List Bytes) (a : Arguments) : Prop :=
  ∀ q, Sound q → (readFrom false q rest = .ok (.run a) ↔
    Amounts (q.closed.map Piece.of ++ piecesFrom q.opened rest) a)

theorem accept_onward_iff (h : Sound p) (hs : Spellable s v) (hrest : ReadsOn rest a) :
    (Sum.inr <$> p.accept s v >>= onward rest) = .ok (.run a) ↔
      Amounts (p.said.map Piece.of ++ .switch s v :: piecesFrom none rest) a := by
  rw [inr_onward]
  refine bind_eq_run_iff (fun q => accept_eq_ok_iff h hs) Amounts.proper_next ?_
  intro hproper
  rw [hrest _ (sound_said hproper)]
  simp [closed, opened, Piece.of]

theorem openWith_onward_iff (h : Sound p) (hs : s.takesValue = true) (hrest : ReadsOn rest a) :
    (Sum.inr <$> p.openWith s none >>= onward rest) = .ok (.run a) ↔
      Amounts (p.said.map Piece.of ++ piecesFrom (some s) rest) a := by
  rw [inr_onward]
  refine bind_eq_run_iff (fun q => openWith_eq_ok_iff h) Amounts.proper ?_
  intro hproper
  rw [hrest _ (sound_pending hproper (.inl hs))]
  rfl

section
variable {name : Bytes} {value : Option Bytes} (hs : switchNamed? name = some s)
include hs

theorem named_of_takesValue (htakes : s.takesValue = true) : named p name value =
    match value with
    | some v => Sum.inr <$> p.accept s (some v)
    | none => Sum.inr <$> p.openWith s none := by
  cases value <;> simp [named, hs, htakes]

/-- An option that takes no value is accepted without one. -/
theorem named_of_admits (htakes : ¬ s.takesValue = true) (hadmits : admits s value = true) :
    Spellable s value ∧ named p name value = Sum.inr <$> p.accept s value := by
  have hoption : s ∈ Switch.options := List.mem_of_find?_eq_some hs
  unfold named
  rw [hs]
  cases s with
  | keypairFile => simp [Switch.options] at hoption
  | save | config => exact (htakes rfl).elim
  | help | version => cases value <;> cases hadmits
  | interactive | json | jsonCompact =>
    cases value with
    | none => exact ⟨rfl, rfl⟩
    | some v => cases hadmits

/-- Otherwise it is refused, or asks for help or the version. -/
theorem named_onward_ne (htakes : ¬ s.takesValue = true) (hadmits : admits s value = false) :
    (named p name value >>= onward rest) ≠ .ok (.run a) := by
  have hoption : s ∈ Switch.options := List.mem_of_find?_eq_some hs
  unfold named
  rw [hs]
  dsimp only
  rw [if_neg htakes]
  cases value with
  | some v => exact nofun
  | none =>
    cases s with
    | keypairFile => simp [Switch.options] at hoption
    | save | config => exact (htakes rfl).elim
    | help | version => exact settle_onward_ne nofun
    | interactive | json | jsonCompact => cases hadmits

end

theorem named_onward_iff (h : Sound p) {name : Bytes} {value : Option Bytes}
    (hrest : ReadsOn rest a) :
    (named p name value >>= onward rest) = .ok (.run a) ↔
      Amounts (p.said.map Piece.of ++
        match switchNamed? name with
        | none => .unknown :: piecesFrom none rest
        | some s =>
          if s.takesValue ∧ value = none then piecesFrom (some s) rest
          else .switch s value :: piecesFrom none rest) a := by
  cases hs : switchNamed? name with
  | none =>
    unfold named
    rw [hs]
    exact iff_of_false nofun (not_amounts nofun)
  | some s =>
    by_cases htakes : s.takesValue = true
    · rw [named_of_takesValue hs htakes]
      cases value with
      | none => simpa [htakes] using openWith_onward_iff h htakes hrest
      | some v =>
        have hopens : Opens s (some v) := .inl htakes
        simpa using accept_onward_iff h hopens.spellable hrest
    · dsimp only
      rw [if_neg fun h => htakes h.1]
      cases hadmits : admits s value with
      | false => exact iff_of_false (named_onward_ne hs htakes hadmits) (not_amounts_switch hadmits)
      | true =>
        obtain ⟨hspell, hnamed⟩ := named_of_admits (p := p) hs htakes hadmits
        rw [hnamed]
        exact accept_onward_iff h hspell hrest

/-- An argument that is no option is the value of the open option or else a file. -/
theorem plain_eq_run_iff (h : Sound p) {arg : Bytes} (hrest : ReadsOn rest a) :
    (plain p arg >>= fun q => readFrom false q rest) = .ok (.run a) ↔
      Amounts (p.closed.map Piece.of ++
        .switch (p.opened.getD .keypairFile) (some arg) :: piecesFrom none rest) a := by
  have hfile (hplain : plain p arg = p.file arg) :
      (plain p arg >>= fun q => readFrom false q rest) = .ok (.run a) ↔
        Amounts (p.said.map Piece.of ++ filePiece arg :: piecesFrom none rest) a := by
    rw [hplain]
    refine bind_eq_run_iff (fun q => file_eq_ok_iff h) Amounts.new_file ?_
    rintro ⟨_, hsaid⟩
    rw [hrest _ (sound_pending hsaid (.inr ⟨rfl, rfl⟩))]
    simp [closed, opened, Piece.of, filePiece]
  obtain ⟨given, _ | ⟨s, _ | v⟩⟩ := p
  · simpa [closed, opened, said, filePiece] using hfile rfl
  · have htakes : s.takesValue = true := by
      rcases h.opens s none rfl with htakes | ⟨_, hnone⟩
      · exact htakes
      · cases hnone
    change readFrom false ⟨given, some (s, some arg)⟩ rest = .ok (.run a) ↔ _
    rw [hrest _ (sound_pending h.proper (.inl htakes))]
    simp [closed, opened, Piece.of]
  · simpa [closed, opened, said, filePiece] using hfile rfl

/-- Behind what has been read, arguments lead to a run exactly if everything together amounts to
it. -/
theorem readFrom_eq_run_iff (args : List Bytes) (a : Arguments) : ReadsOn args a := by
  -- every argument adds one piece to what has been said, or stays open
  induction args with
  | nil =>
    intro p h
    rw [piecesFrom, closed_opened]
    exact finish_eq_run_iff h
  | cons arg rest ih =>
    intro p h
    rw [piecesFrom]
    cases hshape : Shape.of arg with
    | separator =>
      rw [readFrom, hshape]
      dsimp only
      rw [← List.append_assoc, closed_opened]
      exact readFrom_files_iff h
    | short text =>
      rw [readFrom_short hshape]
      dsimp only
      rw [← List.append_assoc]
      exact iff_of_false letters_onward_ne (not_amounts (admits_lettersPiece text))
    | long name value =>
      rw [readFrom_long hshape]
      dsimp only
      rw [← List.append_assoc, closed_opened]
      exact named_onward_iff h ih
    | plain =>
      rw [readFrom, hshape]
      exact plain_eq_run_iff h ih

end

/-- Arguments lead to a run exactly if the switches that they spell make one up. -/
theorem read_eq_run_iff {args : List Bytes} {a : Arguments} : read args = .ok (.run a) ↔
    ∃ given, pieces args = given.map Piece.of ∧ Lawful given ∧ a = ofGiven given :=
  readFrom_eq_run_iff args a {} ⟨⟨List.nodup_nil, nofun⟩, nofun⟩

end Keyfile.Arguments
