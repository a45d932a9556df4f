import Keyfile.Proofs.Config.Source
import Keyfile.Proofs.Yaml.Event

/-!
# Settings that are written line by line

A configuration file may set each of the two fields in a line of its own, and hold lines with other
keys. What it says is read back whatever the order of its lines is, whatever printable characters
the path consists of, and whatever the other lines say; a field that no line sets has its standard
value. A field that two lines set is a fault.
-/
namespace Keyfile.Config
open Yaml (Item Mark)

/-- A line of a configuration file. -/
inductive Line where
  | outfile (path : List Char)
  | format (f : JsonFormat)
  | other (key word : List Char)

namespace Line

/-- A line as it is written: quotes and backslashes in the path have a backslash in front. -/
def text : Line → List Char
  | outfile path =>
    "default_outfile: \x22".toList ++ path.flatMap Yaml.Scalar.escape ++ "\x22\n".toList
  | format f => "json_format: ".toList ++ f.name.toList ++ ['\n']
  | other key word => key ++ ": ".toList ++ word ++ ['\n']

/-- Paths are printable ASCII; other keys and words are letters, at most a hundred in a key. -/
inductive Valid : Line → Prop
  | outfile {path : List Char} : (∀ c ∈ path, Yaml.IsShown c) → Valid (.outfile path)
  | format (f : JsonFormat) : Valid (.format f)
  | other {key word : List Char} : key ≠ [] → key.length ≤ 100 → (∀ c ∈ key, c.isAlpha = true) →
      word ≠ [] → (∀ c ∈ word, c.isAlpha = true) → Valid (.other key word)

def path? : Line → Option (List Char)
  | outfile path => some path
  | _ => none

def format? : Line → Option JsonFormat
  | format f => some f
  | _ => none

/-- A line as an entry of a mapping. -/
def entry : Line → Yaml.Entry
  | outfile path => ⟨Field.defaultOutfile.name.toList, .quoted path⟩
  | format f => ⟨Field.jsonFormat.name.toList, .word f.name.toList⟩
  | other key word => ⟨key, .word word⟩

theorem text_eq (l : Line) : l.text = l.entry.chars ++ ['\n'] := by
  cases l with
  | outfile path =>
    have hlead : "default_outfile: \x22".toList =
        Field.defaultOutfile.name.toList ++ [':', ' ', '\x22'] := rfl
    have hend : "\x22\n".toList = ['\x22', '\n'] := rfl
    change "default_outfile: \x22".toList ++ _ ++ "\x22\n".toList = _
    rw [hlead, hend]
    simp [entry, Yaml.Entry.chars, Yaml.Written.chars]
  | format f =>
    have hlead : "json_format: ".toList = Field.jsonFormat.name.toList ++ [':', ' '] := rfl
    change "json_format: ".toList ++ _ ++ ['\n'] = _
    rw [hlead]
    simp [entry, Yaml.Entry.chars, Yaml.Written.chars]
  | other key word =>
    have hcolon : ": ".toList = [':', ' '] := rfl
    change key ++ ": ".toList ++ word ++ ['\n'] = _
    rw [hcolon]
    simp [entry, Yaml.Entry.chars, Yaml.Written.chars]

/-- The names of fields may be keys. -/
theorem valid_fieldName (field : Field) {v : Yaml.Written} (hv : v.Valid) :
    Yaml.Entry.Valid ⟨field.name.toList, v⟩ := by
  have hname : field.name.toList ≠ [] ∧ field.name.toList.all Yaml.isLetter = true ∧
      field.name.toList.length ≤ Yaml.keySpan := by
    cases field <;> exact ⟨by decide, rfl, by decide⟩
  exact ⟨hname.1, List.all_eq_true.mp hname.2.1, hname.2.2, hv⟩

/-- The names of layouts may be words. -/
theorem valid_formatName (f : JsonFormat) : (Yaml.Written.word f.name.toList).Valid := by
  cases f with
  | pretty => exact .word (by decide) (List.all_eq_true.mp rfl)
  | compact => exact .word (by decide) (List.all_eq_true.mp rfl)

theorem Valid.entry {l : Line} (h : l.Valid) : l.entry.Valid := by
  have hletter {c : Char} (hc : c.isAlpha = true) : Yaml.isLetter c = true := by
    rw [Yaml.isLetter, hc]
    rfl
  cases h with
  | outfile hpath => exact valid_fieldName .defaultOutfile (.quoted hpath)
  | format f => exact valid_fieldName .jsonFormat (valid_formatName f)
  | other hkey hlength hletters hword hwordLetters =>
    exact ⟨hkey, fun c hc => hletter (hletters c hc), hlength.trans (by decide),
      .word hword fun c hc => hletter (hwordLetters c hc)⟩

/-- Lines one below the other. -/
def textOf (ls : List Line) : List Char := ls.flatMap text

theorem textOf_eq (ls : List Line) : textOf ls = Yaml.Entry.textOf (ls.map entry) := by
  rw [textOf, Yaml.Entry.textOf, List.flatMap_map]
  exact List.flatMap_congr fun l _ => text_eq l

/-- The paths that lines set. -/
def paths (ls : List Line) : List (List Char) := ls.filterMap path?

/-- The layouts that lines set. -/
def formats (ls : List Line) : List JsonFormat := ls.filterMap format?

end Line

/-! ## Entries one after the other -/

section
variable (d : Yaml.Document) (mapping : Mark) (p : Partial) (fuel : Nat) (m m' : Mark)
  (r : List Item)

theorem readEntries_outfile (path : List Char) :
    readEntries d mapping (fuel + 1) p
        (⟨.scalar none Field.defaultOutfile.name.toList .plain, m⟩ ::
          ⟨.scalar none path .doubleQuoted, m'⟩ :: r) =
      if p.outfile.isSome then .error (.content (.duplicate .defaultOutfile) mapping none)
      else readEntries d mapping fuel { p with outfile := some (Utf8.encode path) } r := rfl

theorem readEntries_format (f : JsonFormat) :
    readEntries d mapping (fuel + 1) p
        (⟨.scalar none Field.jsonFormat.name.toList .plain, m⟩ ::
          ⟨.scalar none f.name.toList .plain, m'⟩ :: r) =
      if p.format.isSome then .error (.content (.duplicate .jsonFormat) mapping none)
      else readEntries d mapping fuel { p with format := some f } r := by
  cases f <;> rfl

/-- A key of letters names no field, since each field has an underscore in its name. -/
theorem field?_of_letters {key : List Char} (h : ∀ c ∈ key, c.isAlpha = true) :
    field? key = none := by
  unfold field?
  rw [List.find?_eq_none]
  intro field _ hname
  have hmem : '_' ∈ key := by
    rw [← of_decide_eq_true hname]
    cases field <;> decide
  exact absurd (h _ hmem) (by decide)

theorem readEntries_other {key : List Char} (h : ∀ c ∈ key, c.isAlpha = true) (word : List Char) :
    readEntries d mapping (fuel + 1) p
        (⟨.scalar none key .plain, m⟩ :: ⟨.scalar none word .plain, m'⟩ :: r) =
      readEntries d mapping fuel p r := by
  conv_lhs => unfold readEntries
  dsimp only [textOf, Yaml.Document.target, bind, Except.bind]
  rw [field?_of_letters h]
  rfl

end

variable {d : Yaml.Document} {mapping : Mark} {p : Partial} {fuel : Nat} {items : List Item}
  {ls : List Line}

theorem exists_item {k : Item.Kind} {ks : List Item.Kind} (h : items.map (·.kind) = k :: ks) :
    ∃ m items', items = ⟨k, m⟩ :: items' ∧ items'.map (·.kind) = ks := by
  obtain ⟨⟨_, m⟩, items', rfl, rfl, hitems⟩ := List.map_eq_cons_iff.mp h
  exact ⟨m, items', rfl, hitems⟩

/-- The paths that are set by earlier entries and by lines behind them. -/
def Partial.outfiles (p : Partial) (ls : List Line) : List Path :=
  p.outfile.toList ++ (Line.paths ls).map Utf8.encode

/-- The layouts that are set by earlier entries and by lines behind them. -/
def Partial.formats (p : Partial) (ls : List Line) : List JsonFormat :=
  p.format.toList ++ Line.formats ls

/-- How often a field is set by earlier entries and by lines behind them. -/
def Partial.count (p : Partial) (ls : List Line) : Field → Nat
  | .defaultOutfile => (p.outfiles ls).length
  | .jsonFormat => (p.formats ls).length

/-- What entries and lines behind them come to: a field that is set twice is a fault. -/
inductive Outcome (p : Partial) (ls : List Line) (mapping : Mark) : Except Fault Partial → Prop
  | settings : (∀ field, p.count ls field ≤ 1) →
      Outcome p ls mapping (.ok ⟨(p.outfiles ls).head?, (p.formats ls).head?⟩)
  | duplicate {field : Field} : 1 < p.count ls field →
      Outcome p ls mapping (.error (.content (.duplicate field) mapping none))

/-- Whether a line or an earlier entry sets a field does not matter. -/
theorem Outcome.cons {l : Line} {p' : Partial} {result : Except Fault Partial}
    (houtfiles : p.outfiles (l :: ls) = p'.outfiles ls)
    (hformats : p.formats (l :: ls) = p'.formats ls) (h : Outcome p' ls mapping result) :
    Outcome p (l :: ls) mapping result := by
  have hcount (field : Field) : p.count (l :: ls) field = p'.count ls field := by
    cases field
    · exact congrArg List.length houtfiles
    · exact congrArg List.length hformats
  cases h with
  | settings honce =>
    rw [← houtfiles, ← hformats]
    exact .settings fun field => (hcount field).trans_le (honce field)
  | duplicate htwice => exact .duplicate (htwice.trans_eq (hcount _).symm)

theorem Outcome.nil (p : Partial) (mapping : Mark) : Outcome p [] mapping (.ok p) := by
  have hp : p = ⟨(p.outfiles []).head?, (p.formats []).head?⟩ := by
    obtain ⟨outfile, format⟩ := p
    cases outfile <;> cases format <;> rfl
  have honce (field : Field) : p.count [] field ≤ 1 := by
    cases field with
    | defaultOutfile =>
      cases h : p.outfile <;> simp [Partial.count, Partial.outfiles, Line.paths, h]
    | jsonFormat => cases h : p.format <;> simp [Partial.count, Partial.formats, Line.formats, h]
  have h : Outcome p [] mapping (.ok ⟨(p.outfiles []).head?, (p.formats []).head?⟩) :=
    .settings honce
  rwa [← hp] at h

/-- Lines behind earlier entries are read, unless a field is set twice. -/
theorem readEntries_lines (d : Yaml.Document) (mapping : Mark) (p : Partial)
    (h : ∀ l ∈ ls, l.Valid)
    (hitems : items.map (·.kind) = (ls.map Line.entry).flatMap Yaml.Entry.items ++ [.mappingEnd])
    (hfuel : ls.length < fuel) : Outcome p ls mapping (readEntries d mapping fuel p items) := by
  obtain ⟨fuel, rfl⟩ := Nat.exists_eq_add_one_of_ne_zero (Nat.ne_zero_of_lt hfuel)
  induction ls generalizing p items fuel with
  | nil =>
    obtain ⟨m, items₁, rfl, _⟩ := exists_item hitems
    exact .nil p mapping
  | cons l ls ih =>
    obtain ⟨hl, hls⟩ := List.forall_mem_cons.mp h
    obtain ⟨fuel, rfl⟩ : ∃ k, fuel = k + 1 := ⟨fuel - 1, by simp at hfuel; omega⟩
    rw [List.map_cons, List.flatMap_cons, List.append_assoc] at hitems
    obtain ⟨m, items₁, rfl, h₁⟩ := exists_item hitems
    obtain ⟨m', items₂, rfl, h₂⟩ := exists_item h₁
    have hrest (p' : Partial) := ih p' hls h₂ fuel (Nat.lt_of_succ_lt_succ hfuel)
    cases hl with
    | @outfile path _ =>
      refine (readEntries_outfile d mapping p (fuel + 1) m m' items₂ path) ▸ ?_
      cases hset : p.outfile with
      | some q =>
        have htwice : 1 < p.count (.outfile path :: ls) .defaultOutfile := by
          simp [Partial.count, Partial.outfiles, Line.paths, Line.path?, hset]
        exact .duplicate htwice
      | none =>
        rw [Option.isSome_none, if_neg Bool.false_ne_true]
        refine .cons ?_ ?_ (hrest _)
        · simp [Partial.outfiles, Line.paths, Line.path?, hset]
        · rfl
    | format f =>
      refine (readEntries_format d mapping p (fuel + 1) m m' items₂ f) ▸ ?_
      cases hset : p.format with
      | some g =>
        have htwice : 1 < p.count (.format f :: ls) .jsonFormat := by
          simp [Partial.count, Partial.formats, Line.formats, Line.format?, hset]
        exact .duplicate htwice
      | none =>
        rw [Option.isSome_none, if_neg Bool.false_ne_true]
        refine .cons ?_ ?_ (hrest _)
        · rfl
        · simp [Partial.formats, Line.formats, Line.format?, hset]
    | @other key word _ _ hletters _ _ =>
      refine (readEntries_other d mapping p (fuel + 1) m m' items₂ hletters word) ▸ ?_
      exact .cons rfl rfl (hrest p)

/-! ## Whole files -/

/-- How many lines set a field. -/
def Line.times (ls : List Line) : Field → Nat
  | .defaultOutfile => (paths ls).length
  | .jsonFormat => (formats ls).length

/-- What lines say that set each field at most once. -/
def Line.config (ls : List Line) : Config where
  defaultOutfile := ((paths ls).head?.map Utf8.encode).getD (Path.ofString "keypair.json")
  jsonFormat := (formats ls).head?.getD .pretty

theorem count_empty (ls : List Line) (field : Field) :
    Partial.count {} ls field = Line.times ls field := by
  cases field with
  | defaultOutfile => exact List.length_map _
  | jsonFormat => rfl

theorem config_empty (ls : List Line) :
    Partial.config ⟨(Partial.outfiles {} ls).head?, (Partial.formats {} ls).head?⟩ =
      Line.config ls := by
  unfold Partial.config Line.config Partial.outfiles Partial.formats
  simp only [Option.toList_none, List.nil_append, List.head?_map]

/-- The document of lines has no fault of its own, and its mapping consists of their entries. -/
theorem document_lines (h : ∀ l ∈ ls, l.Valid) :
    (Yaml.Document.read (Line.textOf ls)).fault = none ∧
      (Yaml.Document.read (Line.textOf ls)).more = false ∧
      (Yaml.Document.read (Line.textOf ls)).items.toList.map (·.kind) =
        if ls = [] then []
        else .mappingStart none ::
          ((ls.map Line.entry).flatMap Yaml.Entry.items ++ [.mappingEnd]) := by
  have hvalid : ∀ e ∈ ls.map Line.entry, e.Valid := by
    intro e he
    obtain ⟨l, hl, rfl⟩ := List.mem_map.mp he
    exact (h l hl).entry
  have hread := Yaml.Document.read_entries hvalid
  rw [← Line.textOf_eq] at hread
  simpa only [List.map_eq_nil_iff] using hread

theorem readNode_lines (h : ∀ l ∈ ls, l.Valid) :
    ∃ mapping, Outcome {} ls mapping (readNode (Yaml.Document.read (Line.textOf ls))) := by
  obtain ⟨hfault, _, hitems⟩ := document_lines h
  unfold readNode
  cases ls with
  | nil =>
    rw [List.map_eq_nil_iff.mp hitems, hfault]
    exact ⟨.zero, .nil {} .zero⟩
  | cons l ls =>
    rw [if_neg (List.cons_ne_nil l ls)] at hitems
    obtain ⟨mapping, items, hd, hrest⟩ := exists_item hitems
    rw [hd]
    refine ⟨mapping, readEntries_lines _ mapping {} h hrest ?_⟩
    have hlength := congrArg List.length hrest
    rw [List.length_map, List.length_append, Yaml.Entry.length_items,
      List.length_map] at hlength
    omega

/-- The settings are those of the lines, unless a field is set twice. -/
theorem ofText_lines (h : ∀ l ∈ ls, l.Valid) :
    (∀ field, Line.times ls field ≤ 1) ∧ ofText (Line.textOf ls) = .ok (Line.config ls) ∨
      ∃ field mapping, 1 < Line.times ls field ∧
        ofText (Line.textOf ls) = .error (.content (.duplicate field) mapping none) := by
  obtain ⟨hfault, hmore, _⟩ := document_lines h
  obtain ⟨mapping, hnode⟩ := readNode_lines h
  unfold ofText
  generalize hresult : readNode (Yaml.Document.read (Line.textOf ls)) = result at hnode
  cases hnode with
  | settings honce =>
    refine .inl ⟨fun field => (count_empty ls field).ge.trans (honce field), ?_⟩
    dsimp only
    rw [hresult]
    dsimp only [bind, Except.bind]
    rw [hfault, hmore]
    exact congrArg Except.ok (config_empty ls)
  | duplicate htwice =>
    refine .inr ⟨_, mapping, htwice.trans_eq (count_empty ls _), ?_⟩
    dsimp only
    rw [hresult]
    rfl

variable {fs : FileSystem} {asked : Option Path} {env : Environment} {q : Path}

/-- A configuration file of lines is read back: if no field is set twice, each has the value that
its line says, or its standard value if there is no such line, whatever the order is and whatever
other lines say. If a field is set twice, the file is refused by name because of such a field. -/
theorem load_lines (hq : location asked env = some q)
    (hfile : FileSystem.Contains fs q (Utf8.encode (Line.textOf ls))) (h : ∀ l ∈ ls, l.Valid) :
    ((Line.paths ls).length ≤ 1 → (Line.formats ls).length ≤ 1 →
      load fs asked env = ⟨[], .ok (some q, Line.config ls)⟩) ∧
    (1 < (Line.paths ls).length ∨ 1 < (Line.formats ls).length →
      ∃ field mapping, 1 < Line.times ls field ∧
        load fs asked env = ⟨[], .error (.config q
          (Fault.content (.duplicate field) mapping none).message)⟩) := by
  rw [load_of_contains hq hfile]
  unfold answer
  rcases ofText_lines h with ⟨honce, hok⟩ | ⟨field, mapping, htwice, herror⟩
  · rw [hok]
    refine ⟨fun _ _ => rfl, ?_⟩
    rintro (hpaths | hformats)
    · exact absurd (honce .defaultOutfile) (Nat.not_le.mpr hpaths)
    · exact absurd (honce .jsonFormat) (Nat.not_le.mpr hformats)
  · rw [herror]
    refine ⟨?_, fun _ => ⟨field, mapping, htwice, rfl⟩⟩
    intro hpaths hformats
    cases field with
    | defaultOutfile => exact absurd hpaths (Nat.not_le.mpr htwice)
    | jsonFormat => exact absurd hformats (Nat.not_le.mpr htwice)

/-- A tree with the file `c`. -/
def treeOf (content : Bytes) : FileSystem where
  entries := [([[0x63]], .file 0o644 content)]
  working := []

theorem contains_treeOf (content : Bytes) : (treeOf content).Contains [0x63] content := by
  have hfile : (treeOf content).find? [[0x63]] = some (.file 0o644 content) := rfl
  have hlooks : FileSystem.LooksUp .follow [0x63] [] false :=
    ⟨by decide, by decide, fun h => absurd h.2.2 (by decide), by decide⟩
  exact ⟨[[0x63]], 0o644, ⟨⟨by decide, by decide, by decide⟩, _, .refl, .file hlooks hfile⟩, hfile⟩

/-- Lines around a path that has to be escaped, the last two of which have one key. -/
def mixedLines : List Line :=
  [.other "true".toList "null".toList, .outfile "a: \x22b\x22 \\c #d".toList, .format .compact,
    .other "true".toList "no".toList]

theorem valid_mixedLines : ∀ l ∈ mixedLines, l.Valid := by
  have hother {key word : List Char} (h : key ≠ [] ∧ key.length ≤ 100 ∧ key.all Char.isAlpha ∧
      word ≠ [] ∧ word.all Char.isAlpha) : (Line.other key word).Valid :=
    .other h.1 h.2.1 (List.all_eq_true.mp h.2.2.1) h.2.2.2.1 (List.all_eq_true.mp h.2.2.2.2)
  have hpath : "a: \x22b\x22 \\c #d".toList.all (decide <| Yaml.IsShown ·) = true := rfl
  simp only [mixedLines, List.forall_mem_cons]
  refine ⟨hother (by decide), .outfile ?_, .format _, hother (by decide), nofun⟩
  exact fun c hc => of_decide_eq_true (List.all_eq_true.mp hpath c hc)

/-- Both fields are set once, and after one more line for the layout it is set twice. -/
theorem load_lines_mixed :
    load (treeOf (Utf8.encode (Line.textOf mixedLines))) (some [0x63]) {} =
        ⟨[], .ok (some [0x63], {
          defaultOutfile := Path.ofString "a: \x22b\x22 \\c #d"
          jsonFormat := .compact })⟩ ∧
      ∃ mapping,
        load (treeOf (Utf8.encode (Line.textOf (.format .pretty :: mixedLines)))) (some [0x63]) {} =
          ⟨[], .error (.config [0x63]
            (Fault.content (.duplicate .jsonFormat) mapping none).message)⟩ := by
  have hq : location (some [0x63]) {} = some [0x63] := rfl
  constructor
  · exact (load_lines hq (contains_treeOf _) valid_mixedLines).1 (by decide) (by decide)
  · have hvalid : ∀ l ∈ .format .pretty :: mixedLines, l.Valid :=
      List.forall_mem_cons.mpr ⟨.format _, valid_mixedLines⟩
    obtain ⟨field, mapping, htwice, hresult⟩ :=
      (load_lines hq (contains_treeOf _) hvalid).2 (.inr (by decide))
    cases field with
    | defaultOutfile => exact absurd htwice (by decide)
    | jsonFormat => exact ⟨mapping, hresult⟩

end Keyfile.Config
