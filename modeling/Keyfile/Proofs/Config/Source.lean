import Keyfile.Proofs.History
import Keyfile.Proofs.Keypair.Reading

/-!
# Where settings come from and what they depend on

One file is in question: the one that was asked for, or else the one that the environment names, or
else the usual one. The settings are what can be read from it, and only if it is absent are they the
standard ones without being read. A tree enters into what is read from a path only where the path
visits it.
-/
namespace Keyfile

namespace FileSystem
variable {fs fs' : FileSystem} {p : Path} {s t : Position} {l : Location} {e : AccessError}
  {content : Bytes}

/-! ## Trees that are the same along a path -/

/-- The places that are looked at when a path is followed for reading: one for each name that is
taken or cannot be taken, and the one that the path leads to. -/
inductive Visits (fs : FileSystem) (p : Path) : Location → Prop
  | name {s : Position} {n : Name} {rest : List Name} :
      Reaches fs p s → s.names = n :: rest → Visits fs p (s.here ++ [n])
  | place {l : Location} : LeadsTo fs p l → Visits fs p l

/-- There is a file at a place. -/
def IsFile (fs : FileSystem) (l : Location) : Prop :=
  ∃ mode content, fs.find? l = some (.file mode content)

/-- Two trees hold the same at every place that a path visits. Only what is in a file does not
matter unless the path leads to that file. -/
structure SameAlong (p : Path) (fs fs' : FileSystem) : Prop where
  working_eq : fs'.working = fs.working
  find?_eq {l : Location} : Visits fs p l →
    fs'.find? l = fs.find? l ∨ (¬ LeadsTo fs p l ∧ IsFile fs l ∧ IsFile fs' l)

theorem SameAlong.isFile (h : SameAlong p fs fs') (hv : Visits fs p l) (hl : IsFile fs l) :
    IsFile fs' l := by
  rcases h.find?_eq hv with heq | ⟨_, _, hfile⟩
  · unfold IsFile
    rwa [heq]
  · exact hfile

theorem SameAlong.find?_of_not_isFile (h : SameAlong p fs fs') (hv : Visits fs p l)
    (hl : ¬ IsFile fs l) : fs'.find? l = fs.find? l := by
  rcases h.find?_eq hv with heq | ⟨_, hfile, _⟩
  · exact heq
  · exact (hl hfile).elim

theorem SameAlong.find?_of_leadsTo (h : SameAlong p fs fs') (hl : LeadsTo fs p l) :
    fs'.find? l = fs.find? l := by
  rcases h.find?_eq (.place hl) with heq | ⟨hno, _⟩
  · exact heq
  · exact (hno hl).elim

theorem not_isFile_of_find? {entry : Option Entry} (h : fs.find? l = entry)
    (hentry : ∀ mode content, entry ≠ some (.file mode content)) : ¬ IsFile fs l := by
  rintro ⟨mode, content, hfile⟩
  exact hentry mode content (h.symm.trans hfile)

theorem Step.of_sameAlong (h : SameAlong p fs fs') (hs : Reaches fs p s) (hstep : Step fs s t) :
    Step fs' s t := by
  cases hstep with
  | dot => exact .dot
  | dotDot => exact .dotDot
  | directory hl hn =>
    have hsame := h.find?_of_not_isFile (.name hs rfl) (not_isFile_of_find? hn nofun)
    exact .directory hl (hsame.trans hn)
  | link hl hn =>
    have hsame := h.find?_of_not_isFile (.name hs rfl) (not_isFile_of_find? hn nofun)
    exact .link hl (hsame.trans hn)

/-- The path is followed the same way in both trees. -/
theorem Reaches.of_sameAlong (h : SameAlong p fs fs') (hs : Reaches fs p s) : Reaches fs' p s := by
  unfold Reaches
  rw [h.working_eq]
  induction hs with
  | refl => exact .refl
  | tail hrun hstep ih => exact ih.tail (hstep.of_sameAlong h hrun)

theorem Missing.of_sameAlong (h : SameAlong p fs fs') (hs : Reaches fs p s) (hm : Missing fs s) :
    Missing fs' s := by
  cases hm with
  | intro hl hn =>
    have hsame := h.find?_of_not_isFile (.name hs rfl) (not_isFile_of_find? hn nofun)
    exact .intro hl (hsame.trans hn)

theorem Blocked.of_sameAlong (h : SameAlong p fs fs') (hs : Reaches fs p s) (hb : Blocked fs s e) :
    Blocked fs' s e := by
  cases hb with
  | nameTooLong hlen => exact .nameTooLong hlen
  | notDirectory hl hn hmore =>
    obtain ⟨mode, content, hfile⟩ := h.isFile (.name hs rfl) ⟨_, _, hn⟩
    exact .notDirectory hl hfile hmore
  | tooManyLinks hl hn =>
    have hsame := h.find?_of_not_isFile (.name hs rfl) (not_isFile_of_find? hn nofun)
    exact .tooManyLinks hl (hsame.trans hn)

theorem LeadsTo.of_sameAlong (h : SameAlong p fs fs') (hl : LeadsTo fs p l) : LeadsTo fs' p l := by
  have hsame := h.find?_of_leadsTo hl
  obtain ⟨hp, s, hs, harrives⟩ := hl
  refine ⟨hp, s, hs.of_sameAlong h, ?_⟩
  cases harrives with
  | place => exact .place
  | file hlooks hn => exact .file hlooks (hsame.trans hn)

theorem Contains.of_sameAlong (h : SameAlong p fs fs') (hc : Contains fs p content) :
    Contains fs' p content := by
  obtain ⟨l, mode, hl, hf⟩ := hc
  exact ⟨l, mode, hl.of_sameAlong h, (h.find?_of_leadsTo hl).trans hf⟩

theorem Absent.of_sameAlong (h : SameAlong p fs fs') (ha : Absent fs p) : Absent fs' p := by
  cases ha with
  | empty hp => exact .empty hp
  | missing hp hs hm => exact .missing hp (hs.of_sameAlong h) (hm.of_sameAlong h hs)
  | nowhere hl hd hf =>
    have hsame := h.find?_of_leadsTo hl
    exact .nowhere (hl.of_sameAlong h) (by rwa [hsame]) (by rwa [hsame])

theorem Unreadable.of_sameAlong (h : SameAlong p fs fs') (hu : Unreadable fs p e) :
    Unreadable fs' p e := by
  cases hu with
  | zeroByte h₀ => exact .zeroByte h₀
  | pathTooLong h₀ hlen => exact .pathTooLong h₀ hlen
  | blocked hp hs hb => exact .blocked hp (hs.of_sameAlong h) (hb.of_sameAlong h hs)
  | directory hl hd =>
    exact .directory (hl.of_sameAlong h) ((h.find?_of_leadsTo hl).trans hd)
  | notText hc hno => exact .notText (hc.of_sameAlong h) hno

/-- What is read depends on the places that the path visits. -/
theorem SameAlong.readText_eq (h : SameAlong p fs fs') : fs'.readText p = fs.readText p := by
  obtain ha | ⟨e, hu⟩ | ⟨text, hc⟩ := absent_or_unreadable_or_contains fs p
  · rw [ha.readText_eq, (ha.of_sameAlong h).readText_eq]
  · rw [hu.readText_eq, (hu.of_sameAlong h).readText_eq]
  · rw [hc.readText_eq, (hc.of_sameAlong h).readText_eq]

end FileSystem

namespace Config
open FileSystem

variable {fs fs' : FileSystem} {asked asked' : Option Path} {env env' : Environment} {p : Path}
  {text : List Char} {e : AccessError}

/-! ## The file in question -/

/-- The way from the home directory to the configuration file, as it is written. -/
def usualWay : Path := Path.ofString ".config/doublezero/keygen/config.yml"

/-- Which file is in question. A file that was asked for counts most, then one that the environment
names, even by an empty name; otherwise it depends on whether there is a home directory. -/
inductive Selects (asked : Option Path) (env : Environment) : Option Path → Prop
  | asked {p : Path} : asked = some p → Selects asked env (some p)
  | named {p : Path} : asked = none → env.configFile = some p → Selects asked env (some p)
  | usual {home : Path} : asked = none → env.configFile = none → env.home = some home →
      home ≠ [] → home.endsInSlash = false →
      Selects asked env (some (home ++ Path.slash :: usualWay))
  | usualBehindSlash {home : Path} : asked = none → env.configFile = none →
      env.home = some home → home.endsInSlash = true → Selects asked env (some (home ++ usualWay))
  | homeless : asked = none → env.configFile = none →
      (∀ home, env.home = some home → home = []) → Selects asked env none

theorem push_of_not_endsInSlash {n : Name} (hp : p ≠ []) (hslash : p.endsInSlash = false) :
    p.push n = p ++ Path.slash :: n := by
  refine if_neg ?_
  rw [hslash]
  rintro (h | h)
  · exact hp h
  · cases h

theorem push_of_endsInSlash {n : Name} (hslash : p.endsInSlash = true) : p.push n = p ++ n :=
  if_pos (.inr hslash)

/-- A name goes behind a name with a slash between them. -/
theorem push_append_name {n m : Name} (hn : n ≠ []) (hslash : Path.endsInSlash n = false) :
    (p ++ n).push m = p ++ n ++ Path.slash :: m := by
  refine push_of_not_endsInSlash (List.append_ne_nil_of_right_ne_nil p hn) ?_
  unfold Path.endsInSlash at hslash ⊢
  rwa [List.getLast?_append_of_ne_nil p hn]

/-- Names that go behind a name have slashes between them. -/
theorem foldl_push {n : Name} (ns : List Name)
    (h : ∀ m ∈ n :: ns, m ≠ [] ∧ Path.endsInSlash m = false) (p : Path) :
    ns.foldl Path.push (p ++ n) = p ++ Path.ofSegments (n :: ns) := by
  induction ns generalizing p n with
  | nil => rfl
  | cons m ns ih =>
    obtain ⟨hn, hslash⟩ := h n List.mem_cons_self
    have hstart : (p ++ n).push m = (p ++ n ++ [Path.slash]) ++ m := by
      rw [push_append_name hn hslash, List.append_cons]
    rw [List.foldl_cons, hstart, ih fun k hk => h k (List.mem_cons_of_mem n hk)]
    simp only [Path.ofSegments, List.append_assoc, List.cons_append, List.nil_append]

/-- The usual file is found that way from the home directory. -/
theorem usualFile_eq_foldl (home start : Path)
    (h : home.push (Utf8.ofString ".config") = start ++ Utf8.ofString ".config") :
    usualFile home = start ++ usualWay := by
  have hway : usualWay = Path.ofSegments usualNames := by cbv
  rw [hway, usualFile, usualNames, List.map_cons, List.foldl_cons, h]
  exact foldl_push _ (by decide) start

theorem usualFile_of_endsInSlash {home : Path} (h : home.endsInSlash = true) :
    usualFile home = home ++ usualWay :=
  usualFile_eq_foldl home home (push_of_endsInSlash h)

theorem usualFile_of_not_endsInSlash {home : Path} (hne : home ≠ [])
    (h : home.endsInSlash = false) : usualFile home = home ++ Path.slash :: usualWay := by
  rw [usualFile_eq_foldl home (home ++ [Path.slash])
    (by rw [push_of_not_endsInSlash hne h, List.append_cons]), List.append_assoc]
  rfl

theorem location_of_home {home : Path} (hasked : asked = none) (hnamed : env.configFile = none)
    (hhome : env.home = some home) (hne : home ≠ []) :
    location asked env = some (usualFile home) := by
  unfold location
  rw [hasked, hnamed, hhome, Option.filter_some, if_pos (decide_eq_true hne)]
  rfl

theorem location_of_homeless (hasked : asked = none) (hnamed : env.configFile = none)
    (hhome : ∀ home, env.home = some home → home = []) : location asked env = none := by
  unfold location
  rw [hasked, hnamed]
  cases hsome : env.home with
  | none => rfl
  | some home =>
    rw [hhome home hsome]
    rfl

theorem selects_location (asked : Option Path) (env : Environment) :
    Selects asked env (location asked env) := by
  cases hasked : asked with
  | some p => exact .asked rfl
  | none =>
    cases hnamed : env.configFile with
    | some p =>
      have hlocation : location none env = some p := by
        unfold location
        rw [hnamed]
        rfl
      rw [hlocation]
      exact .named rfl hnamed
    | none =>
      by_cases hhome : ∃ home, env.home = some home ∧ home ≠ []
      · obtain ⟨home, hhome, hne⟩ := hhome
        rw [location_of_home rfl hnamed hhome hne]
        cases hslash : home.endsInSlash with
        | true =>
          rw [usualFile_of_endsInSlash hslash]
          exact .usualBehindSlash rfl hnamed hhome hslash
        | false =>
          rw [usualFile_of_not_endsInSlash hne hslash]
          exact .usual rfl hnamed hhome hne hslash
      · simp only [not_exists, not_and, not_not] at hhome
        rw [location_of_homeless rfl hnamed hhome]
        exact .homeless rfl hnamed hhome

/-- No other file is in question. -/
theorem Selects.eq_location {file : Option Path} (h : Selects asked env file) :
    file = location asked env := by
  cases h with
  | asked h =>
    rw [h]
    rfl
  | named hasked hnamed =>
    unfold location
    rw [hasked, hnamed]
    rfl
  | usual hasked hnamed hhome hne hslash =>
    rw [location_of_home hasked hnamed hhome hne, usualFile_of_not_endsInSlash hne hslash]
  | usualBehindSlash hasked hnamed hhome hslash =>
    rename_i home
    have hne : home ≠ [] := by
      rintro rfl
      cases hslash
    rw [location_of_home hasked hnamed hhome hne, usualFile_of_endsInSlash hslash]
  | homeless hasked hnamed hhome => rw [location_of_homeless hasked hnamed hhome]

theorem selects_iff {file : Option Path} :
    Selects asked env file ↔ file = location asked env := by
  constructor
  · exact Selects.eq_location
  · rintro rfl
    exact selects_location asked env

/-! ## What is read from it -/

/-- Nothing else than what is read from the file in question matters. -/
theorem load_eq_of_readText_eq (hlocation : location asked' env' = location asked env)
    (hread : ∀ p, location asked env = some p → fs'.readText p = fs.readText p) :
    load fs' asked' env' = load fs asked env := by
  unfold load
  rw [hlocation]
  split
  · rfl
  · rename_i p hp
    rw [hread p hp]

theorem load_of_no_location (h : location asked env = none) :
    load fs asked env = ⟨[.noHome], .ok (none, {})⟩ := by
  unfold load
  rw [h]

theorem load_of_absent (hp : location asked env = some p) (h : Absent fs p) :
    load fs asked env = ⟨[.noConfig p], .ok (some p, {})⟩ := by
  unfold load
  rw [hp]
  dsimp only
  rw [h.readText_eq]

theorem load_of_unreadable (hp : location asked env = some p) (h : Unreadable fs p e) :
    load fs asked env = ⟨[], .error (.config p e.message)⟩ := by
  unfold load
  rw [hp]
  dsimp only
  rw [h.readText_eq]
  split
  · rename_i he
    cases he
    exact (h.ne_notFound rfl).elim
  · rename_i he
    cases he
    rfl
  · rename_i he
    cases he

/-- The answer for a text that is read from a path. -/
def answer (p : Path) (text : List Char) : Except KeypairError (Option Path × Config) :=
  match ofText text with
  | .ok config => .ok (some p, config)
  | .error fault => .error (.config p fault.message)

theorem load_of_contains (hp : location asked env = some p)
    (h : Contains fs p (Utf8.encode text)) : load fs asked env = ⟨[], answer p text⟩ := by
  have hread : fs.readText p = .ok text := by
    rw [h.readText_eq, Utf8.decode?_encode]
  unfold load answer
  rw [hp]
  dsimp only
  rw [hread]
  dsimp only
  cases ofText text <;> rfl

theorem answer_eq_ok_iff {file : Option Path} {config : Config} :
    answer p text = .ok (file, config) ↔ file = some p ∧ ofText text = .ok config := by
  unfold answer
  split
  · rename_i hok
    rw [hok]
    constructor
    · intro h
      cases h
      exact ⟨rfl, rfl⟩
    · rintro ⟨rfl, h⟩
      cases h
      rfl
  · rename_i herror
    rw [herror]
    exact iff_of_false nofun nofun

/-- The standard settings are in force exactly if no file is in question, or the one in question is
absent, or its text says no different. -/
theorem load_standard_iff : (∃ file, (load fs asked env).result = .ok (file, {})) ↔
    location asked env = none ∨ ∃ p, location asked env = some p ∧
      (Absent fs p ∨ ∃ text, Contains fs p (Utf8.encode text) ∧ ofText text = .ok {}) := by
  constructor
  · rintro ⟨file, h⟩
    cases hp : location asked env with
    | none => exact .inl rfl
    | some p =>
      refine .inr ⟨p, rfl, ?_⟩
      obtain ha | ⟨e, hu⟩ | ⟨text, hc⟩ := absent_or_unreadable_or_contains fs p
      · exact .inl ha
      · rw [load_of_unreadable hp hu] at h
        cases h
      · rw [load_of_contains hp hc] at h
        exact .inr ⟨text, hc, (answer_eq_ok_iff.mp h).2⟩
  · rintro (hnone | ⟨p, hp, ha | ⟨text, hc, htext⟩⟩)
    · exact ⟨none, by rw [load_of_no_location hnone]⟩
    · exact ⟨some p, by rw [load_of_absent hp ha]⟩
    · refine ⟨some p, ?_⟩
      rw [load_of_contains hp hc]
      exact answer_eq_ok_iff.mpr ⟨rfl, htext⟩

/-- The path that comes with settings is that of the file in question. -/
theorem load_eq_ok {file : Option Path} {config : Config}
    (h : (load fs asked env).result = .ok (file, config)) : file = location asked env := by
  cases hp : location asked env with
  | none =>
    rw [load_of_no_location hp] at h
    cases h
    rfl
  | some p =>
    obtain ha | ⟨e, hu⟩ | ⟨text, hc⟩ := absent_or_unreadable_or_contains fs p
    · rw [load_of_absent hp ha] at h
      cases h
      rfl
    · rw [load_of_unreadable hp hu] at h
      cases h
    · rw [load_of_contains hp hc] at h
      exact (answer_eq_ok_iff.mp h).1

/-- Only a file that is there is refused, and the refusal names it. -/
theorem load_eq_error {e : KeypairError} (h : (load fs asked env).result = .error e) :
    ∃ p reason, location asked env = some p ∧ ¬ Absent fs p ∧ e = .config p reason := by
  cases hp : location asked env with
  | none =>
    rw [load_of_no_location hp] at h
    cases h
  | some p =>
    have hpresent : ¬ Absent fs p := by
      intro ha
      rw [load_of_absent hp ha] at h
      cases h
    obtain ha | ⟨a, hu⟩ | ⟨text, hc⟩ := absent_or_unreadable_or_contains fs p
    · exact (hpresent ha).elim
    · rw [load_of_unreadable hp hu] at h
      cases h
      exact ⟨p, _, rfl, hpresent, rfl⟩
    · rw [load_of_contains hp hc] at h
      dsimp only [answer] at h
      split at h
      · cases h
      · cases h
        exact ⟨p, _, rfl, hpresent, rfl⟩

/-- One file is in question, and the settings depend on what is read from it: not on the file that
would be in question otherwise, nor on what is in any other file, nor on any place that the path
does not visit. They come with the path of the file. If there is no file in question, or it is
absent, the standard settings are in force; otherwise what is in it decides. A file that is there
but cannot be read as text, or whose text holds no settings, is refused by name, and the standard
settings never stand in for it. No file changes. -/
theorem load_sourced (fs : FileSystem) (asked : Option Path) (env : Environment) :
    (∀ file, Selects asked env file ↔ file = location asked env) ∧
    (∀ fs' asked' env', location asked' env' = location asked env →
      (∀ p, location asked env = some p →
        fs'.readText p = fs.readText p ∨ SameAlong p fs fs') →
      load fs' asked' env' = load fs asked env) ∧
    (∀ file config, (load fs asked env).result = .ok (file, config) →
      file = location asked env) ∧
    ((∃ file, (load fs asked env).result = .ok (file, {})) ↔
      location asked env = none ∨ ∃ p, location asked env = some p ∧
        (Absent fs p ∨ ∃ text, Contains fs p (Utf8.encode text) ∧ ofText text = .ok {})) ∧
    (∀ p, location asked env = some p →
      (Absent fs p ∨ (∃ e, Unreadable fs p e) ∨ ∃ text, Contains fs p (Utf8.encode text)) ∧
      (∀ e, Unreadable fs p e → (load fs asked env).result = .error (.config p e.message)) ∧
      ∀ text, Contains fs p (Utf8.encode text) →
        (∀ config, ofText text = .ok config →
          (load fs asked env).result = .ok (some p, config)) ∧
        ∀ fault, ofText text = .error fault →
          (load fs asked env).result = .error (.config p fault.message)) ∧
    (∀ e, (load fs asked env).result = .error e →
      ∃ p reason, location asked env = some p ∧ ¬ Absent fs p ∧ e = .config p reason ∧
        e.message = "Invalid keygen config '" ++ p.display ++ "': " ++ reason) ∧
    ∀ w : World, ((Program.settings asked env).after w).files = w.files := by
  refine ⟨fun file => selects_iff, ?_, fun file config => load_eq_ok, load_standard_iff, ?_, ?_,
    fun w => (Program.quiet_settings asked env w).files_eq⟩
  · intro fs' asked' env' hlocation hread
    refine load_eq_of_readText_eq hlocation fun p hp => ?_
    rcases hread p hp with hsame | halong
    · exact hsame
    · exact halong.readText_eq
  · intro p hp
    refine ⟨absent_or_unreadable_or_contains fs p, ?_, ?_⟩
    · intro e hu
      rw [load_of_unreadable hp hu]
    · intro text hc
      rw [load_of_contains hp hc]
      constructor
      · intro config hok
        exact answer_eq_ok_iff.mpr ⟨rfl, hok⟩
      · intro fault herror
        dsimp only [answer]
        rw [herror]
  · intro e h
    obtain ⟨p, reason, hp, hpresent, rfl⟩ := load_eq_error h
    exact ⟨p, reason, hp, hpresent, rfl, rfl⟩

/-- An empty name in the environment counts, and no file has it. -/
example : (load Keypair.linkedTree none { configFile := some [], home := some [0x2F] }).result =
    .ok (some [], {}) := by cbv

/-- The directory `d` is there, so it does not stand for the standard settings. -/
example : (load Keypair.linkedTree (some [0x64]) {}).result =
    .error (.config [0x64] "Is a directory (os error 21)") := by cbv

end Config

end Keyfile
