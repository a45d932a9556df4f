import Keyfile.Proofs.FileSystem.Follow
import Keyfile.Proofs.Keypair.Refusal
import Keyfile.Proofs.Session

/-!
# Loading keypairs from the file tree

What becomes of a path that is loaded depends on where it leads. Nothing may be there, what is there
may be out of reach or no text, or it is the text of a keypair file. Loading changes no file.
-/
namespace Keyfile

namespace FileSystem
variable {fs : FileSystem} {p : Path} {l : Location} {content : Bytes} {text : List Char}
  {e : AccessError}

/-- A path leads to a file with this content. -/
def Contains (fs : FileSystem) (p : Path) (content : Bytes) : Prop :=
  ∃ l mode, LeadsTo fs p l ∧ fs.find? l = some (.file mode content)

/-- An entry does not exist: there is no path, a name is missing on the way along it, or it leads to
a place that holds neither a directory nor a file. -/
inductive Absent (fs : FileSystem) (p : Path) : Prop
  | empty : p = [] → Absent fs p
  | missing {s : Position} : Passable p → Reaches fs p s → Missing fs s → Absent fs p
  | nowhere {l : Location} : LeadsTo fs p l → (∀ mode, fs.find? l ≠ some (.directory mode)) →
      (∀ mode content, fs.find? l ≠ some (.file mode content)) → Absent fs p

/-- No text is read for another reason than that an entry does not exist: the path is not passed to
the system, a name on the way is out of reach, or what the path leads to is no text file. -/
inductive Unreadable (fs : FileSystem) (p : Path) : AccessError → Prop
  | zeroByte : 0 ∈ p → Unreadable fs p .zeroByte
  | pathTooLong : 0 ∉ p → 4096 ≤ p.length → Unreadable fs p .nameTooLong
  | blocked {s : Position} {e : AccessError} :
      Passable p → Reaches fs p s → Blocked fs s e → Unreadable fs p e
  | directory {l : Location} {mode : Nat} :
      LeadsTo fs p l → fs.find? l = some (.directory mode) → Unreadable fs p .isDirectory
  | notText {content : Bytes} :
      Contains fs p content → (∀ text, content ≠ Utf8.encode text) → Unreadable fs p .notText

/-! ## What is read -/

theorem readText_of_readFile_error (h : fs.readFile p = .error e) : fs.readText p = .error e := by
  unfold readText
  rw [h]
  rfl

theorem readText_of_resolve_error (h : fs.resolve .follow p = .error e) :
    fs.readText p = .error e := by
  refine readText_of_readFile_error ?_
  unfold readFile
  rw [h]
  rfl

theorem Contains.readText_eq (h : Contains fs p content) :
    fs.readText p = match Utf8.decode? content with
      | some text => .ok text
      | none => .error .notText := by
  obtain ⟨l, mode, hl, hf⟩ := h
  have hread := readFile_of_found hl.resolve_eq
  rw [hf] at hread
  unfold readText
  rw [hread]
  rfl

theorem Absent.readText_eq (h : Absent fs p) : fs.readText p = .error .notFound := by
  cases h with
  | empty hp =>
    rw [hp]
    rfl
  | missing hp hs hm =>
    rcases hm.walk_eq with he | ⟨l, n, hv⟩
    · exact readText_of_resolve_error ((hs.resolve_eq hp).trans he)
    · refine readText_of_readFile_error ?_
      unfold readFile
      rw [hs.resolve_eq hp, hv]
      rfl
  | nowhere hl hd hf =>
    refine readText_of_readFile_error ?_
    rw [readFile_of_found hl.resolve_eq]
    split
    · rename_i hfile
      exact (hf _ _ hfile).elim
    · rename_i hdirectory
      exact (hd _ hdirectory).elim
    · rfl

theorem Unreadable.readText_eq (h : Unreadable fs p e) : fs.readText p = .error e := by
  cases h with
  | zeroByte h₀ =>
    refine readText_of_resolve_error ?_
    rw [resolve, if_pos h₀]
  | pathTooLong h₀ hlen =>
    have hne : p ≠ [] := by
      rintro rfl
      exact absurd hlen (by decide)
    refine readText_of_resolve_error ?_
    rw [resolve, if_neg h₀, if_neg hne, if_pos hlen]
  | blocked hp hs hb => exact readText_of_resolve_error ((hs.resolve_eq hp).trans hb.walk_eq)
  | directory hl hd =>
    refine readText_of_readFile_error ?_
    rw [readFile_of_found hl.resolve_eq, hd]
  | notText hc hno => rw [hc.readText_eq, Utf8.decode?_eq_none_iff.mpr hno]

theorem Unreadable.ne_notFound (h : Unreadable fs p e) : e ≠ .notFound := by
  cases h with
  | blocked _ _ hb => cases hb <;> decide
  | _ => decide

/-- There is nothing, nothing that can be read, or a text. -/
theorem absent_or_unreadable_or_contains (fs : FileSystem) (p : Path) :
    Absent fs p ∨ (∃ e, Unreadable fs p e) ∨ ∃ text, Contains fs p (Utf8.encode text) := by
  by_cases h₀ : 0 ∈ p
  · exact .inr (.inl ⟨_, .zeroByte h₀⟩)
  by_cases hne : p = []
  · exact .inl (.empty hne)
  by_cases hlen : 4096 ≤ p.length
  · exact .inr (.inl ⟨_, .pathTooLong h₀ hlen⟩)
  have hp : Passable p := ⟨h₀, hne, Nat.not_le.mp hlen⟩
  obtain ⟨s, hs, ⟨l, hl⟩ | hm | ⟨e, hb⟩⟩ := exists_ended fs _
  · have hleads : LeadsTo fs p l := ⟨hp, s, hs, hl⟩
    cases hf : fs.find? l with
    | none => exact .inl (.nowhere hleads (by simp [hf]) (by simp [hf]))
    | some entry =>
      cases entry with
      | directory mode => exact .inr (.inl ⟨_, .directory hleads hf⟩)
      | link target => exact .inl (.nowhere hleads (by simp [hf]) (by simp [hf]))
      | file mode content =>
        have hc : Contains fs p content := ⟨l, mode, hleads, hf⟩
        cases hd : Utf8.decode? content with
        | none => exact .inr (.inl ⟨_, .notText hc (Utf8.decode?_eq_none_iff.mp hd)⟩)
        | some text =>
          rw [Utf8.decode?_eq_some_iff.mp hd] at hc
          exact .inr (.inr ⟨text, hc⟩)
  · exact .inl (.missing hp hs hm)
  · exact .inr (.inl ⟨e, .blocked hp hs hb⟩)

/-- In a tree that is well-formed every place that a path leads to holds something. -/
theorem WellFormed.absent_iff (h : fs.WellFormed) :
    Absent fs p ↔ p = [] ∨ Passable p ∧ ∃ s, Reaches fs p s ∧ Missing fs s := by
  constructor
  · intro ha
    cases ha with
    | empty hp => exact .inl hp
    | missing hp hs hm => exact .inr ⟨hp, _, hs, hm⟩
    | nowhere hl hd hf =>
      rcases hl.find?_eq h with ⟨mode, hmode⟩ | ⟨mode, content, hfile⟩
      · exact (hd mode hmode).elim
      · exact (hf mode content hfile).elim
  · rintro (hp | ⟨hp, s, hs, hm⟩)
    · exact .empty hp
    · exact .missing hp hs hm

end FileSystem

/-! ## What is loaded -/

namespace Keypair
open FileSystem

variable {fs : FileSystem} {p : Path} {text : List Char} {e : AccessError}

theorem load_of_absent (h : Absent fs p) : load fs p = ⟨[], .error (.fileNotFound p)⟩ := by
  unfold load
  rw [h.readText_eq]

theorem load_of_unreadable (h : Unreadable fs p e) :
    load fs p = ⟨[], .error (.fileRead p e.message)⟩ := by
  unfold load
  rw [h.readText_eq]
  split
  · rename_i he
    cases he
    exact (h.ne_notFound rfl).elim
  · rename_i he
    cases he
    rfl
  · rename_i he
    cases he

theorem load_of_contains (h : Contains fs p (Utf8.encode text)) :
    load fs p = ofText text p.display := by
  unfold load
  rw [h.readText_eq, Utf8.decode?_encode]

/-- What a text is refused for is no failure to read it. -/
theorem ofText_not_io (text : List Char) (origin : String) (q : Path) (reason : String) :
    (ofText text origin).result ≠ .error (.fileNotFound q) ∧
      (ofText text origin).result ≠ .error (.fileRead q reason) := by
  constructor
  · intro h
    obtain ⟨_, he⟩ | ⟨_, he⟩ | ⟨_, _, he⟩ := ofText_error h <;> cases he
  · intro h
    obtain ⟨_, he⟩ | ⟨_, he⟩ | ⟨_, _, he⟩ := ofText_error h <;> cases he

theorem load_eq_fileNotFound_iff {q : Path} :
    (load fs p).result = .error (.fileNotFound q) ↔ q = p ∧ Absent fs p := by
  constructor
  · intro h
    obtain ha | ⟨e, hu⟩ | ⟨text, hc⟩ := absent_or_unreadable_or_contains fs p
    · rw [load_of_absent ha] at h
      cases h
      exact ⟨rfl, ha⟩
    · rw [load_of_unreadable hu] at h
      cases h
    · rw [load_of_contains hc] at h
      exact ((ofText_not_io text p.display q "").1 h).elim
  · rintro ⟨rfl, ha⟩
    rw [load_of_absent ha]

theorem load_eq_fileRead_iff {q : Path} {reason : String} :
    (load fs p).result = .error (.fileRead q reason) ↔
      q = p ∧ ∃ e, Unreadable fs p e ∧ reason = e.message := by
  constructor
  · intro h
    obtain ha | ⟨e, hu⟩ | ⟨text, hc⟩ := absent_or_unreadable_or_contains fs p
    · rw [load_of_absent ha] at h
      cases h
    · rw [load_of_unreadable hu] at h
      cases h
      exact ⟨rfl, e, hu, rfl⟩
    · rw [load_of_contains hc] at h
      exact ((ofText_not_io text p.display q reason).2 h).elim
  · rintro ⟨rfl, e, hu, rfl⟩
    rw [load_of_unreadable hu]

theorem load_contains_ne {content : Bytes} (h : Contains fs p content) (q : Path) :
    (load fs p).result ≠ .error (.fileNotFound q) := by
  cases hd : Utf8.decode? content with
  | none =>
    rw [load_of_unreadable (.notText h (Utf8.decode?_eq_none_iff.mp hd))]
    intro he
    cases he
  | some text =>
    rw [Utf8.decode?_eq_some_iff.mp hd] at h
    rw [load_of_contains h]
    exact (ofText_not_io text p.display q "").1

/-- A keypair file is not found exactly if an entry does not exist, in a well-formed tree one on the
way along the path, and it is not read exactly if there is another reason for that. Otherwise the
path leads to a text, and loading answers as for that text. So a file that the path leads to is
never called missing, and only a text that it leads to is refused for what it spells. No file
changes. -/
theorem load_classified (fs : FileSystem) (p : Path) :
    (∀ q, (load fs p).result = .error (.fileNotFound q) ↔ q = p ∧ Absent fs p) ∧
    (∀ q reason, (load fs p).result = .error (.fileRead q reason) ↔
      q = p ∧ ∃ e, Unreadable fs p e ∧ reason = e.message) ∧
    (∀ text, Contains fs p (Utf8.encode text) → load fs p = ofText text p.display) ∧
    (Absent fs p ∨ (∃ e, Unreadable fs p e) ∨ ∃ text, Contains fs p (Utf8.encode text)) ∧
    (∀ content, Contains fs p content → ∀ q, (load fs p).result ≠ .error (.fileNotFound q)) ∧
    (∀ e, (load fs p).result = .error e →
      (∀ q, e ≠ .fileNotFound q) → (∀ q reason, e ≠ .fileRead q reason) →
      ∃ text, Contains fs p (Utf8.encode text) ∧ (ofText text p.display).result = .error e) ∧
    (fs.WellFormed →
      (Absent fs p ↔ p = [] ∨ Passable p ∧ ∃ s, Reaches fs p s ∧ Missing fs s)) ∧
    ∀ w : World, ((Action.loadKeypair p).after w).files = w.files := by
  refine ⟨fun q => load_eq_fileNotFound_iff, fun q reason => load_eq_fileRead_iff,
    fun text => load_of_contains, absent_or_unreadable_or_contains fs p,
    fun content => load_contains_ne, ?_, WellFormed.absent_iff, ?_⟩
  · intro e h hfound hread
    obtain ha | ⟨a, hu⟩ | ⟨text, hc⟩ := absent_or_unreadable_or_contains fs p
    · rw [load_of_absent ha] at h
      cases h
      exact (hfound p rfl).elim
    · rw [load_of_unreadable hu] at h
      cases h
      exact (hread p _ rfl).elim
    · rw [load_of_contains hc] at h
      exact ⟨text, hc, h⟩
  · intro w
    rw [(Action.loadKeypair_ends p w).2]
    rfl

/-- The link `k` is there, but not the file that it names. -/
example : (load linkedTree [0x6B]).result = .error (.fileNotFound [0x6B]) := by cbv

/-- The directory `d` is no file. -/
example : (load linkedTree [0x64]).result =
    .error (.fileRead [0x64] "Is a directory (os error 21)") := by cbv

end Keypair

end Keyfile
