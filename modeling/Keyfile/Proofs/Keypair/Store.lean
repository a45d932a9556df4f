import Keyfile.Proofs.FileSystem.Change
import Keyfile.Proofs.Keypair.Format
import Keyfile.Proofs.Text.Utf8
import Mathlib

/-!
# Storing and loading

A successful save adds directories and then writes one file, to which its path leads from then on;
a failed save adds directories at most. Loading the path answers as for the stored bytes.
-/
namespace Keyfile
open FileSystem

variable {fs : FileSystem} {p : Path} {b : Bytes} {f : JsonFormat}

/-- The trees that a file at a location goes through while it is written: it is emptied or made,
then closed to others, then filled. -/
def writeStates (fs : FileSystem) (l : Location) (mode : Nat) (content : Bytes) :
    List FileSystem :=
  [fs.set l (.file mode []), fs.set l (.file ownerOnly []), fs.set l (.file ownerOnly content)]

/-- Writing a file refuses without a change, or goes through these trees, and the path leads to the
file in the first of them. -/
theorem writeOwnerOnly_cases (fs : FileSystem) (p : Path) (content : Bytes) :
    (∃ e, fs.writeOwnerOnly p content = ⟨[], .error e⟩) ∨
      ∃ l mode, fs.writeOwnerOnly p content = ⟨writeStates fs l mode content, .ok ()⟩ ∧
        fs.OpensWith l ownerOnly mode ∧
        (fs.set l (.file mode [])).resolve .create p = .ok (.found l) := by
  unfold writeOwnerOnly
  split
  · rename_i e _
    exact .inl ⟨e, rfl⟩
  · rename_i opened l ho
    obtain ⟨mode, hopens, rfl, hr⟩ := openEmpty_ok ho
    have hne := hopens.writable.ne_nil
    refine .inr ⟨l, mode, ?_, hopens, hr⟩
    dsimp only
    rw [setModeAt_set hne, setContentAt_set hne, writeStates]

/-- The directories that a path lies in: its parent, and those above that. -/
def Path.above (p : Path) : List Path :=
  match p.parent? with
  | none => []
  | some up => up.ancestors

theorem makeParents_adds (fs : FileSystem) (p : Path) :
    ∀ s ∈ (fs.makeParents p).states, AddsAt p.above fs s := by
  intro s hs
  unfold makeParents at hs
  unfold Path.above
  cases hup : p.parent? with
  | none =>
    rw [hup] at hs
    cases hs
  | some up =>
    rw [hup] at hs
    dsimp only at hs ⊢
    split_ifs at hs
    · cases hs
    · exact ensureAll_adds fs _ s hs

/-- How a save that succeeds goes: directories are added first, and then the file is written. -/
structure Storing (fs : FileSystem) (b : Bytes) (p : Path) (f : JsonFormat)
    (before : List FileSystem) (mid : FileSystem) (l : Location) (mode : Nat) : Prop where
  steps_eq : saveSteps fs b p f =
    ⟨before ++ writeStates mid l mode (Utf8.ofString (f.arrayText b)), .ok ()⟩
  adds_before : ∀ s ∈ before, AddsAt p.above fs s
  adds : AddsAt p.above fs mid
  opens : mid.OpensWith l ownerOnly mode
  leads : (mid.set l (.file mode [])).resolve .create p = .ok (.found l)

/-- A save is refused, and until then directories are added at most, or it stores the bytes. -/
theorem saveSteps_cases (fs : FileSystem) (b : Bytes) (p : Path) (f : JsonFormat) :
    (∃ e : AccessError, (saveSteps fs b p f).result = .error (.writeFailure p e.message) ∧
        ∀ s ∈ (saveSteps fs b p f).states, AddsAt p.above fs s) ∨
      ∃ before mid l mode, Storing fs b p f before mid l mode := by
  have hparents := makeParents_adds fs p
  have hmid : AddsAt p.above fs ((fs.makeParents p).final fs) := Progress.final_adds hparents
  cases hp : (fs.makeParents p).result with
  | error e =>
    have hsteps : saveSteps fs b p f =
        ⟨(fs.makeParents p).states, .error (.writeFailure p e.message)⟩ := by
      unfold saveSteps
      dsimp only
      rw [hp]
    rw [hsteps]
    exact .inl ⟨e, rfl, hparents⟩
  | ok _ =>
    have hsteps : saveSteps fs b p f =
        let written := ((fs.makeParents p).final fs).writeOwnerOnly p
          (Utf8.ofString (f.arrayText b))
        ⟨(fs.makeParents p).states ++ written.states,
          written.result.mapError fun e => .writeFailure p e.message⟩ := by
      unfold saveSteps
      dsimp only
      rw [hp]
    rcases writeOwnerOnly_cases ((fs.makeParents p).final fs) p
      (Utf8.ofString (f.arrayText b)) with ⟨e, he⟩ | ⟨l, mode, hw, hopens, hleads⟩
    · rw [he] at hsteps
      rw [hsteps]
      refine .inl ⟨e, rfl, ?_⟩
      intro s hs
      exact hparents s ((List.mem_append.mp hs).resolve_right List.not_mem_nil)
    · rw [hw] at hsteps
      exact .inr ⟨_, _, l, mode, hsteps, hparents, hmid, hopens, hleads⟩

/-- What a save that succeeds has done: directories were added, and then the file was written. -/
structure Stored (fs : FileSystem) (b : Bytes) (p : Path) (f : JsonFormat) (mid : FileSystem)
    (l : Location) (fs' : FileSystem) : Prop where
  adds : AddsAt p.above fs mid
  writable : mid.Writable l
  eq_set : fs' = mid.set l (.file ownerOnly (Utf8.ofString (f.arrayText b)))
  leads : fs'.resolve .create p = .ok (.found l)

theorem Stored.grows_written {mid fs' : FileSystem} {l : Location}
    (h : Stored fs b p f mid l fs') : Grows mid fs' := by
  rw [h.eq_set]
  exact h.writable.grows_set _ _

theorem Stored.grows {mid fs' : FileSystem} {l : Location} (h : Stored fs b p f mid l fs') :
    Grows fs fs' :=
  h.adds.grows.trans h.grows_written

theorem Storing.stored {before : List FileSystem} {mid : FileSystem} {l : Location} {mode : Nat}
    (h : Storing fs b p f before mid l mode) :
    (save fs b p f).2 = ⟨[.saved p], .ok ()⟩ ∧ Stored fs b p f mid l (save fs b p f).1 := by
  have hfinal : (save fs b p f).1 =
      mid.set l (.file ownerOnly (Utf8.ofString (f.arrayText b))) := by
    unfold save
    dsimp only
    rw [h.steps_eq]
    exact Progress.final_append before _ (.ok ()) fs
  have hlogged : (save fs b p f).2 = ⟨[.saved p], .ok ()⟩ := by
    unfold save
    dsimp only
    rw [h.steps_eq]
  refine ⟨hlogged, h.adds, h.opens.writable, hfinal, ?_⟩
  rw [hfinal]
  exact (grows_set_set h.opens.writable.ne_nil).resolve_found h.leads

/-- A save is refused, with directories added at most, or it stores the bytes and logs that. -/
theorem save_cases (fs : FileSystem) (b : Bytes) (p : Path) (f : JsonFormat) :
    (∃ reason, (save fs b p f).2 = ⟨[], .error (.writeFailure p reason)⟩ ∧
        AddsAt p.above fs (save fs b p f).1) ∨
      ∃ mid l, (save fs b p f).2 = ⟨[.saved p], .ok ()⟩ ∧
        Stored fs b p f mid l (save fs b p f).1 := by
  rcases saveSteps_cases fs b p f with ⟨e, hresult, hadds⟩ | ⟨before, mid, l, mode, hs⟩
  · refine .inl ⟨e.message, ?_, Progress.final_adds hadds⟩
    unfold save
    dsimp only
    rw [hresult]
  · exact .inr ⟨mid, l, hs.stored⟩

theorem save_ok (h : (save fs b p f).2.result = .ok ()) :
    ∃ mid l, Stored fs b p f mid l (save fs b p f).1 := by
  rcases save_cases fs b p f with ⟨reason, hr, _⟩ | ⟨mid, l, _, hs⟩
  · rw [hr] at h
    cases h
  · exact ⟨mid, l, hs⟩

theorem save_messages (h : (save fs b p f).2.result = .ok ()) :
    (save fs b p f).2.messages = [.saved p] := by
  rcases save_cases fs b p f with ⟨_, hr, _⟩ | ⟨_, _, hr, _⟩
  · rw [hr] at h
    cases h
  · rw [hr]

/-- What a save logs and whether it succeeds does not depend on the bytes or the layout. -/
theorem save_logged_eq (fs : FileSystem) (p : Path) (b b' : Bytes) (f f' : JsonFormat) :
    (save fs b p f).2 = (save fs b' p f').2 := by
  have hwritten (fs : FileSystem) (content content' : Bytes) :
      (fs.writeOwnerOnly p content).result = (fs.writeOwnerOnly p content').result := by
    unfold writeOwnerOnly
    cases fs.openEmpty ownerOnly p <;> rfl
  have hsteps : (saveSteps fs b p f).result = (saveSteps fs b' p f').result := by
    unfold saveSteps
    dsimp only
    cases (fs.makeParents p).result with
    | error e => rfl
    | ok _ =>
      dsimp only
      rw [hwritten _ _ (Utf8.ofString (f'.arrayText b'))]
  unfold save
  dsimp only
  rw [hsteps]

theorem save_result_eq (fs : FileSystem) (p : Path) (b b' : Bytes) (f f' : JsonFormat) :
    (save fs b p f).2.result = (save fs b' p f').2.result := by
  rw [save_logged_eq fs p b b' f f']

/-! ## Loading what has been stored -/

/-- What is read where a path leads to a place. -/
theorem readFile_of_found {l : Location} (hr : fs.resolve .follow p = .ok (.found l)) :
    fs.readFile p = match fs.find? l with
      | some (.file _ content) => .ok content
      | some (.directory _) => .error .isDirectory
      | _ => .error .notFound := by
  unfold readFile
  rw [hr]
  rfl

theorem readText_eq {text : List Char} {l : Location} {mode : Nat}
    (hr : fs.resolve .follow p = .ok (.found l))
    (hf : fs.find? l = some (.file mode (Utf8.encode text))) : fs.readText p = .ok text := by
  have hread := readFile_of_found hr
  rw [hf] at hread
  refine bind_eq_ok_iff.mpr ⟨_, hread, ?_⟩
  rw [Utf8.decode?_encode]
  rfl

theorem Stored.find?_eq {mid fs' : FileSystem} {l : Location} (h : Stored fs b p f mid l fs') :
    fs'.find? l = some (.file ownerOnly (Utf8.ofString (f.arrayText b))) := by
  rw [h.eq_set, find?_set_self _ _ h.writable.ne_nil]

namespace Keypair

theorem ofText_eq_ofBytes {text : List Char} (h : Json.ByteText text b) (origin : String) :
    ofText text origin = ofBytes b origin := by
  unfold ofText
  rw [readByteArray_eq_ok_iff.mpr h]

/-- Where a path leads to stored bytes, loading it answers as for these bytes. -/
theorem load_eq_ofBytes {l : Location} {mode : Nat} (hr : fs.resolve .follow p = .ok (.found l))
    (hf : fs.find? l = some (.file mode (Utf8.ofString (f.arrayText b)))) :
    load fs p = ofBytes b p.display := by
  unfold load
  rw [readText_eq hr hf]
  dsimp only
  exact ofText_eq_ofBytes (byteText_arrayText f b) _

theorem load_of_save_ok (h : (save fs b p f).2.result = .ok ()) :
    load (save fs b p f).1 p = ofBytes b p.display := by
  obtain ⟨mid, l, hs⟩ := save_ok h
  exact load_eq_ofBytes (resolve_follow_of_create hs.leads) hs.find?_eq

theorem ofBytes_bytes (s : Seed) (origin : String) :
    (ofBytes (ofSeed s).bytes origin).result = .ok (ofSeed s) := by
  refine ofLayout_eq_ok_iff.mpr ⟨.inr (length_bytes _), ?_, ?_⟩
  · exact List.take_left' s.length_eq
  · intro _
    exact List.drop_left' s.length_eq

/-- Loading what was saved answers as for the bytes themselves, with the same messages; the bytes
of a keypair give the keypair back. -/
theorem load_save (h : (save fs b p f).2.result = .ok ()) :
    load (save fs b p f).1 p = ofBytes b p.display ∧
      ∀ s : Seed, b = (ofSeed s).bytes → (load (save fs b p f).1 p).result = .ok (ofSeed s) := by
  refine ⟨load_of_save_ok h, ?_⟩
  rintro s rfl
  rw [load_of_save_ok h]
  exact ofBytes_bytes s _

/-- A tree in which `k` is a link to the missing file `d/e`. -/
def linkedTree : FileSystem where
  entries := [([[0x6B]], .link [0x64, 0x2F, 0x65]), ([[0x64]], .directory 0o755)]
  working := []

/-- Through a link, five bytes are stored that are no keypair; loading says so. -/
theorem load_save_link :
    (save linkedTree [1, 2, 3, 4, 5] [0x6B] .pretty).2.result = .ok () ∧
      (load (save linkedTree [1, 2, 3, 4, 5] [0x6B] .pretty).1 [0x6B]).result =
        .error (.invalidLength "k" 5) := by
  have h : (save linkedTree [1, 2, 3, 4, 5] [0x6B] .pretty).2.result = .ok () := by cbv
  refine ⟨h, ?_⟩
  rw [(load_save h).1]
  cbv

end Keypair

end Keyfile
