import Keyfile.FileSystem.Operations
import Keyfile.Proofs.FileSystem.Walk
import Keyfile.Proofs.Result

/-!
# What changes of the file tree leave alone

Making directories only adds directories. Opening a file for writing adds an empty file or empties
one, and the path leads to it afterwards. In both cases the tree grows.
-/
namespace Keyfile

/-! ## Several changes in a row -/

namespace Progress
variable {ε : Type}

theorem final_append (s t : List FileSystem) (r : Except ε Unit) (fs : FileSystem) :
    final ⟨s ++ t, r⟩ fs = final ⟨t, r⟩ (s.getLastD fs) := by
  induction s generalizing fs with
  | nil => rfl
  | cons x s ih =>
    rw [List.getLastD_cons, ← ih, final, final, List.cons_append, List.getLastD_cons]

theorem final_mem (p : Progress ε) (fs : FileSystem) : p.final fs = fs ∨ p.final fs ∈ p.states :=
  List.mem_cons.mp List.getLastD_mem_cons

end Progress

namespace FileSystem
variable {fs fs' fs'' : FileSystem} {l : Location} {p : Path}

theorem ne_nil_of_find?_eq_none (h : fs.find? l = none) : l ≠ [] := by
  rintro rfl
  cases h

theorem ne_nil_of_find?_eq_file {mode : Nat} {content : Bytes}
    (h : fs.find? l = some (.file mode content)) : l ≠ [] := by
  rintro rfl
  cases h

@[simp] theorem working_set (fs : FileSystem) (l : Location) (e : Entry) :
    (fs.set l e).working = fs.working := by
  unfold set
  split_ifs <;> rfl

theorem find?_set_self (fs : FileSystem) (e : Entry) (h : l ≠ []) :
    (fs.set l e).find? l = some e := by
  rw [find?_set fs l l e h, if_pos rfl]

theorem find?_set_of_ne (fs : FileSystem) {k : Location} (e : Entry) (h : l ≠ []) (hk : k ≠ l) :
    (fs.set l e).find? k = fs.find? k := by
  rw [find?_set fs l k e h, if_neg hk]

/-- Where something else is found, the location is another one. -/
theorem ne_of_find? {k : Location} {x y : Option Entry} (hk : fs.find? k = x)
    (hl : fs.find? l = y) (h : x ≠ y) : k ≠ l := by
  rintro rfl
  exact h (hk.symm.trans hl)

/-- An entry in a new place leaves every other entry where it is. -/
theorem find?_set_of_none {k : Location} {x : Entry} (e : Entry) (h : fs.find? l = none)
    (hk : fs.find? k = some x) : (fs.set l e).find? k = some x := by
  rw [find?_set_of_ne _ e (ne_nil_of_find?_eq_none h) (ne_of_find? hk h nofun), hk]

theorem grows_set_of_none (e : Entry) (h : fs.find? l = none) : Grows fs (fs.set l e) where
  working_eq := working_set fs l e
  directory := find?_set_of_none e h
  link := find?_set_of_none e h
  file := fun hf => ⟨_, _, find?_set_of_none e h hf⟩

theorem grows_set_of_file {mode mode' : Nat} {content content' : Bytes}
    (h : fs.find? l = some (.file mode content)) :
    Grows fs (fs.set l (.file mode' content')) where
  working_eq := working_set fs l _
  directory := by
    intro k m hk
    rw [find?_set_of_ne _ _ (ne_nil_of_find?_eq_file h) (ne_of_find? hk h nofun), hk]
  link := by
    intro k t hk
    rw [find?_set_of_ne _ _ (ne_nil_of_find?_eq_file h) (ne_of_find? hk h nofun), hk]
  file := by
    intro k m c hk
    rw [find?_set fs l k _ (ne_nil_of_find?_eq_file h)]
    split_ifs with hkl
    · exact ⟨_, _, rfl⟩
    · exact ⟨m, c, hk⟩

/-! ## Making directories -/

/-- One tree is another with more directories. -/
structure AddsDirectories (fs fs' : FileSystem) : Prop where
  working_eq : fs'.working = fs.working
  keeps {l : Location} {e : Entry} : fs.find? l = some e → fs'.find? l = some e
  adds {l : Location} {e : Entry} :
    fs.find? l = none → fs'.find? l = some e → ∃ mode, e = .directory mode

theorem AddsDirectories.refl (fs : FileSystem) : AddsDirectories fs fs where
  working_eq := rfl
  keeps := id
  adds := by
    intro l e hn hs
    rw [hn] at hs
    cases hs

theorem AddsDirectories.trans (h : AddsDirectories fs fs') (h' : AddsDirectories fs' fs'') :
    AddsDirectories fs fs'' where
  working_eq := h'.working_eq.trans h.working_eq
  keeps := fun hl => h'.keeps (h.keeps hl)
  adds := by
    intro l e hn hs
    cases hm : fs'.find? l with
    | none => exact h'.adds hm hs
    | some e' =>
      have he := h'.keeps hm
      rw [hs, Option.some.injEq] at he
      rw [he]
      exact h.adds hn hm

theorem AddsDirectories.grows (h : AddsDirectories fs fs') : Grows fs fs' :=
  ⟨h.working_eq, h.keeps, h.keeps, fun hf => ⟨_, _, h.keeps hf⟩⟩

/-- Both trees have the same files. -/
def SameFiles (fs fs' : FileSystem) : Prop := ∀ l mode content,
  fs'.find? l = some (.file mode content) ↔ fs.find? l = some (.file mode content)

theorem AddsDirectories.sameFiles (h : AddsDirectories fs fs') : SameFiles fs fs' := by
  intro l mode content
  constructor
  · intro hl
    cases hbefore : fs.find? l with
    | none =>
      obtain ⟨_, hdirectory⟩ := h.adds hbefore hl
      cases hdirectory
    | some e => rwa [h.keeps hbefore] at hl
  · exact h.keeps

theorem addsDirectories_set {mode : Nat} (h : fs.find? l = none) :
    AddsDirectories fs (fs.set l (.directory mode)) where
  working_eq := working_set fs l _
  keeps := find?_set_of_none _ h
  adds := by
    intro k e hn hs
    rw [find?_set fs l k _ (ne_nil_of_find?_eq_none h)] at hs
    split_ifs at hs
    · cases hs
      exact ⟨mode, rfl⟩
    · rw [hn] at hs
      cases hs

theorem find?_of_resolve_vacant {ending : Ending} {n : Name}
    (h : fs.resolve ending p = .ok (.vacant l n)) : fs.find? (l ++ [n]) = none :=
  (resolve_eq_ok_iff.mp h).2.find?_eq_none

/-- One tree is another with more directories, and one of these paths leads to each of them. -/
structure AddsAt (ps : List Path) (fs fs' : FileSystem) : Prop extends AddsDirectories fs fs' where
  leads {l : Location} {e : Entry} : fs.find? l = none → fs'.find? l = some e →
    ∃ q ∈ ps, fs'.resolve .follow q = .ok (.found l)

variable {ps : List Path}

theorem AddsAt.refl (ps : List Path) (fs : FileSystem) : AddsAt ps fs fs := by
  refine ⟨.refl fs, ?_⟩
  intro l e hn hs
  rw [hn] at hs
  cases hs

theorem AddsAt.trans (h : AddsAt ps fs fs') (h' : AddsAt ps fs' fs'') : AddsAt ps fs fs'' := by
  refine ⟨h.toAddsDirectories.trans h'.toAddsDirectories, ?_⟩
  intro l e hn hs
  cases hm : fs'.find? l with
  | none => exact h'.leads hm hs
  | some e' =>
    obtain ⟨q, hq, hr⟩ := h.leads hn hm
    exact ⟨q, hq, h'.grows.resolve_found hr⟩

theorem AddsAt.mono {ps' : List Path} (h : AddsAt ps fs fs') (hps : ps ⊆ ps') :
    AddsAt ps' fs fs' := by
  refine ⟨h.toAddsDirectories, ?_⟩
  intro l e hn hs
  obtain ⟨q, hq, hr⟩ := h.leads hn hs
  exact ⟨q, hps hq, hr⟩

theorem makeDirectory_adds (h : fs.makeDirectory p = .ok fs') : AddsAt [p] fs fs' := by
  obtain ⟨spot, hs, h⟩ := bind_eq_ok_iff.mp h
  cases spot with
  | found l => cases h
  | vacant l n =>
    cases h
    have hn := find?_of_resolve_vacant hs
    have ha := @addsDirectories_set fs _ (fs.newDirectoryMode l) hn
    refine ⟨ha, ?_⟩
    intro k e hk he
    rw [find?_set fs _ k _ (ne_nil_of_find?_eq_none hn)] at he
    split_ifs at he with hkl
    · rw [hkl]
      exact ⟨p, List.mem_singleton_self p,
        ha.grows.resolve_made hs (find?_set_self fs _ (ne_nil_of_find?_eq_none hn))⟩
    · rw [hk] at he
      cases he

theorem ensureDirectory_adds (fs : FileSystem) (p : Path) :
    ∀ s ∈ (fs.ensureDirectory p).states, AddsAt [p] fs s := by
  intro s hs
  unfold ensureDirectory at hs
  split at hs
  · rename_i hm
    rw [List.mem_singleton] at hs
    rw [hs]
    exact makeDirectory_adds hm
  · cases hs

theorem Progress.final_adds {ε : Type} {p : Progress ε}
    (h : ∀ s ∈ p.states, AddsAt ps fs s) : AddsAt ps fs (p.final fs) := by
  rcases p.final_mem fs with he | hm
  · rw [he]
    exact .refl ps fs
  · exact h _ hm

theorem ensureAll_adds (fs : FileSystem) (ps : List Path) :
    ∀ s ∈ (fs.ensureAll ps).states, AddsAt ps fs s := by
  induction ps with
  | nil =>
    intro s hs
    cases hs
  | cons p up ih =>
    intro s hs
    have hfirst : [p] ⊆ p :: up := List.cons_subset_cons p (List.nil_subset up)
    have hup : up ⊆ p :: up := List.subset_cons_self p up
    rw [ensureAll] at hs
    dsimp only at hs
    split at hs
    · split at hs
      · exact (ih s hs).mono hup
      · rcases List.mem_append.mp hs with hs | hs
        · exact (ih s hs).mono hup
        · exact ((Progress.final_adds ih).mono hup).trans
            ((ensureDirectory_adds _ p s hs).mono hfirst)
    · exact (ensureDirectory_adds fs p s hs).mono hfirst

/-! ## Opening a file -/

/-- Whether a file can be written at a location: nothing is there, or a file. -/
def Writable (fs : FileSystem) (l : Location) : Prop :=
  fs.find? l = none ∨ ∃ mode content, fs.find? l = some (.file mode content)

theorem Writable.ne_nil (h : fs.Writable l) : l ≠ [] := by
  rcases h with h | ⟨_, _, h⟩
  · exact ne_nil_of_find?_eq_none h
  · exact ne_nil_of_find?_eq_file h

theorem Writable.grows_set (h : fs.Writable l) (mode : Nat) (content : Bytes) :
    Grows fs (fs.set l (.file mode content)) := by
  rcases h with h | ⟨_, _, h⟩
  · exact grows_set_of_none _ h
  · exact grows_set_of_file h

/-- The mode of a file that is opened to be written: the old one, or for a new file the one that is
asked for. -/
def OpensWith (fs : FileSystem) (l : Location) (asked mode : Nat) : Prop :=
  (fs.find? l = none ∧ mode = asked) ∨ ∃ content, fs.find? l = some (.file mode content)

theorem OpensWith.writable {asked mode : Nat} (h : fs.OpensWith l asked mode) : fs.Writable l := by
  rcases h with ⟨h, _⟩ | ⟨content, h⟩
  · exact .inl h
  · exact .inr ⟨mode, content, h⟩

/-- A file that has been opened is empty, and its path leads to it. -/
theorem openEmpty_ok {asked : Nat} (h : fs.openEmpty asked p = .ok (fs', l)) :
    ∃ mode, fs.OpensWith l asked mode ∧ fs' = fs.set l (.file mode []) ∧
      fs'.resolve .create p = .ok (.found l) := by
  obtain ⟨spot, hs, h⟩ := bind_eq_ok_iff.mp h
  cases spot with
  | vacant d n =>
    cases h
    have ho : fs.OpensWith (d ++ [n]) asked asked := .inl ⟨find?_of_resolve_vacant hs, rfl⟩
    have hw := ho.writable
    have hf := find?_set_self fs (.file asked []) hw.ne_nil
    exact ⟨asked, ho, rfl, (hw.grows_set asked []).resolve_filled hs hf⟩
  | found k =>
    dsimp only at h
    split at h
    · rename_i old content hk
      cases h
      have ho : fs.OpensWith l asked old := .inr ⟨content, hk⟩
      exact ⟨old, ho, rfl, (ho.writable.grows_set old []).resolve_found hs⟩
    · cases h

theorem set_set (fs : FileSystem) (l : Location) (e e' : Entry) :
    (fs.set l e).set l e' = fs.set l e' := by
  have hput (m : List (Location × Entry)) : put l e' (put l e m) = put l e' m := by
    induction m with
    | nil => simp only [put, if_true]
    | cons x r ih =>
      by_cases hx : x.1 = l
      · simp only [put, hx, if_true]
      · simp only [put, hx, if_false, ih]
  unfold set
  split_ifs
  · rfl
  · simp only [hput]

/-- A file that is written over stays where it is. -/
theorem grows_set_set {mode mode' : Nat} {content content' : Bytes} (h : l ≠ []) :
    Grows (fs.set l (.file mode content)) (fs.set l (.file mode' content')) := by
  rw [← set_set fs l (.file mode content) (.file mode' content')]
  exact grows_set_of_file (find?_set_self fs _ h)

theorem setModeAt_set {mode mode' : Nat} {content : Bytes} (h : l ≠ []) :
    (fs.set l (.file mode content)).setModeAt l mode' = fs.set l (.file mode' content) := by
  unfold setModeAt
  rw [find?_set_self _ _ h]
  exact set_set ..

theorem setContentAt_set {mode : Nat} {content content' : Bytes} (h : l ≠ []) :
    (fs.set l (.file mode content)).setContentAt l content' = fs.set l (.file mode content') := by
  unfold setContentAt
  rw [find?_set_self _ _ h]
  exact set_set ..

end FileSystem

end Keyfile
