import Keyfile.Proofs.FileSystem.Repeat
import Keyfile.Proofs.Keypair.Saved

/-!
# Saving once more

After a save to a path, another save to it leaves the same tree as if it had been the only one. If
it succeeds alone it succeeds then, and if it is refused alone it is refused then. The reason for
that is the same too, with one exception: where a file or a link stands in the way of the parents,
and directories were made before it was found, the path can be stopped by it from then on.
-/
namespace Keyfile
open FileSystem

variable {fs fs' : FileSystem} {p : Path} {b : Bytes} {f : JsonFormat} {e : AccessError}
  {l : Location}

theorem final_nothing (fs : FileSystem) :
    Progress.final ⟨[], .ok (ε := AccessError) ()⟩ fs = fs := rfl

/-! ## What becomes of a save -/

theorem save_of_parents_error (h : (fs.makeParents p).result = .error e) (b : Bytes)
    (f : JsonFormat) :
    save fs b p f = ((fs.makeParents p).final fs, ⟨[], .error (.writeFailure p e.message)⟩) := by
  unfold save saveSteps
  dsimp only
  rw [h]
  rfl

theorem save_of_open_error (h : (fs.makeParents p).result = .ok ())
    (ho : ((fs.makeParents p).final fs).openEmpty ownerOnly p = .error e) (b : Bytes)
    (f : JsonFormat) :
    save fs b p f = ((fs.makeParents p).final fs, ⟨[], .error (.writeFailure p e.message)⟩) := by
  unfold save saveSteps writeOwnerOnly
  dsimp only
  rw [h]
  dsimp only
  rw [ho]
  refine Prod.ext ?_ rfl
  exact Progress.final_append _ [] _ fs

theorem save_of_open (h : (fs.makeParents p).result = .ok ())
    (ho : ((fs.makeParents p).final fs).openEmpty ownerOnly p = .ok (fs', l)) (b : Bytes)
    (f : JsonFormat) :
    save fs b p f = (((fs.makeParents p).final fs).set l
      (.file ownerOnly (Utf8.ofString (f.arrayText b))), ⟨[.saved p], .ok ()⟩) := by
  obtain ⟨mode, hopens, rfl, _⟩ := openEmpty_ok ho
  have hne := hopens.writable.ne_nil
  unfold save saveSteps writeOwnerOnly
  dsimp only
  rw [h]
  dsimp only
  rw [ho]
  dsimp only
  rw [setModeAt_set hne, setContentAt_set hne]
  refine Prod.ext ?_ rfl
  exact Progress.final_append _ _ _ fs

/-! ## Parents -/

theorem pathExists_iff :
    fs.pathExists p = true ↔ ∃ l, fs.resolve .follow p = .ok (.found l) := by
  unfold pathExists
  constructor
  · intro h
    split at h
    · rename_i l hr
      exact ⟨l, hr⟩
    · cases h
  · rintro ⟨l, hr⟩
    rw [hr]

/-- A path stands first among those that are made for it, if any are. -/
theorem Path.ancestors_cases (p : Path) : p.ancestors = [] ∨ ∃ qs, p.ancestors = p :: qs := by
  cases h : p.ancestors with
  | nil => exact .inl rfl
  | cons q qs =>
    rw [eq_of_ancestorsUpTo h]
    exact .inr ⟨qs, rfl⟩

theorem makeParents_of_exists {up : Path} (hup : p.parent? = some up)
    (h : fs.pathExists up = true) : fs.makeParents p = ⟨[], .ok ()⟩ := by
  unfold makeParents
  rw [hup]
  exact if_pos (.inr h)

theorem makeParents_of_missing {up : Path} (hup : p.parent? = some up) (hne : up ≠ [])
    (h : fs.pathExists up ≠ true) : fs.makeParents p = fs.ensureAll up.ancestors := by
  unfold makeParents
  rw [hup]
  exact if_neg (not_or.mpr ⟨hne, h⟩)

/-- No parents are made if there is none that means anything. -/
theorem makeParents_of_bare (h : ∀ up, p.parent? = some up → up = []) :
    fs.makeParents p = ⟨[], .ok ()⟩ := by
  unfold makeParents
  cases hup : p.parent? with
  | none => rfl
  | some up => exact if_pos (.inl (h up hup))

/-- Parents that were made are there in every tree grown from the one with them. -/
theorem makeParents_again (h : (fs.makeParents p).result = .ok ())
    (hg : Grows ((fs.makeParents p).final fs) fs') : fs'.makeParents p = ⟨[], .ok ()⟩ := by
  by_cases hbare : ∀ up, p.parent? = some up → up = []
  · exact makeParents_of_bare hbare
  obtain ⟨up, hup, hne⟩ : ∃ up, p.parent? = some up ∧ up ≠ [] := by simpa using hbare
  have there {l : Location} (hr : ((fs.makeParents p).final fs).resolve .follow up =
      .ok (.found l)) : fs'.makeParents p = ⟨[], .ok ()⟩ :=
    makeParents_of_exists hup (pathExists_iff.mpr ⟨l, hg.resolve_found hr⟩)
  by_cases hexists : fs.pathExists up = true
  · obtain ⟨l, hr⟩ := pathExists_iff.mp hexists
    rw [makeParents_of_exists hup hexists] at there
    exact there hr
  · have hmade := makeParents_of_missing hup hne hexists
    rcases up.ancestors_cases with hnil | ⟨qs, hqs⟩
    · by_cases hexists' : fs'.pathExists up = true
      · exact makeParents_of_exists hup hexists'
      · rw [makeParents_of_missing hup hne hexists', hnil]
        rfl
    · rw [hmade, hqs] at h there
      obtain ⟨d, hd, _⟩ := isDirectory_iff.mp (isDirectory_of_ensureAll h)
      exact there hd

/-- Parents that could not be made cannot be made later, and nothing changes by trying: they are
refused once more, or else they are no directories, and then the path cannot be opened. -/
theorem makeParents_refused_again (hwell : fs.WellFormed)
    (h : (fs.makeParents p).result = .error e) :
    ∃ e', (e' = e ∨ e = .alreadyExists) ∧
      (((fs.makeParents p).final fs).makeParents p = ⟨[], .error e'⟩ ∨
        ((fs.makeParents p).final fs).makeParents p = ⟨[], .ok ()⟩ ∧
          ((fs.makeParents p).final fs).openEmpty ownerOnly p = .error e') := by
  have hmid := WellFormed.final hwell (makeParents_wellFormed hwell p)
  by_cases hbare : ∀ up, p.parent? = some up → up = []
  · rw [makeParents_of_bare hbare] at h
    cases h
  obtain ⟨up, hup, hne⟩ : ∃ up, p.parent? = some up ∧ up ≠ [] := by simpa using hbare
  by_cases hexists : fs.pathExists up = true
  · rw [makeParents_of_exists hup hexists] at h
    cases h
  rcases up.ancestors_cases with hnil | ⟨qs, hqs⟩
  · rw [makeParents_of_missing hup hne hexists, hnil] at h
    cases h
  have hmade := makeParents_of_missing hup hne hexists
  have hchain : up.ancestors.IsChain Path.LiesIn := Path.ancestorsUpTo_isChain _ up
  have hnonempty : ∀ q ∈ up.ancestors, q ≠ [] :=
    Path.ancestorsUpTo_induction (fun _ _ hlies _ => hlies.ne_nil) hne _
  rw [hqs] at hmade hchain hnonempty
  rw [hmade] at h hmid ⊢
  have hobstructed := obstructed_of_ensureAll hwell hchain hnonempty h
  generalize (fs.ensureAll (up :: qs)).final fs = mid at hmid hobstructed ⊢
  obtain ⟨e', hagain, he'⟩ := hobstructed.again
  by_cases hexists' : mid.pathExists up = true
  · -- what stands in the way is the parent itself
    have hno : mid.isDirectory up ≠ true := by
      intro hd
      rw [ensureAll_of_isDirectory hd] at hagain
      cases hagain
    have hfound : e = .alreadyExists := by
      refine hobstructed.stops.resolve_right fun hstops => ?_
      obtain ⟨l, hr⟩ := pathExists_iff.mp hexists'
      obtain ⟨k, hk⟩ := exists_resolve_keep hr
      have hstop := hstops up rfl
      rw [hk] at hstop
      cases hstop
    cases hr : mid.resolve .create p with
    | ok spot => exact (hno (isDirectory_of_liesIn hmid (Path.liesIn_of_parent? hup hne) hr)).elim
    | error a =>
      refine ⟨a, .inr hfound, .inr ⟨makeParents_of_exists hup hexists', ?_⟩⟩
      unfold openEmpty
      rw [hr]
      rfl
  · refine ⟨e', he', .inl ?_⟩
    rw [makeParents_of_missing hup hne hexists', hqs, hagain]

/-! ## Two saves in a row -/

/-- A file that has been saved is opened where it is. -/
theorem openEmpty_of_found {mode : Nat} {content : Bytes}
    (h : fs.resolve .create p = .ok (.found l)) (hl : fs.find? l = some (.file mode content))
    (asked : Nat) : fs.openEmpty asked p = .ok (fs.set l (.file mode []), l) := by
  refine bind_eq_ok_iff.mpr ⟨_, h, ?_⟩
  dsimp only
  rw [hl]
  rfl

theorem save_again_of_open (h : (fs.makeParents p).result = .ok ())
    (ho : ((fs.makeParents p).final fs).openEmpty ownerOnly p = .ok (fs', l)) (b b' : Bytes)
    (f f' : JsonFormat) : save (save fs b p f).1 b' p f' = save fs b' p f' := by
  obtain ⟨mode, hopens, rfl, hleads⟩ := openEmpty_ok ho
  have hne := hopens.writable.ne_nil
  have hparents := makeParents_again h
    (hopens.writable.grows_set ownerOnly (Utf8.ofString (f.arrayText b)))
  rw [save_of_open h ho b f, save_of_open h ho b' f']
  dsimp only
  generalize (fs.makeParents p).final fs = mid at hparents hleads ⊢
  have hfound : (mid.set l (.file ownerOnly (Utf8.ofString (f.arrayText b)))).resolve .create p =
      .ok (.found l) := (grows_set_set hne).resolve_found hleads
  have hopen := openEmpty_of_found hfound (find?_set_self mid _ hne) ownerOnly
  rw [save_of_open (by rw [hparents]) (by rwa [hparents, final_nothing]), hparents, final_nothing,
    set_set]

/-- A refusal of the file itself is repeated. -/
theorem save_again_of_open_error (h : (fs.makeParents p).result = .ok ())
    (ho : ((fs.makeParents p).final fs).openEmpty ownerOnly p = .error e) (b b' : Bytes)
    (f f' : JsonFormat) : save (save fs b p f).1 b' p f' = save fs b' p f' := by
  have hparents := makeParents_again h (.refl _)
  rw [save_of_open_error h ho b f, save_of_open_error h ho b' f']
  dsimp only
  generalize (fs.makeParents p).final fs = mid at hparents ho ⊢
  rw [save_of_open_error (e := e) (by rw [hparents]) (by rwa [hparents, final_nothing]), hparents,
    final_nothing]

/-- A refusal of the parents is repeated, perhaps for another reason. -/
theorem save_again_of_parents_error (hwell : fs.WellFormed)
    (h : (fs.makeParents p).result = .error e) (b b' : Bytes) (f f' : JsonFormat) :
    ∃ e', (e' = e ∨ e = .alreadyExists) ∧ save (save fs b p f).1 b' p f' =
      ((save fs b p f).1, ⟨[], .error (.writeFailure p e'.message)⟩) := by
  obtain ⟨e', he', hagain⟩ := makeParents_refused_again hwell h
  refine ⟨e', he', ?_⟩
  rw [save_of_parents_error h b f]
  dsimp only
  generalize (fs.makeParents p).final fs = mid at hagain ⊢
  rcases hagain with hrefused | ⟨hok, hopen⟩
  · rw [save_of_parents_error (by rw [hrefused]), hrefused]
    rfl
  · rw [save_of_open_error (e := e') (by rw [hok]) (by rwa [hok, final_nothing]), hok,
      final_nothing]

/-- The reason for which a save is refused differs from the one for which it is refused after
another save to the path. -/
structure OtherReason (p : Path) (before : FileSystem) (alone later : FileSystem × Logged Unit) :
    Prop where
  /-- Alone, it is refused for something that is there and is no directory. -/
  alone_eq : alone.2 = ⟨[], .error (.writeFailure p AccessError.alreadyExists.message)⟩
  /-- Before that, it makes directories. -/
  makes : alone.1 ≠ before
  later_eq : ∃ reason : AccessError, later.2 = ⟨[], .error (.writeFailure p reason.message)⟩

/-- A later save absorbs an earlier one to the same path: it leaves the same tree as it would alone,
and it ends as it would alone, except that the reason for which it is refused may be another one if
it would be refused for something in the way of directories after making some. When a save was
refused, another one changes nothing more, and it is refused as well. -/
theorem save_absorbs (h : fs.WellFormed) (p : Path) (b b' : Bytes) (f f' : JsonFormat) :
    let first := save fs b p f
    let alone := save fs b' p f'
    let later := save first.1 b' p f'
    later.1 = alone.1 ∧ (later.2 = alone.2 ∨ OtherReason p fs alone later) ∧
      ((∃ e, first.2.result = .error e) →
        later.1 = first.1 ∧ ∃ e, later.2.result = .error e) := by
  intro first alone later
  cases hparents : (fs.makeParents p).result with
  | error e =>
    have hfirst : first = _ := save_of_parents_error hparents b f
    have halone : alone = _ := save_of_parents_error hparents b' f'
    have hsame : first.1 = alone.1 := by rw [hfirst, halone]
    obtain ⟨e', he', hlater⟩ := save_again_of_parents_error h hparents b b' f f'
    change later = (first.1, _) at hlater
    refine ⟨by rw [hlater, hsame], ?_, fun _ => by rw [hlater]; exact ⟨rfl, _, rfl⟩⟩
    by_cases hnone : alone.1 = fs
    · have hagain : later = alone := by
        change save first.1 b' p f' = alone
        rw [hsame, hnone]
      exact .inl (by rw [hagain])
    · rcases he' with rfl | rfl
      · exact .inl (by rw [hlater, halone])
      · exact .inr ⟨by rw [halone], hnone, e', by rw [hlater]⟩
  | ok _ =>
    cases hopen : ((fs.makeParents p).final fs).openEmpty ownerOnly p with
    | error e =>
      have hagain : later = alone := save_again_of_open_error hparents hopen b b' f f'
      have hfirst : first = _ := save_of_open_error hparents hopen b f
      have halone : alone = _ := save_of_open_error hparents hopen b' f'
      rw [hagain]
      refine ⟨rfl, .inl rfl, fun _ => ?_⟩
      rw [hfirst, halone]
      exact ⟨rfl, _, rfl⟩
    | ok opened =>
      have hagain : later = alone := save_again_of_open hparents hopen b b' f f'
      have hfirst : first = _ := save_of_open hparents hopen b f
      rw [hagain]
      refine ⟨rfl, .inl rfl, ?_⟩
      rintro ⟨e, he⟩
      rw [hfirst] at he
      cases he

/-- On the way through `m/..` and a link, three bytes are stored one to a line, and then one byte,
of which the file is left. -/
theorem save_absorbs_link :
    armedTree.WellFormed ∧
      let p := Path.ofString "m/../k"
      let later := save (save armedTree [1, 2, 3] p .pretty).1 [7] p .compact
      later.1 = (save armedTree [7] p .compact).1 ∧
        later.1.find? [[0x64], [0x65]] = some (.file 0o600 (Utf8.ofString "[7]")) := by
  have hwell : armedTree.WellFormed := wellFormed_of_entries (by decide) rfl
  have hsame := (save_absorbs hwell (Path.ofString "m/../k") [1, 2, 3] [7] .pretty .compact).1
  refine ⟨hwell, hsame, ?_⟩
  rw [hsame]
  cbv

/-- A tree with the file `f`. -/
def blockedTree : FileSystem where
  entries := [([[0x66]], .file 0o644 [])]
  working := []

/-- The first attempt makes `m`, and finds `f` when `m/../f` is to be made. After that `m/../f` can
be followed, so the second attempt comes to open the file, for which `f` is no directory. -/
theorem save_reason_changes :
    blockedTree.WellFormed ∧
      let first := save blockedTree [7] (Path.ofString "m/../f/k") .compact
      let later := save first.1 [7] (Path.ofString "m/../f/k") .compact
      first.2.result = .error (.writeFailure (Path.ofString "m/../f/k")
          "File exists (os error 17)") ∧
        later.2.result = .error (.writeFailure (Path.ofString "m/../f/k")
          "Not a directory (os error 20)") ∧
        later.2.result ≠ first.2.result := by
  have hfirst : (save blockedTree [7] (Path.ofString "m/../f/k") .compact).2.result =
      .error (.writeFailure (Path.ofString "m/../f/k") "File exists (os error 17)") := by cbv
  have hlater : (save (save blockedTree [7] (Path.ofString "m/../f/k") .compact).1 [7]
      (Path.ofString "m/../f/k") .compact).2.result =
      .error (.writeFailure (Path.ofString "m/../f/k") "Not a directory (os error 20)") := by cbv
  refine ⟨wellFormed_of_entries (by decide) rfl, hfirst, hlater, ?_⟩
  rw [hfirst, hlater]
  intro h
  have hreason := (KeypairError.writeFailure.inj (Except.error.inj h)).2
  exact absurd hreason (by decide)

end Keyfile
