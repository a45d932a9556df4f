import Keyfile.Proofs.FileSystem.Repeat
import Keyfile.Proofs.Path.Plain
import Mathlib.Data.Nat.Bitwise

/-!
# Directories that are missing on the way

Plain names lead to a directory, and behind it the first of more names is missing. When the path of
them all is made a directory, one directory is made for each of these names, in the one made before.
-/
namespace Keyfile.FileSystem
open Keyfile.Path

variable {fs : FileSystem} {ending : Ending} {links : Nat} {here d l : Location}
  {ds ns rest : List Name} {n : Name} {slash : Bool} {p : Path} {mode : Nat} {e : AccessError}

/-! ## Walks that go on behind a directory -/

theorem LooksUp.of_plain (h : Plain n) (rest : List Name) : LooksUp ending n rest false :=
  ⟨h.ne_dot, h.ne_dotDot, (fun h => nomatch h.2.1), h.length_le⟩

/-- A walk to a directory goes on from there if more names come behind, with as many links as it
has left. -/
theorem Walks.goes_on (h : Walks fs .follow links here ns slash (.found d))
    (hd : fs.find? d = some (.directory mode)) :
    ∃ left, ∀ ending ms slash', ms ≠ [] →
      fs.walk ending links here (ns ++ ms) slash' = fs.walk ending left d ms slash' := by
  generalize hs : Spot.found d = spot at h
  have looks {n : Name} {rest ms : List Name} {slash slash' : Bool} (ending : Ending)
      (hl : LooksUp .follow n rest slash) (hms : ms ≠ []) :
      LooksUp ending n (rest ++ ms) slash' :=
    ⟨hl.ne_dot, hl.ne_dotDot, fun h => List.append_ne_nil_of_right_ne_nil rest hms h.1,
      hl.length_le⟩
  induction h with
  | @done links =>
    cases hs
    exact ⟨links, fun _ _ _ _ => rfl⟩
  | dot _ ih =>
    obtain ⟨left, hleft⟩ := ih hs
    refine ⟨left, fun ending ms slash' hms => ?_⟩
    rw [List.cons_append, walk, if_pos rfl, hleft ending ms slash' hms]
  | dotDot _ ih =>
    obtain ⟨left, hleft⟩ := ih hs
    refine ⟨left, fun ending ms slash' hms => ?_⟩
    rw [List.cons_append, walk, if_neg (by decide), if_pos rfl, hleft ending ms slash' hms]
  | vacant => cases hs
  | directory hl hn _ ih =>
    obtain ⟨left, hleft⟩ := ih hs
    refine ⟨left, fun ending ms slash' hms => ?_⟩
    rw [List.cons_append, (looks ending hl hms).walk_eq, hn]
    exact hleft ending ms slash' hms
  | file _ hn =>
    cases hs
    rw [hn] at hd
    cases hd
  | keep _ _ hlast => cases hlast
  | @link links here n rest slash target _ hl hn _ _ ih =>
    obtain ⟨left, hleft⟩ := ih hs
    refine ⟨left, fun ending ms slash' hms => ?_⟩
    have hmore : rest ++ ms ≠ [] := List.append_ne_nil_of_right_ne_nil rest hms
    rw [List.cons_append, (looks ending hl hms).walk_eq, hn]
    refine (if_neg fun h => hmore h.1).trans ?_
    dsimp only
    rw [List.isEmpty_eq_false_iff.mpr hmore, Bool.false_and, Bool.or_false, ← List.append_assoc,
      hleft ending ms slash' hms]

/-- Plain names lead from the working directory to a directory of this mode. -/
structure Enters (fs : FileSystem) (ds : List Name) (d : Location) (mode : Nat) : Prop where
  leads : if ds = [] then d = fs.working else fs.resolve .follow (ofSegments ds) = .ok (.found d)
  find?_eq : fs.find? d = some (.directory mode)

theorem passable_of_plain (h : ∀ s ∈ ds, Plain s) (hne : ds ≠ [])
    (hlength : (ofSegments ds).length < 4096) : Passable (ofSegments ds) :=
  ⟨zero_notMem_ofSegments h, ofSegments_ne_nil h hne, hlength⟩

theorem resolve_plain (h : ∀ s ∈ ds, Plain s) (hp : Passable (ofSegments ds)) (ending : Ending) :
    fs.resolve ending (ofSegments ds) = fs.walk ending linkLimit fs.working ds false := by
  rw [hp.resolve_eq, names_plain h, endsInSlash_plain h, start, isAbsolute_plain h]
  rfl

theorem Enters.walks (h : Enters fs ds d mode) (hds : ∀ s ∈ ds, Plain s) :
    Walks fs .follow linkLimit fs.working ds false (.found d) := by
  have hleads := h.leads
  by_cases hne : ds = []
  · rw [if_pos hne] at hleads
    rw [hne, hleads]
    exact .done
  · rw [if_neg hne] at hleads
    have hp := (resolve_eq_ok_iff.mp hleads).1
    rw [resolve_plain hds hp] at hleads
    exact walks_of_walk hleads

/-- Behind a directory that plain names lead to, a missing name is found to be missing. -/
theorem Enters.resolve_missing (h : Enters fs ds d mode) (hplain : ∀ s ∈ ds ++ n :: rest, Plain s)
    (hp : Passable (ofSegments (ds ++ n :: rest))) (hn : fs.find? (d ++ [n]) = none)
    (ending : Ending) : fs.resolve ending (ofSegments (ds ++ n :: rest)) =
      if rest = [] then .ok (.vacant d n) else .error .notFound := by
  have hds (s : Name) (hs : s ∈ ds) : Plain s := hplain s (List.mem_append_left _ hs)
  have hname : Plain n := hplain n (List.mem_append_right _ List.mem_cons_self)
  obtain ⟨left, hleft⟩ := (h.walks hds).goes_on h.find?_eq
  rw [resolve_plain hplain hp, hleft ending _ false (List.cons_ne_nil n rest),
    (LooksUp.of_plain hname rest).walk_eq, hn]

/-! ## Directories within each other -/

/-- The tree with directories of these names, each in the one before. -/
def withDirectories (mode : Nat) : FileSystem → Location → List Name → FileSystem
  | fs, _, [] => fs
  | fs, d, n :: ns => withDirectories mode (fs.set (d ++ [n]) (.directory mode)) (d ++ [n]) ns

theorem withDirectories_concat (fs : FileSystem) (d : Location) (ns : List Name) (n : Name) :
    withDirectories mode fs d (ns ++ [n]) =
      (withDirectories mode fs d ns).set (d ++ ns ++ [n]) (.directory mode) := by
  induction ns generalizing fs d with
  | nil => rw [List.append_nil]; rfl
  | cons m ns ih =>
    rw [List.cons_append, withDirectories, ih, withDirectories, List.append_assoc d [m],
      List.singleton_append]

theorem append_concat_ne_nil (d : Location) (ns : List Name) (n : Name) : d ++ ns ++ [n] ≠ [] :=
  List.append_ne_nil_of_right_ne_nil _ (List.cons_ne_nil n [])

/-- Elsewhere, nothing changes. -/
theorem find?_withDirectories_of_ne {k : Location}
    (h : ∀ made, made ≠ [] → made <+: ns → k ≠ d ++ made) :
    (withDirectories mode fs d ns).find? k = fs.find? k := by
  induction ns using List.reverseRecOn with
  | nil => rfl
  | append_singleton ns n ih =>
    have hk : k ≠ d ++ ns ++ [n] := by
      rw [List.append_assoc]
      exact h _ (List.append_ne_nil_of_right_ne_nil ns (List.cons_ne_nil n [])) (List.prefix_refl _)
    rw [withDirectories_concat, find?_set_of_ne _ _ (append_concat_ne_nil d ns n) hk]
    exact ih fun made hne hmade => h made hne (hmade.trans (List.prefix_append ns [n]))

theorem find?_withDirectories_self {made : List Name} (hne : made ≠ []) (hmade : made <+: ns) :
    (withDirectories mode fs d ns).find? (d ++ made) = some (.directory mode) := by
  induction ns using List.reverseRecOn with
  | nil => exact (hne (List.prefix_nil.mp hmade)).elim
  | append_singleton ns n ih =>
    rw [withDirectories_concat, find?_set _ _ _ _ (append_concat_ne_nil d ns n)]
    rcases List.prefix_concat_iff.mp hmade with rfl | hmade
    · rw [if_pos (List.append_assoc d ns [n]).symm]
    · rw [ih hmade, ite_self]

/-! ## Making them -/

/-- A new directory has mode 755, and the set-group bit if the directory that it is in has it. -/
theorem directoryMode_eq (mode : Nat) :
    directoryMode mode = if mode.testBit 10 then 0o2755 else 0o755 := by
  have hbit : mode &&& 0o2000 = mode &&& 2 ^ 10 := rfl
  rw [directoryMode, hbit, Nat.and_two_pow]
  cases mode.testBit 10 <;> rfl

/-- Directories hand the mode of the first one on. -/
theorem directoryMode_directoryMode (mode : Nat) :
    directoryMode (directoryMode mode) = directoryMode mode := by
  rw [directoryMode_eq mode]
  split_ifs <;> rfl

theorem newDirectoryMode_of_find? (h : fs.find? d = some (.directory mode)) :
    fs.newDirectoryMode d = directoryMode mode := by
  unfold newDirectoryMode
  rw [h]

theorem ensureDirectory_of_vacant (h : fs.resolve .keep p = .ok (.vacant d n)) :
    fs.ensureDirectory p =
      ⟨[fs.set (d ++ [n]) (.directory (fs.newDirectoryMode d))], .ok ()⟩ := by
  unfold ensureDirectory
  rw [makeDirectory_of_vacant h]

theorem ensureDirectory_of_notFound (h : fs.resolve .keep p = .error .notFound) :
    fs.ensureDirectory p = ⟨[], .error .notFound⟩ := by
  unfold ensureDirectory
  rw [makeDirectory_of_error h]
  rfl

/-- The first path is made behind those above it, if nothing had to be done for them or it was
missing without them. -/
theorem ensureAll_of_made {fs' : FileSystem} {ps : List Path}
    (hps : (fs.ensureAll ps).result = .ok ())
    (hmake : ((fs.ensureAll ps).final fs).ensureDirectory p = ⟨[fs'], .ok ()⟩)
    (h : (fs.ensureAll ps).final fs = fs ∨ fs.resolve .keep p = .error .notFound) :
    (fs.ensureAll (p :: ps)).result = .ok () ∧ (fs.ensureAll (p :: ps)).final fs = fs' := by
  rcases h with hnothing | hfirst
  · rw [hnothing] at hmake
    rw [ensureAll_of_ne (by rw [hmake]; exact nofun), hmake]
    exact ⟨rfl, rfl⟩
  · rw [ensureAll_of_ok (by rw [ensureDirectory_of_notFound hfirst]) hps, hmake]
    exact ⟨rfl, Progress.final_append _ _ _ fs⟩

/-- The directories that a path leads through are not made again. -/
theorem Enters.ensureAll_eq (h : Enters fs ds d mode) (hplain : ∀ s ∈ ds, Plain s) :
    fs.ensureAll (ancestors (ofSegments ds)) = ⟨[], .ok ()⟩ := by
  have hleads := h.leads
  cases ds using List.reverseRecOn with
  | nil => rfl
  | append_singleton ds n =>
    rw [if_neg (List.append_ne_nil_of_right_ne_nil ds (List.cons_ne_nil n []))] at hleads
    rw [ancestors_concat hplain]
    exact ensureAll_of_isDirectory
      (isDirectory_iff.mpr ⟨d, hleads, isDirectoryAt_of_find? h.find?_eq⟩)

/-- Directories of these names are made behind the ones that are there, and their path leads to the
last of them. -/
structure Makes (fs : FileSystem) (ds ns : List Name) (d : Location) (mode : Nat) : Prop where
  result_eq : (fs.ensureAll (ancestors (ofSegments (ds ++ ns)))).result = .ok ()
  final_eq : (fs.ensureAll (ancestors (ofSegments (ds ++ ns)))).final fs =
    withDirectories (directoryMode mode) fs d ns
  enters : ∃ m, Enters (withDirectories (directoryMode mode) fs d ns) (ds ++ ns) (d ++ ns) m ∧
    directoryMode m = directoryMode mode

/-- What lies behind a missing name is missing while the directories before it are made. -/
theorem WellFormed.find?_withDirectories (hfs : fs.WellFormed)
    (hmissing : ∀ m ∈ (ns ++ [n]).head?, fs.find? (d ++ [m]) = none) :
    (withDirectories mode fs d ns).find? (d ++ ns ++ [n]) = none := by
  have hother (made : List Name) (_ : made ≠ []) (hmade : made <+: ns) :
      d ++ ns ++ [n] ≠ d ++ made := by
    intro heq
    have hlength := congrArg List.length heq
    have hle := hmade.length_le
    simp only [List.length_append, List.length_singleton] at hlength
    omega
  rw [find?_withDirectories_of_ne hother, List.append_assoc]
  obtain ⟨m, ms, hm⟩ := List.exists_cons_of_ne_nil
    (List.append_ne_nil_of_right_ne_nil ns (List.cons_ne_nil n []))
  rw [hm] at hmissing ⊢
  exact hfs.find?_behind (hmissing m rfl) ms

/-- One more name is made a directory behind those that were made before it. -/
theorem Makes.concat (h : Makes fs ds ns d mode) (hfs : fs.WellFormed) (hd : Enters fs ds d mode)
    (hplain : ∀ s ∈ ds ++ (ns ++ [n]), Plain s)
    (hlength : (ofSegments (ds ++ (ns ++ [n]))).length < 4096)
    (hmissing : ∀ m ∈ (ns ++ [n]).head?, fs.find? (d ++ [m]) = none) :
    Makes fs ds (ns ++ [n]) d mode := by
  have hne : ds ++ (ns ++ [n]) ≠ [] := by simp
  have hp := passable_of_plain hplain hne hlength
  obtain ⟨m, henters, hm⟩ := h.enters
  have hset : withDirectories (directoryMode mode) fs d (ns ++ [n]) = _ :=
    withDirectories_concat fs d ns n
  have hn : (withDirectories (directoryMode mode) fs d ns).find? (d ++ ns ++ [n]) = none :=
    hfs.find?_withDirectories hmissing
  rw [← List.append_assoc] at hplain hp
  have hvacant := henters.resolve_missing hplain hp hn .keep
  rw [if_pos rfl] at hvacant
  have hmake := ensureDirectory_of_vacant hvacant
  rw [newDirectoryMode_of_find? henters.find?_eq, hm, ← hset, ← h.final_eq] at hmake
  have hfirst : withDirectories (directoryMode mode) fs d ns = fs ∨
      fs.resolve .keep (ofSegments (ds ++ ns ++ [n])) = .error .notFound := by
    cases ns with
    | nil => exact .inl rfl
    | cons m ms =>
      rw [List.append_assoc, List.cons_append] at hplain hp ⊢
      rw [hd.resolve_missing hplain hp (hmissing m rfl)]
      exact .inr (if_neg (List.append_ne_nil_of_right_ne_nil ms (List.cons_ne_nil n [])))
  rw [← h.final_eq] at hfirst
  obtain ⟨hresult, hfinal⟩ := ensureAll_of_made h.result_eq hmake hfirst
  rw [← ancestors_concat hplain, List.append_assoc] at hresult hfinal
  have hself : (withDirectories (directoryMode mode) fs d (ns ++ [n])).find? (d ++ (ns ++ [n])) =
      some (.directory (directoryMode mode)) :=
    find?_withDirectories_self (List.append_ne_nil_of_right_ne_nil ns (List.cons_ne_nil n []))
      (List.prefix_refl _)
  refine ⟨hresult, hfinal, directoryMode mode, ⟨?_, hself⟩, directoryMode_directoryMode mode⟩
  rw [if_neg hne]
  rw [hset, ← List.append_assoc d] at hself ⊢
  rw [List.append_assoc] at hvacant
  exact (grows_set_of_none _ hn).resolve_made hvacant hself

/-- All missing names behind a directory that plain names lead to are made directories. -/
theorem Enters.makes (hd : Enters fs ds d mode) (hfs : fs.WellFormed)
    (hplain : ∀ s ∈ ds ++ ns, Plain s) (hlength : (ofSegments (ds ++ ns)).length < 4096)
    (hmissing : ∀ m ∈ ns.head?, fs.find? (d ++ [m]) = none) : Makes fs ds ns d mode := by
  induction ns using List.reverseRecOn with
  | nil =>
    have hall := hd.ensureAll_eq fun s hs => hplain s (List.mem_append_left [] hs)
    rw [← List.append_nil ds] at hall
    refine ⟨by rw [hall], by rw [hall]; rfl, mode, ?_, rfl⟩
    rwa [List.append_nil, List.append_nil]
  | append_singleton ns n ih =>
    refine (ih ?_ ?_ ?_).concat hfs hd hplain hlength hmissing
    · intro s hs
      apply hplain s
      rw [← List.append_assoc]
      exact List.mem_append_left [n] hs
    · refine Nat.lt_of_le_of_lt (List.IsPrefix.length_le ?_) hlength
      rw [← List.append_assoc]
      exact ofSegments_prefix_append _ _
    · exact fun m hm => hmissing m (List.mem_head?_append_of_mem_head? hm)

end Keyfile.FileSystem
