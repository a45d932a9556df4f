import Keyfile.Proofs.FileSystem.Missing
import Keyfile.Proofs.Keypair.Repeat

/-!
# Parents that a save makes

Plain names lead to a directory in which the next name of a path is missing, or the last name leads
to a file. Then a save to the path succeeds. It makes one directory for each name that is missing
before the last, each holds just the next name afterwards, and no other directory gets an entry.
-/
namespace Keyfile
open FileSystem Keyfile.Path

variable {fs : FileSystem} {ds ns names made : List Name} {d k l : Location} {mode mode' : Nat}
  {n : Name} {new : Option Name} {p : Path} {content : Bytes} {e : Entry}

/-- What a path of plain names finds behind a directory: the first of these names is missing there,
or there is only one, and the path leads to a file. The directory gets an entry of the name that is
missing. -/
inductive Finds (fs : FileSystem) (p : Path) (d : Location) : List Name → Option Name → Prop
  | missing {n : Name} {rest : List Name} :
      fs.find? (d ++ [n]) = none → Finds fs p d (n :: rest) (some n)
  | file {n : Name} {l : Location} {mode : Nat} {content : Bytes} :
      fs.resolve .follow p = .ok (.found l) → fs.find? l = some (.file mode content) →
      Finds fs p d [n] none

/-! ## A save behind missing names -/

theorem makeParents_of_makes (hd : Enters fs ds d mode) (hmakes : Makes fs ds ns d mode)
    (hplain : ∀ s ∈ ds ++ ns ++ [n], Plain s)
    (hmissing : ∀ m ∈ ns.head?, fs.find? (d ++ [m]) = none) :
    (fs.makeParents (ofSegments (ds ++ ns ++ [n]))).result = .ok () ∧
      (fs.makeParents (ofSegments (ds ++ ns ++ [n]))).final fs =
        withDirectories (directoryMode mode) fs d ns := by
  have hup := parent?_plain hplain
  have hplainUp (s : Name) (hs : s ∈ ds ++ ns) : Plain s := hplain s (List.mem_append_left _ hs)
  by_cases hbare : ds ++ ns = []
  · obtain ⟨rfl, rfl⟩ := List.append_eq_nil_iff.mp hbare
    have hnone : fs.makeParents (ofSegments ([] ++ [] ++ [n])) = ⟨[], .ok ()⟩ :=
      makeParents_of_bare fun up h => Option.some.inj (h.symm.trans hup)
    rw [hnone]
    exact ⟨rfl, rfl⟩
  by_cases hexists : fs.pathExists (ofSegments (ds ++ ns)) = true
  · cases ns with
    | nil =>
      rw [makeParents_of_exists hup hexists]
      exact ⟨rfl, rfl⟩
    | cons m ms =>
      obtain ⟨l, hl⟩ := pathExists_iff.mp hexists
      have hp := (resolve_eq_ok_iff.mp hl).1
      rw [hd.resolve_missing hplainUp hp (hmissing m rfl)] at hl
      split_ifs at hl
      cases hl
  · rw [makeParents_of_missing hup (ofSegments_ne_nil hplainUp hbare) hexists]
    exact ⟨hmakes.result_eq, hmakes.final_eq⟩

theorem openEmpty_of_vacant (h : fs.resolve .create p = .ok (.vacant d n)) (asked : Nat) :
    fs.openEmpty asked p = .ok (fs.set (d ++ [n]) (.file asked []), d ++ [n]) :=
  bind_eq_ok_iff.mpr ⟨_, h, rfl⟩

/-- Directories of the missing names are made, and the file in the last of them. -/
theorem save_of_missing (hd : Enters fs ds d mode) (hfs : fs.WellFormed)
    (hplain : ∀ s ∈ ds ++ ns ++ [n], Plain s)
    (hlength : (ofSegments (ds ++ ns ++ [n])).length < 4096)
    (hmissing : ∀ m ∈ (ns ++ [n]).head?, fs.find? (d ++ [m]) = none) (b : Bytes)
    (f : JsonFormat) :
    save fs b (ofSegments (ds ++ ns ++ [n])) f =
      ((withDirectories (directoryMode mode) fs d ns).set (d ++ ns ++ [n])
        (.file ownerOnly (Utf8.ofString (f.arrayText b))),
        ⟨[.saved (ofSegments (ds ++ ns ++ [n]))], .ok ()⟩) := by
  have hbefore (m : Name) (hm : m ∈ ns.head?) : fs.find? (d ++ [m]) = none :=
    hmissing m (List.mem_head?_append_of_mem_head? hm)
  have hmakes := hd.makes hfs (fun s hs => hplain s (List.mem_append_left _ hs))
    (Nat.lt_of_le_of_lt (ofSegments_prefix_append (ds ++ ns) [n]).length_le hlength) hbefore
  obtain ⟨hresult, hfinal⟩ := makeParents_of_makes hd hmakes hplain hbefore
  obtain ⟨_, henters, _⟩ := hmakes.enters
  have hp := passable_of_plain hplain
    (List.append_ne_nil_of_right_ne_nil _ (List.cons_ne_nil n [])) hlength
  have hvacant := henters.resolve_missing hplain hp (hfs.find?_withDirectories hmissing) .create
  rw [if_pos rfl, ← hfinal] at hvacant
  rw [save_of_open hresult (openEmpty_of_vacant hvacant ownerOnly), hfinal]

/-- A file behind directories gives a tree entries of all these names. -/
theorem isSome_withDirectories_set :
    (((withDirectories mode fs d ns).set (d ++ ns ++ [n]) e).find? k).isSome = true ↔
      (fs.find? k).isSome = true ∨ ∃ made, made ≠ [] ∧ made <+: ns ++ [n] ∧ k = d ++ made := by
  by_cases hmade : ∃ made, made ≠ [] ∧ made <+: ns ++ [n] ∧ k = d ++ made
  · refine ⟨fun _ => .inr hmade, fun _ => ?_⟩
    obtain ⟨made, hne, hmade, rfl⟩ := hmade
    rcases List.prefix_concat_iff.mp hmade with rfl | hmade
    · rw [← List.append_assoc, find?_set_self _ _ (append_concat_ne_nil d ns n)]
      rfl
    · rw [find?_set _ _ _ _ (append_concat_ne_nil d ns n), find?_withDirectories_self hne hmade]
      split_ifs <;> rfl
  · have hother (made : List Name) (hne : made ≠ []) (hstarts : made <+: ns ++ [n]) :
        k ≠ d ++ made :=
      fun hk => hmade ⟨made, hne, hstarts, hk⟩
    have hlast : k ≠ d ++ ns ++ [n] := by
      rw [List.append_assoc]
      exact hother _ (List.append_ne_nil_of_right_ne_nil ns (List.cons_ne_nil n []))
        (List.prefix_refl _)
    rw [find?_set_of_ne _ _ (append_concat_ne_nil d ns n) hlast, find?_withDirectories_of_ne
      fun made hne hstarts => hother made hne (hstarts.trans (List.prefix_append ns [n]))]
    exact ⟨.inl, fun h => h.resolve_right hmade⟩

/-! ## A save to a file that is there -/

/-- No directories are made for a file that is there. -/
theorem save_of_file (hd : Enters fs ds d mode) (hfs : fs.WellFormed)
    (hplain : ∀ s ∈ ds ++ [n], Plain s) (hlength : (ofSegments (ds ++ [n])).length < 4096)
    (h : fs.resolve .follow (ofSegments (ds ++ [n])) = .ok (.found l))
    (hl : fs.find? l = some (.file mode' content)) (b : Bytes) (f : JsonFormat) :
    save fs b (ofSegments (ds ++ [n])) f =
      (fs.set l (.file ownerOnly (Utf8.ofString (f.arrayText b))),
        ⟨[.saved (ofSegments (ds ++ [n]))], .ok ()⟩) := by
  have hds : ds ++ [] ++ [n] = ds ++ [n] := by rw [List.append_nil]
  have hmakes : Makes fs ds [] d mode := by
    refine hd.makes hfs ?_ ?_ nofun
    · rw [List.append_nil]
      exact fun s hs => hplain s (List.mem_append_left _ hs)
    · rw [List.append_nil]
      exact Nat.lt_of_le_of_lt (ofSegments_prefix_append ds [n]).length_le hlength
  obtain ⟨hresult, hfinal⟩ := makeParents_of_makes hd hmakes (hds ▸ hplain) nofun
  rw [hds] at hresult hfinal
  have hopen := openEmpty_of_found (hfs.resolve_create h hl) hl ownerOnly
  rw [save_of_open hresult (by rw [hfinal]; exact hopen), hfinal]
  rfl

/-! ## New entries -/

section
variable {m : Name} {rest others : List Name}

/-- A directory that was made holds the next name, and nothing else. -/
theorem entries_of_made (hfs : fs.WellFormed) (hn : fs.find? (d ++ [m]) = none)
    (hnames : ns ++ [n] = m :: others) (hne : made ≠ []) {next : Name}
    (hsplit : ns ++ [n] = made ++ next :: rest) :
    ((withDirectories mode fs d ns).set (d ++ ns ++ [n]) e).find? (d ++ made) =
        some (.directory mode) ∧
      ∀ x, (((withDirectories mode fs d ns).set (d ++ ns ++ [n]) e).find?
        (d ++ made ++ [x])).isSome = true ↔ x = next := by
  have hstarts : made <+: ns ++ [n] := ⟨next :: rest, hsplit.symm⟩
  have hshort : made ≠ ns ++ [n] := by
    intro heq
    rw [← heq] at hsplit
    exact absurd (List.self_eq_append_right.mp hsplit) (List.cons_ne_nil next rest)
  have hplace : d ++ made ≠ d ++ ns ++ [n] := by
    rw [List.append_assoc]
    exact fun heq => hshort (List.append_cancel_left heq)
  refine ⟨?_, fun x => ?_⟩
  · rw [find?_set_of_ne _ _ (append_concat_ne_nil d ns n) hplace]
    exact find?_withDirectories_self hne ((List.prefix_concat_iff.mp hstarts).resolve_left hshort)
  · have hnone : fs.find? (d ++ made ++ [x]) = none := by
      obtain ⟨y, ys, rfl⟩ := List.exists_cons_of_ne_nil hne
      rw [hnames] at hsplit
      obtain ⟨rfl, _⟩ := List.cons.inj hsplit
      rw [List.append_assoc, List.cons_append]
      exact hfs.find?_behind hn _
    rw [isSome_withDirectories_set, hnone, hsplit]
    constructor
    · rintro (hfound | ⟨made', _, hmade', heq⟩)
      · cases hfound
      · rw [List.append_assoc] at heq
        rw [← List.append_cancel_left heq, List.prefix_append_right_inj,
          List.cons_prefix_cons] at hmade'
        exact hmade'.1
    · rintro rfl
      refine .inr ⟨made ++ [x], List.append_ne_nil_of_left_ne_nil hne _, ?_, List.append_assoc ..⟩
      rw [List.prefix_append_right_inj, List.cons_prefix_cons]
      exact ⟨rfl, List.nil_prefix⟩

/-- Of the directories that were there, only the one behind which names are missing gets an entry,
and that is the first of them. -/
theorem entries_of_kept (hfs : fs.WellFormed) (hn : fs.find? (d ++ [m]) = none)
    (hnames : ns ++ [n] = m :: others) (hk : fs.isDirectoryAt k = true) {x : Name}
    (hx : fs.find? (k ++ [x]) = none) :
    (((withDirectories mode fs d ns).set (d ++ ns ++ [n]) e).find? (k ++ [x])).isSome = true ↔
      k = d ∧ some m = some x := by
  rw [isSome_withDirectories_set, hx, hnames]
  constructor
  · rintro (hfound | ⟨made, hne, hmade, heq⟩)
    · cases hfound
    · obtain ⟨y, ys, rfl⟩ := List.exists_cons_of_ne_nil hne
      obtain ⟨rfl, _⟩ := List.cons_prefix_cons.mp hmade
      rcases List.eq_nil_or_concat' ys with rfl | ⟨zs, z, rfl⟩
      · obtain ⟨rfl, hx⟩ := List.append_inj' heq rfl
        exact ⟨rfl, congrArg some (List.singleton_inj.mp hx.symm)⟩
      · -- a directory that was there cannot lie behind the missing name
        rw [← List.cons_append, ← List.append_assoc] at heq
        obtain ⟨rfl, _⟩ := List.append_inj' heq rfl
        obtain ⟨_, hdirectory⟩ := isDirectoryAt_iff.mp hk
        rw [hfs.find?_behind hn zs] at hdirectory
        cases hdirectory
  · rintro ⟨rfl, hx⟩
    cases hx
    refine .inr ⟨[m], List.cons_ne_nil m [], ?_, rfl⟩
    rw [List.cons_prefix_cons]
    exact ⟨rfl, List.nil_prefix⟩

end

/-- A save to a path of plain names succeeds if they lead to a directory behind which the first name
is missing, or to a file. The directories that it makes for the missing names before the last have
mode 755, with the set-group bit if the directory that they are in has it. Each of them holds just
the next name. A directory that was there gets no entry, except that the first missing name is new
in the directory behind which it was missing. -/
theorem save_makes_parents (hfs : fs.WellFormed) (hplain : ∀ s ∈ ds ++ names, Plain s)
    (hlength : (ofSegments (ds ++ names)).length < 4096) (hd : Enters fs ds d mode)
    (hfinds : Finds fs (ofSegments (ds ++ names)) d names new) (b : Bytes) (f : JsonFormat) :
    let saved := save fs b (ofSegments (ds ++ names)) f
    saved.2.result = .ok () ∧
      (∀ made next rest, made ≠ [] → names = made ++ next :: rest →
        saved.1.find? (d ++ made) =
            some (.directory (if mode.testBit 10 then 0o2755 else 0o755)) ∧
          ∀ x, (saved.1.find? (d ++ made ++ [x])).isSome = true ↔ x = next) ∧
      ∀ k x, fs.isDirectoryAt k = true → fs.find? (k ++ [x]) = none →
        ((saved.1.find? (k ++ [x])).isSome = true ↔ k = d ∧ new = some x) := by
  intro saved
  cases hfinds with
  | @missing m others hn =>
    obtain ⟨ns, n, hnames⟩ : ∃ ns n, m :: others = ns ++ [n] :=
      (List.eq_nil_or_concat' (m :: others)).resolve_left (List.cons_ne_nil m others)
    have hmissing (x : Name) (hx : x ∈ (ns ++ [n]).head?) : fs.find? (d ++ [x]) = none := by
      rw [← hnames] at hx
      cases hx
      exact hn
    rw [hnames, ← List.append_assoc] at hplain hlength
    have hsaved := save_of_missing hd hfs hplain hlength hmissing b f
    rw [List.append_assoc ds, ← hnames] at hsaved
    change saved = _ at hsaved
    rw [hsaved, ← directoryMode_eq]
    refine ⟨rfl, fun made next rest hne hsplit => ?_, fun k x hk hx => ?_⟩
    · exact entries_of_made hfs hn hnames.symm hne (hnames.symm.trans hsplit)
    · exact entries_of_kept hfs hn hnames.symm hk hx
  | @file n l _ _ h hl =>
    have hsaved : saved = _ := save_of_file hd hfs hplain hlength h hl b f
    rw [hsaved]
    refine ⟨rfl, fun made next rest hne hsplit => ?_, fun k x hk hx => ?_⟩
    · obtain ⟨y, ys, rfl⟩ := List.exists_cons_of_ne_nil hne
      obtain ⟨_, hnil⟩ := List.cons.inj hsplit
      exact absurd hnil.symm (List.append_ne_nil_of_right_ne_nil ys (List.cons_ne_nil next rest))
    · rw [find?_set_of_ne _ _ (ne_nil_of_find?_eq_file hl) (ne_of_find? hx hl nofun), hx]
      simp

/-- A tree with a directory that hands its group on, and a link `s` to it. -/
def sharedTree : FileSystem where
  entries := [([[0x64]], .directory 0o2755), ([[0x73]], .link [0x64])]
  working := []

/-- On the way through the link two directories are made. -/
theorem save_makes_parents_link :
    let saved := save sharedTree [7] (Path.ofString "s/e/f/k") .compact
    saved.2.result = .ok () ∧
      saved.1.find? [[0x64], [0x65], [0x66]] = some (.directory 0o2755) ∧
      (∀ x, (saved.1.find? [[0x64], [0x65], x]).isSome = true ↔ x = [0x66]) ∧
      ∀ x, sharedTree.find? [[0x64], x] = none →
        ((saved.1.find? [[0x64], x]).isSome = true ↔ x = [0x65]) := by
  have hwell : sharedTree.WellFormed := wellFormed_of_entries (by decide) rfl
  have henters : sharedTree.Enters [[0x73]] [[0x64]] 0o2755 := ⟨by cbv, rfl⟩
  have hpath : Path.ofString "s/e/f/k" = ofSegments ([[0x73]] ++ [[0x65], [0x66], [0x6B]]) := by
    cbv
  have hplain : ∀ s ∈ [[0x73]] ++ [[0x65], [0x66], [0x6B]], Plain s := by decide
  obtain ⟨hresult, hmade, hkept⟩ := save_makes_parents hwell hplain (by decide) henters
    (.missing rfl) [7] .compact
  rw [hpath]
  refine ⟨hresult, ?_, ?_, ?_⟩
  · exact (hmade [[0x65], [0x66]] [0x6B] [] (List.cons_ne_nil _ _) rfl).1
  · exact (hmade [[0x65]] [0x66] [[0x6B]] (List.cons_ne_nil _ _) rfl).2
  · intro x hx
    refine (hkept [[0x64]] x rfl hx).trans ?_
    exact ⟨fun h => (Option.some.inj h.2).symm, fun h => ⟨rfl, congrArg some h.symm⟩⟩

/-- In a directory that hands its group on, a new directory has another mode than 755. -/
theorem new_directory_hands_group_on :
    sharedTree.WellFormed ∧ sharedTree.Enters [[0x64]] [[0x64]] 0o2755 ∧
      sharedTree.find? [[0x64], [0x65]] = none ∧
      let saved := save sharedTree [7] (Path.ofString "d/e/k") .compact
      saved.2.result = .ok () ∧ saved.1.find? [[0x64], [0x65]] ≠ some (.directory 0o755) := by
  refine ⟨wellFormed_of_entries (by decide) rfl, ⟨by cbv, rfl⟩, rfl, by cbv, ?_⟩
  have hmode : (save sharedTree [7] (Path.ofString "d/e/k") .compact).1.find? [[0x64], [0x65]] =
      some (.directory 0o2755) := by cbv
  rw [hmode]
  decide

end Keyfile
