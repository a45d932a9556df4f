import Keyfile.Proofs.FileSystem.Ancestors
import Mathlib.Data.List.Chain

/-!
# Making directories once more

Directories that were made are there when they are to be made again, and then nothing changes. If
something stood in the way the first time, it still does the second time. The reason is the same
unless something other than a directory was found: a path that goes through it can then be refused
before that place is looked at.
-/
namespace Keyfile.FileSystem

variable {fs : FileSystem} {ending : Ending} {links : Nat} {here l : Location} {names : List Name}
  {slash : Bool} {spot : Spot} {p q up : Path} {ps : List Path} {e : AccessError}

/-! ## Paths that do not end where they are followed -/

/-- What is found when the last link is followed is also found when it is not. -/
theorem Walks.exists_keep (h : Walks fs .follow links here names slash (.found l)) :
    ∃ k, Walks fs .keep links here names slash (.found k) := by
  generalize hs : Spot.found l = spot at h
  have kept {n : Name} {rest : List Name} {slash : Bool} (hl : LooksUp .follow n rest slash) :
      LooksUp .keep n rest slash :=
    ⟨hl.ne_dot, hl.ne_dotDot, (fun h => nomatch h.2.2), hl.length_le⟩
  induction h with
  | done => exact ⟨_, .done⟩
  | dot _ ih =>
    obtain ⟨k, hk⟩ := ih hs
    exact ⟨k, .dot hk⟩
  | dotDot _ ih =>
    obtain ⟨k, hk⟩ := ih hs
    exact ⟨k, .dotDot hk⟩
  | vacant => cases hs
  | directory hl hn _ ih =>
    obtain ⟨k, hk⟩ := ih hs
    exact ⟨k, .directory (kept hl) hn hk⟩
  | file hl hn => exact ⟨_, .file (kept hl) hn (.inr rfl)⟩
  | keep _ _ hlast => cases hlast
  | @link _ _ _ rest _ _ _ hl hn _ _ ih =>
    by_cases hrest : rest = []
    · subst hrest
      exact ⟨_, .keep (kept hl) hn rfl⟩
    · obtain ⟨k, hk⟩ := ih hs
      exact ⟨k, .link (kept hl) hn (fun h => hrest h.1) hk⟩

theorem exists_resolve_keep (h : fs.resolve .follow p = .ok (.found l)) :
    ∃ k, fs.resolve .keep p = .ok (.found k) := by
  obtain ⟨hp, hw⟩ := resolve_eq_ok_iff.mp h
  obtain ⟨k, hk⟩ := hw.exists_keep
  exact ⟨k, resolve_eq_ok_iff.mpr ⟨hp, hk⟩⟩

/-- What stops a walk that need not follow its last name stops every walk that goes on behind. -/
theorem walk_append_error {ns ms : List Name} (h : fs.walk .keep links here ns slash = .error e)
    (hms : ms ≠ []) (ending : Ending) (slash' : Bool) :
    fs.walk ending links here (ns ++ ms) slash' = .error e := by
  have hmore (rest : List Name) : rest ++ ms ≠ [] := List.append_ne_nil_of_right_ne_nil rest hms
  have looks {n : Name} {rest : List Name} {slash : Bool} (hdot : n ≠ Path.dot)
      (hdotDot : n ≠ Path.dotDot) (hlen : ¬ 255 < n.length) :
      LooksUp ending n (rest ++ ms) slash :=
    ⟨hdot, hdotDot, fun h => hmore rest h.1, Nat.not_lt.mp hlen⟩
  fun_induction fs.walk .keep links here ns slash generalizing slash' with
  | case1 => cases h
  | case2 _ _ _ _ ih =>
    rw [List.cons_append, walk, if_pos rfl]
    exact ih h slash'
  | case3 _ _ _ _ hdot ih =>
    rw [List.cons_append, walk, if_neg hdot, if_pos rfl]
    exact ih h slash'
  | case4 _ _ _ _ _ _ _ hend => cases hend.2.2
  | case5 _ _ n rest _ hdot hdotDot _ hlen =>
    rw [List.cons_append, walk, if_neg hdot, if_neg hdotDot, if_neg fun h => hmore rest h.1,
      if_pos hlen]
    exact h
  | case6 => cases h
  | case7 _ _ n rest _ hdot hdotDot _ hlen hn =>
    rw [List.cons_append, (looks hdot hdotDot hlen).walk_eq, hn]
    exact (if_neg (hmore rest)).trans h
  | case8 _ _ n rest _ hdot hdotDot _ hlen _ hn ih =>
    rw [List.cons_append, (looks hdot hdotDot hlen).walk_eq, hn]
    exact ih h slash'
  | case9 => cases h
  | case10 _ _ n rest _ hdot hdotDot _ hlen _ _ hn =>
    rw [List.cons_append, (looks hdot hdotDot hlen).walk_eq, hn]
    exact (if_neg fun h => hmore rest h.1).trans h
  | case11 => cases h
  | case12 _ n rest _ hdot hdotDot _ hlen _ hn =>
    rw [List.cons_append, (looks hdot hdotDot hlen).walk_eq, hn]
    exact (if_neg fun h => hmore rest h.1).trans h
  | case13 _ n rest _ hdot hdotDot _ hlen target hn _ links ih =>
    rw [List.cons_append, (looks hdot hdotDot hlen).walk_eq, hn]
    refine (if_neg fun h => hmore rest h.1).trans ?_
    rw [← List.append_assoc]
    exact ih h _

/-- What stops a path also stops the paths that lie in it. -/
theorem resolve_error_of_liesIn (hp : Path.LiesIn p up) (hpass : Passable p)
    (h : fs.resolve .keep up = .error e) (ending : Ending) : fs.resolve ending p = .error e := by
  obtain ⟨ns, hns, hnames⟩ := hp.names_eq
  have hstart : start fs.working p = start fs.working up := by
    unfold start
    rw [hp.isAbsolute_eq]
  rw [(hpass.of_prefix hp.is_prefix hp.ne_nil).resolve_eq] at h
  rw [hpass.resolve_eq, hnames, hstart]
  exact walk_append_error h hns ending _

/-- A path along which a name is missing was passed to the system. -/
theorem passable_of_notFound (hp : p ≠ []) (h : fs.resolve ending p = .error .notFound) :
    Passable p := by
  unfold resolve at h
  split_ifs at h with hzero hlen
  · cases h
  · cases h
  · exact ⟨hzero, hp, Nat.not_le.mp hlen⟩

/-! ## One directory -/

theorem makeDirectory_of_error (h : fs.resolve .keep p = .error e) :
    fs.makeDirectory p = .error e := by
  unfold makeDirectory
  rw [h]
  rfl

theorem makeDirectory_of_found (h : fs.resolve .keep p = .ok (.found l)) :
    fs.makeDirectory p = .error .alreadyExists := by
  unfold makeDirectory
  rw [h]
  rfl

theorem makeDirectory_of_vacant {n : Name} (h : fs.resolve .keep p = .ok (.vacant l n)) :
    fs.makeDirectory p = .ok (fs.set (l ++ [n]) (.directory (fs.newDirectoryMode l))) := by
  unfold makeDirectory
  rw [h]
  rfl

/-- A directory is there in the end, and its path led somewhere; or nothing changes, because the
path leads to something else or cannot be followed. -/
theorem ensureDirectory_cases (fs : FileSystem) (p : Path) :
    ((fs.ensureDirectory p).result = .ok () ∧
        ((fs.ensureDirectory p).final fs).isDirectory p = true ∧
        ∃ spot, fs.resolve .keep p = .ok spot) ∨
      ∃ e, fs.ensureDirectory p = ⟨[], .error e⟩ ∧
        ((∃ l, fs.resolve .keep p = .ok (.found l)) ∧ e = .alreadyExists ∨
          fs.resolve .keep p = .error e) := by
  unfold ensureDirectory
  cases hr : fs.resolve .keep p with
  | error e =>
    have hno : ¬ (e = .alreadyExists ∧ fs.isDirectory p = true) := by
      rintro ⟨_, hd⟩
      obtain ⟨d, hfound, _⟩ := isDirectory_iff.mp hd
      obtain ⟨k, hk⟩ := exists_resolve_keep hfound
      rw [hk] at hr
      cases hr
    rw [makeDirectory_of_error hr]
    dsimp only
    rw [if_neg hno]
    exact .inr ⟨e, rfl, .inr rfl⟩
  | ok spot =>
    cases spot with
    | vacant d n =>
      have hn := find?_of_resolve_vacant hr
      have hne := ne_nil_of_find?_eq_none hn
      have hd := find?_set_self fs (.directory (fs.newDirectoryMode d)) hne
      rw [makeDirectory_of_vacant hr]
      refine .inl ⟨rfl, ?_, _, rfl⟩
      exact isDirectory_iff.mpr
        ⟨_, (grows_set_of_none _ hn).resolve_made hr hd, isDirectoryAt_of_find? hd⟩
    | found l =>
      rw [makeDirectory_of_found hr]
      dsimp only
      by_cases hd : fs.isDirectory p = true
      · rw [if_pos ⟨rfl, hd⟩]
        exact .inl ⟨rfl, hd, _, rfl⟩
      · rw [if_neg fun h => hd h.2]
        exact .inr ⟨_, rfl, .inl ⟨⟨l, rfl⟩, rfl⟩⟩

theorem ensureDirectory_of_isDirectory (h : fs.isDirectory p = true) :
    fs.ensureDirectory p = ⟨[], .ok ()⟩ := by
  obtain ⟨d, hd, _⟩ := isDirectory_iff.mp h
  obtain ⟨k, hk⟩ := exists_resolve_keep hd
  unfold ensureDirectory
  rw [makeDirectory_of_found hk]
  exact congrArg (Progress.mk []) (if_pos ⟨rfl, h⟩)

/-! ## Directories on the way -/

/-- Unless something is missing on the way, only the first directory is made. -/
theorem ensureAll_of_ne (h : (fs.ensureDirectory p).result ≠ .error .notFound) :
    fs.ensureAll (p :: ps) = fs.ensureDirectory p := by
  rw [ensureAll]
  dsimp only
  split
  · rename_i hr
    exact (h hr).elim
  · rfl

theorem ensureAll_of_error (h : (fs.ensureDirectory p).result = .error .notFound)
    (hps : (fs.ensureAll ps).result = .error e) :
    fs.ensureAll (p :: ps) = ⟨(fs.ensureAll ps).states, .error e⟩ := by
  rw [ensureAll]
  dsimp only
  rw [h]
  dsimp only
  rw [hps]

theorem ensureAll_of_ok (h : (fs.ensureDirectory p).result = .error .notFound)
    (hps : (fs.ensureAll ps).result = .ok ()) :
    fs.ensureAll (p :: ps) =
      ⟨(fs.ensureAll ps).states ++ (((fs.ensureAll ps).final fs).ensureDirectory p).states,
        (((fs.ensureAll ps).final fs).ensureDirectory p).result⟩ := by
  rw [ensureAll]
  dsimp only
  rw [h]
  dsimp only
  rw [hps]

theorem ensureAll_of_isDirectory (h : fs.isDirectory p = true) :
    fs.ensureAll (p :: ps) = ⟨[], .ok ()⟩ := by
  have hd := ensureDirectory_of_isDirectory h
  rw [ensureAll_of_ne (by rw [hd]; exact nofun), hd]

/-- Once it is made, the first directory is there. -/
theorem isDirectory_of_ensureAll (h : (fs.ensureAll (p :: ps)).result = .ok ()) :
    ((fs.ensureAll (p :: ps)).final fs).isDirectory p = true := by
  have made {fs : FileSystem} (h : (fs.ensureDirectory p).result = .ok ()) :
      ((fs.ensureDirectory p).final fs).isDirectory p = true := by
    rcases ensureDirectory_cases fs p with ⟨_, hd, _⟩ | ⟨e, he, _⟩
    · exact hd
    · rw [he] at h
      cases h
  by_cases hfirst : (fs.ensureDirectory p).result = .error .notFound
  · cases hps : (fs.ensureAll ps).result with
    | error e =>
      rw [ensureAll_of_error hfirst hps] at h
      cases h
    | ok _ =>
      rw [ensureAll_of_ok hfirst hps] at h ⊢
      rw [Progress.final_append]
      exact made h
  · rw [ensureAll_of_ne hfirst] at h ⊢
    exact made h

/-- How things stand once directories could not be made: trying again changes nothing and is
refused, and unless something other than a directory was found, what stopped the first attempt
stops the first path. -/
structure Obstructed (fs : FileSystem) (ps : List Path) (e : AccessError) : Prop where
  again : ∃ e', fs.ensureAll ps = ⟨[], .error e'⟩ ∧ (e' = e ∨ e = .alreadyExists)
  stops : e = .alreadyExists ∨ ∀ p ∈ ps.head?, fs.resolve .keep p = .error e

/-- A first directory that cannot be made is in the way of those behind it. -/
theorem obstructed_of_ensureDirectory (h : fs.ensureDirectory p = ⟨[], .error e⟩)
    (hps : e = .notFound → fs.ensureAll ps = ⟨[], .ok ()⟩) : Obstructed fs (p :: ps) e := by
  have hstops : e = .alreadyExists ∨ fs.resolve .keep p = .error e := by
    rcases ensureDirectory_cases fs p with ⟨hok, _⟩ | ⟨e', he', ⟨_, hfound⟩ | herror⟩
    · rw [h] at hok
      cases hok
    · rw [h] at he'
      cases he'
      exact .inl hfound
    · rw [h] at he'
      cases he'
      exact .inr herror
  refine ⟨⟨e, ?_, .inl rfl⟩, hstops.imp_right fun h p hp => by cases hp; exact h⟩
  by_cases he : e = .notFound
  · subst he
    rw [ensureAll_of_ok (by rw [h]) (by rw [hps rfl]), hps rfl]
    dsimp only [Progress.final, List.getLastD_nil]
    rw [h]
    rfl
  · rw [ensureAll_of_ne, h]
    rw [h]
    exact fun h => he (Except.error.inj h)

/-- A directory cannot be made behind one that cannot be made. -/
theorem Obstructed.cons (h : Obstructed fs (up :: ps) e) (hwell : fs.WellFormed)
    (hp : Path.LiesIn p up) (hpass : Passable p) : Obstructed fs (p :: up :: ps) e := by
  obtain ⟨e', hup, he'⟩ := h.again
  have hstops : e = .alreadyExists ∨ fs.resolve .keep p = .error e :=
    h.stops.imp_right fun hs => resolve_error_of_liesIn hp hpass (hs up rfl) .keep
  refine ⟨?_, hstops.imp_right fun h q hq => by cases hq; exact h⟩
  rcases ensureDirectory_cases fs p with ⟨_, _, spot, hspot⟩ | ⟨e₂, hfirst, hwhy⟩
  · -- the path would lead through a directory
    rw [ensureAll_of_isDirectory (isDirectory_of_liesIn hwell hp hspot)] at hup
    cases hup
  · by_cases he₂ : e₂ = .notFound
    · subst he₂
      refine ⟨e', ?_, he'⟩
      rw [ensureAll_of_error (by rw [hfirst]) (by rw [hup]), hup]
    · refine ⟨e₂, ?_, ?_⟩
      · rw [ensureAll_of_ne, hfirst]
        rw [hfirst]
        exact fun h => he₂ (Except.error.inj h)
      · rcases hstops with hexists | herror
        · exact .inr hexists
        · rcases hwhy with ⟨⟨l, hl⟩, _⟩ | hsame
          · rw [herror] at hl
            cases hl
          · rw [herror] at hsame
            cases hsame
            exact .inl rfl

/-- Where directories could not be made, they cannot be made again. -/
theorem obstructed_of_ensureAll (hwell : fs.WellFormed) (hps : ps.IsChain Path.LiesIn)
    (hne : ∀ p ∈ ps, p ≠ []) (h : (fs.ensureAll ps).result = .error e) :
    Obstructed ((fs.ensureAll ps).final fs) ps e := by
  induction ps generalizing e with
  | nil => cases h
  | cons p ps ih =>
    by_cases hfirst : (fs.ensureDirectory p).result = .error .notFound
    · have hmid := WellFormed.final hwell (hwell.ensureAll ps)
      cases hup : (fs.ensureAll ps).result with
      | error e' =>
        rw [ensureAll_of_error hfirst hup] at h ⊢
        cases h
        have hbefore := ih hps.tail (fun q hq => hne q (List.mem_cons_of_mem p hq)) hup
        cases ps with
        | nil => cases hup
        | cons up ps =>
          have hmissing : fs.resolve .keep p = .error .notFound := by
            rcases ensureDirectory_cases fs p with ⟨hok, _⟩ | ⟨e, he, ⟨_, hexists⟩ | herror⟩
            · rw [hok] at hfirst
              cases hfirst
            · rw [he, hexists] at hfirst
              cases hfirst
            · rw [he] at hfirst
              cases hfirst
              exact herror
          have hpass := passable_of_notFound (hne p List.mem_cons_self) hmissing
          exact hbefore.cons hmid (List.isChain_cons_cons.mp hps).1 hpass
      | ok _ =>
        rw [ensureAll_of_ok hfirst hup] at h ⊢
        rw [Progress.final_append]
        change Obstructed ((((fs.ensureAll ps).final fs).ensureDirectory p).final
          ((fs.ensureAll ps).final fs)) (p :: ps) e
        rcases ensureDirectory_cases ((fs.ensureAll ps).final fs) p with ⟨hok, _⟩ | ⟨e', he', _⟩
        · rw [hok] at h
          cases h
        · rw [he'] at h ⊢
          cases h
          refine obstructed_of_ensureDirectory he' fun _ => ?_
          cases ps with
          | nil => rfl
          | cons up ps => exact ensureAll_of_isDirectory (isDirectory_of_ensureAll hup)
    · rw [ensureAll_of_ne hfirst] at h ⊢
      rcases ensureDirectory_cases fs p with ⟨hok, _⟩ | ⟨e', he', _⟩
      · rw [hok] at h
        cases h
      · rw [he'] at h hfirst ⊢
        cases h
        exact obstructed_of_ensureDirectory he' fun he => (hfirst (congrArg Except.error he)).elim

end Keyfile.FileSystem
