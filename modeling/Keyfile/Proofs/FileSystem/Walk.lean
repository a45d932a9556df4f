import Keyfile.FileSystem.Resolve
import Mathlib.Tactic.Common

/-!
# Walks through the file tree

`Walks` holds the successful walks, one constructor for each way in which a name can be taken. A
walk to something that exists stays possible while the tree grows, that is, while directories and
links stay what they are and files stay files.
-/
namespace Keyfile.FileSystem

/-- Whether a name is looked up: it means something, is not too long, and may come last. -/
structure LooksUp (ending : Ending) (n : Name) (rest : List Name) (slash : Bool) : Prop where
  ne_dot : n ≠ Path.dot
  ne_dotDot : n ≠ Path.dotDot
  mayEnd : ¬ (rest = [] ∧ slash = true ∧ ending = .create)
  length_le : n.length ≤ 255

inductive Walks (fs : FileSystem) (ending : Ending) :
    Nat → Location → List Name → Bool → Spot → Prop
  | done {links : Nat} {here : Location} {slash : Bool} :
      Walks fs ending links here [] slash (.found here)
  | dot {links : Nat} {here : Location} {rest : List Name} {slash : Bool} {spot : Spot} :
      Walks fs ending links here rest slash spot →
      Walks fs ending links here (Path.dot :: rest) slash spot
  | dotDot {links : Nat} {here : Location} {rest : List Name} {slash : Bool} {spot : Spot} :
      Walks fs ending links here.dropLast rest slash spot →
      Walks fs ending links here (Path.dotDot :: rest) slash spot
  | vacant {links : Nat} {here : Location} {n : Name} {slash : Bool} :
      LooksUp ending n [] slash → fs.find? (here ++ [n]) = none →
      Walks fs ending links here [n] slash (.vacant here n)
  | directory {links : Nat} {here : Location} {n : Name} {rest : List Name} {slash : Bool}
      {mode : Nat} {spot : Spot} :
      LooksUp ending n rest slash → fs.find? (here ++ [n]) = some (.directory mode) →
      Walks fs ending links (here ++ [n]) rest slash spot →
      Walks fs ending links here (n :: rest) slash spot
  | file {links : Nat} {here : Location} {n : Name} {slash : Bool} {mode : Nat}
      {content : Bytes} :
      LooksUp ending n [] slash → fs.find? (here ++ [n]) = some (.file mode content) →
      (slash = false ∨ ending = .keep) →
      Walks fs ending links here [n] slash (.found (here ++ [n]))
  | keep {links : Nat} {here : Location} {n : Name} {slash : Bool} {target : Path} :
      LooksUp ending n [] slash → fs.find? (here ++ [n]) = some (.link target) →
      ending = .keep → Walks fs ending links here [n] slash (.found (here ++ [n]))
  | link {links : Nat} {here : Location} {n : Name} {rest : List Name} {slash : Bool}
      {target : Path} {spot : Spot} :
      LooksUp ending n rest slash → fs.find? (here ++ [n]) = some (.link target) →
      ¬ (rest = [] ∧ ending = .keep) →
      Walks fs ending links (start here target) (target.names ++ rest)
        (slash || (rest.isEmpty && target.endsInSlash)) spot →
      Walks fs ending (links + 1) here (n :: rest) slash spot

variable {fs fs' : FileSystem} {ending : Ending} {links : Nat} {here : Location}
  {names : List Name} {slash : Bool} {spot : Spot}

theorem walks_of_walk (h : fs.walk ending links here names slash = .ok spot) :
    Walks fs ending links here names slash spot := by
  fun_induction fs.walk ending links here names slash with
  | case1 =>
    cases h
    exact .done
  | case2 links here rest slash ih => exact .dot (ih h)
  | case3 links here rest slash _ ih => exact .dotDot (ih h)
  | case4 => cases h
  | case5 => cases h
  | case6 links here n slash hd hdd hlen hn hend =>
    cases h
    exact .vacant ⟨hd, hdd, hend, by omega⟩ hn
  | case7 => cases h
  | case8 links here n rest slash hd hdd hend hlen mode hn ih =>
    exact .directory ⟨hd, hdd, hend, by omega⟩ hn (ih h)
  | case9 links here n rest slash hd hdd hend hlen mode content hn hlast =>
    cases h
    obtain ⟨rfl, hlast⟩ := hlast
    exact .file ⟨hd, hdd, hend, by omega⟩ hn (by simpa using hlast)
  | case10 => cases h
  | case11 links here n rest slash hd hdd hend hlen target hn hlast =>
    cases h
    obtain ⟨rfl, hlast⟩ := hlast
    exact .keep ⟨hd, hdd, hend, by omega⟩ hn hlast
  | case12 => cases h
  | case13 here n rest slash hd hdd hend hlen target hn hlast links ih =>
    exact .link ⟨hd, hdd, hend, by omega⟩ hn hlast (ih h)

/-- A name that is looked up is taken by what is found in its place. -/
theorem LooksUp.walk_eq {n : Name} {rest : List Name} (h : LooksUp ending n rest slash) :
    fs.walk ending links here (n :: rest) slash =
      match fs.find? (here ++ [n]) with
      | none => if rest = [] then .ok (.vacant here n) else .error .notFound
      | some (.directory _) => fs.walk ending links (here ++ [n]) rest slash
      | some (.file _ _) =>
        if rest = [] ∧ (!slash ∨ ending = .keep) then .ok (.found (here ++ [n]))
        else .error .notDirectory
      | some (.link target) =>
        if rest = [] ∧ ending = .keep then .ok (.found (here ++ [n]))
        else
          match links with
          | 0 => .error .tooManyLinks
          | links + 1 =>
            fs.walk ending links (start here target) (target.names ++ rest)
              (slash || (rest.isEmpty && target.endsInSlash)) := by
  have hlen : ¬ 255 < n.length := Nat.not_lt.mpr h.length_le
  rw [walk]
  exact (if_neg h.ne_dot).trans ((if_neg h.ne_dotDot).trans
    ((if_neg h.mayEnd).trans (if_neg hlen)))

/-- A name that is looked up at all is looked up to be followed, whatever comes behind it. -/
theorem LooksUp.follow {n : Name} {rest rest' : List Name} {slash' : Bool}
    (h : LooksUp ending n rest slash) : LooksUp .follow n rest' slash' :=
  ⟨h.ne_dot, h.ne_dotDot, (fun h => nomatch h.2.2), h.length_le⟩

theorem Walks.walk_eq (h : Walks fs ending links here names slash spot) :
    fs.walk ending links here names slash = .ok spot := by
  induction h with
  | done => rw [walk]
  | dot _ ih => rw [walk, if_pos rfl, ih]
  | dotDot _ ih => rw [walk, if_neg (by decide), if_pos rfl, ih]
  | vacant hl hn =>
    rw [hl.walk_eq, hn]
    rfl
  | directory hl hn _ ih =>
    rw [hl.walk_eq, hn]
    exact ih
  | file hl hn hlast =>
    rw [hl.walk_eq, hn]
    exact if_pos ⟨rfl, by simpa using hlast⟩
  | keep hl hn hlast =>
    rw [hl.walk_eq, hn]
    exact if_pos ⟨rfl, hlast⟩
  | link hl hn hlast _ ih =>
    rw [hl.walk_eq, hn]
    exact (if_neg hlast).trans ih

theorem walk_eq_ok_iff : fs.walk ending links here names slash = .ok spot ↔
    Walks fs ending links here names slash spot :=
  ⟨walks_of_walk, Walks.walk_eq⟩

theorem Walks.find?_eq_none {directory : Location} {n : Name}
    (h : Walks fs ending links here names slash (.vacant directory n)) :
    fs.find? (directory ++ [n]) = none := by
  generalize hs : Spot.vacant directory n = spot at h
  induction h with
  | done => cases hs
  | dot _ ih => exact ih hs
  | dotDot _ ih => exact ih hs
  | vacant _ hn =>
    cases hs
    exact hn
  | directory _ _ _ ih => exact ih hs
  | file => cases hs
  | keep => cases hs
  | link _ _ _ _ ih => exact ih hs

/-- A file can be read where one can be written. -/
theorem Walks.follow (h : Walks fs .create links here names slash spot) :
    Walks fs .follow links here names slash spot := by
  induction h with
  | done => exact .done
  | dot _ ih => exact .dot ih
  | dotDot _ ih => exact .dotDot ih
  | vacant hl hn => exact .vacant hl.follow hn
  | directory hl hn _ ih => exact .directory hl.follow hn ih
  | file hl hn hlast => exact .file hl.follow hn (hlast.imp id nofun)
  | keep _ _ hlast => cases hlast
  | link hl hn _ _ ih => exact .link hl.follow hn nofun ih

/-! ## Growing trees -/

/-- One tree grows into another: entries stay, and only the mode and content of files may change. -/
structure Grows (fs fs' : FileSystem) : Prop where
  working_eq : fs'.working = fs.working
  directory {l : Location} {mode : Nat} :
    fs.find? l = some (.directory mode) → fs'.find? l = some (.directory mode)
  link {l : Location} {target : Path} :
    fs.find? l = some (.link target) → fs'.find? l = some (.link target)
  file {l : Location} {mode : Nat} {content : Bytes} : fs.find? l = some (.file mode content) →
    ∃ mode' content', fs'.find? l = some (.file mode' content')

theorem Grows.refl (fs : FileSystem) : Grows fs fs where
  working_eq := rfl
  directory := id
  link := id
  file := fun h => ⟨_, _, h⟩

theorem Grows.trans {fs'' : FileSystem} (h : Grows fs fs') (h' : Grows fs' fs'') :
    Grows fs fs'' where
  working_eq := h'.working_eq.trans h.working_eq
  directory := fun hd => h'.directory (h.directory hd)
  link := fun hl => h'.link (h.link hl)
  file := by
    intro l mode content hf
    obtain ⟨_, _, hf'⟩ := h.file hf
    exact h'.file hf'

/-- A walk to something that exists leads there in every tree grown from this one. -/
theorem Walks.grows {l : Location} (h : Walks fs ending links here names slash (.found l))
    (hg : Grows fs fs') : Walks fs' ending links here names slash (.found l) := by
  generalize hs : Spot.found l = spot at h ⊢
  induction h with
  | done => exact .done
  | dot _ ih => exact .dot (ih hs)
  | dotDot _ ih => exact .dotDot (ih hs)
  | vacant => cases hs
  | directory hl hn _ ih => exact .directory hl (hg.directory hn) (ih hs)
  | file hl hn hlast =>
    obtain ⟨_, _, hn'⟩ := hg.file hn
    exact .file hl hn' hlast
  | keep hl hn hlast => exact .keep hl (hg.link hn) hlast
  | link hl hn hlast _ ih => exact .link hl (hg.link hn) hlast (ih hs)

/-- A walk to a place where a file can be made leads to the file once it has been made. -/
theorem Walks.filled {directory : Location} {n : Name} {mode : Nat} {content : Bytes}
    (h : Walks fs .create links here names slash (.vacant directory n)) (hg : Grows fs fs')
    (hf : fs'.find? (directory ++ [n]) = some (.file mode content)) :
    Walks fs' .create links here names slash (.found (directory ++ [n])) := by
  generalize hs : Spot.vacant directory n = spot at h
  induction h with
  | done => cases hs
  | dot _ ih => exact .dot (ih hs)
  | dotDot _ ih => exact .dotDot (ih hs)
  | @vacant _ _ _ slash hl =>
    cases hs
    have hslash : slash = false := by
      by_contra h
      exact hl.mayEnd ⟨rfl, by simpa using h, rfl⟩
    exact .file hl hf (.inl hslash)
  | directory hl hn _ ih => exact .directory hl (hg.directory hn) (ih hs)
  | file => cases hs
  | keep => cases hs
  | link hl hn hlast _ ih => exact .link hl (hg.link hn) hlast (ih hs)

/-- A walk to a place where a directory can be made leads to the directory once it has been made,
whether or not a link were followed there. -/
theorem Walks.made {directory : Location} {n : Name} {mode : Nat}
    (h : Walks fs .keep links here names slash (.vacant directory n)) (hg : Grows fs fs')
    (hd : fs'.find? (directory ++ [n]) = some (.directory mode)) :
    Walks fs' .follow links here names slash (.found (directory ++ [n])) := by
  generalize hs : Spot.vacant directory n = spot at h
  induction h with
  | done => cases hs
  | dot _ ih => exact .dot (ih hs)
  | dotDot _ ih => exact .dotDot (ih hs)
  | vacant hl =>
    cases hs
    exact .directory hl.follow hd .done
  | directory hl hn _ ih => exact .directory hl.follow (hg.directory hn) (ih hs)
  | file => cases hs
  | keep => cases hs
  | link hl hn _ _ ih => exact .link hl.follow (hg.link hn) nofun (ih hs)

/-! ## Paths -/

/-- Whether a path is passed to the system at all. -/
structure Passable (p : Path) : Prop where
  no_zero : 0 ∉ p
  ne_nil : p ≠ []
  length_lt : p.length < 4096

variable {p : Path}

theorem Passable.resolve_eq (h : Passable p) (fs : FileSystem) (ending : Ending) :
    fs.resolve ending p =
      fs.walk ending linkLimit (start fs.working p) p.names p.endsInSlash := by
  rw [resolve, if_neg h.no_zero, if_neg h.ne_nil, if_neg (Nat.not_le.mpr h.length_lt)]

theorem resolve_eq_ok_iff : fs.resolve ending p = .ok spot ↔
    Passable p ∧ Walks fs ending linkLimit (start fs.working p) p.names p.endsInSlash spot := by
  constructor
  · intro h
    unfold resolve at h
    split_ifs at h with h₀ h₁ h₂
    exact ⟨⟨h₀, h₁, by omega⟩, walk_eq_ok_iff.mp h⟩
  · rintro ⟨hp, h⟩
    rw [hp.resolve_eq, h.walk_eq]

/-- A path leads to the same place in every tree grown from this one. -/
theorem Grows.resolve_found {l : Location} (hg : Grows fs fs')
    (h : fs.resolve ending p = .ok (.found l)) : fs'.resolve ending p = .ok (.found l) := by
  obtain ⟨hp, hw⟩ := resolve_eq_ok_iff.mp h
  rw [resolve_eq_ok_iff, hg.working_eq]
  exact ⟨hp, hw.grows hg⟩

theorem Grows.resolve_filled {directory : Location} {n : Name} {mode : Nat} {content : Bytes}
    (hg : Grows fs fs') (h : fs.resolve .create p = .ok (.vacant directory n))
    (hf : fs'.find? (directory ++ [n]) = some (.file mode content)) :
    fs'.resolve .create p = .ok (.found (directory ++ [n])) := by
  obtain ⟨hp, hw⟩ := resolve_eq_ok_iff.mp h
  rw [resolve_eq_ok_iff, hg.working_eq]
  exact ⟨hp, hw.filled hg hf⟩

theorem Grows.resolve_made {directory : Location} {n : Name} {mode : Nat} (hg : Grows fs fs')
    (h : fs.resolve .keep p = .ok (.vacant directory n))
    (hd : fs'.find? (directory ++ [n]) = some (.directory mode)) :
    fs'.resolve .follow p = .ok (.found (directory ++ [n])) := by
  obtain ⟨hp, hw⟩ := resolve_eq_ok_iff.mp h
  rw [resolve_eq_ok_iff, hg.working_eq]
  exact ⟨hp, hw.made hg hd⟩

theorem resolve_follow_of_create (h : fs.resolve .create p = .ok spot) :
    fs.resolve .follow p = .ok spot := by
  obtain ⟨hp, hw⟩ := resolve_eq_ok_iff.mp h
  exact resolve_eq_ok_iff.mpr ⟨hp, hw.follow⟩

end Keyfile.FileSystem
