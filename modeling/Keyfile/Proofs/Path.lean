import Keyfile.Path
import Mathlib.Data.List.DropRight
import Mathlib.Tactic.Common

/-!
# Paths and their parents

The names of a path are those of its parent and at least one more, and both start at the same place.
-/
namespace Keyfile.Path

theorem segments_ne_nil (p : Path) : p.segments ≠ [] := by
  cases p with
  | nil => exact List.cons_ne_nil _ _
  | cons c r =>
    unfold segments
    split_ifs
    · exact List.cons_ne_nil _ _
    · split <;> exact List.cons_ne_nil _ _

theorem segments_cons {c : UInt8} {r : Path} (h : c ≠ slash) {s : Name} {ss : List Name}
    (hr : segments r = s :: ss) : segments (c :: r) = (c :: s) :: ss := by
  rw [segments, if_neg h, hr]

theorem exists_segments (p : Path) : ∃ s ss, segments p = s :: ss := by
  cases h : segments p with
  | nil => exact absurd h (segments_ne_nil p)
  | cons s ss => exact ⟨s, ss, rfl⟩

theorem segments_slash (r : Path) : segments (slash :: r) = [] :: segments r := by
  rw [segments, if_pos rfl]

/-- A slash ends one segment and starts the next. -/
theorem segments_append_slash (p q : Path) :
    segments (p ++ slash :: q) = segments p ++ segments q := by
  induction p with
  | nil => exact segments_slash q
  | cons c r ih =>
    by_cases hc : c = slash
    · rw [hc, List.cons_append, segments_slash, segments_slash, ih, List.cons_append]
    · obtain ⟨s, ss, hr⟩ := exists_segments r
      rw [hr, List.cons_append] at ih
      rw [List.cons_append, segments_cons hc ih, segments_cons hc hr, List.cons_append]

theorem names_append_slash (p q : Path) : names (p ++ slash :: q) = names p ++ names q := by
  unfold names
  rw [segments_append_slash, List.filter_append]

theorem names_slash (p : Path) : names (slash :: p) = names p := names_append_slash [] p

theorem ofSegments_append {ss ts : List Name} (hs : ss ≠ []) (ht : ts ≠ []) :
    ofSegments (ss ++ ts) = ofSegments ss ++ slash :: ofSegments ts := by
  induction ss with
  | nil => exact absurd rfl hs
  | cons s ss ih =>
    cases ss with
    | nil =>
      cases ts with
      | nil => exact absurd rfl ht
      | cons t ts => rfl
    | cons s' ss =>
      have hrest := ih (List.cons_ne_nil s' ss)
      rw [List.cons_append] at hrest
      rw [List.cons_append, List.cons_append, ofSegments, ofSegments, hrest, List.append_assoc,
        List.cons_append]

theorem ofSegments_segments (p : Path) : ofSegments p.segments = p := by
  induction p with
  | nil => rfl
  | cons c r ih =>
    obtain ⟨s, ss, hr⟩ := exists_segments r
    rw [hr] at ih
    by_cases hc : c = slash
    · rw [hc, segments_slash, hr]
      exact congrArg (slash :: ·) ih
    · rw [segments_cons hc hr]
      cases ss with
      | nil => exact congrArg (c :: ·) ih
      | cons t ss => exact congrArg (c :: ·) ih

theorem slash_notMem_of_mem_segments {p : Path} {s : Name} (h : s ∈ segments p) : slash ∉ s := by
  induction p generalizing s with
  | nil =>
    rw [List.mem_singleton.mp h]
    exact List.not_mem_nil
  | cons c r ih =>
    obtain ⟨t, ts, hr⟩ := exists_segments r
    rw [hr] at ih
    by_cases hc : c = slash
    · rw [hc, segments_slash, hr] at h
      rcases List.mem_cons.mp h with rfl | h
      · exact List.not_mem_nil
      · exact ih h
    · rw [segments_cons hc hr] at h
      rcases List.mem_cons.mp h with rfl | h
      · rw [List.mem_cons, not_or]
        exact ⟨Ne.symm hc, ih List.mem_cons_self⟩
      · exact ih (List.mem_cons_of_mem t h)

theorem segments_of_slash_notMem {s : Name} (h : slash ∉ s) : segments s = [s] := by
  induction s with
  | nil => rfl
  | cons c s ih =>
    rw [List.mem_cons, not_or] at h
    exact segments_cons (Ne.symm h.1) (ih h.2)

theorem segments_ofSegments {ss : List Name} (hs : ss ≠ []) (h : ∀ s ∈ ss, slash ∉ s) :
    segments (ofSegments ss) = ss := by
  induction ss with
  | nil => exact absurd rfl hs
  | cons s ss ih =>
    have hfirst := segments_of_slash_notMem (h s List.mem_cons_self)
    cases ss with
    | nil => exact hfirst
    | cons t ss =>
      have hrest := ih (List.cons_ne_nil t ss) fun u hu => h u (List.mem_cons_of_mem s hu)
      rw [ofSegments, segments_append_slash, hfirst, hrest, List.singleton_append]

/-! ## Parents -/

/-- Whether a segment means nothing at the end of a path. -/
def Idle (s : Name) : Prop := s = [] ∨ s = dot

theorem dropIdle_prefix (ss : List Name) : dropIdle ss <+: ss :=
  List.rdropWhile_prefix _ ss

theorem not_idle_getLast {ss : List Name} (h : dropIdle ss ≠ []) :
    ¬ Idle ((dropIdle ss).getLast h) := by
  have hlast := List.rdropWhile_last_not (fun s : Name => decide (s = [] ∨ s = dot)) ss h
  rwa [decide_eq_true_eq] at hlast

/-- The directory that a path lies in: both start at the same place, and behind the names of the
directory at least one follows. -/
structure LiesIn (p up : Path) : Prop where
  ne_nil : up ≠ []
  is_prefix : up <+: p
  isAbsolute_eq : p.isAbsolute = up.isAbsolute
  names_eq : ∃ ns, ns ≠ [] ∧ p.names = up.names ++ ns

theorem liesIn_append_slash {up rest : Path} (hup : up ≠ []) (hrest : names rest ≠ []) :
    LiesIn (up ++ slash :: rest) up := by
  refine ⟨hup, List.prefix_append _ _, ?_, names rest, hrest, names_append_slash up rest⟩
  cases up with
  | nil => exact absurd rfl hup
  | cons c up => rfl

theorem liesIn_root {rest : Path} (hrest : names rest ≠ []) : LiesIn (slash :: rest) [slash] := by
  refine ⟨List.cons_ne_nil _ _, ⟨rest, rfl⟩, rfl, names rest, hrest, ?_⟩
  rw [names_slash]
  rfl

/-- The anchor of a path is the root, the name of the directory itself before a slash or alone, or
nothing. -/
theorem anchor_cases (p : Path) :
    (p.anchor = [slash] ∧ ∃ rest, p = slash :: rest) ∨
      (p.anchor = dot ∧ (p = dot ∨ ∃ rest, p = dot ++ slash :: rest)) ∨ p.anchor = [] := by
  cases p with
  | nil => exact .inr (.inr rfl)
  | cons c r =>
    unfold anchor
    dsimp only
    split_ifs with hslash hdot
    · rw [hslash]
      exact .inl ⟨rfl, r, rfl⟩
    · refine .inr (.inl ⟨rfl, ?_⟩)
      obtain ⟨hc, hr⟩ := hdot
      obtain rfl : c = 0x2E := by simpa [dot] using hc
      cases r with
      | nil => exact .inl rfl
      | cons d r =>
        obtain rfl : d = slash := by simpa using hr
        exact .inr ⟨r, rfl⟩
    · exact .inr (.inr rfl)

theorem anchor_append_drop (p : Path) : p.anchor ++ p.drop p.anchor.length = p := by
  apply List.prefix_iff_eq_append.mp
  rcases anchor_cases p with ⟨ha, rest, rfl⟩ | ⟨ha, rfl | ⟨rest, rfl⟩⟩ | ha
  · rw [ha]
    exact List.prefix_append [slash] rest
  · exact ⟨[], (List.append_nil _).trans ha⟩
  · rw [ha]
    exact List.prefix_append dot _
  · rw [ha]
    exact List.nil_prefix

theorem names_ofSegments_ne_nil {ss : List Name} {s : Name} (hs : s ∈ ss) (hidle : ¬ Idle s)
    (h : ∀ t ∈ ss, slash ∉ t) : names (ofSegments ss) ≠ [] := by
  have hne : ss ≠ [] := List.ne_nil_of_mem hs
  have hmem : s ∈ names (ofSegments ss) := by
    unfold names
    rw [segments_ofSegments hne h]
    refine List.mem_filter.mpr ⟨hs, decide_eq_true ?_⟩
    intro hnil
    exact hidle (.inl hnil)
  exact List.ne_nil_of_mem hmem

/-- When the last segment that means something is taken off, it and what is idle before it are
lost. -/
theorem exists_taken_off {ss : List Name} (h : dropIdle ss ≠ []) :
    ∃ us s, ss = dropIdle (dropIdle ss).dropLast ++ us ∧ s ∈ us ∧ ¬ Idle s := by
  obtain ⟨behind, hbehind⟩ := dropIdle_prefix ss
  obtain ⟨before, hbefore⟩ := dropIdle_prefix (dropIdle ss).dropLast
  have hlast := List.dropLast_concat_getLast h
  refine ⟨before ++ (dropIdle ss).getLast h :: behind, (dropIdle ss).getLast h, ?_, ?_,
    not_idle_getLast h⟩
  · rw [← List.append_assoc, hbefore, ← List.singleton_append, ← List.append_assoc, hlast, hbehind]
  · exact List.mem_append_right _ List.mem_cons_self

theorem parent?_eq_some {p up : Path} (h : p.parent? = some up) (hup : up ≠ []) :
    dropIdle (segments (p.drop p.anchor.length)) ≠ [] ∧
      up = p.anchor ++
        ofSegments (dropIdle (dropIdle (segments (p.drop p.anchor.length))).dropLast) := by
  unfold parent? at h
  dsimp only at h
  split at h
  · split_ifs at h
    cases h
    exact absurd rfl hup
  · rename_i hne
    cases h
    exact ⟨hne, rfl⟩

/-- A path lies in its parent, unless the parent is the empty path. -/
theorem liesIn_of_parent? {p up : Path} (h : p.parent? = some up) (hup : up ≠ []) :
    LiesIn p up := by
  obtain ⟨hne, heq⟩ := parent?_eq_some h hup
  obtain ⟨us, s, hsegments, hs, hidle⟩ := exists_taken_off hne
  generalize dropIdle (dropIdle (segments (p.drop p.anchor.length))).dropLast = ts
    at heq hsegments
  have hslash : ∀ t ∈ us, slash ∉ t := by
    intro t ht
    apply slash_notMem_of_mem_segments
    rw [hsegments]
    exact List.mem_append_right ts ht
  have hnames := names_ofSegments_ne_nil hs hidle hslash
  have hr : p.drop p.anchor.length = ofSegments (ts ++ us) := by
    rw [← hsegments, ofSegments_segments]
  by_cases hts : ts = []
  · -- the parent is the anchor alone
    rw [hts, List.nil_append] at hr
    rw [hts, ofSegments, List.append_nil] at heq
    rw [heq] at hup
    rcases anchor_cases p with ⟨ha, rest, rfl⟩ | ⟨ha, rfl | ⟨rest, rfl⟩⟩ | ha
    · rw [ha] at heq hr
      rw [heq]
      apply liesIn_root
      rwa [← hr] at hnames
    · rw [ha] at hne
      exact absurd rfl hne
    · rw [ha] at heq hr
      rw [heq]
      apply liesIn_append_slash (List.cons_ne_nil _ _)
      rw [← hr] at hnames
      rwa [← names_slash]
    · exact absurd ha hup
  · have hp : p = up ++ slash :: ofSegments us := by
      rw [heq, List.append_assoc, ← ofSegments_append hts (List.ne_nil_of_mem hs), ← hr]
      exact (anchor_append_drop p).symm
    rw [hp]
    exact liesIn_append_slash hup hnames

/-- What holds of a path holds of its ancestors, if it is handed on from a path to the one that it
lies in. -/
theorem ancestorsUpTo_induction {holds : Path → Prop}
    (hands : ∀ p up, LiesIn p up → holds p → holds up) {p : Path} (hp : holds p) (fuel : Nat) :
    ∀ q ∈ p.ancestorsUpTo fuel, holds q := by
  induction fuel generalizing p with
  | zero =>
    intro q hq
    cases hq
  | succ fuel ih =>
    intro q hq
    rw [ancestorsUpTo] at hq
    split at hq
    · cases hq
    · rename_i up hup
      rcases List.mem_cons.mp hq with rfl | hq
      · exact hp
      · by_cases hne : up = []
        · -- the empty path has no ancestors
          rw [hne] at hq
          cases fuel <;> cases hq
        · have hlies := liesIn_of_parent? hup hne
          exact ih (hands p up hlies hp) q hq

theorem eq_of_ancestorsUpTo {fuel : Nat} {p q : Path} {qs : List Path}
    (h : ancestorsUpTo fuel p = q :: qs) : q = p := by
  cases fuel with
  | zero => cases h
  | succ fuel =>
    rw [ancestorsUpTo] at h
    split at h
    · cases h
    · exact (List.cons.inj h).1.symm

/-- Each ancestor lies in the next one. -/
theorem ancestorsUpTo_isChain (fuel : Nat) (p : Path) :
    (ancestorsUpTo fuel p).IsChain LiesIn := by
  induction fuel generalizing p with
  | zero => exact .nil
  | succ fuel ih =>
    rw [ancestorsUpTo]
    split
    · exact .nil
    · rename_i up hup
      have hchain := ih up
      cases habove : ancestorsUpTo fuel up with
      | nil => exact .singleton p
      | cons q qs =>
        have hq := eq_of_ancestorsUpTo habove
        subst hq
        have hne : q ≠ [] := by
          rintro rfl
          cases fuel <;> cases habove
        rw [habove] at hchain
        exact .cons_cons (liesIn_of_parent? hup hne) hchain

end Keyfile.Path
