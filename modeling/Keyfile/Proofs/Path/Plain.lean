import Keyfile.Proofs.Path

/-!
# Paths of plain names

A plain name stands for an entry of the directory it is looked up in. A path that is written as
plain names with slashes between them is relative, and it is taken apart into these names again: its
parent is the path of all but the last one.
-/
namespace Keyfile.Path

structure Plain (n : Name) : Prop where
  ne_nil : n ≠ []
  length_le : n.length ≤ 255
  no_slash : slash ∉ n
  no_zero : 0 ∉ n
  ne_dot : n ≠ dot
  ne_dotDot : n ≠ dotDot

instance (n : Name) : Decidable (Plain n) :=
  decidable_of_iff (n ≠ [] ∧ n.length ≤ 255 ∧ slash ∉ n ∧ 0 ∉ n ∧ n ≠ dot ∧ n ≠ dotDot)
    ⟨fun ⟨h₁, h₂, h₃, h₄, h₅, h₆⟩ => ⟨h₁, h₂, h₃, h₄, h₅, h₆⟩,
      fun h => ⟨h.ne_nil, h.length_le, h.no_slash, h.no_zero, h.ne_dot, h.ne_dotDot⟩⟩

variable {n : Name} {ss : List Name}

theorem Plain.not_idle (h : Plain n) : ¬ Idle n := not_or.mpr ⟨h.ne_nil, h.ne_dot⟩

/-! ## The bytes of the path -/

theorem ofSegments_prefix_append (ss ts : List Name) : ofSegments ss <+: ofSegments (ss ++ ts) := by
  by_cases hs : ss = []
  · rw [hs]
    exact List.nil_prefix
  cases ts with
  | nil => exact ⟨[], by rw [List.append_nil, List.append_nil]⟩
  | cons t ts =>
    rw [ofSegments_append hs (List.cons_ne_nil t ts)]
    exact List.prefix_append _ _

theorem ofSegments_ne_nil (h : ∀ s ∈ ss, Plain s) (hne : ss ≠ []) : ofSegments ss ≠ [] := by
  cases ss with
  | nil => exact (hne rfl).elim
  | cons s ss =>
    have hstarts : s <+: ofSegments (s :: ss) := ofSegments_prefix_append [s] ss
    exact hstarts.ne_nil (h s List.mem_cons_self).ne_nil

theorem zero_notMem_ofSegments (h : ∀ s ∈ ss, Plain s) : 0 ∉ ofSegments ss := by
  induction ss with
  | nil => exact List.not_mem_nil
  | cons s ss ih =>
    obtain ⟨hs, hss⟩ := List.forall_mem_cons.mp h
    cases ss with
    | nil => exact hs.no_zero
    | cons t ss =>
      rw [ofSegments, List.mem_append, List.mem_cons, not_or, not_or]
      exact ⟨hs.no_zero, by decide, ih hss⟩

theorem length_le_ofSegments (h : ∀ s ∈ ss, Plain s) : ss.length ≤ (ofSegments ss).length := by
  induction ss with
  | nil => exact Nat.le_refl 0
  | cons s ss ih =>
    obtain ⟨hs, hss⟩ := List.forall_mem_cons.mp h
    have hlength := List.length_pos_iff.mpr hs.ne_nil
    cases ss with
    | nil => exact hlength
    | cons t ss =>
      have hrest := ih hss
      rw [ofSegments, List.length_append, List.length_cons (a := s), List.length_cons (a := slash)]
      omega

theorem isAbsolute_plain (h : ∀ s ∈ ss, Plain s) : isAbsolute (ofSegments ss) = false := by
  cases ss with
  | nil => rfl
  | cons s ss =>
    have hs := h s List.mem_cons_self
    obtain ⟨rest, heq⟩ : s <+: ofSegments (s :: ss) := ofSegments_prefix_append [s] ss
    cases s with
    | nil => exact (hs.ne_nil rfl).elim
    | cons c s =>
      rw [← heq]
      refine decide_eq_false fun hc => hs.no_slash ?_
      rw [← Option.some.inj hc]
      exact List.mem_cons_self

theorem endsInSlash_plain (h : ∀ s ∈ ss, Plain s) : endsInSlash (ofSegments ss) = false := by
  cases ss using List.reverseRecOn with
  | nil => rfl
  | append_singleton ss n =>
    have hn := h n (List.mem_append_right ss (List.mem_singleton_self n))
    obtain ⟨before, heq⟩ : ∃ before, ofSegments (ss ++ [n]) = before ++ n := by
      by_cases hss : ss = []
      · rw [hss]
        exact ⟨[], rfl⟩
      · refine ⟨ofSegments ss ++ [slash], ?_⟩
        rw [ofSegments_append hss (List.cons_ne_nil n []), List.append_assoc]
        rfl
    refine decide_eq_false fun hslash => hn.no_slash ?_
    rw [heq, List.getLast?_append_of_ne_nil _ hn.ne_nil] at hslash
    exact List.mem_of_getLast? hslash

theorem anchor_plain (h : ∀ s ∈ ss, Plain s) : anchor (ofSegments ss) = [] := by
  cases ss with
  | nil => rfl
  | cons s ss =>
    have hs := h s List.mem_cons_self
    obtain ⟨rest, heq⟩ : s <+: ofSegments (s :: ss) := ofSegments_prefix_append [s] ss
    rw [← heq]
    rcases s with _ | ⟨c, _ | ⟨d, s⟩⟩
    · exact (hs.ne_nil rfl).elim
    · have hc : c ≠ slash := fun hc => hs.no_slash (hc ▸ List.mem_singleton_self c)
      exact (if_neg hc).trans (if_neg fun hdot => hs.ne_dot hdot.1)
    · obtain ⟨hc, hd, _⟩ : slash ≠ c ∧ slash ≠ d ∧ slash ∉ s := by
        simpa only [List.mem_cons, not_or] using hs.no_slash
      refine (if_neg hc.symm).trans (if_neg ?_)
      rintro ⟨_, hnil | hslash⟩
      · cases hnil
      · exact hd (Option.some.inj hslash).symm

/-! ## The names of the path -/

theorem segments_plain (h : ∀ s ∈ ss, Plain s) (hne : ss ≠ []) : segments (ofSegments ss) = ss :=
  segments_ofSegments hne fun s hs => (h s hs).no_slash

theorem names_plain (h : ∀ s ∈ ss, Plain s) : names (ofSegments ss) = ss := by
  by_cases hne : ss = []
  · rw [hne]
    rfl
  · rw [names, segments_plain h hne, List.filter_eq_self]
    exact fun s hs => decide_eq_true (h s hs).ne_nil

theorem dropIdle_plain (h : ∀ s ∈ ss, Plain s) : dropIdle ss = ss := by
  refine List.rdropWhile_eq_self_iff.mpr fun hne => ?_
  rw [decide_eq_true_eq]
  exact (h _ (List.getLast_mem hne)).not_idle

/-! ## The paths above -/

theorem parent?_plain (h : ∀ s ∈ ss ++ [n], Plain s) :
    parent? (ofSegments (ss ++ [n])) = some (ofSegments ss) := by
  have hss (s : Name) (hs : s ∈ ss) : Plain s := h s (List.mem_append_left [n] hs)
  have hne : ss ++ [n] ≠ [] := List.append_ne_nil_of_right_ne_nil ss (List.cons_ne_nil n [])
  unfold parent?
  rw [anchor_plain h]
  dsimp only
  rw [List.length_nil, List.drop_zero, segments_plain h hne, dropIdle_plain h]
  split
  · rename_i hnil
    exact (hne hnil).elim
  · rw [List.dropLast_concat, dropIdle_plain hss, List.nil_append]

/-- Fuel for as many names as there are is enough. -/
theorem ancestorsUpTo_plain (h : ∀ s ∈ ss, Plain s) {fuel : Nat} (hfuel : ss.length ≤ fuel) :
    ancestorsUpTo fuel (ofSegments ss) = ancestorsUpTo ss.length (ofSegments ss) := by
  induction ss using List.reverseRecOn generalizing fuel with
  | nil => cases fuel <;> rfl
  | append_singleton ss n ih =>
    rw [List.length_append, List.length_singleton] at hfuel ⊢
    obtain ⟨fuel, rfl⟩ : ∃ fuel', fuel = fuel' + 1 := ⟨fuel - 1, by omega⟩
    rw [ancestorsUpTo, ancestorsUpTo, parent?_plain h]
    dsimp only
    rw [ih (fun s hs => h s (List.mem_append_left [n] hs)) (Nat.le_of_succ_le_succ hfuel)]

theorem ancestors_concat (h : ∀ s ∈ ss ++ [n], Plain s) :
    ancestors (ofSegments (ss ++ [n])) = ofSegments (ss ++ [n]) :: ancestors (ofSegments ss) := by
  have hss (s : Name) (hs : s ∈ ss) : Plain s := h s (List.mem_append_left [n] hs)
  rw [ancestors, ancestorsUpTo_plain h (length_le_ofSegments h), List.length_append,
    List.length_singleton, ancestorsUpTo, parent?_plain h, ancestors,
    ancestorsUpTo_plain hss (length_le_ofSegments hss)]

end Keyfile.Path
