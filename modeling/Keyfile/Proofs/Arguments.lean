import Keyfile.Arguments.Read
import Keyfile.Proofs.Result
import Mathlib.Tactic.Common

/-!
# Arguments that are accepted

Arguments lead to a run only at their end, after the switches in use have been checked. So no two
switches of a run exclude each other.
-/
namespace Keyfile.Arguments

/-- Whether a switch was given. -/
def uses (a : Arguments) : Switch → Bool
  | .keypairFile => a.keypairFile.isSome
  | .save => a.save.isSome
  | .interactive => a.interactive
  | .json => a.json
  | .jsonCompact => a.jsonCompact
  | .config => a.config.isSome
  | .help | .version => false

variable {args : List Bytes} {a : Arguments} {p : Progress} {r : Request}

/-! ## Requests that come before the end -/

/-- Only help and the version are asked for before all arguments have been read. -/
theorem named_eq_inl {name : Bytes} {v : Option Bytes} (h : named p name v = .ok (.inl r)) :
    r = .help ∨ r = .version := by
  unfold named at h
  split at h
  · cases h
  · split at h
    · split at h
      · obtain ⟨_, _, hr⟩ := map_eq_ok_iff.mp h
        cases hr
      · obtain ⟨_, _, hr⟩ := map_eq_ok_iff.mp h
        cases hr
    · split at h
      · cases h
      · obtain ⟨_, _, hr⟩ := bind_eq_ok_iff.mp h
        cases hr
        exact .inl rfl
      · obtain ⟨_, _, hr⟩ := bind_eq_ok_iff.mp h
        cases hr
        exact .inr rfl
      · obtain ⟨_, _, hr⟩ := map_eq_ok_iff.mp h
        cases hr

theorem letters_eq_inl {text : Bytes} (h : letters p text = .ok (.inl r)) :
    r = .help ∨ r = .version := by
  unfold letters at h
  split_ifs at h
  · obtain ⟨_, _, hr⟩ := bind_eq_ok_iff.mp h
    cases hr
    exact .inl rfl
  · obtain ⟨_, _, hr⟩ := bind_eq_ok_iff.mp h
    cases hr
    exact .inr rfl

/-! ## The end of the arguments -/

theorem finish_eq_run (h : finish p = .ok (.run a)) :
    ∃ q : Progress, check q.used = .ok () ∧ a = ofGiven q.given := by
  obtain ⟨q, _, h⟩ := bind_eq_ok_iff.mp h
  obtain ⟨_, hcheck, h⟩ := bind_eq_ok_iff.mp h
  cases h
  exact ⟨q, hcheck, rfl⟩

/-- Arguments that lead to a run are those of switches that were checked. -/
theorem readFrom_eq_run {filesOnly : Bool} (h : readFrom filesOnly p args = .ok (.run a)) :
    ∃ q : Progress, check q.used = .ok () ∧ a = ofGiven q.given := by
  -- every argument leads on to the rest of them, or to a request that is not a run
  induction args generalizing filesOnly p with
  | nil => exact finish_eq_run h
  | cons arg rest ih =>
    unfold readFrom at h
    split at h
    · obtain ⟨_, _, h⟩ := bind_eq_ok_iff.mp h
      exact ih h
    · split at h
      · exact ih h
      · obtain ⟨_, _, h⟩ := bind_eq_ok_iff.mp h
        exact ih h
      · obtain ⟨next, hnext, h⟩ := bind_eq_ok_iff.mp h
        cases next with
        | inl request =>
          cases h
          rcases named_eq_inl hnext with h | h <;> cases h
        | inr q => exact ih h
      · obtain ⟨next, hnext, h⟩ := bind_eq_ok_iff.mp h
        cases next with
        | inl request =>
          cases h
          rcases letters_eq_inl hnext with h | h <;> cases h
        | inr q => exact ih h

/-! ## Switches that exclude each other -/

theorem not_excludes_of_check {used : List Switch} {s t : Switch} (h : check used = .ok ())
    (hs : s ∈ used) (ht : t ∈ used) : t ∉ s.excludes := by
  unfold check at h
  dsimp only at h
  split at h
  · rename_i hnone
    intro hex
    have hmem : t ∈ used.filter fun t => decide (t ∈ s.excludes) :=
      List.mem_filter.mpr ⟨ht, decide_eq_true hex⟩
    have hempty := List.find?_eq_none.mp hnone s hs
    rw [Bool.not_eq_true, Bool.not_eq_false', List.isEmpty_iff] at hempty
    rw [hempty] at hmem
    cases hmem
  · cases h

theorem mem_of_lookup {given : List (Switch × Option Path)} {s : Switch}
    (h : (given.lookup s).isSome = true) : s ∈ given.map (·.1) := by
  obtain ⟨x, hx, hs⟩ := List.lookup_isSome_iff.mp h
  rw [eq_of_beq hs]
  exact List.mem_map_of_mem hx

theorem mem_of_uses {given : List (Switch × Option Path)} {s : Switch}
    (h : (ofGiven given).uses s = true) : s ∈ given.map (·.1) := by
  have hjoin {o : Option (Option Path)} (h : o.join.isSome = true) : o.isSome = true := by
    cases o with
    | none => cases h
    | some _ => rfl
  refine mem_of_lookup ?_
  cases s with
  | keypairFile => exact hjoin h
  | config => exact hjoin h
  | save | interactive | json | jsonCompact => exact h
  | help | version => cases h

/-- No two switches of a run exclude each other. -/
theorem not_excludes_of_uses {s t : Switch} (h : read args = .ok (.run a))
    (hs : a.uses s = true) (ht : a.uses t = true) : t ∉ s.excludes := by
  obtain ⟨q, hcheck, rfl⟩ := readFrom_eq_run h
  exact not_excludes_of_check hcheck (mem_of_uses hs) (mem_of_uses ht)

end Keyfile.Arguments
