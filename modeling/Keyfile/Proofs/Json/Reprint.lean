import Keyfile.Proofs.Json.Object
import Mathlib.Data.List.Induction

/-!
# Values that are read and written again

A value that was read is written as a text that spells it, unless a floating-point number is part of
it. Members that were read are in the order of their names, each name once, so the order in which
they are written is the one in which they are read again.
-/
namespace Keyfile.Json

variable {depth : Nat} {t : List Char} {v : Json} {vs : List Json} {n : String}
  {ms acc : List (String × Json)}

/-- No part of the value is a floating-point number. -/
inductive Exact : Json → Prop
  | null : Exact .null
  | bool (b : Bool) : Exact (.bool b)
  | integer (n : Int) : Exact (.integer n)
  | string (s : String) : Exact (.string s)
  | array {items : List Json} : (∀ v ∈ items, Exact v) → Exact (.array items)
  | object {members : List (String × Json)} :
      (∀ m ∈ members, Exact m.2) → Exact (.object members)

/-! ## Members in order -/

/-- Each member has a later name than the one before it. -/
def Ordered (ms : List (String × Json)) : Prop := ms.Pairwise fun m m' => m.1 < m'.1

theorem mem_insert {m : String × Json} (h : m ∈ Json.insert n v ms) : m = (n, v) ∨ m ∈ ms := by
  induction ms with
  | nil => exact .inl (List.eq_of_mem_singleton h)
  | cons m' ms ih =>
    rw [Json.insert] at h
    split_ifs at h
    · exact (List.mem_cons.mp h).imp_right (List.mem_cons_of_mem m')
    · exact List.mem_cons.mp h
    · rcases List.mem_cons.mp h with rfl | hm
      · exact .inr List.mem_cons_self
      · exact (ih hm).imp_right (List.mem_cons_of_mem m')

theorem ordered_insert (h : Ordered ms) (n : String) (v : Json) :
    Ordered (Json.insert n v ms) := by
  induction ms with
  | nil => exact List.pairwise_singleton _ _
  | cons m ms ih =>
    obtain ⟨hm, hms⟩ := List.pairwise_cons.mp h
    rw [Json.insert]
    split_ifs with heq hlt
    · exact List.pairwise_cons.mpr ⟨fun m' hm' => by rw [heq]; exact hm m' hm', hms⟩
    · refine List.pairwise_cons.mpr ⟨?_, h⟩
      intro m' hm'
      rcases List.mem_cons.mp hm' with rfl | hm'
      · exact hlt
      · exact String.lt_trans hlt (hm m' hm')
    · refine List.pairwise_cons.mpr ⟨?_, ih hms⟩
      intro m' hm'
      rcases mem_insert hm' with rfl | hm'
      · exact Std.lt_of_le_of_ne (String.not_lt.mp hlt) (Ne.symm heq)
      · exact hm m' hm'

/-- A later name than all others goes to the end. -/
theorem insert_of_forall_lt (h : ∀ m ∈ ms, m.1 < n) : Json.insert n v ms = ms ++ [(n, v)] := by
  induction ms with
  | nil => rfl
  | cons m ms ih =>
    obtain ⟨hm, hms⟩ := List.forall_mem_cons.mp h
    rw [insert_of_not_lt (String.ne_of_lt hm).symm (String.lt_asymm hm), ih hms, List.cons_append]

/-- Of the members that are read, those that count are in order. -/
theorem exists_ofMembers (ms : List (String × Json)) :
    ∃ acc, ofMembers ms = .object acc ∧ Ordered acc ∧ ∀ m ∈ acc, m ∈ ms := by
  induction ms using List.reverseRecOn with
  | nil => exact ⟨[], rfl, List.Pairwise.nil, List.forall_mem_nil _⟩
  | append_singleton ms m ih =>
    obtain ⟨acc, hacc, hordered, hmem⟩ := ih
    refine ⟨_, ofMembers_concat hacc m.1 m.2, ordered_insert hordered m.1 m.2, ?_⟩
    intro m' hm'
    rcases mem_insert hm' with rfl | hm'
    · exact List.mem_append_right ms List.mem_cons_self
    · exact List.mem_append_left [m] (hmem m' hm')

/-- All members count if they are in order. -/
theorem ofMembers_of_ordered (h : Ordered ms) : ofMembers ms = .object ms := by
  induction ms using List.reverseRecOn with
  | nil => rfl
  | append_singleton ms m ih =>
    obtain ⟨hms, _, hlt⟩ := List.pairwise_append.mp h
    rw [ofMembers_concat (ih hms),
      insert_of_forall_lt fun m' hm' => hlt m' hm' m List.mem_cons_self]

/-! ## What is written for a value that was read -/

theorem scalar_integerText {negative : Bool} {m : Nat} (h : Fits negative m) :
    Scalar (integerText (signed negative m)) (.integer (signed negative m)) := by
  cases negative with
  | false =>
    have htext : integerText (signed false m) = Nat.toDigits 10 m := Nat.toList_repr
    rw [htext]
    exact .unsigned (.integer (numeral_toDigits m) h)
  | true =>
    obtain ⟨k, rfl⟩ := Nat.exists_eq_add_one_of_ne_zero h.1
    have htext : integerText (signed true (k + 1)) = '-' :: Nat.toDigits 10 (k + 1) := by
      change ("-" ++ (k + 1).repr).toList = _
      rw [String.toList_append, Nat.toList_repr]
      rfl
    rw [htext]
    exact .negative (.integer (numeral_toDigits (k + 1)) h)

theorem Magnitude.exact {negative : Bool} (h : Magnitude negative t v) (hv : Exact v) :
    ∃ m, Fits negative m ∧ v = .integer (signed negative m) := by
  cases h with
  | integer _ hf => exact ⟨_, hf, rfl⟩
  | double => cases hv

theorem Scalar.compact (h : Scalar t v) (hv : Exact v) : Scalar (compactChars v) v := by
  have hnumber {negative : Bool} {u : List Char} (hm : Magnitude negative u v) :
      Scalar (compactChars v) v := by
    obtain ⟨m, hf, rfl⟩ := hm.exact hv
    rw [compactChars]
    exact scalar_integerText hf
  cases h with
  | null =>
    rw [compactChars]
    exact .null
  | true =>
    rw [compactChars]
    exact .true
  | false =>
    rw [compactChars]
    exact .false
  | unsigned hm => exact hnumber hm
  | negative hm => exact hnumber hm
  | string =>
    rw [compactChars]
    exact .string (stringText_quote _)

theorem separated_compactItems (h : ∀ x ∈ v :: vs, Nested depth (compactChars x) x) :
    Separated (Nested depth) (compactItems (v :: vs)) (v :: vs) := by
  have hv := h v List.mem_cons_self
  induction vs generalizing v with
  | nil =>
    simpa only [compactItems, List.nil_append, List.append_nil]
      using Separated.one spaces_nil hv spaces_nil
  | cons v' vs ih =>
    have h' (x : Json) (hx : x ∈ v' :: vs) : Nested depth (compactChars x) x :=
      h x (List.mem_cons_of_mem v hx)
    have hvs := ih h' (h' v' List.mem_cons_self)
    simpa only [compactItems, List.nil_append, List.append_nil]
      using Separated.cons spaces_nil hv spaces_nil hvs

theorem items_compactItems (h : ∀ x ∈ vs, Nested depth (compactChars x) x) :
    Items (Nested depth) (compactItems vs) vs := by
  cases vs with
  | nil => exact .none spaces_nil
  | cons v vs => exact .some (separated_compactItems h)

theorem items_compactMembers (h : ∀ x ∈ ms, Nested depth (compactChars x.2) x.2) :
    Items (Member (Nested depth)) (compactMembers ms) ms := by
  cases ms with
  | nil => exact .none spaces_nil
  | cons m ms => exact .some (separated_compact h)

theorem Separated.forall_mem {α : Type} {item : List Char → α → Prop} {as : List α}
    (h : Separated item t as) : ∀ a ∈ as, ∃ u, item u a := by
  induction h with
  | one _ ht _ => exact List.forall_mem_singleton.mpr ⟨_, ht⟩
  | cons _ ht _ _ ih => exact List.forall_mem_cons.mpr ⟨⟨_, ht⟩, ih⟩

theorem Items.forall_mem {α : Type} {item : List Char → α → Prop} {as : List α}
    (h : Items item t as) : ∀ a ∈ as, ∃ u, item u a := by
  cases h with
  | none => exact List.forall_mem_nil _
  | some hs => exact hs.forall_mem

/-- What is written for an exact value that a text spells spells the same value. -/
theorem Nested.compact (h : Nested depth t v) (hv : Exact v) : Nested depth (compactChars v) v := by
  induction depth generalizing t v with
  | zero => exact Scalar.compact h hv
  | succ depth ih =>
    rcases h with h | h
    · exact .inl (h.compact hv)
    cases h with
    | @array t vs ht =>
      cases hv with
      | array hvs =>
        have hitems (x : Json) (hx : x ∈ vs) : Nested depth (compactChars x) x := by
          obtain ⟨u, hu⟩ := ht.forall_mem x hx
          exact ih hu (hvs x hx)
        rw [compactChars, List.cons_append]
        exact .inr (.array (items_compactItems hitems))
    | @object t ms ht =>
      obtain ⟨acc, hacc, hordered, hmem⟩ := exists_ofMembers ms
      rw [hacc] at hv ⊢
      cases hv with
      | object hms =>
        have hmembers (x : String × Json) (hx : x ∈ acc) : Nested depth (compactChars x.2) x.2 := by
          obtain ⟨u, hu⟩ := ht.forall_mem x (hmem x hx)
          cases hu with
          | intro _ _ _ hpart => exact ih hpart (hms _ hx)
        have hb := Bracketed.object (items_compactMembers hmembers)
        rw [ofMembers_of_ordered hordered] at hb
        rw [compactChars, List.cons_append]
        exact .inr hb

end Keyfile.Json
