import Keyfile.Proofs.Json.Document
import Keyfile.Proofs.Json.Quoted
import Keyfile.Proofs.Keypair.Format

/-!
# JSON objects that are written

What is written for an object, in either layout, spells the object with its members in the order of
their names, if what is written for the values of the members spells these values.
-/
namespace Keyfile.Json

variable {depth : Nat} {w : List Char} {v : Json} {n : String} {ms : List (String × Json)}

/-! ## The order of members -/

theorem insert_nil (n : String) (v : Json) : Json.insert n v [] = [(n, v)] := rfl

theorem insert_of_lt {m : String} {x : Json} (hne : n ≠ m) (h : n < m) :
    Json.insert n v ((m, x) :: ms) = (n, v) :: (m, x) :: ms := by
  rw [Json.insert, if_neg hne, if_pos h]

theorem insert_of_not_lt {m : String} {x : Json} (hne : n ≠ m) (h : ¬ n < m) :
    Json.insert n v ((m, x) :: ms) = (m, x) :: Json.insert n v ms := by
  rw [Json.insert, if_neg hne, if_neg h]

theorem ofMembers_concat {acc : List (String × Json)} (h : ofMembers ms = .object acc) (n : String)
    (v : Json) : ofMembers (ms ++ [(n, v)]) = .object (Json.insert n v acc) := by
  rw [ofMembers, object.injEq] at h
  rw [ofMembers, List.foldl_append, h]
  rfl

/-! ## The two layouts -/

/-- What is written for the value in either layout spells it. -/
structure Spelled (depth : Nat) (v : Json) : Prop where
  compact : Nested depth (compactChars v) v
  indented (k : Nat) : Nested depth (indentedChars k v) v

theorem spelled_string (depth : Nat) (s : String) : Spelled depth (.string s) where
  compact := by
    rw [compactChars]
    exact Scalar.nested (.string (stringText_quote s)) depth
  indented := by
    intro k
    rw [indentedChars]
    exact Scalar.nested (.string (stringText_quote s)) depth

theorem spaces_blank : Spaces [' '] := by
  intro c hc
  rw [List.eq_of_mem_singleton hc]
  rfl

theorem separated_compact {m : String × Json}
    (h : ∀ x ∈ m :: ms, Nested depth (compactChars x.2) x.2) :
    Separated (Member (Nested depth)) (compactMembers (m :: ms)) (m :: ms) := by
  have hm := Member.intro (stringText_quote m.1) spaces_nil spaces_nil (h m List.mem_cons_self)
  induction ms generalizing m with
  | nil =>
    simpa only [compactMembers, List.nil_append, List.append_nil]
      using Separated.one spaces_nil hm spaces_nil
  | cons m' ms ih =>
    have h' (x : String × Json) (hx : x ∈ m' :: ms) : Nested depth (compactChars x.2) x.2 :=
      h x (List.mem_cons_of_mem _ hx)
    have hms := ih h' (.intro (stringText_quote m'.1) spaces_nil spaces_nil
      (h' m' List.mem_cons_self))
    simpa only [compactMembers, List.nil_append, List.append_nil, List.append_assoc,
      List.cons_append] using Separated.cons spaces_nil hm spaces_nil hms

theorem separated_indented (k : Nat) {w' : List Char} {m : String × Json} (hw : Spaces w)
    (hw' : Spaces w') (h : ∀ x ∈ m :: ms, Spelled depth x.2) :
    Separated (Member (Nested depth)) (w ++ indentedMembers k (m :: ms) ++ w') (m :: ms) := by
  have hm := Member.intro (stringText_quote m.1) spaces_nil spaces_blank
    ((h m List.mem_cons_self).indented k)
  induction ms generalizing m w with
  | nil =>
    simpa only [indentedMembers, List.append_nil, List.append_assoc, List.cons_append,
      List.nil_append] using Separated.one hw hm hw'
  | cons m' ms ih =>
    have h' (x : String × Json) (hx : x ∈ m' :: ms) : Spelled depth x.2 :=
      h x (List.mem_cons_of_mem _ hx)
    have hms := ih (spaces_newLine k) h' (.intro (stringText_quote m'.1) spaces_nil spaces_blank
      ((h' m' List.mem_cons_self).indented k))
    simpa only [indentedMembers, List.append_nil, List.append_assoc, List.cons_append,
      List.nil_append] using Separated.cons hw hm spaces_nil hms

theorem nested_empty_object (depth : Nat) :
    Nested (depth + 1) ['\x7b', '\x7d'] (ofMembers []) :=
  .inr (.object (.none spaces_nil))

/-- What is written for an object spells the object, its members in the order of their names. -/
theorem nested_object (f : JsonFormat) (h : ∀ x ∈ ms, Spelled depth x.2) :
    Nested (depth + 1) (f.render (.object ms)).toList (ofMembers ms) := by
  cases f with
  | compact =>
    rw [JsonFormat.render, compact, String.toList_ofList, compactChars]
    cases ms with
    | nil => exact nested_empty_object depth
    | cons m ms => exact .inr (.object (.some (separated_compact fun x hx => (h x hx).compact)))
  | pretty =>
    rw [JsonFormat.render, indented, String.toList_ofList]
    cases ms with
    | nil =>
      rw [indentedChars]
      exact nested_empty_object depth
    | cons m ms =>
      have ht := separated_indented 1 (spaces_newLine 1) (spaces_newLine 0) h
      have hb : Nested (depth + 1) _ _ := .inr (.object (.some ht))
      simpa only [indentedChars, List.append_assoc, List.cons_append] using hb

end Keyfile.Json
