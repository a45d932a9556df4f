import Keyfile.Proofs.Json.Reprint
import Keyfile.Proofs.Keypair.Refusal

/-!
# Items that are no bytes

If an array is refused as a keypair because of its items, the error is about the first item that is
no byte, and it shows that item as JSON text. What comes behind it does not enter into the error.
-/
namespace Keyfile
open Json

/-- The item with this index is no byte, and all items before it are bytes. -/
structure FirstBad (items : List Json) (i : Nat) (v : Json) : Prop where
  getElem?_eq : items[i]? = some v
  ne_byte (b : UInt8) : v ≠ .integer b.toNat
  before {j : Nat} : j < i → ∃ b : UInt8, items[j]? = some (.integer b.toNat)

variable {items items' : List Json} {text : List Char} {i : Nat} {v : Json} {origin : String}

theorem FirstBad.cons (h : FirstBad items i v) (b : UInt8) :
    FirstBad (.integer b.toNat :: items) (i + 1) v where
  getElem?_eq := by rw [List.getElem?_cons_succ, h.getElem?_eq]
  ne_byte := h.ne_byte
  before := by
    intro j hj
    cases j with
    | zero => exact ⟨b, List.getElem?_cons_zero⟩
    | succ j =>
      rw [List.getElem?_cons_succ]
      exact h.before (Nat.lt_of_succ_lt_succ hj)

/-- It is the same item whatever comes behind it. -/
theorem FirstBad.of_take_eq (h : FirstBad items i v)
    (heq : items'.take (i + 1) = items.take (i + 1)) : FirstBad items' i v := by
  have hsame {j : Nat} (hj : j ≤ i) : items'[j]? = items[j]? := by
    rw [← List.getElem?_take_of_lt (Nat.lt_succ_of_le hj), heq,
      List.getElem?_take_of_lt (Nat.lt_succ_of_le hj)]
  refine ⟨(hsame Nat.le.refl).trans h.getElem?_eq, h.ne_byte, ?_⟩
  intro j hj
  rw [hsame (Nat.le_of_lt hj)]
  exact h.before hj

theorem FirstBad.bytesOrBad_eq (h : FirstBad items i v) (k : Nat) :
    bytesOrBad k items = .error (k + i, v) := by
  induction items generalizing i k with
  | nil => cases h.getElem?_eq
  | cons x items ih =>
    rw [bytesOrBad]
    cases i with
    | zero =>
      obtain rfl : x = v := Option.some.inj h.getElem?_eq
      have hx : x.byte? = none := by
        rw [Option.eq_none_iff_forall_ne_some]
        intro b hb
        exact h.ne_byte b (byte?_eq_some_iff.mp hb)
      rw [hx]
      rfl
    | succ i =>
      obtain ⟨b, hb⟩ := h.before (Nat.zero_lt_succ i)
      obtain rfl : x = .integer b.toNat := Option.some.inj hb
      have hrest : FirstBad items i v :=
        ⟨h.getElem?_eq, h.ne_byte, fun hj => h.before (Nat.succ_lt_succ hj)⟩
      rw [byte?_eq_some_iff.mpr rfl, ih hrest (k + 1), Nat.add_right_comm, Nat.add_assoc]
      rfl

theorem FirstBad.unique {j : Nat} {x : Json} (h : FirstBad items i v) (h' : FirstBad items j x) :
    i = j ∧ v = x := by
  have heq := (h.bytesOrBad_eq 0).symm.trans (h'.bytesOrBad_eq 0)
  rw [Nat.zero_add, Nat.zero_add] at heq
  exact Prod.mk.inj (Except.error.inj heq)

theorem exists_firstBad (h : ∃ v ∈ items, ∀ b : UInt8, v ≠ .integer b.toNat) :
    ∃ i v, FirstBad items i v := by
  induction items with
  | nil =>
    obtain ⟨v, hv, _⟩ := h
    exact absurd hv List.not_mem_nil
  | cons x items ih =>
    by_cases hx : ∃ b : UInt8, x = .integer b.toNat
    · obtain ⟨b, rfl⟩ := hx
      obtain ⟨v, hv, hno⟩ := h
      rcases List.mem_cons.mp hv with rfl | hv
      · exact (hno b rfl).elim
      · obtain ⟨i, v, hbad⟩ := ih ⟨v, hv, hno⟩
        exact ⟨i + 1, v, hbad.cons b⟩
    · exact ⟨0, x, List.getElem?_cons_zero, fun b hb => hx ⟨b, hb⟩, nofun⟩

/-- An exact item of an array that was read is read again from what is written for it. -/
theorem read_compact_of_mem (h : Document text (.array items)) (hv : v ∈ items) (hexact : Exact v) :
    Json.read v.compact.toList = .ok v := by
  obtain ⟨_, t, _, _, _, _, ht⟩ := document_array_iff.mp h
  obtain ⟨u, hu⟩ := ht.forall_mem v hv
  have hread := (hu.compact hexact).readsAs.read (by decide) spaces_nil spaces_nil
  rwa [List.nil_append, List.append_nil, ← String.toList_ofList (l := compactChars v)] at hread

namespace Keypair

theorem ofText_of_firstBad (h : FirstBad items i v) (hdocument : Document text (.array items))
    (origin : String) : ofText text origin = ⟨[], .error (.malformedInput origin
      ("element " ++ toString i ++ " is not a byte value: " ++ v.compact))⟩ := by
  have hbad := h.bytesOrBad_eq 0
  rw [Nat.zero_add] at hbad
  unfold ofText readByteArray
  rw [read_eq_ok_iff.mpr hdocument]
  dsimp only
  rw [hbad]

/-- An array with an item that is no byte is refused for the first such item, which is shown as it
was read unless a floating-point number is part of it. The items behind it make no difference. -/
theorem ofText_firstBad (origin : String) (h : Document text (.array items))
    (hbad : ∃ v ∈ items, ∀ b : UInt8, v ≠ .integer b.toNat) :
    ∃ i v, FirstBad items i v ∧
      ofText text origin = ⟨[], .error (.malformedInput origin
        ("element " ++ toString i ++ " is not a byte value: " ++ v.compact))⟩ ∧
      (Exact v → Json.read v.compact.toList = .ok v) ∧
      ∀ text' items', Document text' (.array items') →
        items'.take (i + 1) = items.take (i + 1) → ofText text' origin = ofText text origin := by
  obtain ⟨i, v, hfirst⟩ := exists_firstBad hbad
  have hmem : v ∈ items := List.mem_of_getElem? hfirst.getElem?_eq
  refine ⟨i, v, hfirst, ofText_of_firstBad hfirst h origin, read_compact_of_mem h hmem, ?_⟩
  intro text' items' h' heq
  rw [ofText_of_firstBad hfirst h origin, ofText_of_firstBad (hfirst.of_take_eq heq) h' origin]

/-- An array in which the second item is an object with two members of one name. -/
def objectText : List Char :=
  "[7, \x7b\"b\": [0.5], \"b\": [-1, \"\\u0041\"], \"a\": null\x7d, 256]".toList

/-- The object, with the later one of the two members. -/
def objectItem : Json := .object [("a", .null), ("b", .array [.integer (-1), .string "A"])]

theorem ofText_firstBad_object :
    Document objectText (.array [.integer 7, objectItem, .integer 256]) ∧
      (ofText objectText "input").result = .error (.malformedInput "input"
        "element 1 is not a byte value: \x7b\"a\":null,\"b\":[-1,\"A\"]\x7d") ∧
      Json.read objectItem.compact.toList = .ok objectItem := by
  have hread : Json.read objectText = .ok (.array [.integer 7, objectItem, .integer 256]) := by
    rfl
  have hdocument := read_eq_ok_iff.mp hread
  have hfirst : FirstBad [.integer 7, objectItem, .integer 256] 1 objectItem := by
    refine ⟨rfl, nofun, ?_⟩
    intro j hj
    obtain rfl : j = 0 := by omega
    exact ⟨7, rfl⟩
  have hparts : ∀ v ∈ [Json.integer (-1), .string "A"], Exact v :=
    List.forall_mem_cons.mpr ⟨.integer _, List.forall_mem_singleton.mpr (.string _)⟩
  have hexact : Exact objectItem :=
    .object (List.forall_mem_cons.mpr ⟨.null, List.forall_mem_singleton.mpr (.array hparts)⟩)
  obtain ⟨i, v, hbad, hresult, hagain, _⟩ :=
    ofText_firstBad "input" hdocument ⟨objectItem, by simp, nofun⟩
  obtain ⟨rfl, rfl⟩ := hbad.unique hfirst
  refine ⟨hdocument, ?_, hagain hexact⟩
  rw [hresult]
  cbv

end Keypair

end Keyfile
