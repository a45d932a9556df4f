import Keyfile.Proofs.Json.Characters
import Keyfile.Proofs.Json.Magnitude

/-!
# Documents that are read

`read` gives a value for a text exactly if the grammar does, and it is the same value: the main
statement is `read_eq_ok_iff`. Reading is followed list by list, and `Listed` holds what the items
of arrays and the members of objects have in common; nesting is then an induction on the depth.
-/
namespace Keyfile.Json

variable {fuel depth d : Nat} {w t u s r rest : List Char} {v : Json} {vs : List Json}

/-! ## Lists of items -/

/-- `more` reads what stands behind an item: each further item, as `one` reads it, has a comma in
front, and `close` comes last. -/
structure Listed {α : Type} (close : Char) (one : Nat → List Char → Except Fault (α × List Char))
    (more : Nat → List Char → Except Fault (List α × List Char)) : Prop where
  endsNumber (s : List Char) : EndsNumber (close :: s)
  close_eq {w : List Char} (fuel : Nat) (rest : List Char) : Spaces w →
    more (fuel + 1) (w ++ close :: rest) = .ok ([], rest)
  comma_eq {w u r rest : List Char} {fuel : Nat} {a : α} {as : List α} : Spaces w →
    one fuel u = .ok (a, r) → more fuel r = .ok (as, rest) →
    more (fuel + 1) (w ++ ',' :: u) = .ok (a :: as, rest)
  cases {fuel : Nat} {s rest : List Char} {as : List α} : more fuel s = .ok (as, rest) →
    ∃ w t, Spaces w ∧ s = w ++ t ∧
      (t = close :: rest ∧ as = [] ∨
        ∃ u f a r as', t = ',' :: u ∧ one f u = .ok (a, r) ∧ more f r = .ok (as', rest) ∧
          as = a :: as')

section Listed
variable {α : Type} {close : Char} {one : Nat → List Char → Except Fault (α × List Char)}
  {more : Nat → List Char → Except Fault (List α × List Char)} {item : List Char → α → Prop}
  {a : α} {as : List α}

/-- An item and what is read behind it are a list of items, if each item that is read is one. -/
theorem Listed.spells (hl : Listed close one more)
    (hitem : ∀ f u a r, one f u = .ok (a, r) → ∃ w t, Spaces w ∧ u = w ++ t ++ r ∧ item t a)
    (hw : Spaces w) (ht : item t a) (h : more fuel s = .ok (as, rest)) :
    ∃ u, w ++ t ++ s = u ++ close :: rest ∧ Separated item u (a :: as) := by
  induction as generalizing fuel s w t a with
  | nil =>
    obtain ⟨w', t', hw', rfl, ⟨rfl, _⟩ | ⟨_, _, _, _, _, _, _, _, he⟩⟩ := hl.cases h
    · exact ⟨w ++ t ++ w', (List.append_assoc ..).symm, .one hw ht hw'⟩
    · cases he
  | cons b bs ih =>
    obtain ⟨w', t', hw', rfl, ⟨_, he⟩ | ⟨u, f, b', r, bs', rfl, hone, hmore, he⟩⟩ := hl.cases h
    · cases he
    · cases he
      obtain ⟨w₂, t₂, hw₂, rfl, ht₂⟩ := hitem f u b r hone
      obtain ⟨u, hu, hsep⟩ := ih hw₂ ht₂ hmore
      refine ⟨w ++ t ++ w' ++ ',' :: u, ?_, .cons hw ht hw' hsep⟩
      rw [hu]
      simp only [List.append_assoc, List.cons_append]

/-- A list of items is read, up to what closes it, if each item is. -/
theorem Listed.reads (hl : Listed close one more)
    (hitem : ∀ t a, item t a → ∀ f w rest, Spaces w → (w ++ t).length < f → EndsNumber rest →
      one f (w ++ t ++ rest) = .ok (a, rest))
    (h : Separated item u as) (hf : u.length < fuel) (rest : List Char) :
    ∃ a as' r, as = a :: as' ∧ one fuel (u ++ close :: rest) = .ok (a, r) ∧
      more fuel r = .ok (as', rest) := by
  induction h generalizing fuel with
  | @one w t w' a hw ht hw' =>
    obtain ⟨fuel, rfl⟩ := Nat.exists_eq_add_one_of_ne_zero (Nat.ne_zero_of_lt hf)
    have hend := endsNumber_spaces hw' (hl.endsNumber rest)
    have hlen : (w ++ t).length < fuel + 1 := by
      rw [List.length_append] at hf
      omega
    refine ⟨a, [], w' ++ close :: rest, rfl, ?_, hl.close_eq fuel rest hw'⟩
    rw [List.append_assoc (w ++ t)]
    exact hitem t a ht _ w _ hw hlen hend
  | @cons w t w' u a as hw ht hw' _ ih =>
    obtain ⟨fuel, rfl⟩ := Nat.exists_eq_add_one_of_ne_zero (Nat.ne_zero_of_lt hf)
    have hlen : (w ++ t).length < fuel + 1 ∧ u.length < fuel := by
      simp only [List.length_append, List.length_cons] at hf ⊢
      omega
    obtain ⟨b, bs, r, rfl, hone, hmore⟩ := ih hlen.2
    have hend := endsNumber_spaces hw' (endsNumber_comma (u ++ close :: rest))
    refine ⟨a, b :: bs, w' ++ ',' :: (u ++ close :: rest), rfl, ?_,
      hl.comma_eq hw' hone hmore⟩
    rw [List.append_assoc, List.append_assoc]
    exact hitem t a ht _ w _ hw hlen.1 hend

/-- What stands behind an opening bracket is read: items and what closes them. -/
def Opens (close : Char) (one : Nat → List Char → Except Fault (α × List Char))
    (more : Nat → List Char → Except Fault (List α × List Char)) (fuel : Nat) (s : List Char)
    (as : List α) (rest : List Char) : Prop :=
  (∃ w, Spaces w ∧ s = w ++ close :: rest ∧ as = []) ∨
    ∃ a as' r, as = a :: as' ∧ one fuel s = .ok (a, r) ∧ more fuel r = .ok (as', rest)

theorem Listed.items (hl : Listed close one more)
    (hitem : ∀ f u a r, one f u = .ok (a, r) → ∃ w t, Spaces w ∧ u = w ++ t ++ r ∧ item t a)
    (h : Opens close one more fuel s as rest) :
    ∃ t, s = t ++ close :: rest ∧ Items item t as := by
  rcases h with ⟨w, hw, rfl, rfl⟩ | ⟨a, as', r, rfl, hone, hmore⟩
  · exact ⟨w, rfl, .none hw⟩
  · obtain ⟨w, t, hw, rfl, ht⟩ := hitem fuel s a r hone
    obtain ⟨u, hu, hsep⟩ := hl.spells hitem hw ht hmore
    exact ⟨u, hu, .some hsep⟩

theorem Listed.opens (hl : Listed close one more)
    (hitem : ∀ t a, item t a → ∀ f w rest, Spaces w → (w ++ t).length < f → EndsNumber rest →
      one f (w ++ t ++ rest) = .ok (a, rest))
    (h : Items item t as) (hf : t.length < fuel) (rest : List Char) :
    Opens close one more fuel (t ++ close :: rest) as rest := by
  cases h with
  | none hw => exact .inl ⟨t, hw, rfl, rfl⟩
  | some hsep => exact .inr (hl.reads hitem hsep hf rest)

end Listed

theorem value_skipSpace_ok_iff :
    value fuel depth (skipSpace s) = .ok (v, rest) ↔ value fuel depth s = .ok (v, rest) := by
  cases fuel with
  | zero => exact iff_of_false nofun nofun
  | succ fuel =>
    obtain ⟨w, hw, hs⟩ := exists_spaces s
    have h : skipSpace (skipSpace s) = skipSpace s := by
      conv_rhs => rw [hs, skipSpace_append hw]
    simp only [value, h]

/-- A value starts with something, and not with what closes an array. -/
theorem value_starts (h : value fuel depth s = .ok (v, rest)) :
    skipSpace s ≠ [] ∧ ∀ t, skipSpace s ≠ ']' :: t := by
  cases fuel with
  | zero =>
    rw [value] at h
    cases h
  | succ fuel =>
    constructor
    · intro hs
      simp only [value, hs] at h
      cases h
    · intro t hs
      simp only [value, hs] at h
      cases h

theorem listed_items (depth : Nat) :
    Listed ']' (fun fuel => value fuel depth) (fun fuel => moreItems fuel depth) where
  endsNumber := endsNumber_bracket
  close_eq := by
    intro w fuel rest hw
    have hs : skipSpace (w ++ ']' :: rest) = ']' :: rest := by
      rw [skipSpace_append hw, skipSpace_cons (by decide)]
    simp only [moreItems, hs]
  comma_eq := by
    intro w u r rest fuel v vs hw hv hvs
    have hs : skipSpace (w ++ ',' :: u) = ',' :: u := by
      rw [skipSpace_append hw, skipSpace_cons (by decide)]
    obtain ⟨hne, hclose⟩ := value_starts hv
    rw [← value_skipSpace_ok_iff] at hv
    simp only [moreItems, hs]
    refine bind_eq_ok_iff.mpr ⟨_, hv, ?_⟩
    exact bind_eq_ok_iff.mpr ⟨_, hvs, rfl⟩
  cases := by
    intro fuel s rest vs h
    cases fuel with
    | zero =>
      rw [moreItems] at h
      cases h
    | succ fuel =>
      obtain ⟨w, hw, hs⟩ := exists_spaces s
      refine ⟨w, skipSpace s, hw, hs, ?_⟩
      unfold moreItems at h
      split at h
      · cases h
      · rename_i hr
        cases h
        exact .inl ⟨hr, rfl⟩
      · rename_i r hr
        split at h
        · cases h
        · cases h
        · obtain ⟨⟨a, t⟩, ha, h⟩ := bind_eq_ok_iff.mp h
          obtain ⟨⟨as, t'⟩, has, h⟩ := bind_eq_ok_iff.mp h
          cases h
          exact .inr ⟨r, fuel, a, t, as, hr, value_skipSpace_ok_iff.mp ha, has, rfl⟩
      · cases h

/-- A member with white space in front of it. -/
def member (depth fuel : Nat) (s : List Char) : Except Fault ((String × Json) × List Char) := do
  let (name, t) ← memberName (skipSpace s)
  let (v, t) ← value fuel depth t
  return ((name, v), t)

theorem member_eq_ok_iff {m : String × Json} : member depth fuel s = .ok (m, rest) ↔
    ∃ t, memberName (skipSpace s) = .ok (m.1, t) ∧ value fuel depth t = .ok (m.2, rest) := by
  constructor
  · intro h
    obtain ⟨⟨name, t⟩, hname, h⟩ := bind_eq_ok_iff.mp h
    obtain ⟨⟨v, t'⟩, hv, h⟩ := bind_eq_ok_iff.mp h
    cases h
    exact ⟨t, hname, hv⟩
  · rintro ⟨t, hname, hv⟩
    refine bind_eq_ok_iff.mpr ⟨_, hname, ?_⟩
    exact bind_eq_ok_iff.mpr ⟨_, hv, rfl⟩

/-- A name starts with a quote, so neither what closes an object nor the end is mistaken for it. -/
theorem memberName_starts {name : String} (h : memberName s = .ok (name, rest)) :
    ∃ t, s = '\x22' :: t := by
  obtain ⟨k, w, hk, _, rfl⟩ := memberName_eq_ok_iff.mp h
  obtain ⟨t, rfl⟩ := hk.head
  exact ⟨t ++ w ++ ':' :: rest, by simp⟩

theorem endsNumber_brace (s : List Char) : EndsNumber ('\x7d' :: s) := by
  intro c hc
  cases hc
  decide

theorem listed_members (depth : Nat) :
    Listed '\x7d' (member depth) (fun fuel => moreMembers fuel depth) where
  endsNumber := endsNumber_brace
  close_eq := by
    intro w fuel rest hw
    have hs : skipSpace (w ++ '\x7d' :: rest) = '\x7d' :: rest := by
      rw [skipSpace_append hw, skipSpace_cons (by decide)]
    simp only [moreMembers, hs]
  comma_eq := by
    intro w u r rest fuel m ms hw hm hms
    have hs : skipSpace (w ++ ',' :: u) = ',' :: u := by
      rw [skipSpace_append hw, skipSpace_cons (by decide)]
    obtain ⟨t, hname, hv⟩ := member_eq_ok_iff.mp hm
    obtain ⟨q, hq⟩ := memberName_starts hname
    rw [hq] at hname
    simp only [moreMembers, hs, hq]
    refine bind_eq_ok_iff.mpr ⟨_, hname, ?_⟩
    refine bind_eq_ok_iff.mpr ⟨_, hv, ?_⟩
    exact bind_eq_ok_iff.mpr ⟨_, hms, rfl⟩
  cases := by
    intro fuel s rest ms h
    cases fuel with
    | zero =>
      rw [moreMembers] at h
      cases h
    | succ fuel =>
      obtain ⟨w, hw, hs⟩ := exists_spaces s
      refine ⟨w, skipSpace s, hw, hs, ?_⟩
      unfold moreMembers at h
      split at h
      · cases h
      · rename_i hr
        cases h
        exact .inl ⟨hr, rfl⟩
      · rename_i r hr
        split at h
        · cases h
        · cases h
        · obtain ⟨⟨name, t⟩, hname, h⟩ := bind_eq_ok_iff.mp h
          obtain ⟨⟨a, t'⟩, ha, h⟩ := bind_eq_ok_iff.mp h
          obtain ⟨⟨as, t''⟩, has, h⟩ := bind_eq_ok_iff.mp h
          cases h
          exact .inr ⟨r, fuel, (name, a), t', as, hr, member_eq_ok_iff.mpr ⟨t, hname, ha⟩, has,
            rfl⟩
      · cases h

/-! ## What is read is spelled -/

theorem expect_spells {word : List Char} (h : expect word s = .ok rest) : s = word ++ rest := by
  induction word generalizing s with
  | nil =>
    cases h
    rfl
  | cons c word ih =>
    cases s with
    | nil => cases h
    | cons c' s =>
      rw [expect] at h
      split_ifs at h with hc
      rw [hc, ih h, List.cons_append]

/-- A value without parts is one of the grammar. -/
theorem scalar_spells (hs : ∀ c ∈ s.head?, isSpace c = false ∧ c ≠ '[' ∧ c ≠ '\x7b')
    (h : value (fuel + 1) depth s = .ok (v, rest)) : ∃ t, s = t ++ rest ∧ Scalar t v := by
  have hskip : skipSpace s = s := by
    cases s with
    | nil => rfl
    | cons c s => exact skipSpace_cons (hs c rfl).1 s
  unfold value at h
  rw [hskip] at h
  split at h
  · cases h
  · obtain ⟨r, hr, h⟩ := map_eq_ok_iff.mp h
    cases h
    exact ⟨_, congrArg ('n' :: ·) (expect_spells hr), .null⟩
  · obtain ⟨r, hr, h⟩ := map_eq_ok_iff.mp h
    cases h
    exact ⟨_, congrArg ('t' :: ·) (expect_spells hr), .true⟩
  · obtain ⟨r, hr, h⟩ := map_eq_ok_iff.mp h
    cases h
    exact ⟨_, congrArg ('f' :: ·) (expect_spells hr), .false⟩
  · obtain ⟨t, ht, hm⟩ := number_spells h
    exact ⟨_, congrArg ('-' :: ·) ht, .negative hm⟩
  · obtain ⟨⟨name, r⟩, hr, h⟩ := map_eq_ok_iff.mp h
    cases h
    obtain ⟨k, hk, hs⟩ := stringTail_eq_ok_iff.mp hr
    exact ⟨k, hs, .string hk⟩
  · exact ((hs '[' rfl).2.1 rfl).elim
  · exact ((hs '\x7b' rfl).2.2 rfl).elim
  · split_ifs at h
    obtain ⟨t, ht, hm⟩ := number_spells h
    exact ⟨t, ht, .unsigned hm⟩

theorem value_array_ok_iff : value (fuel + 1) (depth + 1) ('[' :: s) = .ok (v, rest) ↔
    ∃ vs, v = .array vs ∧
      Opens ']' (fun f => value f depth) (fun f => moreItems f depth) fuel s vs rest := by
  have hs : skipSpace ('[' :: s) = '[' :: s := skipSpace_cons (by decide) s
  constructor
  · intro h
    simp only [value, hs] at h
    split at h
    · cases h
    · rename_i t ht
      cases h
      obtain ⟨w, hw, hs'⟩ := exists_spaces s
      rw [ht] at hs'
      exact ⟨[], rfl, .inl ⟨w, hw, hs', rfl⟩⟩
    · obtain ⟨⟨a, t⟩, ha, h⟩ := bind_eq_ok_iff.mp h
      obtain ⟨⟨as, t'⟩, has, h⟩ := bind_eq_ok_iff.mp h
      cases h
      exact ⟨a :: as, rfl, .inr ⟨a, as, t, rfl, value_skipSpace_ok_iff.mp ha, has⟩⟩
  · rintro ⟨vs, rfl, ⟨w, hw, rfl, rfl⟩ | ⟨a, as, r, rfl, ha, has⟩⟩
    · have hclose : skipSpace (w ++ ']' :: rest) = ']' :: rest := by
        rw [skipSpace_append hw, skipSpace_cons (by decide)]
      simp only [value, hs, hclose]
    · obtain ⟨hne, hclose⟩ := value_starts ha
      rw [← value_skipSpace_ok_iff] at ha
      simp only [value, hs]
      refine bind_eq_ok_iff.mpr ⟨_, ha, ?_⟩
      exact bind_eq_ok_iff.mpr ⟨_, has, rfl⟩

theorem value_object_ok_iff : value (fuel + 1) (depth + 1) ('\x7b' :: s) = .ok (v, rest) ↔
    ∃ ms, v = ofMembers ms ∧
      Opens '\x7d' (member depth) (fun f => moreMembers f depth) fuel s ms rest := by
  have hs : skipSpace ('\x7b' :: s) = '\x7b' :: s := skipSpace_cons (by decide) s
  constructor
  · intro h
    simp only [value, hs] at h
    split at h
    · cases h
    · rename_i t ht
      cases h
      obtain ⟨w, hw, hs'⟩ := exists_spaces s
      rw [ht] at hs'
      exact ⟨[], rfl, .inl ⟨w, hw, hs', rfl⟩⟩
    · obtain ⟨⟨name, t⟩, hname, h⟩ := bind_eq_ok_iff.mp h
      obtain ⟨⟨a, t'⟩, ha, h⟩ := bind_eq_ok_iff.mp h
      obtain ⟨⟨as, t''⟩, has, h⟩ := bind_eq_ok_iff.mp h
      cases h
      exact ⟨(name, a) :: as, rfl,
        .inr ⟨(name, a), as, t', rfl, member_eq_ok_iff.mpr ⟨t, hname, ha⟩, has⟩⟩
  · rintro ⟨ms, rfl, ⟨w, hw, rfl, rfl⟩ | ⟨m, ms, r, rfl, hm, hms⟩⟩
    · have hclose : skipSpace (w ++ '\x7d' :: rest) = '\x7d' :: rest := by
        rw [skipSpace_append hw, skipSpace_cons (by decide)]
      simp only [value, hs, hclose]
      rfl
    · obtain ⟨t, hname, hv⟩ := member_eq_ok_iff.mp hm
      obtain ⟨q, hq⟩ := memberName_starts hname
      rw [hq] at hname
      simp only [value, hs, hq]
      refine bind_eq_ok_iff.mpr ⟨_, hname, ?_⟩
      refine bind_eq_ok_iff.mpr ⟨_, hv, ?_⟩
      exact bind_eq_ok_iff.mpr ⟨_, hms, rfl⟩

/-- Nothing may be opened at depth zero. -/
theorem value_too_deep {c : Char} (hc : c = '[' ∨ c = '\x7b') :
    value fuel 0 (c :: s) ≠ .ok (v, rest) := by
  cases fuel with
  | zero => exact nofun
  | succ fuel =>
    rcases hc with rfl | rfl <;>
      simp [value, skipSpace_cons (c := '[') (by decide), skipSpace_cons (c := '\x7b') (by decide)]

theorem Scalar.nested (h : Scalar t v) (depth : Nat) : Nested depth t v := by
  cases depth with
  | zero => exact h
  | succ depth => exact .inl h

/-- What is read as a member is one of the grammar, if what is read as a value is. -/
theorem member_spells {m : String × Json} {part : List Char → Json → Prop}
    (hpart : ∀ f u v r, value f depth u = .ok (v, r) →
      ∃ w t, Spaces w ∧ u = w ++ t ++ r ∧ part t v)
    (h : member depth fuel s = .ok (m, rest)) :
    ∃ w t, Spaces w ∧ s = w ++ t ++ rest ∧ Member part t m := by
  obtain ⟨t, hname, hv⟩ := member_eq_ok_iff.mp h
  obtain ⟨k, w', hk, hw', hs'⟩ := memberName_eq_ok_iff.mp hname
  obtain ⟨w, hw, hs⟩ := exists_spaces s
  obtain ⟨w₂, t₂, hw₂, rfl, ht₂⟩ := hpart fuel t m.2 rest hv
  refine ⟨w, k ++ w' ++ ':' :: (w₂ ++ t₂), hw, ?_, .intro hk hw' hw₂ ht₂⟩
  rw [hs, hs']
  simp only [List.append_assoc, List.cons_append]

/-- A value has no parts, or its parts are read behind an opening bracket, one level deeper. -/
theorem value_cases (h : value fuel depth s = .ok (v, rest)) :
    ∃ w t, Spaces w ∧ s = w ++ t ∧
      ((∃ u, t = u ++ rest ∧ Scalar u v) ∨
        ∃ f d r, depth = d + 1 ∧
          ((∃ vs, t = '[' :: r ∧ v = .array vs ∧
              Opens ']' (fun f => value f d) (fun f => moreItems f d) f r vs rest) ∨
            ∃ ms, t = '\x7b' :: r ∧ v = ofMembers ms ∧
              Opens '\x7d' (member d) (fun f => moreMembers f d) f r ms rest)) := by
  obtain ⟨w, hw, hs⟩ := exists_spaces s
  refine ⟨w, skipSpace s, hw, hs, ?_⟩
  have hhead := List.head?_dropWhile_not isSpace s
  rw [← skipSpace] at hhead
  rw [← value_skipSpace_ok_iff] at h
  generalize skipSpace s = t at h hhead
  cases fuel with
  | zero =>
    rw [value] at h
    cases h
  | succ fuel =>
    by_cases harray : t.head? = some '['
    · obtain ⟨r, rfl⟩ := List.head?_eq_some_iff.mp harray
      cases depth with
      | zero => exact (value_too_deep (.inl rfl) h).elim
      | succ depth =>
        obtain ⟨vs, hv, ho⟩ := value_array_ok_iff.mp h
        exact .inr ⟨fuel, depth, r, rfl, .inl ⟨vs, rfl, hv, ho⟩⟩
    · by_cases hobject : t.head? = some '\x7b'
      · obtain ⟨r, rfl⟩ := List.head?_eq_some_iff.mp hobject
        cases depth with
        | zero => exact (value_too_deep (.inr rfl) h).elim
        | succ depth =>
          obtain ⟨ms, hv, ho⟩ := value_object_ok_iff.mp h
          exact .inr ⟨fuel, depth, r, rfl, .inr ⟨ms, rfl, hv, ho⟩⟩
      · refine .inl (scalar_spells ?_ h)
        intro c hc
        rw [Option.mem_def] at hc
        rw [hc] at hhead harray hobject
        refine ⟨by simpa using hhead, ?_, ?_⟩
        · rintro rfl
          exact harray rfl
        · rintro rfl
          exact hobject rfl

/-- What is read as a value is one of the grammar, nested no deeper than was allowed. -/
theorem value_spells (h : value fuel depth s = .ok (v, rest)) :
    ∃ w t, Spaces w ∧ s = w ++ t ++ rest ∧ Nested depth t v := by
  induction depth generalizing fuel s v rest with
  | zero =>
    obtain ⟨w, t, hw, rfl, ⟨u, rfl, hu⟩ | ⟨_, _, _, he, _⟩⟩ := value_cases h
    · exact ⟨w, u, hw, (List.append_assoc ..).symm, hu⟩
    · cases he
  | succ depth ih =>
    have hitem (f : Nat) (u : List Char) (v : Json) (r : List Char)
        (hv : value f depth u = .ok (v, r)) :
        ∃ w t, Spaces w ∧ u = w ++ t ++ r ∧ Nested depth t v := ih hv
    obtain ⟨w, t, hw, rfl, ⟨u, rfl, hu⟩ | ⟨f, d, r, he, hparts⟩⟩ := value_cases h
    · exact ⟨w, u, hw, (List.append_assoc ..).symm, hu.nested _⟩
    · cases he
      rcases hparts with ⟨vs, rfl, rfl, ho⟩ | ⟨ms, rfl, rfl, ho⟩
      · obtain ⟨t, rfl, ht⟩ := (listed_items depth).items hitem ho
        exact ⟨w, '[' :: (t ++ [']']), hw, by simp, .inr (.array ht)⟩
      · have hmember (f : Nat) (u : List Char) (m : String × Json) (r : List Char)
            (hm : member depth f u = .ok (m, r)) :
            ∃ w t, Spaces w ∧ u = w ++ t ++ r ∧ Member (Nested depth) t m :=
          member_spells hitem hm
        obtain ⟨t, rfl, ht⟩ := (listed_members depth).items hmember ho
        exact ⟨w, '\x7b' :: (t ++ ['\x7d']), hw, by simp, .inr (.object ht)⟩

/-! ## What is spelled is read -/

/-- The text is read as the value, up to whatever ends a number behind it; at most `depth` arrays
and objects are open inside each other in it. -/
def ReadsAs (depth : Nat) (t : List Char) (v : Json) : Prop :=
  ∀ fuel d rest, t.length < fuel → depth ≤ d → EndsNumber rest →
    value fuel d (t ++ rest) = .ok (v, rest)

theorem expect_append (word s : List Char) : expect word (word ++ s) = .ok s := by
  induction word with
  | nil => cases s <;> rfl
  | cons c word ih => rw [List.cons_append, expect, if_pos rfl, ih]

/-- White space in front of a value does not matter. -/
theorem ReadsAs.spaces (h : ReadsAs depth t v) (hw : Spaces w) : ReadsAs depth (w ++ t) v := by
  intro fuel d rest hf hd hr
  rw [List.length_append] at hf
  rw [← value_skipSpace_ok_iff, List.append_assoc, skipSpace_append hw, value_skipSpace_ok_iff]
  exact h _ d rest (by omega) hd hr

theorem Magnitude.head {negative : Bool} (h : Magnitude negative t v) :
    ∃ c r, t = c :: r ∧ c.isDigit = true := by
  have hhead {ds s : List Char} {n : Nat} (hd : Numeral ds n) :
      ∃ c r, ds ++ s = c :: r ∧ c.isDigit = true := by
    obtain ⟨c, r, rfl⟩ := List.exists_cons_of_ne_nil hd.ne_nil
    exact ⟨c, r ++ s, rfl, hd.digits c List.mem_cons_self⟩
  cases h with
  | integer hd =>
    have := hhead hd (s := [])
    rwa [List.append_nil] at this
  | double hd =>
    rw [List.append_assoc]
    exact hhead hd

/-- A digit is none of the characters with a meaning of their own. -/
theorem value_digit (fuel depth : Nat) {c : Char} (hc : c.isDigit = true) (r : List Char) :
    value (fuel + 1) depth (c :: r) = number false (c :: r) := by
  have ne {d : Char} {t : List Char} (h : c :: r = d :: t) (hd : d.isDigit = false) : False := by
    rw [(List.cons.inj h).1, hd] at hc
    cases hc
  simp only [value, skipSpace_cons (isSpace_of_isDigit hc) r]
  split
  case h_1 h => cases h
  case h_9 h =>
    rw [← h, ← (List.cons.inj h).1, digit?_isSome, hc, if_pos rfl]
  all_goals
    rename_i h
    exact (ne h (by decide)).elim

theorem readsAs_scalar (h : Scalar t v) (depth : Nat) : ReadsAs depth t v := by
  intro fuel d rest hf _ hr
  obtain ⟨fuel, rfl⟩ := Nat.exists_eq_add_one_of_ne_zero (Nat.ne_zero_of_lt hf)
  have hskip {c : Char} (hc : isSpace c = false) (s : List Char) :
      skipSpace (c :: s ++ rest) = c :: (s ++ rest) := skipSpace_cons hc _
  cases h with
  | null =>
    rw [show "null".toList = 'n' :: "ull".toList from rfl]
    simp only [value, hskip (c := 'n') (by decide)]
    exact map_eq_ok_iff.mpr ⟨_, expect_append _ rest, rfl⟩
  | true =>
    rw [show "true".toList = 't' :: "rue".toList from rfl]
    simp only [value, hskip (c := 't') (by decide)]
    exact map_eq_ok_iff.mpr ⟨_, expect_append _ rest, rfl⟩
  | false =>
    rw [show "false".toList = 'f' :: "alse".toList from rfl]
    simp only [value, hskip (c := 'f') (by decide)]
    exact map_eq_ok_iff.mpr ⟨_, expect_append _ rest, rfl⟩
  | unsigned hm =>
    obtain ⟨c, r, rfl, hc⟩ := hm.head
    rw [List.cons_append, value_digit fuel d hc]
    exact hm.number_eq hr
  | negative hm =>
    simp only [value, hskip (c := '-') (by decide)]
    exact hm.number_eq hr
  | string hk =>
    obtain ⟨k, rfl⟩ := hk.head
    simp only [value, hskip (c := '\x22') (by decide)]
    exact map_eq_ok_iff.mpr ⟨_, stringTail_eq_ok_iff.mpr ⟨_, hk, rfl⟩, rfl⟩

theorem member_reads {part : List Char → Json → Prop} (hpart : ∀ t v, part t v → ReadsAs depth t v)
    {m : String × Json} (h : Member part t m) (hw : Spaces w) (hf : (w ++ t).length < fuel)
    (hd : depth ≤ d) (hr : EndsNumber rest) : member d fuel (w ++ t ++ rest) = .ok (m, rest) := by
  cases h with
  | @intro k w₁ w₂ t n v hk hw₁ hw₂ ht =>
    obtain ⟨q, hq⟩ := hk.head
    have hv := (hpart t v ht).spaces hw₂
    have hlen : (w₂ ++ t).length < fuel := by
      simp only [List.length_append, List.length_cons] at hf ⊢
      omega
    have hskip : skipSpace (w ++ (k ++ w₁ ++ ':' :: (w₂ ++ t)) ++ rest) =
        k ++ w₁ ++ ':' :: (w₂ ++ t ++ rest) := by
      rw [List.append_assoc w, skipSpace_append hw, hq]
      simp only [List.append_assoc, List.cons_append]
      exact skipSpace_cons (by decide) _
    refine member_eq_ok_iff.mpr ⟨w₂ ++ t ++ rest, ?_, hv fuel d rest hlen hd hr⟩
    exact memberName_eq_ok_iff.mpr ⟨k, w₁, hk, hw₁, hskip⟩

/-- An array or an object is read, if its parts are. -/
theorem Bracketed.readsAs {part : List Char → Json → Prop}
    (hpart : ∀ t v, part t v → ReadsAs depth t v) (h : Bracketed part t v) :
    ReadsAs (depth + 1) t v := by
  intro fuel d rest hf hd _
  obtain ⟨fuel, rfl⟩ := Nat.exists_eq_add_one_of_ne_zero (Nat.ne_zero_of_lt hf)
  obtain ⟨d, rfl⟩ := Nat.exists_eq_add_one_of_ne_zero (Nat.ne_zero_of_lt hd)
  have hd := Nat.le_of_succ_le_succ hd
  cases h with
  | @array t vs ht =>
    have hlt : t.length < fuel := by
      simp only [List.length_append, List.length_cons] at hf
      omega
    have ho := (listed_items d).opens (fun t v ht f w rest hw hf hr =>
      (hpart t v ht).spaces hw f d rest hf hd hr) ht hlt rest
    rw [List.cons_append, List.append_assoc]
    exact value_array_ok_iff.mpr ⟨vs, rfl, ho⟩
  | @object t ms ht =>
    have hlt : t.length < fuel := by
      simp only [List.length_append, List.length_cons] at hf
      omega
    have ho := (listed_members d).opens (fun t m ht f w rest hw hf hr =>
      member_reads hpart ht hw hf hd hr) ht hlt rest
    rw [List.cons_append, List.append_assoc]
    exact value_object_ok_iff.mpr ⟨ms, rfl, ho⟩

theorem Nested.readsAs (h : Nested depth t v) : ReadsAs depth t v := by
  induction depth generalizing t v with
  | zero => exact readsAs_scalar h 0
  | succ depth ih =>
    rcases h with h | h
    · exact readsAs_scalar h (depth + 1)
    · exact h.readsAs fun _ _ => ih

theorem ReadsAs.read (h : ReadsAs depth t v) (hd : depth ≤ depthLimit) {w' : List Char}
    (hw : Spaces w) (hw' : Spaces w') : read (w ++ t ++ w') = .ok v := by
  have hlen : (w ++ t).length < (w ++ t ++ w').length + 1 :=
    Nat.lt_succ_of_le (List.prefix_append (w ++ t) w').length_le
  have hend : EndsNumber w' := by
    rw [← List.append_nil w']
    exact endsNumber_spaces hw' nofun
  refine bind_eq_ok_iff.mpr ⟨_, h.spaces hw _ depthLimit w' hlen hd hend, ?_⟩
  have hskip : skipSpace w' = [] := by
    rw [← List.append_nil w', skipSpace_append hw']
    rfl
  simp only [hskip]
  rfl

theorem Nested.document (h : Nested depthLimit t v) : Document t v := by
  have hd := Document.intro spaces_nil h spaces_nil
  rwa [List.nil_append, List.append_nil] at hd

/-- A text is read as a value exactly if it spells that value. -/
theorem read_eq_ok_iff : read t = .ok v ↔ Document t v := by
  constructor
  · intro h
    obtain ⟨⟨a, r⟩, ha, h⟩ := bind_eq_ok_iff.mp h
    dsimp only at h
    split at h
    · rename_i hr
      cases h
      obtain ⟨w, u, hw, rfl, hu⟩ := value_spells ha
      exact .intro hw hu (skipSpace_eq_nil hr)
    · cases h
  · rintro ⟨hw, ht, hw'⟩
    exact ht.readsAs.read Nat.le.refl hw hw'

theorem Document.unique {v' : Json} (h : Document t v) (h' : Document t v') : v = v' :=
  Except.ok.inj ((read_eq_ok_iff.mpr h).symm.trans (read_eq_ok_iff.mpr h'))

/-- White space behind a document does not matter. -/
theorem Document.append_spaces (h : Document t v) (hw : Spaces w) : Document (t ++ w) v := by
  obtain ⟨hw₁, ht, hw₂⟩ := h
  rw [List.append_assoc]
  exact .intro hw₁ ht (List.forall_mem_append.mpr ⟨hw₂, hw⟩)

end Keyfile.Json
