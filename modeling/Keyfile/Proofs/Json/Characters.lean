import Keyfile.Proofs.Json.Grammar
import Keyfile.Proofs.Result

/-!
# Strings that are read

The reader takes a string exactly if the grammar does, escape by escape, and answers with the same
characters. The first quote that is not escaped ends it, so it does not matter what comes behind.
-/
namespace Keyfile.Json

variable {fuel n : Nat} {c : Char} {s t r w k cs rest : List Char} {name : String}

/-! ## Escapes -/

theorem length_le_encode (s : List Char) : s.length ≤ (Utf8.encode s).length := by
  induction s with
  | nil => exact Nat.le_refl 0
  | cons c s ih =>
    have hc : 1 ≤ (Utf8.encodeChar c).length := by
      unfold Utf8.encodeChar
      dsimp only
      split_ifs <;> simp
    rw [Utf8.encode_cons, List.length_append, List.length_cons]
    omega

theorem hexNumber_eq_ok_iff : hexNumber s = .ok (n, r) ↔ ∃ q, Quad q n ∧ s = q ++ r := by
  constructor
  · intro h
    unfold hexNumber at h
    split_ifs at h
    split at h
    · split at h
      · rename_i ha hb hc hd
        cases h
        exact ⟨_, .intro ha hb hc hd, rfl⟩
      · cases h
    · cases h
  · rintro ⟨q, hq, rfl⟩
    cases hq with
    | @intro a b c d i j k l ha hb hc hd =>
      have hlen : ¬ (Utf8.encode [a, b, c, d]).length < 4 :=
        Nat.not_lt.mpr (length_le_encode [a, b, c, d])
      unfold hexNumber
      simp only [List.cons_append, List.nil_append, List.take_succ_cons, List.take_zero, hlen,
        if_false, ha, hb, hc, hd]

theorem hexEscape_spells (h : hexEscape s = .ok (c, r)) :
    ∃ t, CharText ('\\' :: 'u' :: t) c ∧ s = t ++ r := by
  obtain ⟨⟨n, s'⟩, hn, hbind⟩ := bind_eq_ok_iff.mp h
  obtain ⟨q, hq, hs⟩ := hexNumber_eq_ok_iff.mp hn
  rw [hs]
  dsimp only at hbind
  by_cases hlow : 0xDC00 ≤ n ∧ n ≤ 0xDFFF
  · rw [if_pos hlow] at hbind
    cases hbind
  rw [if_neg hlow] at hbind
  by_cases hunit : n < 0xD800 ∨ 0xDFFF < n
  · rw [if_pos hunit] at hbind
    cases hbind
    exact ⟨q, .unit hq hunit, rfl⟩
  · rw [if_neg hunit] at hbind
    split at hbind
    · cases hbind
    · split at hbind
      · cases hbind
      · obtain ⟨⟨m, t⟩, hm, hpair⟩ := bind_eq_ok_iff.mp hbind
        obtain ⟨q', hq', rfl⟩ := hexNumber_eq_ok_iff.mp hm
        dsimp only at hpair
        by_cases hhigh : m < 0xDC00 ∨ 0xDFFF < m
        · rw [if_pos hhigh] at hpair
          cases hpair
        · rw [if_neg hhigh] at hpair
          obtain ⟨hc, hr⟩ := Prod.mk.inj (Except.ok.inj hpair)
          rw [← hc, ← hr]
          refine ⟨q ++ '\\' :: 'u' :: q', .pair hq ?_ ?_ hq' ?_ ?_, by simp⟩ <;> omega
      · cases hbind
    · cases hbind

theorem hexEscape_unit {q : List Char} (hq : Quad q n) (hn : n < 0xD800 ∨ 0xDFFF < n)
    (s : List Char) : hexEscape (q ++ s) = .ok (Char.ofNat n, s) := by
  refine bind_eq_ok_iff.mpr ⟨_, hexNumber_eq_ok_iff.mpr ⟨q, hq, rfl⟩, ?_⟩
  dsimp only
  rw [if_neg (by omega), if_pos hn]
  rfl

theorem hexEscape_pair {q q' : List Char} {m : Nat} (hq : Quad q n) (hlow : 0xD800 ≤ n)
    (hhigh : n < 0xDC00) (hq' : Quad q' m) (hlow' : 0xDC00 ≤ m) (hhigh' : m ≤ 0xDFFF)
    (s : List Char) :
    hexEscape (q ++ '\\' :: 'u' :: (q' ++ s)) =
      .ok (Char.ofNat (0x10000 + (n - 0xD800) * 0x400 + (m - 0xDC00)), s) := by
  refine bind_eq_ok_iff.mpr ⟨_, hexNumber_eq_ok_iff.mpr ⟨q, hq, rfl⟩, ?_⟩
  dsimp only
  rw [if_neg (by omega), if_neg (by omega)]
  refine bind_eq_ok_iff.mpr ⟨_, hexNumber_eq_ok_iff.mpr ⟨q', hq', rfl⟩, ?_⟩
  dsimp only
  rw [if_neg (by omega)]
  rfl

theorem escape_spells (h : escape s = .ok (c, r)) :
    ∃ t, CharText ('\\' :: t) c ∧ s = t ++ r := by
  unfold escape at h
  split at h
  case h_1 => cases h
  case h_10 =>
    obtain ⟨t, ht, rfl⟩ := hexEscape_spells h
    exact ⟨'u' :: t, ht, rfl⟩
  case h_11 => cases h
  all_goals
    cases h
    exact ⟨[_], .short (by decide), rfl⟩

/-- An escape stands for its character, whatever comes behind it. -/
theorem escape_eq (h : CharText ('\\' :: t) c) (s : List Char) : escape (t ++ s) = .ok (c, s) := by
  cases h with
  | plain _ h => exact (h rfl).elim
  | short h =>
    simp only [shortEscapes, List.mem_cons, Prod.mk.injEq, List.not_mem_nil, or_false] at h
    rcases h with ⟨rfl, rfl⟩ | ⟨rfl, rfl⟩ | ⟨rfl, rfl⟩ | ⟨rfl, rfl⟩ | ⟨rfl, rfl⟩ | ⟨rfl, rfl⟩ |
      ⟨rfl, rfl⟩ | ⟨rfl, rfl⟩ <;> rfl
  | unit hq hn => exact hexEscape_unit hq hn s
  | pair hq hlow hhigh hq' hlow' hhigh' =>
    rw [List.cons_append, List.append_assoc]
    exact hexEscape_pair hq hlow hhigh hq' hlow' hhigh' s

/-! ## Strings -/

theorem CharText.cases (h : CharText t c) :
    t = [c] ∧ c ≠ '\x22' ∧ c ≠ '\\' ∧ 0x20 ≤ c.toNat ∨ ∃ u, t = '\\' :: u := by
  cases h with
  | plain hquote hslash hn => exact .inl ⟨rfl, hquote, hslash, hn⟩
  | short => exact .inr ⟨_, rfl⟩
  | unit => exact .inr ⟨_, rfl⟩
  | pair => exact .inr ⟨_, rfl⟩

theorem CharText.stringBody_eq (h : CharText t c) (fuel : Nat) (s : List Char) :
    stringBody (fuel + 1) (t ++ s) = stringBody fuel s >>= fun r => .ok (c :: r.1, r.2) := by
  rcases h.cases with ⟨rfl, hquote, hslash, hn⟩ | ⟨u, rfl⟩
  · rw [List.singleton_append, stringBody, if_neg hquote, if_neg hslash,
      if_neg (Nat.not_lt.mpr hn)]
    rfl
  · rw [List.cons_append, stringBody, if_neg (by decide), if_pos rfl, escape_eq h]
    rfl

theorem CharsText.stringBody_eq (h : CharsText t cs) (hf : t.length < fuel) (rest : List Char) :
    stringBody fuel (t ++ '\x22' :: rest) = .ok (cs, rest) := by
  induction h generalizing fuel with
  | nil =>
    obtain ⟨fuel, rfl⟩ := Nat.exists_eq_add_one_of_ne_zero (Nat.ne_zero_of_lt hf)
    rfl
  | @cons t u s c hc _ ih =>
    obtain ⟨fuel, rfl⟩ := Nat.exists_eq_add_one_of_ne_zero (Nat.ne_zero_of_lt hf)
    have ht : 1 ≤ t.length := by
      rcases hc.cases with ⟨rfl, _⟩ | ⟨_, rfl⟩ <;> simp
    rw [List.length_append] at hf
    rw [List.append_assoc, hc.stringBody_eq, ih (by omega)]
    rfl

theorem stringBody_spells (h : stringBody fuel s = .ok (cs, rest)) :
    ∃ t, CharsText t cs ∧ s = t ++ '\x22' :: rest := by
  induction fuel generalizing s cs with
  | zero => cases h
  | succ fuel ih =>
    cases s with
    | nil => cases h
    | cons c s =>
      rw [stringBody] at h
      split_ifs at h with hquote hslash hcontrol
      · cases h
        exact ⟨[], .nil, by rw [hquote]; rfl⟩
      · obtain ⟨⟨d, s'⟩, hd, h⟩ := bind_eq_ok_iff.mp h
        obtain ⟨⟨ds, s''⟩, hds, h⟩ := bind_eq_ok_iff.mp h
        cases h
        obtain ⟨t, ht, rfl⟩ := escape_spells hd
        obtain ⟨u, hu, rfl⟩ := ih hds
        exact ⟨_, .cons ht hu, by rw [hslash]; simp⟩
      · obtain ⟨⟨ds, s''⟩, hds, h⟩ := bind_eq_ok_iff.mp h
        cases h
        obtain ⟨u, hu, rfl⟩ := ih hds
        exact ⟨_, .cons (.plain hquote hslash (Nat.not_lt.mp hcontrol)) hu, rfl⟩

/-- A string is read from behind its opening quote on, up to its closing one. -/
theorem stringTail_eq_ok_iff : stringTail s = .ok (name, rest) ↔
    ∃ k, StringText k name ∧ '\x22' :: s = k ++ rest := by
  constructor
  · intro h
    obtain ⟨⟨cs, r⟩, hcs, h⟩ := map_eq_ok_iff.mp h
    cases h
    obtain ⟨t, ht, rfl⟩ := stringBody_spells hcs
    exact ⟨_, .intro ht, by simp⟩
  · rintro ⟨_, ⟨ht⟩, hs⟩
    rename_i t cs
    have hs : s = t ++ '\x22' :: rest := by simpa using hs
    refine map_eq_ok_iff.mpr ⟨(cs, rest), ?_, rfl⟩
    rw [hs]
    refine ht.stringBody_eq ?_ rest
    rw [List.length_append]
    omega

theorem StringText.head (h : StringText k name) : ∃ t, k = '\x22' :: t := by
  cases h with
  | intro => exact ⟨_, rfl⟩

/-- The name of a member is read up to and with its colon. -/
theorem memberName_eq_ok_iff : memberName s = .ok (name, rest) ↔
    ∃ k w, StringText k name ∧ Spaces w ∧ s = k ++ w ++ ':' :: rest := by
  constructor
  · intro h
    unfold memberName at h
    split at h
    · rename_i r
      obtain ⟨⟨n, u⟩, hn, h⟩ := bind_eq_ok_iff.mp h
      obtain ⟨k, hk, hs⟩ := stringTail_eq_ok_iff.mp hn
      obtain ⟨w, hw, hu⟩ := exists_spaces u
      dsimp only at h
      split at h
      · rename_i hcolon
        cases h
        refine ⟨k, w, hk, hw, ?_⟩
        rw [hs, hu, hcolon, List.append_assoc]
      · cases h
      · cases h
    · cases h
  · rintro ⟨k, w, hk, hw, rfl⟩
    obtain ⟨t, rfl⟩ := hk.head
    refine bind_eq_ok_iff.mpr
      ⟨(name, w ++ ':' :: rest), stringTail_eq_ok_iff.mpr ⟨_, hk, by simp⟩, ?_⟩
    have hcolon : skipSpace (w ++ ':' :: rest) = ':' :: rest := by
      rw [skipSpace_append hw, skipSpace_cons (by decide)]
    dsimp only
    rw [hcolon]
    rfl

end Keyfile.Json
