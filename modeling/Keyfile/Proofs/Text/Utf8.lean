import Keyfile.Text.Utf8
import Mathlib

/-!
# Reading UTF-8 back

What `encode` writes is read back by `decode?`, for every text, and nothing else is read. One lemma
for each size of a character says when `next` takes it, and one says how it is written again; all of
them speak about the numbers that the bytes denote.
-/
namespace Keyfile.Utf8

theorem toNat_ofNat {n : Nat} (h : n < 256) : (UInt8.ofNat n).toNat = n := by
  rw [UInt8.toNat_ofNat']
  exact Nat.mod_eq_of_lt h

theorem between_iff {low high b : UInt8} :
    (decide (low ≤ b) && decide (b ≤ high)) = true ↔
      low.toNat ≤ b.toNat ∧ b.toNat ≤ high.toNat := by
  rw [Bool.and_eq_true, decide_eq_true_eq, decide_eq_true_eq, UInt8.le_iff_toNat_le,
    UInt8.le_iff_toNat_le]

theorem isTail_iff {b : UInt8} : isTail b = true ↔ 0x80 ≤ b.toNat ∧ b.toNat ≤ 0xBF :=
  between_iff

/-- After four first bytes the second one has narrower bounds. -/
theorem isSecond_iff {a b : UInt8} : isSecond a b = true ↔
    0x80 ≤ b.toNat ∧ b.toNat ≤ 0xBF ∧ (a.toNat = 0xE0 → 0xA0 ≤ b.toNat) ∧
      (a.toNat = 0xED → b.toNat ≤ 0x9F) ∧ (a.toNat = 0xF0 → 0x90 ≤ b.toNat) ∧
      (a.toNat = 0xF4 → b.toNat ≤ 0x8F) := by
  have is (k : UInt8) : a = k ↔ a.toNat = k.toNat := UInt8.toNat_inj.symm
  unfold isSecond
  simp only [is, UInt8.reduceToNat]
  split_ifs <;> simp only [between_iff, isTail_iff, UInt8.reduceToNat] <;> omega

/-! ## One character -/

theorem not_lt_of_le {a : UInt8} (h : 0x80 ≤ a.toNat) : ¬ a < 0x80 := by
  rw [UInt8.lt_iff_toNat_lt]
  exact Nat.not_lt.mpr h

theorem next_one {a : UInt8} (h : a.toNat < 0x80) (t : Bytes) :
    next a t = (some (Char.ofNat a.toNat), t) := by
  have h₁ : a < 0x80 := h
  simp only [next.eq_def, h₁, if_true]

theorem next_two {a b : UInt8} (ha : 0xC2 ≤ a.toNat) (ha' : a.toNat ≤ 0xDF)
    (hb : isTail b = true) (t : Bytes) :
    next a (b :: t) = (some (Char.ofNat ((a.toNat - 0xC0) * 0x40 + low b)), t) := by
  have h₁ : ¬ a < 0x80 := not_lt_of_le (by omega)
  have h₂ : (0xC2 ≤ a && a ≤ 0xDF) = true := between_iff.mpr ⟨ha, ha'⟩
  simp only [next.eq_def, h₁, h₂, hb, if_true, if_false]

theorem next_three {a b c : UInt8} (ha : 0xE0 ≤ a.toNat) (ha' : a.toNat ≤ 0xEF)
    (hb : isSecond a b = true) (hc : isTail c = true) (t : Bytes) :
    next a (b :: c :: t) =
      (some (Char.ofNat ((a.toNat - 0xE0) * 0x1000 + low b * 0x40 + low c)), t) := by
  have h₁ : ¬ a < 0x80 := not_lt_of_le (by omega)
  have h₂ : ¬ (0xC2 ≤ a && a ≤ 0xDF) = true := by
    simp only [between_iff, UInt8.reduceToNat]
    omega
  have h₃ : (0xE0 ≤ a && a ≤ 0xEF) = true := between_iff.mpr ⟨ha, ha'⟩
  simp only [next.eq_def, h₁, h₂, h₃, hb, hc, if_true, if_false, Bool.false_eq_true]

theorem next_four {a b c d : UInt8} (ha : 0xF0 ≤ a.toNat) (ha' : a.toNat ≤ 0xF4)
    (hb : isSecond a b = true) (hc : isTail c = true) (hd : isTail d = true) (t : Bytes) :
    next a (b :: c :: d :: t) =
      (some (Char.ofNat
        ((a.toNat - 0xF0) * 0x40000 + low b * 0x1000 + low c * 0x40 + low d)), t) := by
  have h₁ : ¬ a < 0x80 := not_lt_of_le (by omega)
  have h₂ : ¬ (0xC2 ≤ a && a ≤ 0xDF) = true := by
    simp only [between_iff, UInt8.reduceToNat]
    omega
  have h₃ : ¬ (0xE0 ≤ a && a ≤ 0xEF) = true := by
    simp only [between_iff, UInt8.reduceToNat]
    omega
  have h₄ : (0xF0 ≤ a && a ≤ 0xF4) = true := between_iff.mpr ⟨ha, ha'⟩
  simp only [next.eq_def, h₁, h₂, h₃, h₄, hb, hc, hd, if_true, if_false, Bool.false_eq_true]

theorem toNat_lt (c : Char) : c.toNat < 0xD800 ∨ 0xDFFF < c.toNat ∧ c.toNat < 0x110000 :=
  c.valid

/-- A character is taken off the front of any bytes behind it. -/
theorem next_encodeChar (c : Char) (t : Bytes) :
    ∃ a r, encodeChar c = a :: r ∧ next a (r ++ t) = (some c, t) := by
  have hv := toNat_lt c
  have back {n : Nat} (h : n = c.toNat) : (some (Char.ofNat n), t) = (some c, t) := by
    rw [h, Char.ofNat_toNat]
  unfold encodeChar
  dsimp only
  -- in each case the numbers of the bytes come first, so that all bounds are linear arithmetic
  split_ifs with h₁ h₂ h₃
  · have ha : (UInt8.ofNat c.toNat).toNat = c.toNat := toNat_ofNat (by omega)
    refine ⟨_, _, rfl, (next_one ?_ t).trans (back ha)⟩
    omega
  · have ha : (UInt8.ofNat (0xC0 + c.toNat / 0x40)).toNat = _ := toNat_ofNat (by omega)
    have hb : (UInt8.ofNat (0x80 + c.toNat % 0x40)).toNat = _ := toNat_ofNat (by omega)
    refine ⟨_, _, rfl, (next_two ?_ ?_ (isTail_iff.mpr ?_) t).trans (back ?_)⟩
    · omega
    · omega
    · omega
    · unfold low
      omega
  · have ha : (UInt8.ofNat (0xE0 + c.toNat / 0x1000)).toNat = _ := toNat_ofNat (by omega)
    have hb : (UInt8.ofNat (0x80 + c.toNat / 0x40 % 0x40)).toNat = _ := toNat_ofNat (by omega)
    have hc : (UInt8.ofNat (0x80 + c.toNat % 0x40)).toNat = _ := toNat_ofNat (by omega)
    refine ⟨_, _, rfl,
      (next_three ?_ ?_ (isSecond_iff.mpr ?_) (isTail_iff.mpr ?_) t).trans (back ?_)⟩
    · omega
    · omega
    · omega
    · omega
    · unfold low
      omega
  · have ha : (UInt8.ofNat (0xF0 + c.toNat / 0x40000)).toNat = _ := toNat_ofNat (by omega)
    have hb : (UInt8.ofNat (0x80 + c.toNat / 0x1000 % 0x40)).toNat = _ := toNat_ofNat (by omega)
    have hc : (UInt8.ofNat (0x80 + c.toNat / 0x40 % 0x40)).toNat = _ := toNat_ofNat (by omega)
    have hd : (UInt8.ofNat (0x80 + c.toNat % 0x40)).toNat = _ := toNat_ofNat (by omega)
    refine ⟨_, _, rfl, (next_four ?_ ?_ (isSecond_iff.mpr ?_) (isTail_iff.mpr ?_)
      (isTail_iff.mpr ?_) t).trans (back ?_)⟩
    · omega
    · omega
    · omega
    · omega
    · omega
    · unfold low
      omega

/-! ## Characters that were read -/

/-- The character of a number is written with as many bytes as the number needs. -/
theorem encodeChar_ofNat {n : Nat} (h : n.isValidChar) : encodeChar (Char.ofNat n) =
    if n < 0x80 then [UInt8.ofNat n]
    else if n < 0x800 then [UInt8.ofNat (0xC0 + n / 0x40), UInt8.ofNat (0x80 + n % 0x40)]
    else if n < 0x10000 then
      [UInt8.ofNat (0xE0 + n / 0x1000), UInt8.ofNat (0x80 + n / 0x40 % 0x40),
        UInt8.ofNat (0x80 + n % 0x40)]
    else
      [UInt8.ofNat (0xF0 + n / 0x40000), UInt8.ofNat (0x80 + n / 0x1000 % 0x40),
        UInt8.ofNat (0x80 + n / 0x40 % 0x40), UInt8.ofNat (0x80 + n % 0x40)] := by
  unfold encodeChar
  rw [Char.toNat_ofNat, if_pos h]

theorem ofNat_eq {n : Nat} {b : UInt8} (h : n = b.toNat) : UInt8.ofNat n = b := by
  rw [h, UInt8.ofNat_toNat]

theorem encodeChar_one {a : UInt8} (ha : a.toNat < 0x80) :
    encodeChar (Char.ofNat a.toNat) = [a] := by
  rw [encodeChar_ofNat (.inl (by omega)), if_pos ha, UInt8.ofNat_toNat]

theorem encodeChar_two {a b : UInt8} (ha : 0xC2 ≤ a.toNat) (ha' : a.toNat ≤ 0xDF)
    (hb : isTail b = true) :
    encodeChar (Char.ofNat ((a.toNat - 0xC0) * 0x40 + low b)) = [a, b] := by
  obtain ⟨hb, hb'⟩ := isTail_iff.mp hb
  unfold low
  rw [encodeChar_ofNat (.inl (by omega)), if_neg (by omega), if_pos (by omega),
    ofNat_eq (b := a) (by omega), ofNat_eq (b := b) (by omega)]

theorem encodeChar_three {a b c : UInt8} (ha : 0xE0 ≤ a.toNat) (ha' : a.toNat ≤ 0xEF)
    (hb : isSecond a b = true) (hc : isTail c = true) :
    encodeChar (Char.ofNat ((a.toNat - 0xE0) * 0x1000 + low b * 0x40 + low c)) = [a, b, c] := by
  obtain ⟨hb, hb', hlow, hhigh, _⟩ := isSecond_iff.mp hb
  obtain ⟨hc, hc'⟩ := isTail_iff.mp hc
  unfold low
  have hvalid : ((a.toNat - 0xE0) * 0x1000 + (b.toNat - 0x80) * 0x40 +
      (c.toNat - 0x80)).isValidChar := by
    unfold Nat.isValidChar
    omega
  rw [encodeChar_ofNat hvalid, if_neg (by omega), if_neg (by omega), if_pos (by omega),
    ofNat_eq (b := a) (by omega), ofNat_eq (b := b) (by omega), ofNat_eq (b := c) (by omega)]

theorem encodeChar_four {a b c d : UInt8} (ha : 0xF0 ≤ a.toNat) (ha' : a.toNat ≤ 0xF4)
    (hb : isSecond a b = true) (hc : isTail c = true) (hd : isTail d = true) :
    encodeChar (Char.ofNat
      ((a.toNat - 0xF0) * 0x40000 + low b * 0x1000 + low c * 0x40 + low d)) = [a, b, c, d] := by
  obtain ⟨hb, hb', _, _, hlow, hhigh⟩ := isSecond_iff.mp hb
  obtain ⟨hc, hc'⟩ := isTail_iff.mp hc
  obtain ⟨hd, hd'⟩ := isTail_iff.mp hd
  unfold low
  have hvalid : ((a.toNat - 0xF0) * 0x40000 + (b.toNat - 0x80) * 0x1000 +
      (c.toNat - 0x80) * 0x40 + (d.toNat - 0x80)).isValidChar := by
    unfold Nat.isValidChar
    omega
  rw [encodeChar_ofNat hvalid, if_neg (by omega), if_neg (by omega), if_neg (by omega),
    ofNat_eq (b := a) (by omega), ofNat_eq (b := b) (by omega), ofNat_eq (b := c) (by omega),
    ofNat_eq (b := d) (by omega)]

/-- What is taken off the front as a character is what the character is written as. -/
theorem eq_encodeChar_of_next {a : UInt8} {r t : Bytes} {c : Char} :
    next a r = (some c, t) → a :: r = encodeChar c ++ t := by
  have taken {x : Char} {bytes rest : Bytes} (hbytes : encodeChar x = bytes)
      (hx : (some x, rest) = (some c, t)) : bytes ++ rest = encodeChar c ++ t := by
    rw [Prod.mk.injEq, Option.some.injEq] at hx
    rw [← hx.1, hbytes, ← hx.2]
  -- the four branches of the reader that take a character, one for each size
  fun_cases next a r
  case case1 ha => exact taken (encodeChar_one ha)
  case case2 ha b r hb =>
    obtain ⟨hlow, hhigh⟩ := between_iff.mp ha
    exact taken (encodeChar_two hlow hhigh hb)
  case case5 ha b d r hb hd =>
    obtain ⟨hlow, hhigh⟩ := between_iff.mp ha
    exact taken (encodeChar_three hlow hhigh hb hd)
  case case10 ha b d e r hb hd he =>
    obtain ⟨hlow, hhigh⟩ := between_iff.mp ha
    exact taken (encodeChar_four hlow hhigh hb hd he)
  all_goals nofun

/-! ## Whole texts -/

theorem pieces_encode (s : List Char) : pieces (encode s) = s.map some := by
  induction s with
  | nil => rw [encode_nil, pieces, List.map_nil]
  | cons c s ih =>
    obtain ⟨a, r, hc, hn⟩ := next_encodeChar c (encode s)
    rw [encode_cons, hc, List.cons_append, pieces, hn, ih, List.map_cons]

theorem mapM_id_some {α : Type} (s : List α) : (s.map some).mapM id = some s := by
  induction s with
  | nil => rfl
  | cons c s ih => simp only [List.map_cons, List.mapM_cons, ih, id]; rfl

theorem decode?_encode (s : List Char) : decode? (encode s) = some s := by
  rw [decode?, pieces_encode, mapM_id_some]

theorem eq_encode_of_pieces {b : Bytes} {s : List Char} (h : pieces b = s.map some) :
    b = encode s := by
  induction s generalizing b with
  | nil =>
    cases b with
    | nil => rfl
    | cons a r =>
      rw [pieces] at h
      cases h
  | cons c s ih =>
    cases b with
    | nil =>
      rw [pieces] at h
      cases h
    | cons a r =>
      rw [pieces, List.map_cons, List.cons.injEq] at h
      have hnext : next a r = (some c, (next a r).2) := Prod.ext h.1 rfl
      rw [encode_cons, ← ih h.2]
      exact eq_encodeChar_of_next hnext

theorem mapM_id_eq_some_iff {α : Type} {x : List (Option α)} {s : List α} :
    x.mapM id = some s ↔ x = s.map some := by
  constructor
  · intro h
    induction x generalizing s with
    | nil =>
      cases h
      rfl
    | cons o x ih =>
      rw [List.mapM_cons] at h
      obtain ⟨c, hc, h⟩ := Option.bind_eq_some_iff.mp h
      obtain ⟨t, ht, hs⟩ := Option.bind_eq_some_iff.mp h
      cases hs
      rw [List.map_cons, ← ih ht]
      exact congrArg (· :: x) hc
  · rintro rfl
    exact mapM_id_some s

/-- Bytes hold a text exactly if they are what the text is written as. -/
theorem decode?_eq_some_iff {b : Bytes} {s : List Char} : decode? b = some s ↔ b = encode s := by
  constructor
  · intro h
    exact eq_encode_of_pieces (mapM_id_eq_some_iff.mp h)
  · rintro rfl
    exact decode?_encode s

theorem decode?_eq_none_iff {b : Bytes} : decode? b = none ↔ ∀ s, b ≠ encode s := by
  rw [Option.eq_none_iff_forall_ne_some]
  exact forall_congr' fun s => not_congr decode?_eq_some_iff

/-! ## Bytes that are shown -/

theorem next_suffix (a : UInt8) (r : Bytes) : (next a r).2 <:+ r := by
  unfold next
  repeat' split
  all_goals simp [List.suffix_cons_iff]

/-- Where a character is read, the bytes hold what it is written as. -/
theorem exists_of_pieces {b : Bytes} {c : Char} {ps qs : List (Option Char)}
    (h : pieces b = ps ++ some c :: qs) :
    ∃ before after, b = before ++ encodeChar c ++ after ∧ pieces after = qs := by
  induction ps generalizing b with
  | nil =>
    cases b with
    | nil =>
      rw [pieces] at h
      cases h
    | cons a r =>
      rw [pieces, List.nil_append, List.cons.injEq] at h
      have hnext : next a r = (some c, (next a r).2) := Prod.ext h.1 rfl
      exact ⟨[], (next a r).2, eq_encodeChar_of_next hnext, h.2⟩
  | cons o ps ih =>
    cases b with
    | nil =>
      rw [pieces] at h
      cases h
    | cons a r =>
      rw [pieces, List.cons_append, List.cons.injEq] at h
      obtain ⟨before, after, hrest, hafter⟩ := ih h.2
      obtain ⟨taken, htaken⟩ := next_suffix a r
      refine ⟨a :: taken ++ before, after, ?_, hafter⟩
      rw [List.append_assoc, List.append_assoc, ← List.append_assoc before, ← hrest,
        List.cons_append, htaken]

theorem toList_lossy (b : Bytes) : (lossy b).toList = (pieces b).map (·.getD '\uFFFD') := by
  rw [lossy, String.toList_ofList]

/-- A character that is shown stands in the bytes, or it stands for an ill-formed stretch. -/
theorem infix_of_mem_lossy {b : Bytes} {c : Char} (h : c ∈ (lossy b).toList)
    (hc : c ≠ '\uFFFD') : encodeChar c <:+: b := by
  rw [toList_lossy] at h
  obtain ⟨o, ho, rfl⟩ := List.mem_map.mp h
  cases o with
  | none => exact (hc rfl).elim
  | some c =>
    obtain ⟨ps, qs, hpieces⟩ := List.append_of_mem ho
    obtain ⟨before, after, hb, _⟩ := exists_of_pieces hpieces
    exact ⟨before, after, hb.symm⟩

theorem suffix_of_getLast?_lossy {b : Bytes} {c : Char} (h : (lossy b).toList.getLast? = some c)
    (hc : c ≠ '\uFFFD') : encodeChar c <:+ b := by
  rw [toList_lossy, List.getLast?_map] at h
  obtain ⟨o, ho, rfl⟩ := Option.map_eq_some_iff.mp h
  cases o with
  | none => exact (hc rfl).elim
  | some c =>
    obtain ⟨ps, hpieces⟩ := List.getLast?_eq_some_iff.mp ho
    obtain ⟨before, after, hb, hafter⟩ := exists_of_pieces hpieces
    have hnil : after = [] := by
      cases after with
      | nil => rfl
      | cons a r =>
        rw [pieces] at hafter
        cases hafter
    rw [hnil, List.append_nil] at hb
    exact ⟨before, hb.symm⟩

end Keyfile.Utf8
