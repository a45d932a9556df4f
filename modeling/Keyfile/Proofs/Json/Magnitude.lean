import Keyfile.Proofs.Json.Grammar
import Keyfile.Proofs.Result

/-!
# Numbers that are read

`number` reads a text exactly if it starts with a number of the grammar, and answers with the value
that the grammar gives it. The reader takes digits one by one and stops adding them when they no
longer fit, so each part is first read from a run of digits and whatever ends it.
-/
namespace Keyfile.Json

variable {negative : Bool} {digits m n j : Nat} {places x : Int} {v : Json} {y : Binary64}
  {s t r ds fs f e u rest rest' : List Char}

/-! ## Runs of digits -/

/-- A text starts with a run of digits, up to something else. -/
theorem exists_digits (s : List Char) :
    ∃ ds r, s = ds ++ r ∧ Digits ds ∧ startsWithDigit r = false := by
  refine ⟨s.takeWhile Char.isDigit, s.dropWhile Char.isDigit,
    List.takeWhile_append_dropWhile.symm, ?_, ?_⟩
  · intro c hc
    exact List.all_eq_true.mp List.all_takeWhile c hc
  · have hhead := List.head?_dropWhile_not Char.isDigit s
    cases hr : s.dropWhile Char.isDigit with
    | nil => rfl
    | cons c r =>
      rw [hr] at hhead
      rw [startsWithDigit_cons]
      simpa using hhead

theorem startsWithDigit_append (hd : Digits ds) (hne : ds ≠ []) (r : List Char) :
    startsWithDigit (ds ++ r) = true := by
  obtain ⟨c, ds, rfl⟩ := List.exists_cons_of_ne_nil hne
  exact (startsWithDigit_cons c _).trans (hd c List.mem_cons_self)

theorem skipDigits_append (hd : Digits ds) (hr : startsWithDigit r = false) :
    skipDigits (ds ++ r) = (ds.length, r) := by
  have hdigit (c : Char) : (digit? c).isSome = c.isDigit := digit?_isSome c
  have hstop : r.takeWhile Char.isDigit = [] ∧ r.dropWhile Char.isDigit = r := by
    cases r with
    | nil => exact ⟨rfl, rfl⟩
    | cons c r =>
      rw [startsWithDigit_cons] at hr
      simp [hr]
  unfold skipDigits
  simp only [hdigit]
  rw [List.takeWhile_append_of_pos hd, List.dropWhile_append_of_pos hd, hstop.1, hstop.2,
    List.append_nil]

/-- What is gathered of a run of digits does not depend on what ends it. -/
theorem gather_digits (hd : Digits ds) (hr : startsWithDigit r = false)
    (h : gather n ds = (m, j, u)) : gather n (ds ++ r) = (m, j, u ++ r) := by
  induction ds generalizing n m j with
  | nil =>
    cases h
    cases r with
    | nil => rfl
    | cons c r =>
      rw [startsWithDigit_cons] at hr
      simp only [List.nil_append, gather, digit?_eq, hr, Bool.false_eq_true, if_false]
  | cons c ds ih =>
    obtain ⟨hc, hds⟩ := List.forall_mem_cons.mp hd
    simp only [List.cons_append, gather, digit?_eq, hc, if_true] at h ⊢
    split_ifs at h ⊢
    · rcases hg : gather (n * 10 + (c.toNat - '0'.toNat)) ds with ⟨m', j', u'⟩
      rw [hg] at h
      cases h
      rw [ih hds hg]
    · cases h
      rfl

/-- Of a run of digits, those that are not gathered are left. -/
theorem gather_left (hd : Digits ds) (h : gather n ds = (m, j, u)) :
    Digits u ∧ j + u.length = ds.length := by
  induction ds generalizing n m j with
  | nil =>
    cases h
    exact ⟨hd, rfl⟩
  | cons c ds ih =>
    obtain ⟨hc, hds⟩ := List.forall_mem_cons.mp hd
    simp only [gather, digit?_eq, hc, if_true] at h
    split_ifs at h
    · rcases hg : gather (n * 10 + (c.toNat - '0'.toNat)) ds with ⟨m', j', u'⟩
      rw [hg] at h
      cases h
      obtain ⟨hu, hlen⟩ := ih hds hg
      refine ⟨hu, ?_⟩
      rw [List.length_cons, ← hlen, Nat.add_right_comm]
    · cases h
      exact ⟨hd, Nat.zero_add _⟩

theorem gather_lt (hn : n < Nat.pow 2 64) (h : gather n s = (m, j, u)) : m < Nat.pow 2 64 := by
  induction s generalizing n m j with
  | nil =>
    cases h
    exact hn
  | cons c s ih =>
    rw [gather] at h
    split at h
    · cases h
      exact hn
    · split_ifs at h with hlt
      · rename_i d _
        rcases hg : gather (n * 10 + d) s with ⟨m', j', u'⟩
        rw [hg] at h
        cases h
        exact ih hlt hg
      · cases h
        exact hn

/-- All digits of a run are gathered exactly if their value is below 2^64. -/
theorem gather_all (hd : Digits ds) (hlt : Nat.ofDigitChars 10 ds 0 < Nat.pow 2 64) :
    gather 0 ds = (Nat.ofDigitChars 10 ds 0, ds.length, []) := by
  have hend : startsWithDigit [] = false := rfl
  have h := gather_append hd hlt hend
  rwa [List.append_nil] at h

theorem ne_nil_of_gather (hlt : Nat.pow 2 64 ≤ Nat.ofDigitChars 10 ds 0)
    (h : gather 0 ds = (m, j, u)) : u ≠ [] := by
  rintro rfl
  obtain ⟨ds', hds, _, hm⟩ := gather_eq h
  rw [List.append_nil] at hds
  have := gather_lt (by decide) h
  rw [← hm, ← hds] at this
  exact absurd hlt (Nat.not_le.mpr this)

theorem gatherExponent_digits (hd : Digits ds) (hr : startsWithDigit r = false)
    (hn : n < Nat.pow 2 31) :
    (Nat.ofDigitChars 10 ds n < Nat.pow 2 31 ∧
        gatherExponent n (ds ++ r) = (some (Nat.ofDigitChars 10 ds n), r)) ∨
      (Nat.pow 2 31 ≤ Nat.ofDigitChars 10 ds n ∧
        ∃ u, Digits u ∧ gatherExponent n (ds ++ r) = (none, u ++ r)) := by
  induction ds generalizing n with
  | nil =>
    refine .inl ⟨hn, ?_⟩
    cases r with
    | nil => rfl
    | cons c r =>
      rw [startsWithDigit_cons] at hr
      simp only [List.nil_append, gatherExponent, digit?_eq, hr, Bool.false_eq_true, if_false,
        Nat.ofDigitChars_nil]
  | cons c ds ih =>
    obtain ⟨hc, hds⟩ := List.forall_mem_cons.mp hd
    rw [Nat.ofDigitChars_cons, Nat.mul_comm]
    simp only [List.cons_append, gatherExponent, digit?_eq, hc, if_true]
    split_ifs with hlt
    · exact ih hds hlt
    · have hle := le_ofDigitChars ds (n * 10 + (c.toNat - '0'.toNat))
      exact .inr ⟨by omega, ds, hds, rfl⟩

/-! ## Floating-point numbers -/

theorem floating_eq_ok_iff : floating negative digits places s = .ok (v, rest) ↔
    rest = s ∧ ∃ y, double? digits places 0 = some y ∧ v = .double (y.withSign negative) := by
  have hdouble : double? digits places 0 =
      (Binary64.ofNat digits).bind fun x => scale x 5 places := by
    unfold double?
    rw [if_pos (by decide), Int.add_zero]
  rw [hdouble]
  unfold floating
  cases (Binary64.ofNat digits).bind fun x => scale x 5 places with
  | none => simp
  | some y =>
    simp only [Except.ok.injEq, Prod.mk.injEq, Option.some.injEq]
    constructor
    · rintro ⟨rfl, rfl⟩
      exact ⟨rfl, y, rfl, rfl⟩
    · rintro ⟨rfl, _, rfl, rfl⟩
      exact ⟨rfl, rfl⟩

/-- An exponent that is not too large is one more power of ten. -/
theorem double?_of_lt (h : x.natAbs < Nat.pow 2 31) :
    double? digits places x = double? digits (places + x) 0 := by
  unfold double?
  rw [if_pos h, if_pos (by decide), Int.add_zero]

theorem natAbs_signed (negative : Bool) (n : Nat) : (signed negative n).natAbs = n := by
  cases negative
  · exact Int.natAbs_natCast n
  · exact (Int.natAbs_neg _).trans (Int.natAbs_natCast n)

/-- An exponent from its sign on: what becomes of it once its digits are gathered. -/
theorem exponentPart_sign {sign : List Char} {down : Bool} (hs : Sign sign down) {c : Char}
    (hc : c.isDigit = true) {e? : Option Nat}
    (hg : gatherExponent (c.toNat - '0'.toNat) r = (e?, rest)) :
    exponentPart negative digits places (sign ++ c :: r) =
      e?.elim
        (if digits ≠ 0 ∧ !down then .error (.here .numberOutOfRange rest)
          else .ok (.double (Binary64.zero.withSign negative), (skipDigits rest).2))
        fun n => floating negative digits (places + signed down n) rest := by
  have hdigit : digit? c = some (c.toNat - '0'.toNat) := by rw [digit?_eq, if_pos hc]
  have hne {d : Char} (hd : d.isDigit = false) : c ≠ d := by
    rintro rfl
    rw [hd] at hc
    cases hc
  have hplus := hne (d := '+') (by decide)
  have hminus := hne (d := '-') (by decide)
  unfold exponentPart
  cases hs with
  | absent =>
    simp only [List.nil_append, List.cons.injEq, hplus, hminus, hdigit, hg, false_and,
      imp_false, not_false_eq_true, implies_true]
    cases e? <;> rfl
  | plus =>
    simp only [List.cons_append, List.nil_append, hdigit, hg]
    cases e? <;> rfl
  | minus =>
    simp only [List.cons_append, List.nil_append, hdigit, hg]
    cases e? <;> rfl

theorem signed_pos_iff {down : Bool} (hn : n ≠ 0) : 0 < signed down n ↔ down = false := by
  cases down with
  | false => exact iff_of_true (Int.natCast_pos.mpr (Nat.pos_of_ne_zero hn)) rfl
  | true =>
    refine iff_of_false ?_ nofun
    exact Int.not_lt.mpr (Int.neg_nonpos_of_nonneg (Int.natCast_nonneg n))

/-- An exponent is read from behind its letter on, up to the end of its digits. -/
theorem exponentPart_digits {sign : List Char} {down : Bool} (hs : Sign sign down)
    (hne : ds ≠ []) (hd : Digits ds) (hr : startsWithDigit r = false) :
    exponentPart negative digits places (sign ++ (ds ++ r)) = .ok (v, rest) ↔
      rest = r ∧ ∃ y, double? digits places (signed down (Nat.ofDigitChars 10 ds 0)) = some y ∧
        v = .double (y.withSign negative) := by
  obtain ⟨c, ds, rfl⟩ := List.exists_cons_of_ne_nil hne
  obtain ⟨hc, hds⟩ := List.forall_mem_cons.mp hd
  have hvalue : Nat.ofDigitChars 10 (c :: ds) 0 =
      Nat.ofDigitChars 10 ds (c.toNat - '0'.toNat) := by
    rw [Nat.ofDigitChars_cons, Nat.mul_zero, Nat.zero_add]
  have hlow : c.toNat - '0'.toNat < Nat.pow 2 31 :=
    Nat.lt_of_le_of_lt (Nat.sub_le_of_le_add (Char.isDigit_iff_toNat.mp hc).2) (by decide)
  rw [hvalue, List.cons_append]
  rcases gatherExponent_digits hds hr hlow with ⟨hlt, hg⟩ | ⟨hle, u, hu, hg⟩
  · rw [exponentPart_sign hs hc hg, double?_of_lt (by rwa [natAbs_signed])]
    exact floating_eq_ok_iff
  · have hlarge : ¬ (signed down (Nat.ofDigitChars 10 ds (c.toNat - '0'.toNat))).natAbs <
        Nat.pow 2 31 := by
      rw [natAbs_signed]
      exact Nat.not_lt.mpr hle
    have hne : Nat.ofDigitChars 10 ds (c.toNat - '0'.toNat) ≠ 0 := by
      intro h
      rw [h] at hle
      exact absurd hle (by decide)
    have hpos : 0 < signed down _ ↔ down = false := signed_pos_iff hne
    rw [exponentPart_sign hs hc hg, skipDigits_append hu hr]
    unfold double?
    rw [if_neg hlarge]
    simp only [hpos, Bool.not_eq_true']
    split_ifs
    · simp
    · simp [eq_comm, and_comm]

/-- The value that digits and places are scaled to by the text of an exponent. -/
def Scaled (negative : Bool) (digits : Nat) (places : Int) (e : List Char) (v : Json) : Prop :=
  ∃ x y, Exponent e x ∧ double? digits places x = some y ∧ v = .double (y.withSign negative)

theorem exists_sign (s : List Char) : ∃ sign down t, s = sign ++ t ∧ Sign sign down ∧
    (sign = [] → t.head? ≠ some '+' ∧ t.head? ≠ some '-') := by
  by_cases hplus : s.head? = some '+'
  · obtain ⟨t, rfl⟩ := List.head?_eq_some_iff.mp hplus
    exact ⟨_, _, t, rfl, .plus, nofun⟩
  · by_cases hminus : s.head? = some '-'
    · obtain ⟨t, rfl⟩ := List.head?_eq_some_iff.mp hminus
      exact ⟨_, _, t, rfl, .minus, nofun⟩
    · exact ⟨_, _, s, rfl, .absent, fun _ => ⟨hplus, hminus⟩⟩

theorem exponentPart_no_digit {sign : List Char} {down : Bool} (hs : Sign sign down)
    (hsign : sign = [] → s.head? ≠ some '+' ∧ s.head? ≠ some '-')
    (hr : startsWithDigit s = false) :
    exponentPart negative digits places (sign ++ s) ≠ .ok (v, rest) := by
  have hnone {c : Char} (hc : c.isDigit = false) : digit? c = none := by
    rw [digit?_eq, hc, if_neg Bool.false_ne_true]
  unfold exponentPart
  cases s with
  | nil => cases hs <;> simp
  | cons c s =>
    rw [startsWithDigit_cons] at hr
    cases hs with
    | absent =>
      obtain ⟨hplus, hminus⟩ := hsign rfl
      rw [List.head?_cons, ne_eq, Option.some.injEq] at hplus hminus
      simp [hplus, hminus, hnone hr]
    | plus => simp [hnone hr]
    | minus => simp [hnone hr]

theorem exponentPart_spells {c : Char} (hc : c = 'e' ∨ c = 'E')
    (h : exponentPart negative digits places s = .ok (v, rest)) :
    ∃ t, s = t ++ rest ∧ Scaled negative digits places (c :: t) v := by
  obtain ⟨sign, down, t, rfl, hs, hsign⟩ := exists_sign s
  obtain ⟨ds, r, rfl, hd, hr⟩ := exists_digits t
  by_cases hne : ds = []
  · subst hne
    exact (exponentPart_no_digit hs hsign hr h).elim
  · obtain ⟨rfl, y, hy, rfl⟩ := (exponentPart_digits hs hne hd hr).mp h
    exact ⟨sign ++ ds, (List.append_assoc ..).symm, _, y, .present hc hs hne hd, hy, rfl⟩

theorem tailPart_spells (h : tailPart negative digits places s = .ok (v, rest)) :
    ∃ e, s = e ++ rest ∧ Scaled negative digits places e v := by
  unfold tailPart at h
  split at h
  · obtain ⟨t, rfl, ht⟩ := exponentPart_spells (.inl rfl) h
    exact ⟨_, rfl, ht⟩
  · obtain ⟨t, rfl, ht⟩ := exponentPart_spells (.inr rfl) h
    exact ⟨_, rfl, ht⟩
  · obtain ⟨rfl, y, hy, rfl⟩ := floating_eq_ok_iff.mp h
    exact ⟨[], rfl, 0, y, .absent, hy, rfl⟩

theorem tailPart_of_letter {c : Char} (hc : c = 'e' ∨ c = 'E') (s : List Char) :
    tailPart negative digits places (c :: s) = exponentPart negative digits places s := by
  rcases hc with rfl | rfl <;> rfl

theorem tailPart_of_no_letter (he : s.head? ≠ some 'e') (hE : s.head? ≠ some 'E') :
    tailPart negative digits places s = floating negative digits places s := by
  unfold tailPart
  split
  · exact (he rfl).elim
  · exact (hE rfl).elim
  · rfl

theorem EndsNumber.head?_ne {c : Char} (hr : EndsNumber rest)
    (hc : c = '.' ∨ c = 'e' ∨ c = 'E') : rest.head? ≠ some c := by
  intro h
  obtain ⟨_, hpoint, he, hE⟩ := hr c h
  rcases hc with rfl | rfl | rfl
  · exact hpoint rfl
  · exact he rfl
  · exact hE rfl

theorem Scaled.tailPart_eq (h : Scaled negative digits places e v) (hr : EndsNumber rest) :
    tailPart negative digits places (e ++ rest) = .ok (v, rest) := by
  obtain ⟨x, y, he, hy, rfl⟩ := h
  cases he with
  | absent =>
    rw [List.nil_append, tailPart_of_no_letter (hr.head?_ne (.inr (.inl rfl)))
      (hr.head?_ne (.inr (.inr rfl)))]
    exact floating_eq_ok_iff.mpr ⟨rfl, y, hy, rfl⟩
  | present hc hs hne hd =>
    rw [List.cons_append, tailPart_of_letter hc, List.append_assoc]
    exact (exponentPart_digits hs hne hd hr.startsWithDigit_eq).mpr ⟨rfl, y, hy, rfl⟩

/-- No digit stands where an exponent, or what ends a number, may stand. -/
theorem Scaled.startsWithDigit_eq (h : Scaled negative digits places e v)
    (hr : EndsNumber rest) : startsWithDigit (e ++ rest) = false := by
  obtain ⟨x, y, he, -, -⟩ := h
  cases he with
  | absent => exact hr.startsWithDigit_eq
  | present hc =>
    rw [List.cons_append, startsWithDigit_cons]
    rcases hc with rfl | rfl <;> decide

/-! ## Fractions -/

/-- A fraction is read from behind its point on, up to the end of its digits. -/
theorem fractionPart_digits (hne : fs ≠ []) (hd : Digits fs) (hr : startsWithDigit r = false)
    (hg : gather m fs = (n, j, u)) :
    fractionPart negative m places (fs ++ r) = tailPart negative n (places - j) r := by
  obtain ⟨hu, hlen⟩ := gather_left hd hg
  unfold fractionPart
  rw [gather_digits hd hr hg]
  dsimp only
  cases u with
  | nil =>
    have hj : j ≠ 0 := by
      rintro rfl
      exact hne (List.length_eq_zero_iff.mp hlen.symm)
    rw [List.nil_append, hr, if_neg Bool.false_ne_true, if_neg hj]
  | cons c u =>
    have hstart := startsWithDigit_append hu (List.cons_ne_nil c u) r
    rw [if_pos hstart, skipDigits_append hu hr]

theorem fractionPart_no_digit (hr : startsWithDigit s = false) :
    fractionPart negative m places s ≠ .ok (v, rest) := by
  have hg : gather m s = (m, 0, s) := by
    have hnone : gather m [] = (m, 0, []) := rfl
    exact gather_digits (List.forall_mem_nil _) hr hnone
  unfold fractionPart
  rw [hg]
  simp [hr]

theorem fractionPart_spells (h : fractionPart negative m places s = .ok (v, rest)) :
    ∃ fs e, s = fs ++ e ++ rest ∧ fs ≠ [] ∧ Digits fs ∧
      Scaled negative (gather m fs).1 (places - (gather m fs).2.1) e v := by
  obtain ⟨fs, r, rfl, hd, hr⟩ := exists_digits s
  by_cases hne : fs = []
  · subst hne
    exact (fractionPart_no_digit hr h).elim
  · rw [fractionPart_digits hne hd hr rfl] at h
    obtain ⟨e, rfl, he⟩ := tailPart_spells h
    exact ⟨fs, e, (List.append_assoc ..).symm, hne, hd, he⟩

/-! ## Numbers behind their sign -/

theorem significand_eq (hg : gather 0 ds = (m, j, u)) (fs : List Char) :
    significand ds fs = ((gather m fs).1, (u.length : Int) - (gather m fs).2.1) := by
  unfold significand
  rw [hg]

theorem Scaled.magnitude (h : Scaled negative (significand ds fs).1 (significand ds fs).2 e v)
    (hd : Numeral ds n) (hf : Fraction f fs) (hne : Fits negative n → f ++ e ≠ []) :
    Magnitude negative (ds ++ f ++ e) v := by
  obtain ⟨x, y, he, hy, rfl⟩ := h
  exact .double hd hf he hne hy

theorem Fits.lt (h : Fits negative n) : n < Nat.pow 2 64 := by
  cases negative with
  | false => exact h
  | true => exact Nat.lt_of_le_of_lt h.2 (by decide)

theorem number_of_ne_zero {c : Char} (hz : c ≠ '0') (hc : c.isDigit = true)
    (hg : gather 0 (c :: s) = (m, j, t)) :
    number negative (c :: s) =
      if startsWithDigit t then
        match (skipDigits t).2 with
        | '.' :: r => fractionPart negative m (skipDigits t).1 r
        | _ => tailPart negative m (skipDigits t).1 (skipDigits t).2
      else afterDigits negative m t := by
  unfold number
  split
  · rename_i h
    cases h
  · rename_i h
    exact absurd (List.cons.inj h).1 hz
  · rename_i h
    obtain ⟨rfl, rfl⟩ := List.cons.inj h
    rw [digit?_isSome, hc, if_pos rfl]
    generalize gather 0 (c :: s) = g at hg
    subst hg
    rfl

theorem Numeral.cases (hd : Numeral ds n) : ds = ['0'] ∧ n = 0 ∨
    ∃ c s, ds = c :: s ∧ c ≠ '0' ∧ c.isDigit = true := by
  obtain ⟨c, s, rfl⟩ := List.exists_cons_of_ne_nil hd.ne_nil
  by_cases hc : c = '0'
  · subst hc
    have hs := hd.leading rfl
    refine .inl ⟨hs, ?_⟩
    rw [← hd.value_eq, hs]
    rfl
  · exact .inr ⟨c, s, rfl, hc, hd.digits c List.mem_cons_self⟩

/-- A number all of whose digits are gathered. -/
theorem number_gathered (hd : Numeral ds n) (hn : n < Nat.pow 2 64)
    (hr : startsWithDigit r = false) :
    number negative (ds ++ r) = afterDigits negative n r := by
  rcases hd.cases with ⟨rfl, rfl⟩ | ⟨c, s, rfl, hz, hc⟩
  · simp only [List.singleton_append, number, hr, Bool.false_eq_true, if_false]
  · have hg := gather_digits hd.digits hr (gather_all hd.digits (by rwa [hd.value_eq]))
    rw [hd.value_eq, List.nil_append, List.cons_append] at hg
    rw [List.cons_append, number_of_ne_zero hz hc hg, hr, if_neg Bool.false_ne_true]

/-- A number some of whose digits are left out. -/
theorem number_long (hd : Numeral ds n) (hn : Nat.pow 2 64 ≤ n)
    (hr : startsWithDigit r = false) (hg : gather 0 ds = (m, j, u)) :
    (∀ t, r = '.' :: t → number negative (ds ++ r) = fractionPart negative m u.length t) ∧
      (r.head? ≠ some '.' → number negative (ds ++ r) = tailPart negative m u.length r) := by
  rcases hd.cases with ⟨rfl, rfl⟩ | ⟨c, s, rfl, hz, hc⟩
  · exact absurd hn (by decide)
  · have hu := (gather_left hd.digits hg).1
    have hne : u ≠ [] := ne_nil_of_gather (by rwa [hd.value_eq]) hg
    have hg' := gather_digits hd.digits hr hg
    rw [List.cons_append] at hg'
    rw [List.cons_append, number_of_ne_zero hz hc hg', startsWithDigit_append hu hne, if_pos rfl,
      skipDigits_append hu hr]
    constructor
    · rintro t rfl
      rfl
    · intro hpoint
      dsimp only
      split
      · exact (hpoint rfl).elim
      · rfl

/-- Behind the whole part of a number stands a point: a fraction follows. -/
theorem number_point (hd : Numeral ds n) (hg : gather 0 ds = (m, j, u)) (s : List Char) :
    number negative (ds ++ '.' :: s) = fractionPart negative m u.length s := by
  have hr : startsWithDigit ('.' :: s) = false := startsWithDigit_cons '.' s
  by_cases hn : n < Nat.pow 2 64
  · have hall := gather_all hd.digits (by rwa [hd.value_eq])
    rw [hd.value_eq, hg] at hall
    cases hall
    exact number_gathered hd hn hr
  · exact (number_long hd (Nat.not_lt.mp hn) hr hg).1 s rfl

theorem afterDigits_tail (hpoint : r.head? ≠ some '.') (hn : n < Nat.pow 2 64)
    (h : Fits negative n → r.head? = some 'e' ∨ r.head? = some 'E') :
    afterDigits negative n r = tailPart negative n 0 r := by
  unfold afterDigits
  split
  · exact (hpoint rfl).elim
  · rfl
  · rfl
  · rename_i he hE
    have hletter : r.head? ≠ some 'e' ∧ r.head? ≠ some 'E' := by
      constructor
      · intro h
        obtain ⟨t, rfl⟩ := List.head?_eq_some_iff.mp h
        exact he t rfl
      · intro h
        obtain ⟨t, rfl⟩ := List.head?_eq_some_iff.mp h
        exact hE t rfl
    have hfits : ¬ Fits negative n := by
      intro hf
      exact (h hf).elim hletter.1 hletter.2
    rw [tailPart_of_no_letter hletter.1 hletter.2]
    cases negative with
    | false => exact (hfits hn).elim
    | true => exact if_neg hfits

/-- Behind the whole part of a number stands no point: if it is no integer, its exponent follows. -/
theorem number_tail (hd : Numeral ds n) (hg : gather 0 ds = (m, j, u))
    (hr : startsWithDigit r = false) (hpoint : r.head? ≠ some '.')
    (h : Fits negative n → r.head? = some 'e' ∨ r.head? = some 'E') :
    number negative (ds ++ r) = tailPart negative m u.length r := by
  by_cases hn : n < Nat.pow 2 64
  · have hall := gather_all hd.digits (by rwa [hd.value_eq])
    rw [hd.value_eq, hg] at hall
    cases hall
    exact (number_gathered hd hn hr).trans (afterDigits_tail hpoint hn h)
  · exact (number_long hd (Nat.not_lt.mp hn) hr hg).2 hpoint

/-- An integer ends where neither a point nor an exponent follows. -/
theorem number_integer (hd : Numeral ds n) (hf : Fits negative n)
    (hr : startsWithDigit r = false) (hpoint : r.head? ≠ some '.') (he : r.head? ≠ some 'e')
    (hE : r.head? ≠ some 'E') :
    number negative (ds ++ r) = .ok (.integer (signed negative n), r) := by
  rw [number_gathered hd hf.lt hr]
  unfold afterDigits
  split
  · exact (hpoint rfl).elim
  · exact (he rfl).elim
  · exact (hE rfl).elim
  · cases negative with
    | false => rfl
    | true => exact if_pos hf

/-- The whole part of a number that is read is a numeral. -/
theorem numeral_of_number (hd : Digits ds) (hr : startsWithDigit r = false)
    (h : number negative (ds ++ r) = .ok (v, rest)) :
    Numeral ds (Nat.ofDigitChars 10 ds 0) := by
  refine ⟨?_, hd, ?_, rfl⟩
  · rintro rfl
    cases r with
    | nil => cases h
    | cons c r =>
      have hc : (digit? c).isSome = false := hr
      have hz : c ≠ '0' := by
        rintro rfl
        cases hc
      rw [List.nil_append] at h
      unfold number at h
      split at h
      · cases h
      · rename_i hs
        exact hz (List.cons.inj hs).1
      · rename_i hs
        rw [← (List.cons.inj hs).1, hc] at h
        cases h
  · intro hzero
    obtain ⟨ds, rfl⟩ := List.head?_eq_some_iff.mp hzero
    by_contra hne
    have hne : ds ≠ [] := by
      rintro rfl
      exact hne rfl
    have hstart := startsWithDigit_append (List.forall_mem_cons.mp hd).2 hne r
    simp only [List.cons_append, number, hstart, if_true] at h
    cases h

/-- What is read as a number is one. -/
theorem number_spells (h : number negative s = .ok (v, rest)) :
    ∃ t, s = t ++ rest ∧ Magnitude negative t v := by
  obtain ⟨ds, r, rfl, hds, hr⟩ := exists_digits s
  have hd := numeral_of_number hds hr h
  rcases hg : gather 0 ds with ⟨m, j, u⟩
  have hsig := significand_eq hg
  by_cases hpoint : r.head? = some '.'
  · obtain ⟨r, rfl⟩ := List.head?_eq_some_iff.mp hpoint
    rw [number_point hd hg] at h
    obtain ⟨fs, e, rfl, hne, hfs, he⟩ := fractionPart_spells h
    refine ⟨ds ++ '.' :: fs ++ e, by simp, Scaled.magnitude ?_ hd (.present hne hfs) (by simp)⟩
    rw [hsig]
    exact he
  · have hplain : (significand ds []) = (m, (u.length : Int)) := by
      rw [hsig]
      exact Prod.ext rfl (Int.sub_zero _)
    by_cases hletter : r.head? = some 'e' ∨ r.head? = some 'E'
    · obtain ⟨c, r, rfl⟩ : ∃ c t, r = c :: t := by
        cases r with
        | nil => simp at hletter
        | cons c r => exact ⟨c, r, rfl⟩
      simp only [List.head?_cons, Option.some.injEq] at hletter
      rw [number_tail hd hg hr hpoint fun _ => by simpa using hletter,
        tailPart_of_letter hletter] at h
      obtain ⟨t, rfl, ht⟩ := exponentPart_spells hletter h
      refine ⟨ds ++ [] ++ c :: t, by simp, Scaled.magnitude ?_ hd .absent (by simp)⟩
      rw [hplain]
      exact ht
    · obtain ⟨he, hE⟩ := not_or.mp hletter
      by_cases hf : Fits negative (Nat.ofDigitChars 10 ds 0)
      · rw [number_integer hd hf hr hpoint he hE] at h
        cases h
        exact ⟨ds, rfl, .integer hd hf⟩
      · rw [number_tail hd hg hr hpoint fun h => (hf h).elim] at h
        obtain ⟨e, rfl, ht⟩ := tailPart_spells h
        refine ⟨ds ++ [] ++ e, by simp, Scaled.magnitude ?_ hd .absent fun h => (hf h).elim⟩
        rw [hplain]
        exact ht

/-- A number is read as its value, up to whatever ends it. -/
theorem Magnitude.number_eq (h : Magnitude negative t v) (hr : EndsNumber rest) :
    number negative (t ++ rest) = .ok (v, rest) := by
  cases h with
  | integer hd hf =>
    exact number_integer hd hf hr.startsWithDigit_eq (hr.head?_ne (.inl rfl))
      (hr.head?_ne (.inr (.inl rfl))) (hr.head?_ne (.inr (.inr rfl)))
  | @double ds f fs e n x y hd hf he hne hy =>
    rcases hg : gather 0 ds with ⟨m, j, u⟩
    have hsig := significand_eq hg fs
    have hscaled : Scaled negative (significand ds fs).1 (significand ds fs).2 e
        (.double (y.withSign negative)) := ⟨x, y, he, hy, rfl⟩
    rw [hsig] at hscaled
    have hstart := hscaled.startsWithDigit_eq hr
    rw [List.append_assoc, List.append_assoc]
    cases hf with
    | present hfs hds =>
      rw [List.cons_append, number_point hd hg, fractionPart_digits hfs hds hstart rfl]
      exact hscaled.tailPart_eq hr
    | absent =>
      have hplaces : (u.length : Int) - (gather m []).2.1 = u.length := Int.sub_zero _
      rw [hplaces] at hscaled
      rw [List.nil_append, number_tail hd hg hstart ?_ ?_]
      · exact hscaled.tailPart_eq hr
      · cases he with
        | absent => exact hr.head?_ne (.inl rfl)
        | present hc =>
          rcases hc with rfl | rfl <;> simp
      · intro hf
        cases he with
        | absent => exact (hne hf rfl).elim
        | present hc => simpa using hc

end Keyfile.Json
