import Keyfile.Proofs.Yaml.Scalar
import Keyfile.Yaml.Token.Scan

/-!
# Tokens of entries that stand in lines of their own

A text of lines, each with a key, a colon and a value, is read line by line in three steps: the key,
which may become one, the colon, which makes it one, and the value.
-/
namespace Keyfile.Yaml

/-- The value of an entry as it is written. -/
inductive Written where
  | word (text : List Char)
  /-- Text between double quotes. -/
  | quoted (text : List Char)

/-- A key and its value. -/
structure Entry where
  key : List Char
  value : Written

namespace Written

def text : Written → List Char
  | word t => t
  | quoted t => t

def style : Written → Style
  | word _ => .plain
  | quoted _ => .doubleQuoted

/-- How a value is written. -/
def chars : Written → List Char
  | word t => t
  | quoted t => '\x22' :: (t.flatMap Scalar.escape ++ ['\x22'])

/-- Words have at least one letter and only letters, and text between quotes is printable. -/
inductive Valid : Written → Prop
  | word {t : List Char} : t ≠ [] → (∀ c ∈ t, isLetter c = true) → Valid (.word t)
  | quoted {t : List Char} : (∀ c ∈ t, IsShown c) → Valid (.quoted t)

end Written

namespace Entry

/-- The line of an entry, without its end. -/
def chars (e : Entry) : List Char := e.key ++ ':' :: ' ' :: e.value.chars

/-- Entries in lines of their own. -/
def textOf (es : List Entry) : List Char := es.flatMap fun e => e.chars ++ ['\n']

structure Valid (e : Entry) : Prop where
  key_ne : e.key ≠ []
  key_letters : ∀ c ∈ e.key, isLetter c = true
  /-- The colon comes soon enough. -/
  key_length : e.key.length ≤ keySpan
  value : e.value.Valid

def tokens (e : Entry) : List Token.Kind :=
  [.key, .scalar e.key .plain, .value, .scalar e.value.text e.value.style]

end Entry

theorem Written.Valid.forall_chars {v : Written} (h : v.Valid) : ∀ c ∈ v.chars, IsShown c := by
  cases h with
  | word _ hw => exact fun c hc => isShown_of_isLetter (hw c hc)
  | quoted hw =>
    have hbody : ∀ c ∈ _, IsShown c := List.forall_mem_flatMap.mpr fun c hc =>
      Scalar.forall_escape (hw c hc)
    exact List.forall_mem_cons.mpr ⟨by decide,
      List.forall_mem_append.mpr ⟨hbody, List.forall_mem_singleton.mpr (by decide)⟩⟩

theorem Entry.Valid.forall_chars {e : Entry} (h : e.Valid) : ∀ c ∈ e.chars, IsShown c := by
  refine List.forall_mem_append.mpr ⟨fun c hc => isShown_of_isLetter (h.key_letters c hc), ?_⟩
  refine List.forall_mem_cons.mpr ⟨by decide, ?_⟩
  exact List.forall_mem_cons.mpr ⟨by decide, h.value.forall_chars⟩

theorem Entry.Valid.length_chars {e : Entry} (h : e.Valid) : 3 ≤ e.chars.length := by
  have hkey := List.length_pos_iff.mpr h.key_ne
  simp only [chars, List.length_append, List.length_cons]
  omega

/-- Of which kinds tokens are. -/
def kinds (ts : List Token) : List Token.Kind := ts.map (·.kind)

theorem insertIdx_length {α : Type} (as bs : List α) (x : α) :
    (as ++ bs).insertIdx as.length x = as ++ x :: bs := by
  induction as with
  | nil => rfl
  | cons a as ih =>
    rw [List.cons_append, List.length_cons, List.insertIdx_succ_cons, ih, List.cons_append]

theorem toList_insertIdxIfInBounds {α : Type} {xs : Array α} {as bs : List α}
    (h : xs.toList = as ++ bs) (x : α) :
    (xs.insertIdxIfInBounds as.length x).toList = as ++ x :: bs := by
  have hlength : as.length ≤ xs.size := by
    rw [← Array.length_toList, h, List.length_append]
    exact Nat.le_add_right ..
  rw [Array.insertIdxIfInBounds, dif_pos hlength, Array.toList_insertIdx, h, insertIdx_length]

namespace Scan

variable {s t : Scan} {g : Glyph} {c : Char} {m m₁ m₂ stop : Mark} {r rest : List Glyph}
  {indents : List Nat} {tokens : Array Token} {key : List Char} {k : PossibleKey}

/-! ## Between tokens -/

theorem fresh_none (here : Mark) : ∀ k ∈ (none : Option PossibleKey), k.isStale here = false :=
  fun k hk => absurd hk (Option.not_mem_none k)

theorem dropStale_of_fresh (houter : t.outer = []) (h : ∀ k ∈ t.key, k.isStale t.here = false) :
    t.dropStale = .ok t := by
  have hkey : t.key.filter (fun k => !k.isStale t.here) = t.key := by
    cases hk : t.key with
    | none => rfl
    | some k => simp [h k hk]
  have hnone : t.keys.find? (fun k => k.required && k.isStale t.here) = none := by
    rw [List.find?_eq_none]
    intro k hk
    have hmem : k ∈ t.key := by
      unfold keys at hk
      rw [houter, List.mem_filterMap] at hk
      obtain ⟨key, hkey, hk⟩ := hk
      rwa [← List.mem_singleton.mp hkey]
    simp [h k hmem]
  unfold dropStale
  rw [hnone]
  dsimp only
  rw [hkey, houter]
  rw [List.map_nil, ← houter]

/-- Nothing is closed by a token that is not further left. -/
theorem unroll_of_le {column : Int} (h : ∀ n ∈ t.indents, (n : Int) ≤ column) :
    t.unroll column = t := by
  have hclosed : t.indents.takeWhile (fun (n : Nat) => decide (column < n)) = [] := by
    cases hindents : t.indents with
    | nil => rfl
    | cons n ns =>
      have hn := h n (by rw [hindents]; exact List.mem_cons_self)
      rw [List.takeWhile_cons, if_neg (by simpa using hn)]
  unfold unroll
  rw [hclosed]
  simp

/-- A step reads the token that is next, where it closes no collection and makes no key stale. -/
theorem step_eq (hs : s.skipToToken = t) (houter : t.outer = [])
    (hkey : ∀ k ∈ t.key, k.isStale t.here = false)
    (hindents : ∀ n ∈ t.indents, (n : Int) ≤ t.here.column) {u : Scan} (hfetch : t.fetch = .ok u)
    (houter' : u.outer = []) (hkey' : ∀ k ∈ u.key, k.isStale u.here = false) :
    s.step = .ok u := by
  unfold step
  rw [hs, dropStale_of_fresh houter hkey]
  change (t.unroll t.here.column).fetch >>= dropStale = _
  rw [unroll_of_le hindents, hfetch]
  exact dropStale_of_fresh houter' hkey'

theorem run_succ {s' : Scan} (h : s.step = .ok s') (hmore : s'.ended = false) (fuel : Nat) :
    run none (fuel + 1) s = run none fuel s' := by
  rw [run, stepBefore, h]
  dsimp only
  rw [hmore]
  rfl

theorem run_of_ended {s' : Scan} (h : s.step = .ok s') (hended : s'.ended = true) (fuel : Nat) :
    run none (fuel + 1) s = ⟨s'.tokens.toList, none⟩ := by
  rw [run, stepBefore, h]
  dsimp only
  rw [hended]
  rfl

/-! ## Which token is next -/

theorem skipFrom_letter {allowed : Bool} (h : isLetter g.char = true) :
    skipFrom false false allowed (g :: r) = (g :: r, allowed) := by
  have hbreak := (isShown_of_isLetter h).isBreak_eq
  have h₁ : g.char ≠ orderMark := (isShown_of_isLetter h).ne (by decide)
  have h₂ : g.char ≠ ' ' := ne_of_isLetter h (by decide)
  have h₃ : g.char ≠ '\t' := ne_of_isLetter h (by decide)
  have h₄ : g.char ≠ '#' := ne_of_isLetter h (by decide)
  simp [skipFrom, hbreak, h₁, h₂, h₃, h₄]

theorem skipFrom_beginsLine {allowed : Bool} (h : BeginsLine rest) :
    skipFrom false false allowed rest = (rest, allowed) := by
  cases rest with
  | nil => rfl
  | cons g rest => exact skipFrom_letter (h g rfl).2

theorem skipFrom_value {v : Written} (hv : v.Valid) : skipFrom false false false
    (⟨' ', m₁⟩ :: (inline m v.chars ++ rest)) = (inline m v.chars ++ rest, false) := by
  have hspace : skipFrom false false false (⟨' ', m₁⟩ :: (inline m v.chars ++ rest)) =
      skipFrom false false false (inline m v.chars ++ rest) := by
    simp [skipFrom, isBreak, orderMark]
  rw [hspace]
  cases hv with
  | @word w hne hw =>
    obtain ⟨c, w', rfl⟩ := List.exists_cons_of_ne_nil hne
    exact skipFrom_letter (hw c List.mem_cons_self)
  | quoted => rfl

theorem skipToToken_eq {allowed : Bool}
    (h : skipFrom s.inFlow false s.keyAllowed s.rest = (rest, allowed)) :
    s.skipToToken = { s with rest := rest, keyAllowed := allowed } := by
  unfold skipToToken
  rw [h]

theorem fetch_letter (hrest : t.rest = g :: r) (h : isLetter g.char = true) :
    t.fetch = t.fetchPlain := by
  have hne (d : Char) (hd : isLetter d = false) : g.char ≠ d := ne_of_isLetter h hd
  have hgap : isGap g.char = false := by
    have hend : g.char ≠ noChar := hne _ (by decide)
    simp [isGap, isBlank_of_isLetter h, isBreakOrEnd, (isShown_of_isLetter h).isBreak_eq, hend]
  have hbegins : beginsPlain t.inFlow g.char (peek t.rest 1) = true := by
    have hnone : "-?:,[]\x7b\x7d#&*!|>\x27\x22%@\x60".toList.any isLetter = false := rfl
    have hmem : "-?:,[]\x7b\x7d#&*!|>\x27\x22%@\x60".toList.contains g.char = false := by
      rw [Bool.eq_false_iff, ne_eq, List.contains_iff_mem]
      intro hmem
      exact List.any_eq_false.mp hnone _ hmem h
    unfold beginsPlain
    rw [hgap, hmem]
    rfl
  have hpeek : peek t.rest 0 = g.char := by
    rw [hrest]
    rfl
  have hseparator (d : Char) (hd : isLetter d = false) : isSeparator d t.rest = false := by
    simp [isSeparator, hpeek, hne d hd]
  have hempty : t.rest.isEmpty = false := by
    rw [hrest]
    rfl
  unfold fetch
  simp [hpeek, hbegins, hseparator '-' (by decide), hseparator '.' (by decide), hempty,
    hne '%' (by decide), hne '[' (by decide), hne '\x7b' (by decide), hne ']' (by decide),
    hne '\x7d' (by decide), hne ',' (by decide), hne '-' (by decide), hne '?' (by decide),
    hne ':' (by decide), hne '*' (by decide), hne '&' (by decide), hne '!' (by decide),
    hne '|' (by decide), hne '>' (by decide), hne '\x27' (by decide), hne '\x22' (by decide)]

theorem fetch_colon (hrest : t.rest = ⟨':', m₁⟩ :: ⟨' ', m₂⟩ :: r) : t.fetch = t.fetchValue := by
  have hgap : isGap ' ' = true := by decide
  unfold fetch
  simp [hrest, peek, isSeparator, hgap]

theorem fetch_quote (hrest : t.rest = ⟨'\x22', m₁⟩ :: r) :
    t.fetch = t.fetchQuoted .doubleQuoted := by
  unfold fetch
  simp [hrest, peek, isSeparator]

/-! ## The three steps of a line -/

theorem isStale_advance {n : Nat} (hmark : k.mark = m) (h : n ≤ keySpan) :
    k.isStale (m.advance n) = false := by
  have hline : ¬ m.line < m.line := Nat.lt_irrefl _
  have hindex : ¬ m.index + keySpan < m.index + n := by omega
  rw [PossibleKey.isStale, hmark, Bool.or_eq_false_iff]
  exact ⟨decide_eq_false hline, decide_eq_false hindex⟩

/-- The key of an entry is read, and may become one. -/
theorem step_key (hs : s.skipToToken =
      { rest := inline m key ++ ⟨':', m.advance key.length⟩ :: ⟨' ', m₂⟩ :: rest, stop, indents,
        tokens })
    (hindents : ∀ n ∈ indents, n = 0) (hne : key ≠ [])
    (hkey : ∀ c ∈ key, isLetter c = true) (hlength : key.length ≤ keySpan) :
    ∃ u k t, s.step = .ok u ∧ u.ended = false ∧ k.token = tokens.size ∧ k.mark = m ∧
      t.kind = .scalar key .plain ∧ u.skipToToken =
        { rest := ⟨':', m.advance key.length⟩ :: ⟨' ', m₂⟩ :: rest, stop, key := some k, indents,
          keyAllowed := false, tokens := tokens.push t } := by
  obtain ⟨c, key', rfl⟩ := List.exists_cons_of_ne_nil hne
  generalize hlast : m.advance (c :: key').length = last at hs ⊢
  generalize ht : ({ rest := _, stop, indents, tokens } : Scan) = t at hs
  obtain ⟨required, hsave⟩ : ∃ required,
      t.saveKey = .ok { t with key := some ⟨required, t.tokens.size, t.here⟩ } := by
    rw [← ht]
    exact ⟨_, rfl⟩
  have hplain : Scalar.plain { inFlow := t.inFlow, indent := t.indent + 1, start := t.here }
      t.rest = .ok
        { text := c :: key', stop := last, rest := ⟨':', last⟩ :: ⟨' ', m₂⟩ :: rest } := by
    rw [← ht, ← hlast]
    exact Scalar.plain_key hkey rfl rfl
  let k : PossibleKey := ⟨required, tokens.size, m⟩
  let token : Token := ⟨.scalar (c :: key') .plain, m, last⟩
  let u : Scan :=
    { rest := ⟨':', last⟩ :: ⟨' ', m₂⟩ :: rest, stop, key := some k, indents, keyAllowed := false
      tokens := tokens.push token }
  refine ⟨u, k, token, step_eq hs (by rw [← ht]) (by rw [← ht]; exact fresh_none _) ?_ ?_ rfl ?_, rfl, rfl,
    rfl, rfl, skipToToken_eq rfl⟩
  · intro n hn
    rw [← ht] at hn
    obtain rfl := hindents n hn
    exact Int.natCast_nonneg _
  · have hfetch : t.fetch = t.fetchPlain := by
      rw [← ht]
      exact fetch_letter rfl (hkey c List.mem_cons_self)
    rw [hfetch]
    unfold fetchPlain
    rw [hsave]
    change (Scalar.plain { inFlow := t.inFlow, indent := t.indent + 1, start := t.here } t.rest
      >>= _) = _
    rw [hplain, ← ht]
    rfl
  · rintro k ⟨⟩
    change PossibleKey.isStale _ last = false
    rw [← hlast]
    exact isStale_advance rfl hlength

/-- The token that opens a mapping, in front of its first key. -/
def opening (indents : List Nat) : List Token.Kind :=
  if indents = [] then [.blockMappingStart] else []

/-- The colon makes the possible key one, and the first key opens the mapping. -/
theorem step_colon {v : Written} (hv : v.Valid) (hs : s.skipToToken =
      { rest := ⟨':', m₁⟩ :: ⟨' ', m₂⟩ :: (inline m v.chars ++ rest), stop, key := some k, indents,
        keyAllowed := false, tokens })
    (hindents : indents = [] ∨ indents = [0]) (hmark : k.mark.column = 0)
    (hstale : k.isStale m₁ = false) {ts : List Token} {t : Token}
    (htokens : tokens.toList = ts ++ [t]) (htoken : k.token = ts.length) :
    ∃ (u : Scan) (tokens' : Array Token), s.step = .ok u ∧ u.ended = false ∧
      kinds tokens'.toList = kinds ts ++ opening indents ++ [.key, t.kind, .value] ∧
      u.skipToToken =
        { rest := inline m v.chars ++ rest, stop, indents := [0], keyAllowed := false,
          tokens := tokens' } := by
  have hfresh : ∀ k' ∈ some k, k'.isStale m₁ = false := by
    rintro _ ⟨⟩
    exact hstale
  have hcolumn : ∀ n ∈ indents, (n : Int) ≤ m₁.column := by
    intro n hn
    rcases hindents with rfl | rfl
    · cases hn
    · rw [List.eq_of_mem_singleton hn]
      exact Int.natCast_nonneg _
  have hkey := toList_insertIdxIfInBounds htokens ⟨.key, k.mark, k.mark⟩
  rcases hindents with rfl | rfl
  · have hopen := toList_insertIdxIfInBounds hkey ⟨.blockMappingStart, k.mark, k.mark⟩
    rw [← htoken] at hkey hopen
    let u : Scan :=
      { rest := ⟨' ', m₂⟩ :: (inline m v.chars ++ rest), stop, indents := [0], keyAllowed := false
        tokens := ((tokens.insertIdxIfInBounds k.token ⟨.key, k.mark, k.mark⟩).insertIdxIfInBounds
          k.token ⟨.blockMappingStart, k.mark, k.mark⟩).push ⟨.value, m₁, m₂⟩ }
    refine ⟨u, _, step_eq hs rfl hfresh hcolumn ?_ rfl (fresh_none _), rfl, ?_,
      skipToToken_eq (skipFrom_value hv)⟩
    · rw [fetch_colon rfl]
      simp [u, fetchValue, roll, inFlow, indent, hmark, indicator, push, here, markAt]
    · rw [Array.toList_push, hopen]
      simp [kinds, opening]
  · rw [← htoken] at hkey
    let u : Scan :=
      { rest := ⟨' ', m₂⟩ :: (inline m v.chars ++ rest), stop, indents := [0], keyAllowed := false
        tokens := (tokens.insertIdxIfInBounds k.token ⟨.key, k.mark, k.mark⟩).push
          ⟨.value, m₁, m₂⟩ }
    refine ⟨u, _, step_eq hs rfl hfresh hcolumn ?_ rfl (fresh_none _), rfl, ?_,
      skipToToken_eq (skipFrom_value hv)⟩
    · rw [fetch_colon rfl]
      simp [u, fetchValue, roll, inFlow, indent, hmark, indicator, push, here, markAt]
    · rw [Array.toList_push, hkey]
      simp [kinds, opening]

/-- The value of an entry is read, and then the next line is in question. -/
theorem step_value {v : Written} (hv : v.Valid) (hrest : BeginsLine rest)
    (hs : s.skipToToken =
      { rest := inline m v.chars ++ ⟨'\n', m₁⟩ :: rest, stop, indents := [0], keyAllowed := false,
        tokens }) :
    ∃ u t, s.step = .ok u ∧ u.ended = false ∧ t.kind = .scalar v.text v.style ∧
      u.skipToToken = { rest, stop, indents := [0], tokens := tokens.push t } := by
  have hcolumn : ∀ n ∈ [0], ((n : Nat) : Int) ≤ m.column := by
    intro n hn
    rw [List.eq_of_mem_singleton hn]
    exact Int.natCast_nonneg _
  cases hv with
  | @word w hne hw =>
    obtain ⟨c, w', rfl⟩ := List.exists_cons_of_ne_nil hne
    have hplain : Scalar.plain { inFlow := false, indent := 1, start := m }
        (inline m (c :: w') ++ ⟨'\n', m₁⟩ :: rest) =
          .ok { text := c :: w', stop := m.advance (c :: w').length, rest, broke := true } :=
      Scalar.plain_word hw rfl rfl Int.zero_lt_one hrest
    let t : Token := ⟨.scalar (c :: w') .plain, m, m.advance (c :: w').length⟩
    let u : Scan := { rest, stop, indents := [0], tokens := tokens.push t }
    refine ⟨u, t, step_eq hs rfl (fresh_none _) hcolumn ?_ rfl (fresh_none _), rfl, rfl, ?_⟩
    · rw [fetch_letter rfl (hw c List.mem_cons_self)]
      change (Scalar.plain { inFlow := false, indent := 1, start := m }
        (inline m (c :: w') ++ ⟨'\n', m₁⟩ :: rest) >>= _) = _
      rw [hplain]
      rfl
    · exact skipToToken_eq (skipFrom_beginsLine hrest)
  | @quoted w hw =>
    have hchars : inline m (Written.quoted w).chars ++ ⟨'\n', m₁⟩ :: rest =
        ⟨'\x22', m⟩ :: (inline m.next (w.flatMap Scalar.escape) ++
          ⟨'\x22', m.next.advance (w.flatMap Scalar.escape).length⟩ :: ⟨'\n', m₁⟩ :: rest) := by
      simp [Written.chars, inline, inline_append]
    rw [hchars] at hs
    generalize hlast : m.next.advance (w.flatMap Scalar.escape).length = last at hs
    have hquoted : Scalar.quoted true m stop (inline m.next (w.flatMap Scalar.escape) ++
        ⟨'\x22', last⟩ :: ⟨'\n', m₁⟩ :: rest) =
          .ok { text := w, stop := last.next, rest := ⟨'\n', m₁⟩ :: rest } := by
      have hlast' : last.column ≠ 0 := by
        rw [← hlast]
        simp [Mark.advance, Mark.next]
      have hnext : m.next.column ≠ 0 := Nat.succ_ne_zero m.column
      exact Scalar.quotedFrom_escaped hw m stop hnext [] [] hlast'
    let t : Token := ⟨.scalar w .doubleQuoted, m, last.next⟩
    let u : Scan :=
      { rest := ⟨'\n', m₁⟩ :: rest, stop, indents := [0], keyAllowed := false
        tokens := tokens.push t }
    refine ⟨u, t, step_eq hs rfl (fresh_none _) hcolumn ?_ rfl (fresh_none _), rfl, rfl, ?_⟩
    · rw [fetch_quote rfl]
      change (Scalar.quoted true m stop (inline m.next (w.flatMap Scalar.escape) ++
        ⟨'\x22', last⟩ :: ⟨'\n', m₁⟩ :: rest) >>= _) = _
      rw [hquoted]
      rfl
    · exact skipToToken_eq (skipFrom_beginsLine hrest)

/-- The end of the text closes the mapping. -/
theorem step_end (hs : s.skipToToken = { rest := [], stop, indents, tokens })
    (hindents : indents = [] ∨ indents = [0]) : ∃ u, s.step = .ok u ∧ u.ended = true ∧
      kinds u.tokens.toList =
        kinds tokens.toList ++ indents.map (fun _ => .blockEnd) ++ [.streamEnd] := by
  have hcolumn : ∀ n ∈ indents, (n : Int) ≤ stop.column := by
    intro n hn
    rcases hindents with rfl | rfl
    · cases hn
    · rw [List.eq_of_mem_singleton hn]
      exact Int.natCast_nonneg _
  generalize hlast : (if stop.column = 0 then stop else ⟨stop.index, stop.line + 1, 0⟩) = last
  rcases hindents with rfl | rfl
  · let u : Scan :=
      { rest := [], stop := last, keyAllowed := false, ended := true
        tokens := tokens.push ⟨.streamEnd, last, last⟩ }
    refine ⟨u, step_eq hs rfl (fresh_none _) hcolumn ?_ rfl (fresh_none _), rfl, ?_⟩
    · simp [u, fetch, fetchEnd, unroll, inFlow, dropKey, push, here, markAt, hlast, bind,
        Except.bind]
    · simp [u, kinds]
  · let u : Scan :=
      { rest := [], stop := last, keyAllowed := false, ended := true
        tokens := (tokens.push ⟨.blockEnd, last, last⟩).push ⟨.streamEnd, last, last⟩ }
    refine ⟨u, step_eq hs rfl (fresh_none _) hcolumn ?_ rfl (fresh_none _), rfl, ?_⟩
    · simp [u, fetch, fetchEnd, unroll, inFlow, dropKey, push, here, markAt, hlast, bind,
        Except.bind]
    · simp [u, kinds]

/-- The line of an entry is read in three steps. -/
theorem run_entry {e : Entry} (he : e.Valid) (hm : m.column = 0)
    (hindents : indents = [] ∨ indents = [0]) (hrest : BeginsLine rest)
    (hs : s.skipToToken =
      { rest := inline m e.chars ++ ⟨'\n', m₁⟩ :: rest, stop, indents, tokens }) :
    ∃ (u : Scan) (tokens' : Array Token), (∀ fuel, run none (fuel + 3) s = run none fuel u) ∧
      u.skipToToken = { rest, stop, indents := [0], tokens := tokens' } ∧
      kinds tokens'.toList = kinds tokens.toList ++ opening indents ++ e.tokens := by
  have hchars : inline m e.chars ++ ⟨'\n', m₁⟩ :: rest =
      inline m e.key ++ ⟨':', m.advance e.key.length⟩ ::
        ⟨' ', (m.advance e.key.length).next⟩ ::
          (inline (m.advance e.key.length).next.next e.value.chars ++ ⟨'\n', m₁⟩ :: rest) := by
    simp [Entry.chars, inline, inline_append]
  rw [hchars] at hs
  have hzero : ∀ n ∈ indents, n = 0 := by
    rcases hindents with rfl | rfl
    · exact List.forall_mem_nil _
    · exact List.forall_mem_singleton.mpr rfl
  obtain ⟨u₁, k, t₁, hkey, hmore₁, htoken, hmark, hkind, hs₁⟩ :=
    step_key hs hzero he.key_ne he.key_letters he.key_length
  have hcolumn : k.mark.column = 0 := by rw [hmark, hm]
  have hlength : k.token = tokens.toList.length := by rw [htoken, Array.length_toList]
  obtain ⟨u₂, tokens₂, hcolon, hmore₂, hkinds, hs₂⟩ := step_colon he.value hs₁ hindents hcolumn
    (isStale_advance hmark he.key_length) (Array.toList_push ..) hlength
  obtain ⟨u, t, hvalue, hmore, ht, hu⟩ := step_value he.value hrest hs₂
  refine ⟨u, tokens₂.push t, ?_, hu, ?_⟩
  · intro fuel
    rw [run_succ hkey hmore₁, run_succ hcolon hmore₂, run_succ hvalue hmore]
  · rw [Array.toList_push, kinds, List.map_append, ← kinds, hkinds]
    simp [ht, hkind, Entry.tokens]

end Scan

/-! ## Whole texts -/

section
variable {es : List Entry}

theorem Entry.textOf_cons (e : Entry) (es : List Entry) :
    textOf (e :: es) = e.chars ++ '\n' :: textOf es := by
  simp [textOf]

theorem beginsLine_textOf (h : ∀ e ∈ es, e.Valid) {m : Mark} (hm : m.column = 0) :
    BeginsLine (marked m (Entry.textOf es)).1 := by
  cases es with
  | nil => exact nofun
  | cons e es =>
    have he := h e List.mem_cons_self
    obtain ⟨c, key, hkey⟩ := List.exists_cons_of_ne_nil he.key_ne
    have hc : isLetter c = true := he.key_letters c (by rw [hkey]; exact List.mem_cons_self)
    rw [Entry.textOf_cons, Entry.chars, hkey, List.cons_append, List.cons_append,
      marked_cons (isShown_of_isLetter hc)]
    rintro _ ⟨⟩
    exact ⟨hm, hc⟩

/-- Lines are read one after the other, up to the end of the text. -/
theorem Scan.run_entries (h : ∀ e ∈ es, e.Valid) {m : Mark} (hm : m.column = 0) {s : Scan}
    {tokens : Array Token} {fuel : Nat} (hfuel : (marked m (Entry.textOf es)).1.length < fuel)
    (hs : s.skipToToken =
      { rest := (marked m (Entry.textOf es)).1, stop := (marked m (Entry.textOf es)).2,
        indents := [0], tokens }) :
    ∃ ts, run none fuel s = ⟨ts, none⟩ ∧
      kinds ts = kinds tokens.toList ++ es.flatMap Entry.tokens ++ [.blockEnd, .streamEnd] := by
  induction es generalizing m s tokens fuel with
  | nil =>
    obtain ⟨fuel, rfl⟩ := Nat.exists_eq_add_one_of_ne_zero (Nat.ne_zero_of_lt hfuel)
    obtain ⟨u, hstep, hended, hkinds⟩ := step_end hs (.inr rfl)
    refine ⟨u.tokens.toList, run_of_ended hstep hended fuel, ?_⟩
    simpa using hkinds
  | cons e es ih =>
    obtain ⟨he, hes⟩ := List.forall_mem_cons.mp h
    have hlength := he.length_chars
    rw [Entry.textOf_cons, marked_line he.forall_chars] at hs hfuel
    dsimp only at hs hfuel
    generalize hend : Mark.newLine _ 1 = next at hs hfuel
    have hnext : next.column = 0 := by
      rw [← hend]
      rfl
    simp only [List.length_append, List.length_cons, length_inline] at hfuel
    obtain ⟨fuel, rfl⟩ : ∃ k, fuel = k + 3 := ⟨fuel - 3, by omega⟩
    have hfuel' : (marked next (Entry.textOf es)).1.length < fuel := by omega
    obtain ⟨u, tokens', hrun, hu, hkinds⟩ :=
      run_entry he hm (.inr rfl) (beginsLine_textOf hes hnext) hs
    obtain ⟨ts, hts, hk⟩ := ih hes hnext hfuel' hu
    refine ⟨ts, (hrun fuel).trans hts, ?_⟩
    rw [hk, hkinds]
    simp [opening]

/-- The tokens of entries, which are a mapping if there are any. -/
def Entry.block (es : List Entry) : List Token.Kind :=
  if es = [] then [] else .blockMappingStart :: (es.flatMap tokens ++ [.blockEnd])

theorem isPrintable_textOf (h : ∀ e ∈ es, e.Valid) :
    ∀ c ∈ Entry.textOf es, isPrintable c = true := by
  refine List.forall_mem_flatMap.mpr fun e he => List.forall_mem_append.mpr ⟨?_, ?_⟩
  · exact fun c hc => ((h e he).forall_chars c hc).isPrintable_eq
  · exact List.forall_mem_singleton.mpr (by decide)

/-- The tokens of a text with entries in its lines are those of a mapping. -/
theorem Token.scan_entries (h : ∀ e ∈ es, e.Valid) : ∃ ts,
    Token.scan (Entry.textOf es) = ⟨ts, none⟩ ∧
      kinds ts = .streamStart :: (Entry.block es ++ [.streamEnd]) := by
  have hscan : Token.scan (Entry.textOf es) = Token.scanBefore none (Entry.textOf es) := by
    unfold scan
    rw [readable?_eq_none (isPrintable_textOf h)]
  rw [hscan]
  let start : Token := ⟨.streamStart, .zero, .zero⟩
  cases es with
  | nil =>
    let s : Scan := { rest := [], stop := .zero, tokens := #[start] }
    have hs : s.skipToToken = s := rfl
    obtain ⟨u, hstep, hended, hkinds⟩ := Scan.step_end hs (.inl rfl)
    exact ⟨u.tokens.toList, Scan.run_of_ended hstep hended 0, hkinds⟩
  | cons e es =>
    obtain ⟨he, hes⟩ := List.forall_mem_cons.mp h
    have hbegins := beginsLine_textOf h (m := .zero) rfl
    unfold scanBefore
    rw [Entry.textOf_cons, marked_line he.forall_chars] at hbegins ⊢
    dsimp only at hbegins ⊢
    generalize hend : Mark.newLine _ 1 = next at hbegins ⊢
    let s : Scan :=
      { rest := inline .zero e.chars ++ ⟨'\n', Mark.zero.advance e.chars.length⟩ ::
          (marked next (Entry.textOf es)).1
        stop := (marked next (Entry.textOf es)).2
        tokens := #[start] }
    have hs : s.skipToToken = s := Scan.skipToToken_eq (Scan.skipFrom_beginsLine hbegins)
    have hnext : next.column = 0 := by
      rw [← hend]
      rfl
    have hlength := he.length_chars
    obtain ⟨fuel, hfuel, hrest⟩ : ∃ k, s.rest.length + 1 = k + 3 ∧
        (marked next (Entry.textOf es)).1.length < k := by
      refine ⟨s.rest.length - 2, ?_⟩
      simp only [s, List.length_append, List.length_cons, length_inline]
      omega
    obtain ⟨u, tokens, hrun, hu, hkinds⟩ :=
      Scan.run_entry he rfl (.inl rfl) (beginsLine_textOf hes hnext) hs
    obtain ⟨ts, hts, hk⟩ := Scan.run_entries hes hnext hrest hu
    refine ⟨ts, ?_, ?_⟩
    · change Scan.run none (s.rest.length + 1) s = _
      rw [hfuel, hrun, hts]
    · rw [hk, hkinds]
      simp [kinds, start, Scan.opening, Entry.block]

end

end Keyfile.Yaml
