import Keyfile.Proofs.Base58
import Keyfile.Proofs.Json.Object
import Keyfile.Proofs.Session
import Keyfile.Proofs.Text.Utf8
import Keyfile.Report

/-!
# Reports that are read back

The document of a report is read as one object in either layout, whatever the texts in the report
hold, and the object gives the report back. In the compact layout the document is a single line.
-/
namespace Keyfile

/-! ## Control characters -/

namespace Json
variable {t : List Char} {ms : List (String × Json)}

theorem hexValue?_printable {c : Char} {n : Nat} (h : hexValue? c = some n) : 0x20 ≤ c.toNat := by
  unfold hexValue? at h
  split_ifs at h with h₁ h₂ h₃
  · exact Nat.le_trans (by decide) h₁.1
  · exact Nat.le_trans (by decide) h₂.1
  · exact Nat.le_trans (by decide) h₃.1

theorem Quad.printable {n : Nat} (h : Quad t n) : ∀ c ∈ t, 0x20 ≤ c.toNat := by
  cases h with
  | intro ha hb hc hd =>
    simp only [List.forall_mem_cons]
    exact ⟨hexValue?_printable ha, hexValue?_printable hb, hexValue?_printable hc,
      hexValue?_printable hd, List.forall_mem_nil _⟩

theorem CharText.printable {c : Char} (h : CharText t c) : ∀ c ∈ t, 0x20 ≤ c.toNat := by
  have hslash : 0x20 ≤ '\\'.toNat := by decide
  have hu : 0x20 ≤ 'u'.toNat := by decide
  cases h with
  | plain _ _ hc => exact List.forall_mem_singleton.mpr hc
  | @short e c he =>
    have hall : ∀ p ∈ shortEscapes, 0x20 ≤ p.1.toNat := by decide
    simp only [List.forall_mem_cons]
    exact ⟨hslash, hall (e, c) he, List.forall_mem_nil _⟩
  | unit hq _ =>
    simp only [List.forall_mem_cons]
    exact ⟨hslash, hu, hq.printable⟩
  | pair hq _ _ hq' _ _ =>
    simp only [List.forall_mem_cons, List.forall_mem_append]
    exact ⟨hslash, hu, hq.printable, hslash, hu, hq'.printable⟩

/-- The text of a string holds no control characters, whatever the string holds. -/
theorem StringText.printable {s : String} (h : StringText t s) : ∀ c ∈ t, 0x20 ≤ c.toNat := by
  cases h with
  | intro hs =>
    have hbody {u cs : List Char} (hs : CharsText u cs) : ∀ c ∈ u, 0x20 ≤ c.toNat := by
      induction hs with
      | nil => exact List.forall_mem_nil _
      | cons hc _ ih => exact List.forall_mem_append.mpr ⟨hc.printable, ih⟩
    simp only [List.forall_mem_cons, List.forall_mem_append]
    exact ⟨by decide, hbody hs, by decide, List.forall_mem_nil _⟩

theorem newline_not_mem_quote (s : String) : '\n' ∉ quote s := by
  intro h
  exact absurd ((stringText_quote s).printable '\n' h) (by decide)

theorem newline_not_mem_compactMembers (h : ∀ x ∈ ms, ∃ s, x.2 = .string s) :
    '\n' ∉ compactMembers ms := by
  induction ms with
  | nil => simp only [compactMembers, List.not_mem_nil, not_false_eq_true]
  | cons m ms ih =>
    obtain ⟨n, v⟩ := m
    obtain ⟨s, rfl⟩ : ∃ s, v = .string s := h (n, v) List.mem_cons_self
    have hms := ih fun x hx => h x (List.mem_cons_of_mem _ hx)
    have hn := newline_not_mem_quote n
    have hs := newline_not_mem_quote s
    cases ms with
    | nil =>
      simp only [compactMembers, compactChars, scalarText, List.mem_append, List.mem_cons]
      simp [hn, hs]
    | cons m' ms =>
      simp only [compactMembers, compactChars, scalarText, List.mem_append, List.mem_cons]
      simp [hn, hs, hms]

theorem newline_not_mem_compact (h : ∀ x ∈ ms, ∃ s, x.2 = .string s) :
    '\n' ∉ (JsonFormat.compact.render (.object ms)).toList := by
  have hms := newline_not_mem_compactMembers h
  rw [JsonFormat.render, compact, String.toList_ofList, compactChars]
  simp [hms]

end Json

/-! ## The object of a report -/

open Json

namespace OutputOptions
variable {output : OutputOptions}

theorem format?_eq_none_iff : output.format? = none ↔ output.isJson = false := by
  obtain ⟨json, compact⟩ := output
  cases json <;> cases compact <;> decide

theorem exists_format (h : output.isJson = true) : ∃ f, output.format? = some f := by
  cases hf : output.format? with
  | some f => exact ⟨f, rfl⟩
  | none =>
    rw [format?_eq_none_iff.mp hf] at h
    cases h

end OutputOptions

namespace Report
variable {r r' : Report} {output : OutputOptions} {f : JsonFormat}

/-- The members of the document on a report, in the order of their names. -/
def sortedMembers (r : Report) : List (String × Json) :=
  ("pubkey", .string r.publicKey.text) ::
    ((r.savedTo.map fun path => ("saved_to", Json.string path)).toList ++
      [("secret_base58", .string r.secretText)])

theorem ofMembers_members (r : Report) : ofMembers r.members = .object r.sortedMembers := by
  have hkey : ofMembers [("pubkey", .string r.publicKey.text)] =
      .object [("pubkey", .string r.publicKey.text)] := rfl
  -- the members are sorted by their names, so the path comes between the two texts
  have hkeys := ofMembers_concat hkey "secret_base58" (.string r.secretText)
  rw [insert_of_not_lt (by decide) (by decide), insert_nil] at hkeys
  obtain ⟨key, secret, saved⟩ := r
  cases saved with
  | none => exact hkeys
  | some path =>
    have hpath := ofMembers_concat hkeys "saved_to" (.string path)
    rw [insert_of_not_lt (by decide) (by decide), insert_of_lt (by decide) (by decide)] at hpath
    exact hpath

theorem exists_string_of_mem_members {x : String × Json} (h : x ∈ r.members) :
    ∃ s, x.2 = .string s := by
  rcases List.mem_append.mp h with hkeys | hpath
  · obtain rfl | rfl := List.mem_pair.mp hkeys
    · exact ⟨_, rfl⟩
    · exact ⟨_, rfl⟩
  · cases hs : r.savedTo with
    | none =>
      rw [hs] at hpath
      cases hpath
    | some path =>
      rw [hs] at hpath
      rw [List.eq_of_mem_singleton hpath]
      exact ⟨_, rfl⟩

/-- The text of the document without the line break behind it. -/
def documentChars (f : JsonFormat) (r : Report) : List Char := (f.render (.object r.members)).toList

theorem document_documentChars (f : JsonFormat) (r : Report) :
    Document (documentChars f r) (.object r.sortedMembers) := by
  have hspelled : ∀ x ∈ r.members, Spelled 126 x.2 := by
    intro x hx
    obtain ⟨s, hs⟩ := exists_string_of_mem_members hx
    rw [hs]
    exact spelled_string 126 s
  rw [← ofMembers_members]
  exact (nested_object f hspelled).document

theorem textBytes_document (hf : output.format? = some f) (r : Report) :
    textBytes (r.document? output).toList = Utf8.encode (documentChars f r ++ ['\n']) := by
  unfold Report.document?
  rw [hf, Option.map_some, Option.toList_some, textBytes, List.flatMap_singleton,
    Utf8.ofString, String.toList_append]
  rfl

/-- The object of a report gives the report back. -/
theorem sortedMembers_injective (h : r.sortedMembers = r'.sortedMembers) : r = r' := by
  obtain ⟨key, secret, saved⟩ := r
  obtain ⟨key', secret', saved'⟩ := r'
  -- a path makes the object longer, so the reports have a path both or neither
  have hparts : key.text = key'.text ∧ secret = secret' ∧ saved = saved' := by
    cases saved <;> cases saved' <;> simp_all [sortedMembers]
  obtain ⟨hkey, rfl, rfl⟩ := hparts
  obtain rfl : key = key' := by
    obtain ⟨b, _⟩ := key
    obtain ⟨b', _⟩ := key'
    rw [PublicKey.mk.injEq]
    exact Base58.encode_injective hkey
  rfl

/-- Where a document is asked for, nothing else is written, and it is one line break behind a text
that is read as the object of the report in either layout; the compact text holds no line break.
Different reports have different documents. Where none is asked for, none is written. -/
theorem document_faithful (r : Report) :
    (∀ output : OutputOptions, output.isJson = true → textBytes (r.lines output) = [] ∧
      ∃ t : List Char, textBytes (r.document? output).toList = Utf8.encode (t ++ ['\n']) ∧
        Json.read t = .ok (.object r.sortedMembers) ∧
        Json.read (t ++ ['\n']) = .ok (.object r.sortedMembers) ∧
        (output.format? = some .compact → '\n' ∉ t)) ∧
    (∀ output : OutputOptions, output.isJson = true → ∀ r' : Report,
      textBytes (r.document? output).toList = textBytes (r'.document? output).toList → r = r') ∧
    (∀ output : OutputOptions, output.isJson = false →
      textBytes (r.document? output).toList = []) := by
  refine ⟨?_, ?_, ?_⟩
  · intro output h
    obtain ⟨f, hf⟩ := OutputOptions.exists_format h
    have hdoc := document_documentChars f r
    have hbreak : Spaces ['\n'] := by
      intro c hc
      rw [List.eq_of_mem_singleton hc]
      rfl
    refine ⟨?_, documentChars f r, textBytes_document hf r, read_eq_ok_iff.mpr hdoc,
      read_eq_ok_iff.mpr (hdoc.append_spaces hbreak), ?_⟩
    · rw [lines, if_pos h]
      rfl
    · intro hcompact
      cases hf.symm.trans hcompact
      exact newline_not_mem_compact fun _ => exists_string_of_mem_members
  · intro output h r' htext
    obtain ⟨f, hf⟩ := OutputOptions.exists_format h
    rw [textBytes_document hf, textBytes_document hf] at htext
    have hchars := congrArg Utf8.decode? htext
    rw [Utf8.decode?_encode, Utf8.decode?_encode, Option.some.injEq,
      List.append_cancel_right_eq] at hchars
    have hdoc := document_documentChars f r
    rw [hchars] at hdoc
    have hobject := hdoc.unique (document_documentChars f r')
    rw [object.injEq] at hobject
    exact sortedMembers_injective hobject
  · intro output h
    rw [document?, OutputOptions.format?_eq_none_iff.mpr h]
    rfl

end Report

end Keyfile
