import Keyfile.Proofs.Yaml.Token
import Keyfile.Yaml.Document

/-!
# Events of entries that stand in lines of their own

The tokens of a text of entries are worked off part by part. The document is one mapping, whose keys
and values are scalars in the order in which they are written.
-/
namespace Keyfile.Yaml

namespace Entry

/-- The events of an entry. -/
def events (e : Entry) : List Event.Kind :=
  [.scalar {} e.key .plain, .scalar {} e.value.text e.value.style]

/-- The items of an entry. -/
def items (e : Entry) : List Item.Kind :=
  [.scalar none e.key .plain, .scalar none e.value.text e.value.style]

theorem length_items (es : List Entry) : (es.flatMap items).length = 2 * es.length := by
  induction es with
  | nil => rfl
  | cons e es ih =>
    rw [List.flatMap_cons, List.length_append, ih, List.length_cons]
    exact Nat.add_comm 2 _

end Entry

namespace Outline

variable {o o' : Outline} {p : Part} {parts : List Part} {ks : List Token.Kind} {ts : List Token}
  {handles : List (Bytes × Bytes)} {start : Mark} {seen : List Event} {fuel : Nat}

theorem run_of_none (hparts : o.parts = p :: parts)
    (h : part p { o with parts } = .ok (none, o')) (seen : List Event) (fuel : Nat) :
    run seen (fuel + 1) o = run seen fuel o' := by
  rw [run, hparts]
  dsimp only
  rw [h]

theorem run_of_some {e : Event} (hparts : o.parts = p :: parts)
    (h : part p { o with parts } = .ok (some e, o')) (seen : List Event) (fuel : Nat) :
    run seen (fuel + 1) o = run (e :: seen) fuel o' := by
  rw [run, hparts]
  dsimp only
  rw [h]

theorem exists_token {k : Token.Kind} (h : kinds ts = k :: ks) :
    ∃ start stop ts', ts = ⟨k, start, stop⟩ :: ts' ∧ kinds ts' = ks := by
  obtain ⟨⟨_, start, stop⟩, ts', rfl, rfl, hts⟩ := List.map_eq_cons_iff.mp h
  exact ⟨start, stop, ts', rfl, hts⟩

/-- An entry is worked off in four parts, two of which are scalars. -/
theorem run_entry {e : Entry} (h : kinds ts = e.tokens ++ ks) (start : Mark) (parts : List Part)
    (handles : List (Bytes × Bytes)) :
    ∃ ts' m m', kinds ts' = ks ∧ ∀ seen fuel,
      run seen (fuel + 4) ⟨ts, none, .blockKeys start :: parts, handles⟩ =
        run (⟨.scalar {} e.value.text e.value.style, m'⟩ :: ⟨.scalar {} e.key .plain, m⟩ :: seen)
          fuel ⟨ts', none, .blockKeys start :: parts, handles⟩ := by
  obtain ⟨m₁, m₁', ts₁, rfl, h₁⟩ := exists_token h
  obtain ⟨m₂, m₂', ts₂, rfl, h₂⟩ := exists_token h₁
  obtain ⟨m₃, m₃', ts₃, rfl, h₃⟩ := exists_token h₂
  obtain ⟨m₄, m₄', ts₄, rfl, h₄⟩ := exists_token h₃
  refine ⟨ts₄, m₂, m₄, h₄, ?_⟩
  intro seen fuel
  -- the key's indicator, the key, the value's indicator, the value
  refine (run_of_none rfl rfl seen (fuel + 3)).trans ?_
  refine (run_of_some rfl rfl seen (fuel + 2)).trans ?_
  refine (run_of_none rfl rfl _ (fuel + 1)).trans ?_
  exact run_of_some rfl rfl _ fuel

/-- The entries of a mapping are worked off up to the end of the text. -/
theorem run_entries {es : List Entry}
    (h : kinds ts = es.flatMap Entry.tokens ++ [.blockEnd, .streamEnd])
    (hfuel : 4 * es.length + 4 ≤ fuel) (start : Mark) (handles : List (Bytes × Bytes))
    (seen : List Event) :
    ∃ events, run seen fuel ⟨ts, none, [.blockKeys start, .documentEnd], handles⟩ =
        ⟨seen.reverse ++ events, none⟩ ∧
      events.map (·.kind) = es.flatMap Entry.events ++ [.mappingEnd, .documentEnd] := by
  induction es generalizing ts seen fuel with
  | nil =>
    obtain ⟨m, m', ts₁, rfl, h₁⟩ := exists_token h
    obtain ⟨m₁, m₁', ts₂, rfl, h₂⟩ := exists_token h₁
    rw [kinds, List.map_eq_nil_iff] at h₂
    subst h₂
    obtain ⟨fuel, rfl⟩ : ∃ k, fuel = k + 4 := ⟨fuel - 4, by simp at hfuel; omega⟩
    refine ⟨[⟨.mappingEnd, m⟩, ⟨.documentEnd, m₁⟩], ?_, rfl⟩
    refine (run_of_some rfl rfl _ (fuel + 3)).trans ?_
    refine (run_of_some rfl rfl _ (fuel + 2)).trans ?_
    refine (run_of_none rfl rfl _ (fuel + 1)).trans ?_
    simp [run]
  | cons e es ih =>
    rw [List.flatMap_cons, List.append_assoc] at h
    obtain ⟨ts', m, m', hts, hrun⟩ := run_entry h start [.documentEnd] handles
    obtain ⟨fuel, rfl⟩ : ∃ k, fuel = k + 4 := ⟨fuel - 4, by omega⟩
    rw [List.length_cons] at hfuel
    obtain ⟨events, hevents, hkinds⟩ := ih hts (by omega : 4 * es.length + 4 ≤ fuel)
      (⟨.scalar {} e.value.text e.value.style, m'⟩ :: ⟨.scalar {} e.key .plain, m⟩ :: seen)
    refine ⟨⟨.scalar {} e.key .plain, m⟩ :: ⟨.scalar {} e.value.text e.value.style, m'⟩ :: events,
      ?_, ?_⟩
    · rw [hrun, hevents]
      simp
    · simp [hkinds, Entry.events]

end Outline

/-- The events of entries: those of a mapping, if there are any entries. -/
def Entry.mappingEvents (es : List Entry) : List Event.Kind :=
  if es = [] then []
  else [.documentStart, .mappingStart {}] ++ es.flatMap events ++ [.mappingEnd, .documentEnd]

theorem Entry.length_block {es : List Entry} (h : es ≠ []) :
    (block es).length = 4 * es.length + 2 := by
  have hsum (es : List Entry) : (es.flatMap tokens).length = 4 * es.length := by
    induction es with
    | nil => rfl
    | cons e es ih =>
      rw [List.flatMap_cons, List.length_append, ih, List.length_cons, tokens]
      simp only [List.length_cons, List.length_nil]
      omega
  rw [block, if_neg h, List.length_cons, List.length_append, hsum, List.length_singleton]

/-- The events of a text with entries in its lines are those of a mapping. -/
theorem Event.read_entries {es : List Entry} (h : ∀ e ∈ es, e.Valid) : ∃ events,
    Event.read (Entry.textOf es) = ⟨events, none⟩ ∧
      events.map (·.kind) = Entry.mappingEvents es := by
  obtain ⟨ts, hscan, hkinds⟩ := Token.scan_entries h
  have hlength : ts.length = (Entry.block es).length + 2 := by
    rw [← List.length_map (·.kind), ← kinds, hkinds, List.length_cons, List.length_append]
    rfl
  unfold read
  rw [hscan]
  dsimp only
  rw [hlength]
  obtain ⟨m, m', ts', rfl, hts⟩ := Outline.exists_token hkinds
  rw [List.drop_one, List.tail_cons]
  cases es with
  | nil =>
    obtain ⟨m₁, m₁', ts₁, rfl, h₁⟩ := Outline.exists_token hts
    rw [kinds, List.map_eq_nil_iff] at h₁
    subst h₁
    exact ⟨[], rfl, rfl⟩
  | cons e es =>
    rw [Entry.block, if_neg (List.cons_ne_nil e es), List.cons_append, List.append_assoc] at hts
    obtain ⟨m₁, m₁', ts₁, rfl, h₁⟩ := Outline.exists_token hts
    have hblock := Entry.length_block (List.cons_ne_nil e es)
    obtain ⟨fuel, hk, hfuel⟩ : ∃ k, 8 * ((Entry.block (e :: es)).length + 2 + 1) = k + 2 ∧
        4 * (e :: es).length + 4 ≤ k :=
      ⟨8 * ((Entry.block (e :: es)).length + 2 + 1) - 2, by omega, by omega⟩
    rw [hk]
    obtain ⟨events, hevents, hkinds⟩ := Outline.run_entries h₁ hfuel m₁ standardHandles
      [⟨.mappingStart {}, m₁⟩, ⟨.documentStart, m₁⟩]
    refine ⟨⟨.documentStart, m₁⟩ :: ⟨.mappingStart {}, m₁⟩ :: events, ?_, ?_⟩
    · refine (Outline.run_of_some rfl rfl _ (fuel + 1)).trans ?_
      refine (Outline.run_of_some rfl rfl _ fuel).trans ?_
      exact hevents
    · simp [hkinds, Entry.mappingEvents]

/-! ## The document -/

namespace Document

variable {es : List Entry} {events : List Event}

theorem exists_event {k : Event.Kind} {ks : List Event.Kind}
    (h : events.map (·.kind) = k :: ks) :
    ∃ m events', events = ⟨k, m⟩ :: events' ∧ events'.map (·.kind) = ks := by
  obtain ⟨⟨_, m⟩, events', rfl, rfl, hevents⟩ := List.map_eq_cons_iff.mp h
  exact ⟨m, events', rfl, hevents⟩

/-- Keys and values become items one by one, up to the end of the document. -/
theorem readFrom_entries (d : Document)
    (h : events.map (·.kind) = es.flatMap Entry.events ++ [.mappingEnd, .documentEnd]) :
    ∃ items, readFrom d none events = { d with items := items, more := false } ∧
      items.toList.map (·.kind) =
        d.items.toList.map (·.kind) ++ es.flatMap Entry.items ++ [.mappingEnd] := by
  induction es generalizing d events with
  | nil =>
    obtain ⟨m, events₁, rfl, h₁⟩ := exists_event h
    obtain ⟨m₁, events₂, rfl, h₂⟩ := exists_event h₁
    rw [List.map_eq_nil_iff] at h₂
    subst h₂
    exact ⟨d.items.push ⟨.mappingEnd, m⟩, rfl, by simp⟩
  | cons e es ih =>
    rw [List.flatMap_cons, List.append_assoc] at h
    obtain ⟨m, events₁, rfl, h₁⟩ := exists_event h
    obtain ⟨m₁, events₂, rfl, h₂⟩ := exists_event h₁
    obtain ⟨items, hitems, hkinds⟩ := ih ((d.add (.scalar none e.key .plain) m).add
      (.scalar none e.value.text e.value.style) m₁) h₂
    refine ⟨items, hitems, ?_⟩
    rw [hkinds]
    simp [add, Entry.items]

/-- The document of a text with entries in its lines is their mapping, if there are any. -/
theorem read_entries (h : ∀ e ∈ es, e.Valid) :
    (Document.read (Entry.textOf es)).fault = none ∧
      (Document.read (Entry.textOf es)).more = false ∧
      (Document.read (Entry.textOf es)).items.toList.map (·.kind) =
        if es = [] then []
        else .mappingStart none :: (es.flatMap Entry.items ++ [.mappingEnd]) := by
  obtain ⟨events, hread, hkinds⟩ := Event.read_entries h
  unfold Document.read
  rw [hread]
  dsimp only
  cases es with
  | nil =>
    obtain rfl : events = [] := List.map_eq_nil_iff.mp hkinds
    exact ⟨rfl, rfl, rfl⟩
  | cons e es =>
    obtain ⟨m, events₁, rfl, h₁⟩ := exists_event hkinds
    obtain ⟨m₁, events₂, rfl, h₂⟩ := exists_event h₁
    obtain ⟨items, hitems, hk⟩ := readFrom_entries (add {} (.mappingStart none) m₁) h₂
    have hread' : readFrom {} none (⟨.documentStart, m⟩ :: ⟨.mappingStart {}, m₁⟩ :: events₂) = _ :=
      hitems
    rw [hread', if_neg (List.cons_ne_nil e es)]
    refine ⟨rfl, rfl, ?_⟩
    simpa [add] using hk

end Document

end Keyfile.Yaml
