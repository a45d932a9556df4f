import Keyfile.Proofs.Command.Choice

/-!
# Output that closes

Standard output may take only so many bytes. An action that writes to it as to a stream does the
same as with room for everything, up to the byte where the room ends; there it fails. So a command
whose output closes has written the start of what it would have written, and a keypair that it was
to store is stored as a whole or not at all.
-/
namespace Keyfile

/-- The world with room for this many bytes of output. -/
def World.withRoom (w : World) (n : Nat) : World := { w with room := some n }

namespace Action

/-- With room for all output the action writes `u`. With as much room as that it does the same, and
with less it fails where the room ends. -/
structure Writes {α : Type} (a : Action α) (w : World) (u : Bytes) : Prop where
  room_eq : (a.after w).room = none
  output_eq : (a.after w).output = w.output ++ u
  enough {n : Nat} : u.length ≤ n → a.result (w.withRoom n) = a.result w ∧
    a.after (w.withRoom n) = (a.after w).withRoom (n - u.length)
  short {n : Nat} : n < u.length → a.result (w.withRoom n) = .error .outputClosed ∧
    (a.after (w.withRoom n)).output = w.output ++ u.take n

/-- An action to which room for output matters only when it ends. -/
def Streams {α : Type} (a : Action α) : Prop := ∀ w, w.room = none → ∃ u, Writes a w u

variable {α β : Type} {a : Action α} {f : α → Action β} {w : World} {u : Bytes}

/-- Room does not matter to an action that writes nothing. -/
theorem Streams.of_silent (hr : ∀ w n, a.result (w.withRoom n) = a.result w)
    (ha : ∀ w n, a.after (w.withRoom n) = (a.after w).withRoom n)
    (ho : ∀ w, (a.after w).output = w.output) (hroom : ∀ w, (a.after w).room = w.room) :
    Streams a := by
  intro w h
  refine ⟨[], ?_, ?_, ?_, ?_⟩
  · rw [hroom, h]
  · rw [ho, List.append_nil]
  · intro n _
    exact ⟨hr w n, ha w n⟩
  · intro n hn
    cases hn

theorem streams_pure (x : α) : Streams (pure x) :=
  .of_silent (fun _ _ => rfl) (fun _ _ => rfl) (fun _ => rfl) fun _ => rfl

theorem Writes.bind_of_error {e : Failure} (hu : Writes a w u) (h : a.result w = .error e) :
    Writes (a >>= f) w u := by
  refine ⟨?_, ?_, ?_, ?_⟩
  · rw [after_bind_of_error h]
    exact hu.room_eq
  · rw [after_bind_of_error h]
    exact hu.output_eq
  · intro n hn
    obtain ⟨hr, ha⟩ := hu.enough hn
    rw [result_bind_of_error (hr.trans h), result_bind_of_error h,
      after_bind_of_error (hr.trans h), after_bind_of_error h]
    exact ⟨rfl, ha⟩
  · intro n hn
    obtain ⟨hr, ho⟩ := hu.short hn
    rw [result_bind_of_error hr, after_bind_of_error hr]
    exact ⟨rfl, ho⟩

theorem Writes.bind_of_ok {x : α} {v : Bytes} (hu : Writes a w u) (h : a.result w = .ok x)
    (hv : Writes (f x) (a.after w) v) : Writes (a >>= f) w (u ++ v) := by
  refine ⟨?_, ?_, ?_, ?_⟩
  · rw [after_bind_of_ok h]
    exact hv.room_eq
  · rw [after_bind_of_ok h, hv.output_eq, hu.output_eq, List.append_assoc]
  · intro n hn
    rw [List.length_append] at hn ⊢
    obtain ⟨hr, ha⟩ := hu.enough (Nat.le_of_add_right_le hn)
    obtain ⟨hr', ha'⟩ := hv.enough (Nat.le_sub_of_add_le' hn)
    rw [result_bind_of_ok (hr.trans h), result_bind_of_ok h, after_bind_of_ok (hr.trans h),
      after_bind_of_ok h, ha, Nat.sub_add_eq]
    exact ⟨hr', ha'⟩
  · intro n hn
    rw [List.length_append] at hn
    -- the room ends in what the first action writes, or else in what the second one writes
    by_cases hfirst : n < u.length
    · obtain ⟨hr, ho⟩ := hu.short hfirst
      rw [result_bind_of_error hr, after_bind_of_error hr,
        List.take_append_of_le_length (Nat.le_of_lt hfirst)]
      exact ⟨rfl, ho⟩
    · have hle := Nat.not_lt.mp hfirst
      obtain ⟨hr, ha⟩ := hu.enough hle
      have hsecond : n - u.length < v.length := by omega
      obtain ⟨hr', ho⟩ := hv.short hsecond
      rw [result_bind_of_ok (hr.trans h), after_bind_of_ok (hr.trans h), ha, ho, hu.output_eq,
        List.take_append, List.take_of_length_le hle, List.append_assoc]
      exact ⟨hr', rfl⟩

theorem Streams.bind (ha : Streams a) (hf : ∀ x, Streams (f x)) : Streams (a >>= f) := by
  intro w h
  obtain ⟨u, hu⟩ := ha w h
  cases hr : a.result w with
  | error e => exact ⟨u, hu.bind_of_error hr⟩
  | ok x =>
    obtain ⟨v, hv⟩ := hf x _ hu.room_eq
    exact ⟨u ++ v, hu.bind_of_ok hr hv⟩

theorem print_of_takes {s : String} (h : w.Takes (Utf8.ofString s)) :
    (print s).result w = .ok () ∧ (print s).after w = w.printed (Utf8.ofString s) :=
  run_eq_ok_iff.mp (print_ok_iff.mpr ⟨h, rfl⟩)

theorem writes_print (s : String) (h : w.room = none) : Writes (print s) w (Utf8.ofString s) := by
  obtain ⟨hr, ha⟩ := print_of_takes (World.takes_of_room_eq_none h (Utf8.ofString s))
  refine ⟨?_, ?_, ?_, ?_⟩
  · rw [ha]
    exact World.room_printed h _
  · rw [ha]
    rfl
  · intro n hn
    have htakes : (w.withRoom n).Takes (Utf8.ofString s) := by
      intro m hm
      cases hm
      exact hn
    obtain ⟨hr', ha'⟩ := print_of_takes htakes
    rw [hr', ha', hr, ha]
    exact ⟨rfl, rfl⟩
  · intro n hn
    have hrun := print_run s (w.withRoom n)
    change _ = if n < _ then _ else _ at hrun
    rw [if_pos hn] at hrun
    obtain ⟨hr', ha'⟩ := run_eq_error_iff.mp hrun
    rw [ha']
    exact ⟨hr', rfl⟩

theorem streams_printAll (texts : List String) : Streams (printAll texts) := by
  induction texts with
  | nil => exact streams_pure ()
  | cons s texts ih => exact Streams.bind (fun w h => ⟨_, writes_print s h⟩) fun _ => ih

theorem streams_readAnswer : Streams readAnswer := by
  refine .of_silent ?_ ?_ ?_ ?_
  · intro w n
    rw [Command.readAnswer_result, Command.readAnswer_result]
    rfl
  · intro w n
    rw [Command.readAnswer_after, Command.readAnswer_after]
    rfl
  · intro w
    rw [Command.readAnswer_after]
  · intro w
    rw [Command.readAnswer_after]

/-- Room does not matter to a result that is taken over. -/
theorem streams_of_logged {g : World → Logged α} (hg : ∀ w n, g (w.withRoom n) = g w)
    (h : ∀ w, a.run w = (ofLogged (g w)).run w) : Streams a := by
  have hr (w : World) : a.result w = (g w).result.mapError .keypair := by
    rw [← result_ofLogged _ w, result, h]
    rfl
  have ha (w : World) : a.after w = w.logged (g w).messages := by
    rw [← ofLogged_after, after, h]
    rfl
  refine .of_silent ?_ ?_ ?_ ?_
  · intro w n
    rw [hr, hr, hg]
  · intro w n
    rw [ha, ha, hg]
    rfl
  · intro w
    rw [ha]
    rfl
  · intro w
    rw [ha]
    rfl

theorem streams_loadKeypair (p : Path) : Streams (loadKeypair p) :=
  streams_of_logged (fun _ _ => rfl) (loadKeypair_run p)

theorem streams_generateKeypair : Streams generateKeypair :=
  streams_of_logged (fun _ _ => rfl) generateKeypair_run

theorem streams_saveBytes (b : Bytes) (p : Path) (f : JsonFormat) : Streams (saveBytes b p f) := by
  refine .of_silent ?_ ?_ ?_ ?_
  · intro w n
    rw [(Command.saveBytes_saves b p f _).1, (Command.saveBytes_saves b p f _).1]
    rfl
  · intro w n
    rw [saveBytes_after, saveBytes_after]
    rfl
  · intro w
    rw [saveBytes_after]
    rfl
  · intro w
    rw [saveBytes_after]
    rfl

/-- After an action, one that leaves the store alone does not change the files. -/
theorem files_bind (a : Action α) (hf : ∀ x, Quiet (f x)) (w : World) :
    ((a >>= f).after w).files = (a.after w).files := by
  cases hr : a.result w with
  | error e => rw [after_bind_of_error hr]
  | ok x =>
    rw [after_bind_of_ok hr]
    exact (hf x _).files_eq

end Action

namespace Command
open Keyfile.Action

variable {options : GenerateOptions} {config : Config} {output : OutputOptions} {w : World}

theorem streams_destination (options : GenerateOptions) (config : Config) :
    Streams (destination options config) := by
  unfold destination
  split
  · exact streams_pure _
  · split
    · rw [askDestination_eq]
      refine (streams_printAll _).bind fun _ => streams_readAnswer.bind fun reply => ?_
      split
      · refine (streams_printAll _).bind fun _ => ?_
        exact streams_readAnswer.bind fun _ => streams_pure _
      · exact streams_pure none
    · exact streams_pure none

theorem streams_load (p : Path) (output : OutputOptions) : Streams (load p output) := by
  rw [load_eq]
  refine (streams_printAll _).bind fun _ => ?_
  refine (streams_loadKeypair p).bind fun _ => ?_
  exact (streams_printAll _).bind fun _ => streams_printAll _

theorem streams_prepare (options : GenerateOptions) (config : Config) (output : OutputOptions) :
    Streams (prepare options config output) := by
  refine (streams_printAll _).bind fun _ => ?_
  refine streams_generateKeypair.bind fun _ => ?_
  refine (streams_printAll _).bind fun _ => ?_
  exact (streams_destination _ _).bind fun _ => streams_pure _

theorem streams_settle (k : Keypair) (config : Config) (output : OutputOptions)
    (d : Option Path) : Streams (settle k config output d) := by
  cases d with
  | none => exact streams_printAll _
  | some p => exact (streams_saveBytes _ _ _).bind fun _ => streams_printAll _

/-- What is stored does not depend on the room for output. -/
theorem settle_files (k : Keypair) (config : Config) (output : OutputOptions)
    (d : Option Path) (w : World) : ((settle k config output d).after w).files =
      match d with
      | none => w.files
      | some p => (save w.files k.bytes p config.jsonFormat).1 := by
  cases d with
  | none => exact (quiet_printAll _ w).files_eq
  | some p =>
    unfold settle
    rw [files_bind _ (fun _ => quiet_printAll _), saveBytes_after]
    rfl

/-- Output that closes before a destination is settled leaves the files alone; later it does not
matter to them. -/
theorem generate_files {u : Bytes} (hu : Writes (prepare options config output) w u) (n : Nat) :
    ((generate options config output).after (w.withRoom n)).files =
      if u.length ≤ n then ((generate options config output).after w).files else w.files := by
  have hquiet (v : World) := (quiet_prepare options config output v).files_eq
  rw [generate_eq_prepare]
  split_ifs with hn
  · obtain ⟨hr, ha⟩ := hu.enough hn
    cases h : (prepare options config output).result w with
    | error e =>
      rw [after_bind_of_error (hr.trans h), after_bind_of_error h, hquiet, hquiet]
      rfl
    | ok m =>
      rw [after_bind_of_ok (hr.trans h), after_bind_of_ok h, settle_files, settle_files, ha]
      rfl
  · obtain ⟨hr, _⟩ := hu.short (Nat.not_le.mp hn)
    rw [after_bind_of_error hr, hquiet]
    rfl

/-- A run that comes to store its keypair: a seed is given, and a destination is chosen. -/
structure ComesToStore (options : GenerateOptions) (config : Config) (w : World) (s : Seed)
    (p : Path) : Prop where
  seed_eq : w.entropy.seed? = .ok s
  chosen : (choice options config w.input).result = .ok (some p)

theorem ComesToStore.prepare_result {s : Seed} {p : Path}
    (hs : ComesToStore options config w s p) (h : w.room = none) :
    (prepare options config output).result w = .ok (.ofSeed s, some p) := by
  rw [(prepare_of_ok h hs.seed_eq).1, hs.chosen]
  rfl

theorem exists_comesToStore {k : Keypair} {p : Path} (h : w.room = none)
    (hr : (prepare options config output).result w = .ok (k, some p)) :
    ∃ s, ComesToStore options config w s p := by
  cases hs : w.entropy.seed? with
  | error reason =>
    rw [(prepare_of_error h hs).1] at hr
    cases hr
  | ok s =>
    rw [(prepare_of_ok h hs).1] at hr
    obtain ⟨d, hd, hp⟩ := map_eq_ok_iff.mp hr
    cases hp
    exact ⟨s, hs, hd⟩

/-- Before a keypair is stored, exactly its lines and the questions about it are written. -/
theorem ComesToStore.writes_prepare {s : Seed} {p : Path} {u : Bytes}
    (hs : ComesToStore options config w s p) (h : w.room = none)
    (hu : Writes (prepare options config output) w u) :
    u = textBytes (settledLines s options config output w.input) := by
  have hshows := (@prepare_of_ok options config output _ _ h hs.seed_eq).2.1
  have houtput := hu.output_eq
  rw [hshows.output_eq] at houtput
  exact (List.append_cancel_left houtput).symm

/-- A run whose output closes after `n` bytes, beside the same run with room for all output, which
writes `u`. -/
structure ClosesAt (a : Action Unit) (w : World) (n : Nat) (u : Bytes) : Prop where
  whole_eq : (a.after w).output = w.output ++ u
  output_eq : (a.after (w.withRoom n)).output = w.output ++ u.take n
  result_eq : a.result (w.withRoom n) =
    if u.length ≤ n then a.result w else .error .outputClosed

theorem closesAt_of_writes {a : Action Unit} {u : Bytes} (hu : Writes a w u) (n : Nat) :
    ClosesAt a w n u := by
  refine ⟨hu.output_eq, ?_, ?_⟩
  · by_cases hn : u.length ≤ n
    · rw [(hu.enough hn).2, List.take_of_length_le hn]
      exact hu.output_eq
    · exact (hu.short (Nat.not_le.mp hn)).2
  · split_ifs with hn
    · exact (hu.enough hn).1
    · exact (hu.short (Nat.not_le.mp hn)).1

theorem exists_writes_generate {u : Bytes} (hu : Writes (prepare options config output) w u) :
    ∃ v, Writes (generate options config output) w (u ++ v) := by
  rw [generate_eq_prepare]
  cases hr : (prepare options config output).result w with
  | error e =>
    refine ⟨[], ?_⟩
    rw [List.append_nil]
    exact hu.bind_of_error hr
  | ok m =>
    obtain ⟨v, hv⟩ := streams_settle m.1 config output m.2 _ hu.room_eq
    exact ⟨v, hu.bind_of_ok hr hv⟩

theorem ComesToStore.generate_files_eq {s : Seed} {p : Path}
    (hs : ComesToStore options config w s p) (h : w.room = none) :
    ((generate options config output).after w).files =
      (save w.files (Keypair.ofSeed s).bytes p config.jsonFormat).1 := by
  have hquiet := (quiet_prepare options config output w).files_eq
  rw [generate_eq_prepare, after_bind_of_ok (hs.prepare_result h), settle_files, hquiet]

theorem generate_files_of_not_stored (h : w.room = none)
    (hno : ¬ ∃ s p, ComesToStore options config w s p) :
    ((generate options config output).after w).files = w.files := by
  have hquiet := (quiet_prepare options config output w).files_eq
  rw [generate_eq_prepare]
  cases hr : (prepare options config output).result w with
  | error e => rw [after_bind_of_error hr, hquiet]
  | ok m =>
    obtain ⟨k, _ | p⟩ := m
    · rw [after_bind_of_ok hr, settle_files, hquiet]
    · obtain ⟨s, hs⟩ := exists_comesToStore h hr
      exact absurd ⟨s, p, hs⟩ hno

/-- A command whose output closes has written the start of what it would have written, and it fails
unless that is everything. The file tree is then that of the whole run if the output had room for
what comes before the keypair is stored, and else the one at the start. -/
theorem closing_output (h : w.room = none) (n : Nat) :
    (∀ p output, ∃ u, ClosesAt (load p output) w n u ∧
      ((load p output).after w).files = w.files ∧
      ((load p output).after (w.withRoom n)).files = w.files) ∧
    ∀ options config output, ∃ u, ClosesAt (generate options config output) w n u ∧
      let whole := ((generate options config output).after w).files
      let closed := ((generate options config output).after (w.withRoom n)).files
      (∀ s p, ComesToStore options config w s p →
        let before := textBytes (settledLines s options config output w.input)
        before <+: u ∧ whole = (save w.files (Keypair.ofSeed s).bytes p config.jsonFormat).1 ∧
          closed = if before.length ≤ n then whole else w.files) ∧
      ((¬ ∃ s p, ComesToStore options config w s p) → whole = w.files ∧ closed = w.files) ∧
      (output.isJson = false → closed ≠ w.files → ∃ s, w.entropy.seed? = .ok s ∧
        textBytes (["=== Creating New Keypair ===\n"] ++ keyLines (.ofSeed s)) <+: u.take n) := by
  constructor
  · intro p output
    obtain ⟨u, hu⟩ := streams_load p output w h
    exact ⟨u, closesAt_of_writes hu n, (quiet_load p output _).files_eq,
      (quiet_load p output _).files_eq⟩
  · intro options config output
    obtain ⟨u, hu⟩ := streams_prepare options config output w h
    obtain ⟨v, huv⟩ := exists_writes_generate hu
    have hclosed := generate_files hu n
    refine ⟨u ++ v, closesAt_of_writes huv n, ?_, ?_, ?_⟩
    · intro s p hs
      rw [← hs.writes_prepare h hu]
      exact ⟨List.prefix_append u v, hs.generate_files_eq h, hclosed⟩
    · intro hno
      have hwhole := @generate_files_of_not_stored _ _ output _ h hno
      rw [hwhole, ite_self] at hclosed
      exact ⟨hwhole, hclosed⟩
    · intro htext hne
      -- a file can only have changed if there was room for the key lines and a destination
      have hn : u.length ≤ n := by
        by_contra hn
        rw [if_neg hn] at hclosed
        exact hne hclosed
      obtain ⟨s, p, hs⟩ : ∃ s p, ComesToStore options config w s p := by
        by_contra hno
        rw [generate_files_of_not_stored h hno, ite_self] at hclosed
        exact hne hclosed
      have hlines : madeLines s output =
          ["=== Creating New Keypair ===\n"] ++ keyLines (.ofSeed s) := by
        unfold madeLines generateBanner Report.lines
        rw [htext]
        rfl
      refine ⟨s, hs.seed_eq, ?_⟩
      rw [← hlines, List.take_append, List.take_of_length_le hn, hs.writes_prepare h hu,
        settledLines, textBytes_append, List.append_assoc]
      exact List.prefix_append _ _

/-- With room for three bytes nothing is stored through a link, and the banner has been begun. With
room for none at all and a JSON document asked for, the keypair is stored before the run fails. -/
theorem closing_output_link :
    ((generate { save := some (some [0x6B]) } {} {}).after
      (World.withRoom { files := Keypair.linkedTree } 3)).files = Keypair.linkedTree ∧
    ∃ s, ((generate { save := some (some [0x6B]) } {} { json := true }).after
        (World.withRoom { files := Keypair.linkedTree } 0)).files =
          (save Keypair.linkedTree (Keypair.ofSeed s).bytes [0x6B] .pretty).1 ∧
      (save Keypair.linkedTree (Keypair.ofSeed s).bytes [0x6B] .pretty).2.result = .ok () := by
  obtain ⟨s, hs⟩ : ∃ s, (Entropy.ofBytes []).seed? = .ok s := ⟨_, rfl⟩
  have hstores : ComesToStore { save := some (some [0x6B]) } {} { files := Keypair.linkedTree } s
      [0x6B] := ⟨hs, rfl⟩
  have hsave : (save Keypair.linkedTree [] [0x6B] .pretty).2.result = .ok () := by cbv
  constructor
  · obtain ⟨_, _, hbefore, _⟩ := (@closing_output { files := Keypair.linkedTree } rfl 3).2
      { save := some (some [0x6B]) } {} {}
    obtain ⟨_, _, hclosed⟩ := hbefore s _ hstores
    have hbanner : (Utf8.ofString "=== Creating New Keypair ===\n").length = 29 := by cbv
    have hshort : ¬ (textBytes ("=== Creating New Keypair ===\n" :: keyLines (.ofSeed s))).length
        ≤ 3 := by
      rw [textBytes, List.flatMap_cons, List.length_append, hbanner]
      omega
    exact hclosed.trans (if_neg hshort)
  · obtain ⟨_, _, hbefore, _⟩ := (@closing_output { files := Keypair.linkedTree } rfl 0).2
      { save := some (some [0x6B]) } {} { json := true }
    obtain ⟨_, hwhole, hclosed⟩ := hbefore s _ hstores
    refine ⟨s, hclosed.trans ((if_pos (Nat.zero_le 0)).trans hwhole), ?_⟩
    · rw [save_result_eq _ _ _ [] _ .pretty]
      exact hsave

end Command

end Keyfile
