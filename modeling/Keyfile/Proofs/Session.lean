import Keyfile.Session
import Mathlib.Tactic.Common

/-!
# What actions do to a world

Two views of an action. A run that succeeds has succeeded in every step, and what was printed is
appended to the output. And however a run ends, most actions leave the store alone: the file tree,
the random source and the record of stored keypairs.
-/
namespace Keyfile

/-- The path that a message says was stored. -/
def Message.saved? : Message → Option Path
  | saved p => some p
  | _ => none

/-- The paths that messages say were stored, in order. -/
def savedPaths (ms : List Message) : List Path := ms.filterMap Message.saved?

theorem savedPaths_append (ms ms' : List Message) :
    savedPaths (ms ++ ms') = savedPaths ms ++ savedPaths ms' :=
  List.filterMap_append

/-- The bytes of texts written one after the other. -/
def textBytes (texts : List String) : Bytes := texts.flatMap Utf8.ofString

theorem textBytes_append (texts texts' : List String) :
    textBytes (texts ++ texts') = textBytes texts ++ textBytes texts' :=
  List.flatMap_append

namespace World

/-- The paths of the keypairs stored so far. -/
def stored (w : World) : List Path := savedPaths w.messages

/-- Whether standard output takes these bytes. -/
def Takes (w : World) (b : Bytes) : Prop := ∀ n, w.room = some n → b.length ≤ n

/-- The world in which these bytes have been written. -/
def printed (w : World) (b : Bytes) : World :=
  { w with output := w.output ++ b, room := w.room.map (· - b.length) }

/-- The world in which these messages have been logged. -/
def logged (w : World) (ms : List Message) : World := { w with messages := w.messages ++ ms }

theorem stored_logged (w : World) (ms : List Message) :
    (w.logged ms).stored = w.stored ++ savedPaths ms :=
  savedPaths_append w.messages ms

theorem logged_logged (w : World) (ms ms' : List Message) :
    (w.logged ms).logged ms' = w.logged (ms ++ ms') := by
  simp only [logged, List.append_assoc]

theorem printed_logged (w : World) (ms : List Message) (b : Bytes) :
    (w.logged ms).printed b = (w.printed b).logged ms := rfl

theorem takes_of_room_eq_none {w : World} (h : w.room = none) (b : Bytes) : w.Takes b := by
  intro n hn
  rw [h] at hn
  cases hn

theorem room_printed {w : World} (h : w.room = none) (b : Bytes) : (w.printed b).room = none := by
  rw [printed, h]
  rfl

theorem takes_append {w : World} {b b' : Bytes} :
    w.Takes (b ++ b') ↔ w.Takes b ∧ (w.printed b).Takes b' := by
  unfold Takes printed
  cases w.room with
  | none => simp
  | some n =>
    simp only [Option.some.injEq, forall_eq', Option.map_some, List.length_append]
    omega

theorem printed_printed (w : World) (b b' : Bytes) :
    (w.printed b).printed b' = w.printed (b ++ b') := by
  unfold printed
  cases w.room with
  | none => simp
  | some n => simp [Nat.sub_add_eq]

theorem printed_nil (w : World) : w.printed [] = w := by
  obtain ⟨files, input, asked, output, room, entropy, messages⟩ := w
  cases room <;> simp [printed]

end World

/-- The file tree, the random source and the record of stored keypairs are the same. -/
structure SameStore (w w' : World) : Prop where
  files_eq : w'.files = w.files
  entropy_eq : w'.entropy = w.entropy
  stored_eq : w'.stored = w.stored

theorem SameStore.refl (w : World) : SameStore w w := ⟨rfl, rfl, rfl⟩

theorem SameStore.trans {w w' w'' : World} (h : SameStore w w') (h' : SameStore w' w'') :
    SameStore w w'' where
  files_eq := h'.files_eq.trans h.files_eq
  entropy_eq := h'.entropy_eq.trans h.entropy_eq
  stored_eq := h'.stored_eq.trans h.stored_eq

namespace Action
variable {α β : Type} {a : Action α} {f : α → Action β} {w w' : World}

/-! ## Runs that succeed -/

theorem run_bind_ok_iff {y : β} : (a >>= f).run w = .ok y w' ↔
    ∃ x w₁, a.run w = .ok x w₁ ∧ (f x).run w₁ = .ok y w' := by
  rw [EStateM.run_bind]
  cases a.run w with
  | ok x w₁ =>
    constructor
    · intro hf
      exact ⟨x, w₁, rfl, hf⟩
    · rintro ⟨x', w₁', hx, hf⟩
      cases hx
      exact hf
  | error e w₁ =>
    constructor
    · intro hf
      cases hf
    · rintro ⟨_, _, hx, _⟩
      cases hx

theorem run_pure_ok_iff {x y : α} : (pure x : Action α).run w = .ok y w' ↔ x = y ∧ w = w' := by
  rw [EStateM.run_pure, EStateM.Result.ok.injEq]

/-- Printing takes what there is room for, and fails if that is not everything. -/
theorem print_run (s : String) (w : World) : (print s).run w =
    match w.room with
    | none => .ok () (w.printed (Utf8.ofString s))
    | some n =>
      if n < (Utf8.ofString s).length then
        .error .outputClosed
          { w with output := w.output ++ (Utf8.ofString s).take n, room := some 0 }
      else .ok () (w.printed (Utf8.ofString s)) := by
  obtain ⟨files, input, asked, output, room, entropy, messages⟩ := w
  cases room with
  | none => rfl
  | some n =>
    simp only [print, EStateM.run_bind, EStateM.run_get, EStateM.run_set]
    by_cases h : n < (Utf8.ofString s).length
    · have hn : n - (Utf8.ofString s).length = 0 := by omega
      rw [if_pos h, if_pos h, hn]
      rfl
    · rw [if_neg h, if_neg h, List.take_of_length_le (Nat.not_lt.mp h)]
      rfl

theorem print_ok_iff {s : String} {u : Unit} : (print s).run w = .ok u w' ↔
    w.Takes (Utf8.ofString s) ∧ w' = w.printed (Utf8.ofString s) := by
  rw [print_run, World.Takes]
  cases w.room with
  | none => simp [eq_comm]
  | some n =>
    by_cases h : n < (Utf8.ofString s).length
    · simp [h, Nat.not_le.mpr h]
    · simp [h, Nat.not_lt.mp h, eq_comm]

theorem printAll_nil : printAll [] = pure () := rfl

theorem printAll_cons (s : String) (texts : List String) :
    printAll (s :: texts) = print s >>= fun _ => printAll texts := rfl

theorem printAll_singleton (s : String) : printAll [s] = print s := by
  rw [printAll_cons, printAll_nil]
  exact bind_pure_unit

theorem printAll_append (texts texts' : List String) :
    printAll (texts ++ texts') = printAll texts >>= fun _ => printAll texts' :=
  List.forM_append

/-- Printing in one of two modes is printing one or no text. -/
theorem print_unless (b : Bool) (s : String) (next : Action α) :
    (if !b then print s >>= fun _ => next else next) =
      printAll (if b then [] else [s]) >>= fun _ => next := by
  cases b with
  | false => exact congrArg (· >>= fun _ => next) (printAll_singleton s).symm
  | true => rfl

/-- Texts are printed as one. -/
theorem printAll_ok_iff {texts : List String} {u : Unit} :
    (printAll texts).run w = .ok u w' ↔
    w.Takes (textBytes texts) ∧ w' = w.printed (textBytes texts) := by
  induction texts generalizing w with
  | nil =>
    rw [printAll_nil, run_pure_ok_iff, textBytes, List.flatMap_nil, World.printed_nil]
    simp [World.Takes, eq_comm]
  | cons s texts ih =>
    rw [printAll_cons, run_bind_ok_iff]
    simp only [print_ok_iff, ih, textBytes, List.flatMap_cons, World.takes_append,
      ← World.printed_printed]
    constructor
    · rintro ⟨_, w₁, ⟨ht, rfl⟩, ht', rfl⟩
      exact ⟨⟨ht, ht'⟩, rfl⟩
    · rintro ⟨⟨ht, ht'⟩, rfl⟩
      exact ⟨(), _, ⟨ht, rfl⟩, ht', rfl⟩

theorem printAll_run {w : World} (h : w.room = none) (texts : List String) :
    (printAll texts).run w = .ok () (w.printed (textBytes texts)) :=
  printAll_ok_iff.mpr ⟨World.takes_of_room_eq_none h _, rfl⟩

theorem readLine_run (w : World) : readLine.run w =
    match Utf8.decode? (splitLine w.input).1 with
    | some text => .ok text
        { w with input := (splitLine w.input).2, asked := w.asked ++ [w.output.length] }
    | none => .error .inputNotText
        { w with input := (splitLine w.input).2, asked := w.asked ++ [w.output.length] } := by
  simp only [readLine, EStateM.run_bind, EStateM.run_get, EStateM.run_set]
  cases Utf8.decode? (splitLine w.input).1 <;> rfl

theorem ofLogged_run (r : Logged α) (w : World) : (ofLogged r).run w =
    match r.result with
    | .ok x => .ok x (w.logged r.messages)
    | .error e => .error (.keypair e) (w.logged r.messages) := by
  simp only [ofLogged, EStateM.run_bind, EStateM.run_modify]
  cases r.result <;> rfl

theorem loadKeypair_run (p : Path) (w : World) :
    (loadKeypair p).run w = (ofLogged (Keypair.load w.files p)).run w := rfl

theorem generateKeypair_run (w : World) :
    generateKeypair.run w = (ofLogged (Keypair.generate w.entropy)).run w := rfl

theorem saveBytes_run (b : Bytes) (p : Path) (f : JsonFormat) (w : World) :
    (saveBytes b p f).run w =
      (ofLogged (save w.files b p f).2).run { w with files := (save w.files b p f).1 } := rfl

theorem ofLogged_ok_iff {r : Logged α} {x : α} : (ofLogged r).run w = .ok x w' ↔
    r.result = .ok x ∧ w' = w.logged r.messages := by
  rw [ofLogged_run]
  cases r.result <;> simp [eq_comm]

/-! ## Actions that leave the store alone -/

/-- The world that an action leaves behind, whether or not it succeeds. -/
def after (a : Action α) (w : World) : World :=
  match a.run w with
  | .ok _ w' => w'
  | .error _ w' => w'

/-- An action that leaves the store alone. -/
def Quiet (a : Action α) : Prop := ∀ w, SameStore w (a.after w)

theorem after_of_ok {x : α} (h : a.run w = .ok x w') : a.after w = w' := by
  rw [after, h]

theorem Quiet.of_ok {x : α} (ha : Quiet a) (h : a.run w = .ok x w') : SameStore w w' := by
  rw [← after_of_ok h]
  exact ha w

theorem after_bind (a : Action α) (f : α → Action β) (w : World) :
    (∃ x w₁, a.run w = .ok x w₁ ∧ (a >>= f).after w = (f x).after w₁) ∨
      (a >>= f).after w = a.after w := by
  unfold after
  rw [EStateM.run_bind]
  cases a.run w with
  | ok x w₁ => exact .inl ⟨x, w₁, rfl, rfl⟩
  | error e w₁ => exact .inr rfl

/-- How an action ends, apart from the world that it leaves behind. -/
def result (a : Action α) (w : World) : Except Failure α :=
  match a.run w with
  | .ok x _ => .ok x
  | .error e _ => .error e

theorem run_eq_ok_iff {x : α} : a.run w = .ok x w' ↔ a.result w = .ok x ∧ a.after w = w' := by
  unfold result after
  cases a.run w <;> simp

theorem run_eq_error_iff {e : Failure} :
    a.run w = .error e w' ↔ a.result w = .error e ∧ a.after w = w' := by
  unfold result after
  cases a.run w <;> simp

theorem result_bind (a : Action α) (f : α → Action β) (w : World) :
    (a >>= f).result w = a.result w >>= fun x => (f x).result (a.after w) := by
  unfold result after
  rw [EStateM.run_bind]
  cases a.run w <;> rfl

theorem result_bind_of_ok {x : α} (h : a.result w = .ok x) :
    (a >>= f).result w = (f x).result (a.after w) := by
  rw [result_bind, h]
  rfl

theorem result_bind_of_error {e : Failure} (h : a.result w = .error e) :
    (a >>= f).result w = .error e := by
  rw [result_bind, h]
  rfl

theorem after_bind_of_ok {x : α} (h : a.result w = .ok x) :
    (a >>= f).after w = (f x).after (a.after w) := by
  unfold result at h
  unfold after
  rw [EStateM.run_bind]
  cases hr : a.run w with
  | ok y w₁ =>
    rw [hr] at h
    cases h
    rfl
  | error e w₁ =>
    rw [hr] at h
    cases h

theorem after_bind_of_error {e : Failure} (h : a.result w = .error e) :
    (a >>= f).after w = a.after w := by
  unfold result at h
  unfold after
  rw [EStateM.run_bind]
  cases hr : a.run w with
  | ok y w₁ =>
    rw [hr] at h
    cases h
  | error e' w₁ => rfl

/-- With room for all output, texts are printed and what follows goes on from there. -/
theorem result_printAll_bind (h : w.room = none) (texts : List String) :
    (printAll texts >>= fun _ => a).result w = a.result (w.printed (textBytes texts)) := by
  have hp := run_eq_ok_iff.mp (printAll_run h texts)
  rw [result_bind_of_ok hp.1, hp.2]

theorem after_printAll_bind (h : w.room = none) (texts : List String) :
    (printAll texts >>= fun _ => a).after w = a.after (w.printed (textBytes texts)) := by
  have hp := run_eq_ok_iff.mp (printAll_run h texts)
  rw [after_bind_of_ok hp.1, hp.2]

theorem result_ofLogged (r : Logged α) (w : World) :
    (ofLogged r).result w = r.result.mapError .keypair := by
  rw [result, ofLogged_run]
  cases r.result <;> rfl

theorem quiet_pure (x : α) : Quiet (pure x) := fun w => .refl w

theorem Quiet.bind (ha : Quiet a) (hf : ∀ x, Quiet (f x)) : Quiet (a >>= f) := by
  intro w
  rcases after_bind a f w with ⟨x, w₁, hx, h⟩ | h
  · rw [h]
    exact (ha.of_ok hx).trans (hf x w₁)
  · rw [h]
    exact ha w

theorem quiet_print (s : String) : Quiet (print s) := by
  intro w
  unfold after
  rw [print_run]
  cases w.room with
  | none => exact ⟨rfl, rfl, rfl⟩
  | some n =>
    by_cases h : n < (Utf8.ofString s).length
    · simp only [if_pos h]
      exact ⟨rfl, rfl, rfl⟩
    · simp only [if_neg h]
      exact ⟨rfl, rfl, rfl⟩

theorem quiet_printAll (texts : List String) : Quiet (printAll texts) := by
  induction texts with
  | nil => exact quiet_pure ()
  | cons s texts ih => exact (quiet_print s).bind fun _ => ih

theorem quiet_readLine : Quiet readLine := by
  intro w
  unfold after
  rw [readLine_run]
  cases Utf8.decode? (splitLine w.input).1 <;> exact ⟨rfl, rfl, rfl⟩

theorem quiet_readAnswer : Quiet readAnswer :=
  quiet_readLine.bind fun _ => quiet_pure _

theorem ofLogged_after (r : Logged α) (w : World) :
    (ofLogged r).after w = w.logged r.messages := by
  rw [after, ofLogged_run]
  cases r.result <;> rfl

/-- A keypair is read from the files alone, and that is logged. -/
theorem loadKeypair_ends (p : Path) (w : World) :
    (loadKeypair p).result w = (Keypair.load w.files p).result.mapError .keypair ∧
      (loadKeypair p).after w = w.logged (Keypair.load w.files p).messages :=
  ⟨result_ofLogged _ w, ofLogged_after _ w⟩

/-- Messages that record nothing change nothing in the store. -/
theorem sameStore_logged {ms : List Message} (h : savedPaths ms = []) (w : World) :
    SameStore w (w.logged ms) := by
  refine ⟨rfl, rfl, ?_⟩
  rw [World.stored_logged, h, List.append_nil]

theorem quiet_log {m : Message} (h : m.saved? = none) : Quiet (log m) := by
  have hm : savedPaths [m] = [] := List.filterMap_cons_none h
  exact sameStore_logged hm

theorem quiet_ofLogged {r : Logged α} (h : savedPaths r.messages = []) : Quiet (ofLogged r) := by
  intro w
  rw [ofLogged_after]
  exact sameStore_logged h w

end Action

end Keyfile
