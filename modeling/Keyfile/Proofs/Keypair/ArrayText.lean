import Keyfile.Keypair.Save
import Keyfile.Proofs.Json.ByteArray

/-!
# The text of a keypair file

What is stored for some bytes is written out here without the printer: in one line, or a byte a
line. No bytes are two brackets in both layouts.
-/
namespace Keyfile
open Json

/-- The numbers of some bytes in decimal. -/
def byteNumerals (b : Bytes) : List String := b.map fun x => toString x.toNat

/-- Items between brackets. Only in the pretty layout is there white space: every item is on a line
of its own behind two spaces, and so is the closing bracket without them. -/
def JsonFormat.setOut : JsonFormat → List String → String
  | _, [] => "[]"
  | compact, item :: items => "[" ++ ",".intercalate (item :: items) ++ "]"
  | pretty, item :: items => "[\n  " ++ ",\n  ".intercalate (item :: items) ++ "\n]"

/-- Both layouts write the items of an array one by one, with a text of their own between two. -/
theorem items_ofBytes {write : List Json → List Char} {between : List Char} (hnil : write [] = [])
    (hone : ∀ n, write [.integer n] = integerText n)
    (hmore : ∀ n v vs, write (.integer n :: v :: vs) =
      integerText n ++ (between ++ write (v :: vs))) (b : Bytes) :
    write (ofBytes b) = between.intercalate ((byteNumerals b).map String.toList) := by
  induction b with
  | nil => exact hnil
  | cons x b ih =>
    cases b with
    | nil =>
      have hx : write (ofBytes [x]) = integerText x.toNat := hone _
      rw [hx]
      exact List.intercalate_singleton.symm
    | cons y b =>
      have hrest : write (ofBytes (x :: y :: b)) =
          integerText x.toNat ++ (between ++ write (ofBytes (y :: b))) := hmore _ _ _
      have hnumerals : (byteNumerals (x :: y :: b)).map String.toList =
          integerText x.toNat :: (byteNumerals (y :: b)).map String.toList := rfl
      rw [hrest, hnumerals, ih]
      simp only [byteNumerals, List.map_cons, List.intercalate_cons_cons, List.append_assoc]

theorem compactItems_ofBytes (b : Bytes) :
    compactItems (ofBytes b) = [','].intercalate ((byteNumerals b).map String.toList) := by
  apply items_ofBytes
  · simp only [compactItems]
  · intro n
    simp only [compactItems, compactChars, scalarText]
  · intro n v vs
    simp only [compactItems, compactChars, scalarText, List.singleton_append]

theorem indentedItems_ofBytes (depth : Nat) (b : Bytes) :
    indentedItems depth (ofBytes b) =
      (',' :: newLine depth).intercalate ((byteNumerals b).map String.toList) := by
  apply items_ofBytes
  · simp only [indentedItems]
  · intro n
    simp only [indentedItems, indentedChars, scalarText]
  · intro n v vs
    simp only [indentedItems, indentedChars, scalarText, List.append_assoc, List.cons_append]

/-- The stored text is the numbers of the bytes, set out in the layout. -/
theorem arrayText_eq_setOut (f : JsonFormat) (b : Bytes) :
    f.arrayText b = f.setOut (byteNumerals b) := by
  cases b with
  | nil => cases f <;> rfl
  | cons x b =>
    apply String.toList_injective
    cases f with
    | compact =>
      have htext : (JsonFormat.compact.arrayText (x :: b)).toList =
          '[' :: compactItems (ofBytes (x :: b)) ++ [']'] := String.toList_ofList
      have hsetOut : JsonFormat.compact.setOut (byteNumerals (x :: b)) =
          "[" ++ ",".intercalate (byteNumerals (x :: b)) ++ "]" := rfl
      rw [htext, hsetOut, compactItems_ofBytes]
      simp [String.toList_intercalate]
    | pretty =>
      have htext : (JsonFormat.pretty.arrayText (x :: b)).toList =
          '[' :: newLine 1 ++ indentedItems 1 (ofBytes (x :: b)) ++ newLine 0 ++ [']'] :=
        String.toList_ofList
      have hsetOut : JsonFormat.pretty.setOut (byteNumerals (x :: b)) =
          "[\n  " ++ ",\n  ".intercalate (byteNumerals (x :: b)) ++ "\n]" := rfl
      rw [htext, hsetOut, indentedItems_ofBytes]
      simp [String.toList_intercalate, newLine]

/-- Two bytes in the pretty layout. -/
example : JsonFormat.pretty.setOut (byteNumerals [7, 255]) = "[\n  7,\n  255\n]" := by cbv

end Keyfile
