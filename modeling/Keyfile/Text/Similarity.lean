import Keyfile.Binary64.Basic

/-!
# Similarity of words

The Jaro measure: two characters match when they are equal and not too far from each other. Much of
both words must match, and in the same order, for a value near one.
-/
namespace Keyfile.Similarity

/-- How far apart matching characters may stand in words of these lengths. -/
def reach (m n : Nat) : Nat := max m n / 2 - 1

/-- Takes the first free `c` at a place from `low` to `high`; `j` is the place of the first
character of the list, in which taken characters are marked. -/
def take? (c : Char) (low high j : Nat) : List (Char × Bool) → Option (List (Char × Bool))
  | [] => none
  | (d, taken) :: r =>
    if low ≤ j ∧ j ≤ high ∧ c = d ∧ taken = false then some ((d, true) :: r)
    else (take? c low high (j + 1) r).map ((d, taken) :: ·)

/-- The characters of a word from place `i` on that find a match, and the other word with its
matched characters marked. -/
def matchFrom (reach i : Nat) (other : List (Char × Bool)) :
    List Char → List Char × List (Char × Bool)
  | [] => ([], other)
  | c :: r =>
    match take? c (i - reach) (i + reach) 0 other with
    | some other =>
      let (matched, other) := matchFrom reach (i + 1) other r
      (c :: matched, other)
    | none => matchFrom reach (i + 1) other r

/-- The characters that match, in the order of each of the words. -/
def matching (a b : List Char) : List Char × List Char :=
  let (matched, marked) := matchFrom (reach a.length b.length) 0 (b.map (·, false)) a
  (matched, (marked.filter (·.2)).map (·.1))

/-- The mean of the share of matching characters in each word and the share of these in order. Sums
and quotients are rounded one by one. -/
def jaro (a b : List Char) : Binary64 :=
  let (inA, inB) := matching a b
  let m := inA.length
  let swapped := ((inA.zip inB).filter fun (c, d) => c ≠ d).length / 2
  let mean? : Option Binary64 := do
    let shareA ← Binary64.ofRatio m a.length
    let shareB ← Binary64.ofRatio m b.length
    let inOrder ← Binary64.ofRatio (m - swapped) m
    (← (← shareA.add shareB).add inOrder).div (← Binary64.ofNat 3)
  if m = 0 then .zero else mean?.getD .zero

/-- The words that are more similar than this may be meant. -/
def threshold : Binary64 := (Binary64.ofDecimal 7 (-1)).getD .zero

/-- The most similar of some words, if it is similar enough; the last one of several. -/
def closest? (a : List Char) (words : List (List Char)) : Option (List Char) :=
  let better (best : Option (List Char × Binary64)) (w : List Char) :=
    let score := jaro a w
    let bar := (best.map (·.2)).getD threshold
    if (if best.isSome then !score.less bar else bar.less score) then some (w, score) else best
  (words.foldl better none).map (·.1)

end Keyfile.Similarity
