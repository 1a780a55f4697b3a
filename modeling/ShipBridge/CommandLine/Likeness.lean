import ShipBridge.CommandLine.Flag

/-!
# Which flag was meant

Two words are alike in so far as they share letters at about the same places. A letter of one
matches the first free equal letter of the other that is less than half the longer word away; the
likeness is the mean of the share of matched letters in each word and the share of the matched
letters that come in the same order. A flag is suggested for an unknown word if its name is more
than seven tenths alike, the likest one first.
-/

namespace ShipBridge.CommandLine

/-- The places of the letters that match: for each letter of the first word in turn, the first
free place of the second within reach that holds the same letter. -/
def matching (a b : List Char) : List (Nat × Nat) :=
  let reach := max a.length b.length / 2 - 1
  a.zipIdx.foldl (fun found (c, i) =>
    let free := fun (d, j) =>
      i ≤ j + reach && j ≤ i + reach && c == d && !(found.map Prod.snd).contains j
    match b.zipIdx.find? free with
    | some (_, j) => found ++ [(i, j)]
    | none => found) []

def likeness (a b : List Char) : Nat × Nat :=
  let pairs := matching a b
  let m := pairs.length
  let inFirst := pairs.map fun (i, _) => a[i]?
  let inSecond := ((pairs.map Prod.snd).mergeSort (· ≤ ·)).map fun j => b[j]?
  let swapped := ((inFirst.zip inSecond).filter fun (c, d) => c != d).length / 2
  if m = 0 then (0, 1)
  else (m * m * b.length + m * m * a.length + (m - swapped) * a.length * b.length,
    3 * a.length * b.length * m)

/-- The likest flag; of equals the last. -/
def suggestion? (word : String) : Option Flag :=
  Option.map Prod.snd <| Flag.all.foldl (fun best f =>
    let (n, d) := likeness word.toList f.name.toList
    if 10 * n ≤ 7 * d then best
    else match best with
      | none => some ((n, d), f)
      | some ((bn, bd), _) => if bn * d ≤ n * bd then some ((n, d), f) else best) none

end ShipBridge.CommandLine
