/-! How alike two words are, for guessing which word was meant. -/
namespace ScriptToGo.Text

/-- Looks for a character that has not been matched yet, at the places from `low` on of which there
are `count`. Gives the characters with this one matched. -/
def matchIn? (c : Char) : Nat → Nat → List (Char × Bool) → Option (List (Char × Bool))
  | _, _, [] => none
  | _, 0, _ => none
  | low + 1, count, d :: rest => (matchIn? c low count rest).map (d :: ·)
  | 0, count + 1, d :: rest =>
    if d.1 = c ∧ d.2 = false then some ((c, true) :: rest)
    else (matchIn? c 0 count rest).map (d :: ·)

/-- Matches the characters of a word, the first of them at place `i`, with those of another word
that are at most `range` places away. Gives the matched characters of either word in order. -/
def matchAll (range : Nat) : Nat → List Char → List (Char × Bool) → List Char × List Char
  | _, [], other => ([], (other.filter Prod.snd).map Prod.fst)
  | i, c :: rest, other =>
    let low := i - range
    match matchIn? c low (i + range + 1 - low) other with
    | none => matchAll range (i + 1) rest other
    | some other =>
      let (mine, others) := matchAll range (i + 1) rest other
      (c :: mine, others)

/-- Whether two words are alike: the mean of the matched share of the first word, that of the
second, and the share of matches that are in the same order is at least seven tenths. A character
matches an equal one that is not too far away. -/
def isSimilar (a b : String) : Bool :=
  let a := a.toList
  let b := b.toList
  let (mine, others) := matchAll (max a.length b.length / 2 - 1) 0 a (b.map (·, false))
  let matched := mine.length
  let swapped := ((mine.zip others).countP fun (c, d) => c ≠ d) / 2
  matched ≠ 0 &&
    21 * (matched * a.length * b.length) ≤
      10 * (matched * matched * b.length + matched * matched * a.length
        + (matched - swapped) * a.length * b.length)

end ScriptToGo.Text
