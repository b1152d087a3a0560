/-!
# Similar texts

Two texts are as similar as their matching blocks are long: the longest common block, and the blocks
found in the same way to its left and to its right. The similarity is twice the matched length over
the sum of both lengths.
-/

namespace Stencil.Similar

/-- A common block: where it starts in both texts, and its length. -/
structure Block where
  left : Nat
  right : Nat
  size : Nat
  deriving DecidableEq, Inhabited, Repr

/-- A place of a text: its character, and whether that one occurs too often to start a block. -/
structure Place where
  char : Char
  frequent : Bool
  deriving DecidableEq, Inhabited, Repr

/-- The places of a text. In a text of at least 200 characters, one that stands in more than every
hundredth place, and once besides, is frequent. -/
def places (text : List Char) : List Place :=
  let isFrequent (c : Char) : Bool := text.length ≥ 200 && text.count c > text.length / 100 + 1
  let frequent := text.eraseDups.filter isFrequent
  text.map fun c => ⟨c, frequent.contains c⟩

/-- The lengths of the common blocks that end with the character `c` of the left text, one for each
place of the right text, from the lengths for the character before it. -/
def extend (c : Char) : List Nat → List Place → List Nat
  | prev :: prevs, p :: ps =>
    (if c = p.char && !p.frequent then prev + 1 else 0) :: extend c prevs ps
  | _, _ => []

/-- The better of a block and the blocks that end at place `i` of the left text; of two equally long
blocks the one found first stays. -/
def better (i : Nat) : Nat → List Nat → Block → Block
  | _, [], best => best
  | j, size :: rest, best =>
    better i (j + 1) rest
      (if size > best.size then ⟨i + 1 - size, j + 1 - size, size⟩ else best)

/-- The longest common block of two texts, the first one of several. -/
def longest (right : List Place) : Nat → List Char → List Nat → Block → Block
  | _, [], _, best => best
  | i, c :: cs, lengths, best =>
    let next := extend c (0 :: lengths) right
    longest right (i + 1) cs next (better i 0 next best)

/-- The length of the common beginning of two texts. -/
def commonStart : List Char → List Place → Nat
  | c :: cs, p :: ps => if c = p.char then commonStart cs ps + 1 else 0
  | _, _ => 0

/-- The longest common block, extended on both sides by whatever else agrees. -/
def block (left : List Char) (right : List Place) : Block :=
  let b := longest right 0 left (List.replicate right.length 0) ⟨0, 0, 0⟩
  let before := commonStart (left.take b.left).reverse (right.take b.right).reverse
  let after := commonStart (left.drop (b.left + b.size)) (right.drop (b.right + b.size))
  ⟨b.left - before, b.right - before, b.size + before + after⟩

/-- The total length of the matching blocks of two texts. -/
def matched : Nat → List Char → List Place → Nat
  | 0, _, _ => 0
  | fuel + 1, left, right =>
    let b := block left right
    if b.size = 0 then 0
    else
      matched fuel (left.take b.left) (right.take b.right) + b.size +
        matched fuel (left.drop (b.left + b.size)) (right.drop (b.right + b.size))

/-- The similarity of two texts as a fraction. -/
def ratio (left right : String) : Nat × Nat :=
  let a := left.toList
  let b := right.toList
  let total := a.length + b.length
  if total = 0 then (1, 1) else (2 * matched (a.length + 1) a (places b), total)

/-- Of the candidates at least three fifths similar to a word the most similar one; of equally
similar ones the last in alphabetical order. -/
def closest? (word : String) (candidates : List String) : Option String :=
  let scored := candidates.filterMap fun c =>
    let (n, d) := ratio c word
    if 5 * n ≥ 3 * d then some (n, d, c) else none
  (scored.foldl (fun best? s =>
    match best? with
    | none => some s
    | some (n, d, c) =>
      let (n', d', c') := s
      if n' * d > n * d' ∨ (n' * d = n * d' ∧ c < c') then some s else best?) none).map
    fun (_, _, c) => c

end Stencil.Similar
