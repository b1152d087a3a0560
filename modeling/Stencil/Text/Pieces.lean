import Stencil.Text.Blank

/-!
# Cutting and joining texts

Trimming, splitting and replacing, on texts as lists of characters.
-/

namespace Stencil.Text

/-- Remove the characters of a class from both ends of a text. -/
def trimBy (drop : Char → Bool) (cs : List Char) : List Char :=
  ((cs.dropWhile drop).reverse.dropWhile drop).reverse

/-- A text without the blanks at its ends. -/
def trim (s : String) : String :=
  String.ofList (trimBy isBlank s.toList)

/-- A text without the given characters at its ends. -/
def trimChars (drop : String) (s : String) : String :=
  String.ofList (trimBy (fun c => drop.toList.contains c) s.toList)

/-- The rest of a text behind the given beginning. -/
def stripStart? : List Char → List Char → Option (List Char)
  | [], cs => some cs
  | _ :: _, [] => none
  | p :: ps, c :: cs => if p = c then stripStart? ps cs else none

/-- A text up to the first place where a separator stands, and what follows the separator. -/
def breakOn? (sep : List Char) : List Char → Option (List Char × List Char)
  | [] => (stripStart? sep []).map fun rest => ([], rest)
  | c :: cs =>
    match stripStart? sep (c :: cs) with
    | some rest => some ([], rest)
    | none => (breakOn? sep cs).map fun (before, rest) => (c :: before, rest)

/-- The parts of a text between separators, cutting at most `cuts` times. -/
def splitOn (sep : List Char) : Nat → List Char → List (List Char)
  | 0, cs => [cs]
  | cuts + 1, cs =>
    match breakOn? sep cs with
    | none => [cs]
    | some (before, rest) => before :: splitOn sep cuts rest

/-- The parts of a text between occurrences of a character. -/
def splitAt (sep : Char) : List Char → List (List Char)
  | [] => [[]]
  | c :: cs =>
    if c = sep then [] :: splitAt sep cs
    else
      match splitAt sep cs with
      | [] => [[c]]
      | part :: parts => (c :: part) :: parts

/-- The words of a text, cutting at most `cuts` times: a word ends at a blank, and blanks before a
word belong to no word. -/
def splitBlank : Nat → List Char → List (List Char)
  | 0, cs =>
    match cs.dropWhile isBlank with
    | [] => []
    | rest => [rest]
  | cuts + 1, cs =>
    match cs.dropWhile isBlank with
    | [] => []
    | rest =>
      rest.takeWhile (fun c => !isBlank c) ::
        splitBlank cuts (rest.dropWhile fun c => !isBlank c)

/-- Put a text before every character and at the end, at most `times` times. -/
def interleave (new : List Char) : Nat → List Char → List Char
  | 0, cs => cs
  | _ + 1, [] => new
  | times + 1, c :: cs => new ++ c :: interleave new times cs

/-- Replace a part of a text, from the left, at most `times` times. -/
def replaceUpTo (old new : List Char) (times : Nat) (cs : List Char) : List Char :=
  if old.isEmpty then interleave new times cs
  else new.intercalate (splitOn old times cs)

/-- Replace a part of a text, at most `times?` times or wherever it stands. -/
def replace (s old new : String) (times? : Option Nat) : String :=
  String.ofList
    (replaceUpTo old.toList new.toList (times?.getD (s.length + 1)) s.toList)

/-- Whether a text begins with another one. -/
def startsWith (s start : String) : Bool :=
  start.toList.isPrefixOf s.toList

/-- Whether a text ends with another one. -/
def endsWith (s tail : String) : Bool :=
  tail.toList.isSuffixOf s.toList

/-- A place in a text of the given length; a negative one counts from the end. -/
def place (length : Nat) (i : Int) : Nat :=
  if i < 0 then (i + length).toNat else i.toNat

/-- The section of a text between two places; none if the first is behind the second. -/
def section? (s : String) (start? stop? : Option Int) : Option String :=
  let start := place s.length (start?.getD 0)
  let stop := min s.length (place s.length (stop?.getD s.length))
  if start ≤ stop then some (String.ofList ((s.toList.take stop).drop start)) else none

end Stencil.Text
