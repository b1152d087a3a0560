import Stencil.Text.CaseTable
import Stencil.Text.Turns

/-!
# Changing case

Upper, lower and title case of whole texts. A capital sigma at the end of a word has a lower case of
its own: it is final when a cased character stands before it and none after it, not counting the
characters that case does not see.
-/

namespace Stencil.Text

/-- Whether a code point lies in a run with the given step and two neighbouring bounds. -/
def isInRun (step code : Nat) : List Char → Bool
  | first :: last :: rest =>
    (first.toNat ≤ code && code ≤ last.toNat && (code - first.toNat) % step == 0) ||
      isInRun step code rest
  | _ => false

/-- The characters that tables of expansions and runs map a character to, if they list it. -/
def mapCase? (expansions : List (Char × String)) (runs : List CaseRuns) (c : Char) :
    Option (List Char) :=
  match expansions.find? fun e => e.1 == c with
  | some e => some e.2.toList
  | none =>
    (runs.find? fun r => isInRun r.step c.toNat r.bounds.toList).map fun r =>
      [Char.ofNat ((c.toNat : Int) + r.shift).toNat]

/-- The upper case of a character. -/
def upperChar (c : Char) : List Char :=
  (mapCase? upperExpansions upperRuns c).getD [c]

/-- The title case of a character. -/
def titleChar (c : Char) : List Char :=
  (mapCase? titleExpansions titleRuns c).getD (upperChar c)

/-- The lower case of a character outside any word. -/
def lowerChar (c : Char) : List Char :=
  (mapCase? lowerExpansions lowerRuns c).getD [c]

/-- Whether a character has a case. -/
def isCased (c : Char) : Bool :=
  isTurned casedTurns c.toNat

/-- Whether a character does not separate cased characters. -/
def isCaseIgnorable (c : Char) : Bool :=
  isTurned caseIgnorableTurns c.toNat

/-- Whether the first character that case sees is cased. -/
def meetsCased (cs : List Char) : Bool :=
  match cs.dropWhile isCaseIgnorable with
  | c :: _ => isCased c
  | [] => false

/-- The lower case of a character between the characters `before` it, nearest first, and those
`after` it. -/
def lowerWithin (before : List Char) (c : Char) (after : List Char) : List Char :=
  if c = 'Σ' then
    if meetsCased before && !meetsCased after then ['ς'] else ['σ']
  else
    lowerChar c

/-- The lower case of the rest of a text after the characters `before`, nearest first. -/
def lowerFrom (before : List Char) : List Char → List Char
  | [] => []
  | c :: rest => lowerWithin before c rest ++ lowerFrom (c :: before) rest

/-- The title case of the rest of a text: a cased character after a cased one is lowered, any other
character gets its title case. -/
def titleFrom (before : List Char) : List Char → List Char
  | [] => []
  | c :: rest =>
    let first := match before with
      | p :: _ => !isCased p
      | [] => true
    (if first then titleChar c else lowerWithin before c rest) ++ titleFrom (c :: before) rest

/-- A text in upper case. -/
def upper (s : String) : String :=
  String.ofList (s.toList.flatMap upperChar)

/-- A text in lower case. -/
def lower (s : String) : String :=
  String.ofList (lowerFrom [] s.toList)

/-- A text with every word in title case. -/
def title (s : String) : String :=
  String.ofList (titleFrom [] s.toList)

/-- A text with its first character in title case and the rest in lower case. -/
def capitalize (s : String) : String :=
  match s.toList with
  | [] => ""
  | c :: rest => String.ofList (titleChar c ++ lowerFrom [c] rest)

end Stencil.Text
