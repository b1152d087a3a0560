import Stencil.Decimal.Power
import Stencil.Value.Basic

/-!
# Dictionary objects

A dictionary keeps its entries in slots, in the order in which they came in. A removed entry leaves
a gap, and a new one goes behind the last slot. When no slot is left, the gaps are closed and room
for more is made. A loop over a dictionary remembers a slot, so the gaps decide which entries it
still meets.
-/

namespace Stencil

/-- A dictionary object: its slots, how many more can be filled before the gaps are closed, and
whether all keys have been texts since it was made. -/
structure Dict where
  slots : List (Option (Value × Value)) := []
  room : Nat := 0
  textual : Bool := true
  deriving Inhabited

namespace Dict

/-- The entries of a dictionary in order. -/
def entries (d : Dict) : List (Value × Value) :=
  d.slots.filterMap id

/-- The number of entries. -/
def size (d : Dict) : Nat :=
  d.entries.length

/-- The places of a dictionary that is to have at least the given number: a power of two, and never
fewer than eight. -/
def places (least : Nat) : Nat :=
  twoPow ((Nat.lor (Nat.lor least 8 - 1) 7).log2 + 1)

/-- How many of the given number of places may be filled: two thirds. -/
def fillable (places : Nat) : Nat :=
  2 * places / 3

/-- An empty dictionary made for the given number of entries. -/
def forEntries (count : Nat) : Dict :=
  if count ≤ fillable (places 0) then {}
  else { room := fillable (places ((3 * count + 1) / 2)) }

/-- The dictionary without gaps, with room for as many entries again as it has, or a little more. -/
def closeGaps (d : Dict) : Dict :=
  let kept := d.entries
  { d with
    slots := kept.map some
    room := fillable (places (3 * kept.length)) - kept.length }

/-- Whether a key is a text. -/
def isTextKey : Value → Bool
  | .str _ => true
  | _ => false

/-- Add an entry under a new key. The first key that is no text has the gaps closed as well. -/
def add (d : Dict) (key value : Value) : Dict :=
  let isText := isTextKey key
  let d := if d.room = 0 || (d.textual && !isText) then d.closeGaps else d
  { slots := d.slots ++ [some (key, value)]
    room := d.room - 1
    textual := d.textual && isText }

/-- Change the entries whose keys pass a test. -/
def update (d : Dict) (test : Value → Bool) (value : Value) : Dict :=
  { d with
    slots := d.slots.map fun
      | some (k, v) => some (if test k then (k, value) else (k, v))
      | none => none }

/-- Remove the entries whose keys pass a test; gaps stay in their places. -/
def remove (d : Dict) (test : Value → Bool) : Dict :=
  { d with
    slots := d.slots.map fun
      | some (k, v) => if test k then none else some (k, v)
      | none => none }

/-- The dictionary of entries with different keys, added one by one. -/
def ofEntries (entries : List (Value × Value)) : Dict :=
  entries.foldl (fun d e => d.add e.1 e.2) {}

/-- The first entry in a slot that is not below the given number, with the number of the slot
behind it. -/
def entryFrom? (d : Dict) (slot : Nat) : Option ((Value × Value) × Nat) :=
  search (d.slots.drop slot) slot
where
  /-- The first entry among the slots counted from the given number on. -/
  search : List (Option (Value × Value)) → Nat → Option ((Value × Value) × Nat)
    | [], _ => none
    | some e :: _, n => some (e, n + 1)
    | none :: rest, n => search rest (n + 1)

@[simp]
theorem entries_empty : ({} : Dict).entries = [] := rfl

@[simp]
theorem entries_closeGaps (d : Dict) : d.closeGaps.entries = d.entries := by
  simp [closeGaps, entries, List.filterMap_map]

@[simp]
theorem entries_add (d : Dict) (key value : Value) :
    (d.add key value).entries = d.entries ++ [(key, value)] := by
  simp only [add]
  split <;> simp [entries, closeGaps, List.filterMap_map]

@[simp]
theorem entries_ofEntries (l : List (Value × Value)) : (ofEntries l).entries = l := by
  suffices h : ∀ d : Dict, (l.foldl (fun d e => d.add e.1 e.2) d).entries = d.entries ++ l by
    simpa [ofEntries] using h {}
  induction l with
  | nil => intro d; simp
  | cons e rest ih => intro d; simp [ih]

end Dict

end Stencil
