/-!
# Stores of objects

A store keeps objects under references. References are handed out in order, an object can be
replaced but never removed, and a new object does not touch the old ones.
-/

namespace Stencil

/-- A reference to an object in a store. -/
abbrev Ref := Nat

/-- The objects of one kind. -/
structure Store (α : Type) where
  cells : Array α := #[]

namespace Store

variable {α : Type}

instance : Inhabited (Store α) := ⟨{}⟩

/-- The number of objects. -/
def size (s : Store α) : Nat :=
  s.cells.size

/-- The object under a reference. -/
def get? (s : Store α) (r : Ref) : Option α :=
  s.cells[r]?

/-- Add an object; its reference is the size of the store. -/
def push (s : Store α) (a : α) : Store α :=
  ⟨s.cells.push a⟩

/-- Add objects one after the other. -/
def append (s : Store α) (l : List α) : Store α :=
  ⟨s.cells ++ l.toArray⟩

/-- Replace the object under a reference. -/
def set (s : Store α) (r : Ref) (a : α) : Store α :=
  ⟨s.cells.setIfInBounds r a⟩

/-- Change the object under a reference. -/
def modify (s : Store α) (r : Ref) (f : α → α) : Store α :=
  ⟨s.cells.modify r f⟩

@[simp]
theorem size_push (s : Store α) (a : α) : (s.push a).size = s.size + 1 := by
  simp [push, size]

@[simp]
theorem size_set (s : Store α) (r : Ref) (a : α) : (s.set r a).size = s.size := by
  simp [set, size]

@[simp]
theorem size_modify (s : Store α) (r : Ref) (f : α → α) : (s.modify r f).size = s.size := by
  simp [modify, size]

@[simp]
theorem get?_push_self (s : Store α) (a : α) : (s.push a).get? s.size = some a := by
  simp [push, get?, size]

theorem get?_push_of_lt (s : Store α) (a : α) {r : Ref} (h : r < s.size) :
    (s.push a).get? r = s.get? r := by
  simp only [size] at h
  simp [push, get?, Array.getElem?_push, Nat.ne_of_lt h]

@[simp]
theorem size_append (s : Store α) (l : List α) : (s.append l).size = s.size + l.length := by
  simp [append, size]

theorem get?_append_of_lt (s : Store α) (l : List α) {r : Ref} (h : r < s.size) :
    (s.append l).get? r = s.get? r := by
  simp only [size] at h
  simp [append, get?, Array.getElem?_append, h]

theorem get?_append_add (s : Store α) (l : List α) (i : Nat) :
    (s.append l).get? (s.size + i) = l[i]? := by
  simp [append, get?, size, Array.getElem?_append_right]

theorem get?_eq_some_lt {s : Store α} {r : Nat} {a : α} (h : s.get? r = some a) : r < s.size := by
  simp only [get?] at h
  exact (Array.getElem?_eq_some_iff.mp h).1

/-- What stands in a store to which one object was added. -/
theorem get?_push_eq_some {s : Store α} {r : Ref} {a b : α} (h : (s.push a).get? r = some b) :
    s.get? r = some b ∨ b = a := by
  rcases Nat.lt_or_ge r s.size with hlt | hge
  · exact .inl (s.get?_push_of_lt a hlt ▸ h)
  · have hlt := get?_eq_some_lt h
    rw [size_push] at hlt
    obtain rfl := Nat.le_antisymm (Nat.le_of_lt_succ hlt) hge
    rw [get?_push_self, Option.some.injEq] at h
    exact .inr h.symm

/-- What stands in a store to which a list of objects was added. -/
theorem get?_append_eq_some {s : Store α} {r : Ref} {l : List α} {b : α}
    (h : (s.append l).get? r = some b) : s.get? r = some b ∨ b ∈ l := by
  rcases Nat.lt_or_ge r s.size with hlt | hge
  · exact .inl (s.get?_append_of_lt l hlt ▸ h)
  · obtain ⟨i, rfl⟩ := Nat.exists_eq_add_of_le hge
    rw [get?_append_add] at h
    exact .inr (List.mem_of_getElem? h)

theorem exists_get?_of_lt {s : Store α} {r : Nat} (h : r < s.size) : ∃ a, s.get? r = some a :=
  ⟨s.cells[r], Array.getElem?_eq_getElem h⟩

theorem get?_eq_none {s : Store α} {r : Nat} (h : s.size ≤ r) : s.get? r = none :=
  Array.getElem?_eq_none h

theorem get?_set_self (s : Store α) (a : α) {r : Ref} (h : r < s.size) :
    (s.set r a).get? r = some a := by
  simp only [size] at h
  simp [set, get?, h]

theorem get?_set_of_ne (s : Store α) (a : α) {r other : Ref} (h : r ≠ other) :
    (s.set r a).get? other = s.get? other := by
  simp [set, get?, h]

theorem get?_modify_self (s : Store α) (r : Ref) (f : α → α) :
    (s.modify r f).get? r = (s.get? r).map f := by
  simp [modify, get?, Array.getElem?_modify]

theorem get?_modify_of_ne (s : Store α) (f : α → α) {r other : Ref} (h : r ≠ other) :
    (s.modify r f).get? other = s.get? other := by
  simp [modify, get?, Array.getElem?_modify, h]

/-- Changing an object puts the changed one in its place. -/
theorem modify_eq_set (s : Store α) (f : α → α) {r : Ref} {a : α} (h : s.get? r = some a) :
    s.modify r f = s.set r (f a) := by
  obtain ⟨cells⟩ := s
  simp only [get?] at h
  simp only [modify, set, mk.injEq]
  apply Array.ext_getElem?
  intro i
  by_cases hi : r = i
  · subst hi
    have hr : r < cells.size := (Array.getElem?_eq_some_iff.mp h).1
    rw [Array.getElem?_modify, Array.getElem?_setIfInBounds_self_of_lt hr, if_pos rfl, h]
    rfl
  · simp [Array.getElem?_modify, hi]

/-- The object that was added last may be changed before it is added. -/
theorem modify_push (s : Store α) (a : α) (f : α → α) :
    (s.push a).modify s.size f = s.push (f a) := by
  obtain ⟨cells⟩ := s
  simp only [modify, push, size, mk.injEq]
  apply Array.ext_getElem?
  intro i
  rw [Array.getElem?_modify, Array.getElem?_push, Array.getElem?_push]
  by_cases hi : i = cells.size
  · simp [hi]
  · simp [hi, Ne.symm hi]

end Store

variable {α : Type}

/-- The first entries of a store are those of `base`. -/
def Extends (base s : Store α) : Prop :=
  base.size ≤ s.size ∧ ∀ q < base.size, s.get? q = base.get? q

namespace Extends

variable {base s : Store α}

theorem refl (s : Store α) : Extends s s :=
  ⟨Nat.le_refl _, fun _ _ => rfl⟩

theorem trans {a b c : Store α} (hab : Extends a b) (hbc : Extends b c) : Extends a c :=
  ⟨Nat.le_trans hab.1 hbc.1, fun q hq =>
    (hbc.2 q (Nat.lt_of_lt_of_le hq hab.1)).trans (hab.2 q hq)⟩

theorem push (h : Extends base s) (a : α) : Extends base (s.push a) :=
  ⟨by rw [Store.size_push]; exact Nat.le_succ_of_le h.1, fun q hq => by
    rw [s.get?_push_of_lt a (Nat.lt_of_lt_of_le hq h.1), h.2 q hq]⟩

theorem append (h : Extends base s) (l : List α) : Extends base (s.append l) :=
  ⟨by rw [Store.size_append]; exact Nat.le_add_right_of_le h.1, fun q hq => by
    rw [s.get?_append_of_lt l (Nat.lt_of_lt_of_le hq h.1), h.2 q hq]⟩

theorem modify (h : Extends base s) {r : Ref} (hr : base.size ≤ r) (f : α → α) :
    Extends base (s.modify r f) :=
  ⟨by simpa using h.1, fun q hq => by
    rw [s.get?_modify_of_ne f (Nat.ne_of_gt (Nat.lt_of_lt_of_le hq hr)), h.2 q hq]⟩

theorem set (h : Extends base s) {r : Ref} (hr : base.size ≤ r) (a : α) :
    Extends base (s.set r a) :=
  ⟨by simpa using h.1, fun q hq => by
    rw [s.get?_set_of_ne a (Nat.ne_of_gt (Nat.lt_of_lt_of_le hq hr)), h.2 q hq]⟩

end Extends

end Stencil
