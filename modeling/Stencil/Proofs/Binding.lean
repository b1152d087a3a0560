import Stencil.Proofs.Apart

/-!
# How arguments are bound to parameters

A parameter takes the positional argument at its place, else the last keyword argument under its
name, else its default (`Engine.bound`). The code that binds the parameters of a macro looks the
arguments up in a list object and in a dictionary object that was filled from the keyword arguments
one by one; what it finds there is just that (`Engine.perform_bindParams`). Positional arguments
without a parameter and keyword arguments under other names are never looked at.
-/

namespace Stencil

open Heap List

/-! ## Texts as keys -/

/-- Whether a value is the given text. -/
def Value.spells : Value → String → Bool
  | .str s, t => s == t
  | _, _ => false

theorem Value.eq_of_spells {v : Value} {s} (h : v.spells s = true) : ∃ o, v = .str (o := o) s := by
  cases v with
  | str t =>
    obtain rfl : t = s := beq_iff_eq.1 h
    exact ⟨_, rfl⟩
  | _ => cases h

/-- The last value that stands under a text in a list of entries. -/
def lastUnder? (name : String) : List (Value × Value) → Option Value
  | [] => none
  | (key, v) :: rest => (lastUnder? name rest).or (if key.spells name then some v else none)

theorem mem_of_lastUnder? {name entries v} (h : lastUnder? name entries = some v) :
    ∃ key, (key, v) ∈ entries := by
  induction entries with
  | nil => cases h
  | cons e rest ih =>
    rw [lastUnder?, Option.or_eq_some_iff] at h
    rcases h with h | ⟨-, h⟩
    · obtain ⟨key, hkey⟩ := ih h
      exact ⟨key, mem_cons_of_mem _ hkey⟩
    · split at h
      · cases h
        exact ⟨e.1, mem_cons_self⟩
      · cases h

namespace Heap

section

attribute [local simp] same equal equalUpTo nestingLimit Value.identical Value.spells
  Value.number?

/-- Only a text is the same as a text, and it is the same text. -/
theorem same_text (w : Heap) (v : Value) (s : String) (o : Origin) :
    w.same v (.str (o := o) s) = v.spells s := by
  cases v with
  | str t =>
    cases h : t == s <;> simp [h]
  | _ => simp [mapping?]

theorem text_same (w : Heap) (v : Value) (s : String) (o : Origin) :
    w.same (.str (o := o) s) v = v.spells s := by
  cases v with
  | str t =>
    have hcomm : (t == s) = (s == t) := Bool.beq_comm
    cases h : s == t <;> simp [hcomm, h]
  | _ => simp [mapping?]

end

/-- The entries of a dictionary in which those that pass a test have got another value. -/
theorem entries_update (d : Dict) (test : Value → Bool) (v : Value) :
    (d.update test v).entries = d.entries.map fun e => if test e.1 then (e.1, v) else e := by
  unfold Dict.update Dict.entries
  induction d.slots with
  | nil => rfl
  | cons slot rest ih =>
    cases slot with
    | none => simpa using ih
    | some e =>
      by_cases h : test e.1 <;> simpa [h] using ih

variable (w : Heap)

theorem findEntry?_text (entries : List (Value × Value)) (name : String) :
    w.findEntry? entries (.ofText name) = (entries.find? fun e => e.1.spells name).map (·.2) := by
  unfold findEntry? Value.ofText
  simp only [w.same_text]

/-- After a key was bound, a text has the new value if it is the key, and else what it had. -/
theorem findEntry?_insertEntry (key v : Value) (d : Dict) (name : String) :
    w.findEntry? (w.insertEntry key v d).entries (.ofText name) =
      if key.spells name then some v else w.findEntry? d.entries (.ofText name) := by
  simp only [findEntry?_text, insertEntry]
  split
  next hany =>
    -- The keys stay as they are, so the same entry is found as before.
    rw [entries_update, find?_map, Option.map_map]
    have htest : ((fun e : Value × Value => e.1.spells name) ∘ fun e : Value × Value =>
        if w.same e.1 key then (e.1, v) else e) = fun e => e.1.spells name := by
      funext e
      by_cases h : w.same e.1 key <;> simp [h]
    rw [htest]
    split
    next hkey =>
      obtain ⟨o, rfl⟩ := Value.eq_of_spells hkey
      simp only [w.same_text] at hany ⊢
      obtain ⟨e, he⟩ := Option.isSome_iff_exists.1 (find?_isSome.2 (any_eq_true.1 hany))
      have hspells := find?_some he
      rw [he, Option.map_some]
      simp [hspells]
    next hkey =>
      refine Option.map_congr fun e he => ?_
      have hspells := find?_some he
      obtain ⟨o, ho⟩ := Value.eq_of_spells hspells
      have hother : w.same e.1 key = false := by
        rw [ho, w.text_same]
        exact Bool.not_eq_true _ ▸ hkey
      simp [hother]
  next hany =>
    rw [Dict.entries_add, find?_append]
    split
    next hkey =>
      obtain ⟨o, rfl⟩ := Value.eq_of_spells hkey
      simp only [w.same_text] at hany
      have hnone : d.entries.find? (fun e => e.1.spells name) = none := by
        rw [find?_eq_none]
        intro e he hspells
        exact hany (any_eq_true.2 ⟨e, he, hspells⟩)
      simp [hnone, hkey]
    next hkey => simp [hkey]

/-- A dictionary display has under a text what stands last under it. -/
theorem findEntry?_display (u : Heap) (entries : List (Value × Value)) (name : String) :
    u.findEntry? (Script.display w entries).entries (.ofText name) = lastUnder? name entries := by
  have hfold (entries : List (Value × Value)) : ∀ (d : Dict) (found : Option Value),
      w.findEntry? d.entries (.ofText name) = found →
      w.findEntry? (entries.foldl (fun d e => w.insertEntry e.1 e.2 d) d).entries (.ofText name) =
        (lastUnder? name entries).or found := by
    induction entries with
    | nil => exact fun _ _ h => h
    | cons e rest ih =>
      rintro d _ rfl
      rw [foldl_cons, ih _ _ rfl, findEntry?_insertEntry, lastUnder?, Option.or_assoc]
      by_cases h : e.1.spells name <;> simp [h]
  -- Texts are compared without looking at the state.
  rw [u.findEntry?_text, ← w.findEntry?_text]
  unfold Script.display
  rw [hfold _ _ none (by rw [Script.entries_displayStart]; rfl)]
  exact Option.or_none

end Heap

/-! ## Parameters -/

namespace Engine

open Eval

/-- What the parameter at the place `i` is bound to. -/
def bound (positional : List Value) (keywords : List (Value × Value)) (i : Nat)
    (param : String × Value) : Value :=
  positional[i]?.getD ((lastUnder? param.1 keywords).getD param.2)

/-- A parameter of a macro as its object keeps it. -/
def keptParam (param : String × Value) : Constant × Value :=
  (.str param.1, param.2)

/-- Positional arguments without a parameter and keyword arguments under other names do not
count. -/
theorem mapIdx_bound_known (positional : List Value) (keywords : List (Value × Value))
    (params : List (String × Value)) :
    params.mapIdx (bound (positional.take params.length)
      (keywords.filter fun e => params.any fun p => e.1.spells p.1)) =
      params.mapIdx (bound positional keywords) := by
  refine mapIdx_eq_mapIdx_iff.2 fun i hi => ?_
  unfold bound
  rw [getElem?_take_of_lt hi]
  -- The filter keeps all that stands under the name of a parameter.
  have hlast : ∀ entries : List (Value × Value),
      lastUnder? params[i].1 (entries.filter fun e => params.any fun p => e.1.spells p.1) =
        lastUnder? params[i].1 entries := by
    intro entries
    induction entries with
    | nil => rfl
    | cons e rest ih =>
      by_cases h : params.any fun p => e.1.spells p.1
      · rw [filter_cons, if_pos h, lastUnder?, lastUnder?, ih]
      · have hother : ¬e.1.spells params[i].1 = true := fun hspells =>
          h (any_eq_true.2 ⟨params[i], getElem_mem hi, hspells⟩)
        rw [filter_cons, if_neg h, lastUnder?, ih, if_neg hother, Option.or_none]
  rw [hlast]

variable {positional : List Value} {keywords : List (Value × Value)} {s : Surroundings}
  {o : Objects} {l d : Ref}

theorem perform_subscript {v key x} (h : (mk o s).subscript v key = .ok x) :
    (subscript v key).perform s o = (taken v x).perform s o := by
  show (Eval.ofExcept ((mk o s).subscript v key) >>= taken v).perform s o = _
  rw [h]
  rfl

theorem perform_subscript_list {i : Nat} {v} (h : (o.listItems l)[i]? = some v) :
    (subscript (.list l) (.ofInt i)).perform s o = (.ok v, o) := by
  have hlt : i < (o.listAt l).size := by
    obtain ⟨hlt, -⟩ := List.getElem?_eq_some_iff.1 h
    exact hlt
  have hposition : Heap.position? (o.listAt l).size i = some i := by
    have hpos : ¬(i : Int) < 0 := Int.not_lt.2 (Int.natCast_nonneg i)
    simp only [Heap.position?, if_neg hpos]
    rw [if_pos ⟨Int.natCast_nonneg i, Int.ofNat_lt.2 hlt⟩, Int.toNat_natCast]
  have hitem : (Heap.mk o s).subscript (.list l) (.ofInt i) = .ok v := by
    have hget : (o.listAt l)[i]? = some v := (Array.getElem?_toList ..).symm.trans h
    simp only [Heap.subscript, Heap.sequenceItem, Value.int?, Value.ofInt, hposition,
      Option.bind_some, hget]
  rw [perform_subscript hitem]
  rfl

theorem perform_subscript_dict {name v}
    (h : Heap.findEntry? (Heap.mk o s) (o.dictEntries d) (.ofText name) = some v) :
    (subscript (.dict d) (.ofText name)).perform s o = (.ok v, o) := by
  have hitem : (Heap.mk o s).subscript (.dict d) (.ofText name) = .ok v := by
    have hentry := h
    unfold Value.ofText at hentry
    simp only [Heap.subscript, Heap.mapping?, Heap.mappingItem, Heap.unhashable?, Value.ofText,
      hentry]
  rw [perform_subscript hitem]
  rfl

theorem perform_within_dict {name : String} {found : Option Value}
    (h : findEntry? (mk o s) (o.dictEntries d) (.ofText name) = found) :
    (within (.ofText name) (.dict d)).perform s o = (.ok found.isSome, o) := by
  have hany : ((o.dictEntries d).map (·.1)).any (fun k => (mk o s).same k (.ofText name)) =
      found.isSome := by
    rw [← h, findEntry?, Option.isSome_map, isSome_find?, any_map]
    rfl
  rw [← hany]
  rfl

section

variable (hl : o.listItems l = positional)
  (hd : ∀ name, findEntry? (mk o s) (o.dictEntries d) (.ofText name) = lastUnder? name keywords)

include hl hd

theorem perform_bindParam (i : Nat) (param : String × Value) :
    (bindParam (.list l) (.dict d) i (keptParam param)).perform s o =
      (.ok (bound positional keywords i param), o) := by
  have hlength : (length (.list l)).perform s o = (.ok positional.length, o) := by
    subst hl
    rfl
  unfold bindParam
  rw [perform_bind, hlength]
  dsimp only
  split
  next hi =>
    have hget := getElem?_eq_getElem hi
    rw [perform_subscript_list ((congrArg (·[i]?) hl).trans hget), bound, hget, Option.getD_some]
  next hi =>
    have hwithin : (within (.ofConstant (keptParam param).1) (.dict d)).perform s o =
        (.ok (lastUnder? param.1 keywords).isSome, o) :=
      perform_within_dict (hd param.1)
    rw [perform_bind, hwithin, bound, getElem?_eq_none (Nat.le_of_not_lt hi), Option.getD_none]
    cases hfind : lastUnder? param.1 keywords with
    | none => rfl
    | some v => exact perform_subscript_dict ((hd param.1).trans hfind)

theorem perform_bindParams (params : List (String × Value)) (i : Nat) :
    (bindParams (.list l) (.dict d) i (params.map keptParam)).perform s o =
      (.ok (params.mapIdx fun j => bound positional keywords (i + j)), o) := by
  induction params generalizing i with
  | nil => rfl
  | cons param rest ih =>
    have hrest := ih (i + 1)
    simp only [Nat.add_assoc, Nat.add_comm 1] at hrest
    rw [map_cons, bindParams, perform_bind, perform_bindParam hl hd]
    dsimp only
    rw [perform_bind, hrest, mapIdx_cons]
    rfl

end

end Engine

end Stencil
