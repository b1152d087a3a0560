import Stencil.Proofs.Instruction
import Stencil.Proofs.Library

/-!
# Filters on sequences

The filters for the number of elements, the first and the last element and the reverse order take
different ways through a value. For texts, lists, tuples, dictionaries and one-shot iterators they
agree with the order of iteration, with two exceptions (`sequence_filters_follow_iteration`): a
one-shot iterator that is used up has no first and no last element, and a dictionary gives as its
last element what it has under the number before zero.
-/

namespace Stencil

open Eval List

variable {v : Value} {xs : List Value} {s : Surroundings} {o : Objects}

namespace Value

/-- Whether a value holds elements in an order: a text, a list, a tuple, a dictionary or a one-shot
iterator. -/
def isSequence : Value → Bool
  | .str _ | .list _ | .tuple _ | .dict _ | .cursor _ => true
  | _ => false

/-- Whether a value is a one-shot iterator. -/
def isCursor : Value → Bool
  | .cursor _ => true
  | _ => false

/-- How the value `z` hands out an element of `v`: a character as a text with that content, anything
else as it is. -/
def Hands (v x z : Value) : Prop :=
  match v with
  | .str _ => z.withOrigin .shared = x.withOrigin .shared
  | _ => z = x

/-- An outcome hands out an element of a value if there is one, and it is the given one if there is
none. -/
def HandsOut {ε : Type} (v : Value) (x? : Option Value) (other out : Except ε Value) : Prop :=
  (x? = Option.none ∧ out = other) ∨ ∃ x z, x? = some x ∧ out = .ok z ∧ v.Hands x z

/-- The value `z` holds the elements of `v` in reverse order: a text for a text, a list for anything
else. -/
def IsReversed (v z : Value) (w : Heap) (xs : List Value) : Prop :=
  match v with
  | .str t => ∃ origin, z = .str (o := origin) (String.ofList t.toList.reverse)
  | _ => ∃ r, z = .list r ∧ w.listItems r = xs.reverse

/-- What holds elements in reverse order hands them out in that order. -/
theorem IsReversed.elements {z : Value} {w w' : Heap} (h : v.IsReversed z w xs)
    (hkind : v.isSequence = true) (hxs : w'.elements? v = some xs) :
    z.isSequence = true ∧ z.isCursor = false ∧ w.elements? z = some xs.reverse ∧
      z.Hands = v.Hands := by
  cases v <;> cases hkind
  case str t =>
    obtain ⟨origin, rfl⟩ := h
    obtain rfl := Option.some.inj hxs
    refine ⟨rfl, rfl, ?_, rfl⟩
    rw [Heap.elements?, String.toList_ofList, map_reverse]
  all_goals
    obtain ⟨r, rfl, hitems⟩ := h
    exact ⟨rfl, rfl, congrArg some hitems, rfl⟩

end Value

namespace Heap

variable {w : Heap}

/-- What a dictionary has under the number before zero. -/
def underMinusOne? (w : Heap) : Value → Option Value
  | .dict r => w.findEntry? (w.dictEntries r) (.ofInt (-1))
  | _ => none

/-- A one-shot iterator always counts as true. -/
theorem truthy_sequence (hkind : v.isSequence = true) (hxs : w.elements? v = some xs) :
    w.truthy v = (v.isCursor || !xs.isEmpty) := by
  cases v <;> cases hkind <;> cases hxs
  case str t =>
    have hempty : t.isEmpty = t.toList.isEmpty := by
      rw [Bool.eq_iff_iff, String.isEmpty_iff, List.isEmpty_iff, String.toList_eq_nil_iff]
    simp [truthy, Value.isCursor, hempty]
  case tuple => rfl
  case cursor => rfl
  all_goals simp [truthy, Value.isCursor, Objects.listItems]

theorem underMinusOne?_empty (hxs : w.elements? v = some []) : w.underMinusOne? v = none := by
  cases v <;> try rfl
  have hnil := map_eq_nil_iff.1 (Option.some.inj hxs)
  show Option.map _ (List.find? _ (w.dictEntries _)) = none
  rw [hnil]
  rfl

/-- The position before the first one is the last one. -/
theorem position?_minusOne (size : Nat) : position? (size + 1) (-1) = some size := by
  simp only [position?]
  split <;> grind

theorem sequenceItem_minusOne (sequence : String) {ys : List Value} {x element?}
    (h : element? ys.length = some x) :
    sequenceItem sequence (ys ++ [x]).length element? (.ofInt (-1)) = .ok x := by
  simp only [sequenceItem, Value.ofInt, Value.int?, length_append, length_singleton,
    position?_minusOne, Option.bind_some, h]

/-- What is asked for the number before zero gives what it has there, which is the last element for
texts, lists and tuples, or complains. -/
theorem subscript_minusOne {ys x} (hkind : v.isSequence = true)
    (hxs : w.elements? v = some (ys ++ [x])) :
    w.subscript v (.ofInt (-1)) = .ok ((w.underMinusOne? v).getD x) ∨
      (w.underMinusOne? v = none ∧ ∀ t origin, v ≠ .str (o := origin) t) ∧
        ∃ f, w.subscript v (.ofInt (-1)) = .error f ∧ (f.family = .type ∨ f.family = .key) := by
  cases v <;> cases hkind
  case str t =>
    obtain ⟨cs, last, hcs, -, hx⟩ := map_eq_append_iff.1 (Option.some.inj hxs)
    obtain ⟨c, rfl, rfl⟩ := map_eq_singleton_iff.1 hx
    have hlength : t.length = cs.length + 1 := by
      rw [← String.length_toList, hcs, length_append, length_singleton]
    left
    simp only [subscript, Value.ofInt, Value.int?, hlength, position?_minusOne, Option.bind_some,
      hcs, getElem?_concat_length]
    rfl
  case tuple items =>
    obtain rfl : items = ys ++ [x] := Option.some.inj hxs
    exact .inl (sequenceItem_minusOne "tuple" getElem?_concat_length)
  case list r =>
    have hitems : (w.listAt r).toList = ys ++ [x] := Option.some.inj hxs
    refine .inl ?_
    rw [subscript, ← Array.length_toList, hitems]
    apply sequenceItem_minusOne
    rw [← Array.getElem?_toList, hitems, getElem?_concat_length]
  case cursor r => exact .inr ⟨⟨rfl, fun _ _ h => by cases h⟩, _, rfl, .inl rfl⟩
  case dict r =>
    have hitem : w.subscript (.dict r) (.ofInt (-1)) =
        w.mappingItem (w.dictEntries r) (.ofInt (-1)) := rfl
    rw [hitem, mappingItem]
    cases hentry : w.underMinusOne? (.dict r) <;> rw [underMinusOne?] at hentry <;> rw [hentry]
    case some y => exact .inl rfl
    case none =>
      refine .inr ⟨⟨rfl, fun _ _ h => by cases h⟩, _, rfl, .inr ?_⟩
      unfold missingKey
      split <;> rfl

end Heap

/-- The first entry of a dictionary is found in the slots from the first one on. -/
theorem Dict.entryFrom?_zero (d : Dict) : (d.entryFrom? 0).map (·.1) = d.entries.head? := by
  have hsearch (l : List (Option (Value × Value))) : ∀ i,
      (Dict.entryFrom?.search l i).map (·.1) = (l.filterMap id).head? := by
    induction l with
    | nil => exact fun i => rfl
    | cons slot rest ih =>
      cases slot with
      | none => exact fun i => ih (i + 1)
      | some e => exact fun i => rfl
  exact hsearch d.slots 0

namespace Eval

/-- An element is handed out. -/
theorem perform_taken (v x : Value) (s : Surroundings) (o : Objects) :
    ∃ z o', (taken v x).perform s o = (.ok z, o') ∧ v.Hands x z := by
  cases v
  case str t =>
    unfold taken renew
    dsimp only
    split <;>
    · refine ⟨_, _, rfl, ?_⟩
      cases x <;> rfl
  all_goals exact ⟨x, o, rfl, rfl⟩

/-- The keys of a dictionary are gone through from the first one on. -/
theorem perform_next_dictFrom (r : Ref) :
    ∃ r?, (Traversal.dictFrom .keys r 0 (o.dictAt r).size (o.dictAt r).size).next.perform s o =
      (.ok r?, o) ∧ r?.map (·.1) = (o.dictEntries r).head?.map (·.1) := by
  have hget : (get : Operation Objects).perform s o = (.ok o, o) := rfl
  have hfirst := (o.dictAt r).entryFrom?_zero
  have hsize : (o.dictAt r).size = (o.dictEntries r).length := rfl
  unfold Traversal.next
  rw [perform_bind, hget]
  simp only [bne_self_eq_false, Bool.false_eq_true, if_false]
  unfold Objects.dictEntries at hsize ⊢
  cases hentries : (o.dictAt r).entries with
  | nil =>
    rw [hentries] at hfirst
    rw [Option.map_eq_none_iff.1 hfirst]
    exact ⟨_, rfl, rfl⟩
  | cons e rest =>
    rw [hentries] at hfirst hsize
    obtain ⟨⟨e', slot⟩, hentry, rfl⟩ := Option.map_eq_some_iff.1 hfirst
    rw [hentry, hsize]
    exact ⟨_, rfl, rfl⟩

/-- An iteration starts with the first element. -/
theorem perform_next_start (hkind : v.isSequence = true)
    (hxs : (Heap.mk o s).elements? v = some xs) :
    ∃ it r? o', Iteration.start? (Heap.mk o s) v = some it ∧
      it.next.perform s o = (.ok r?, o') ∧ r?.map (·.1) = xs.head? := by
  have hover (t : Traversal) {r?} {o'} (h : t.next.perform s o = (.ok r?, o')) :
      (Iteration.over t).next.perform s o = (.ok (r?.map fun p => (p.1, .over p.2)), o') := by
    unfold Iteration.next
    rw [perform_bind, h]
    cases r? <;> rfl
  suffices ∃ t r? o', Iteration.start? (Heap.mk o s) v = some (.over t) ∧
      t.next.perform s o = (.ok r?, o') ∧ r?.map (·.1) = xs.head? by
    obtain ⟨t, r?, o', hstart, hnext, hfirst⟩ := this
    refine ⟨_, _, o', hstart, hover t hnext, ?_⟩
    rw [Option.map_map, ← hfirst]
    rfl
  have hget : (get : Operation Objects).perform s o = (.ok o, o) := rfl
  cases v <;> cases hkind
  case list r =>
    obtain rfl : (o.listAt r).toList = xs := Option.some.inj hxs
    have hnext : (Traversal.listFrom r 0).next.perform s o =
        (.ok ((o.listAt r)[0]?.map fun v => (v, .listFrom r 1)), o) := by
      unfold Traversal.next
      rw [perform_bind, hget]
      dsimp only
      cases (o.listAt r)[0]? <;> rfl
    refine ⟨_, _, _, rfl, hnext, ?_⟩
    rw [head?_eq_getElem?, Array.getElem?_toList]
    cases (o.listAt r)[0]? <;> rfl
  case dict r =>
    obtain rfl : (o.dictEntries r).map (·.1) = xs := Option.some.inj hxs
    obtain ⟨r?, hnext, hfirst⟩ := perform_next_dictFrom r
    exact ⟨_, r?, o, rfl, hnext, hfirst.trans head?_map.symm⟩
  case cursor r =>
    obtain rfl : o.cursorRest r = xs := Option.some.inj hxs
    refine ⟨.cursor r, ?_⟩
    unfold Traversal.next
    rw [perform_bind, hget]
    dsimp only
    cases o.cursorRest r <;> exact ⟨_, _, rfl, rfl, rfl⟩
  all_goals
    refine ⟨.fixed xs, ?_⟩
    have hstart := congrArg (Option.map fun xs => Iteration.over (.fixed xs)) hxs
    cases xs <;> exact ⟨_, _, hstart, rfl, rfl⟩

/-- All elements of a value that is no text. -/
theorem perform_elements (hkind : v.isSequence = true)
    (htext : ∀ t origin, v ≠ .str (o := origin) t)
    (hxs : (Heap.mk o s).elements? v = some xs) :
    ∃ o', (elements v).perform s o = (.ok xs, o') := by
  cases v <;> cases hkind <;> cases hxs
  case str t => exact absurd rfl (htext t _)
  all_goals exact ⟨_, rfl⟩

end Eval

namespace BuiltinFilter

theorem perform_firstElement (hkind : v.isSequence = true)
    (hxs : (Heap.mk o s).elements? v = some xs) :
    v.HandsOut xs.head? (if v.isCursor then .error .exhausted else .ok .none)
      ((firstElement v).perform s o).1 := by
  obtain ⟨it, r?, o', hstart, hnext, hfirst⟩ := perform_next_start hkind hxs
  unfold firstElement
  rw [perform_heap_bind, Heap.truthy_sequence hkind hxs]
  cases xs with
  | cons x ys =>
    obtain ⟨⟨x, rest⟩, rfl, rfl⟩ := Option.map_eq_some_iff.1 hfirst
    obtain ⟨z, o'', htaken, hhands⟩ := perform_taken v x s o'
    refine .inr ⟨x, z, rfl, ?_, hhands⟩
    simp only [isEmpty_cons, Bool.not_false, Bool.or_true, Bool.not_true, Bool.false_eq_true,
      if_false, hstart]
    rw [perform_bind, hnext]
    exact congrArg Prod.fst htaken
  | nil =>
    obtain rfl := Option.map_eq_none_iff.1 hfirst
    refine .inl ⟨rfl, ?_⟩
    cases v.isCursor with
    | false => rfl
    | true =>
      simp only [Bool.true_or, Bool.not_true, Bool.false_eq_true, if_false, if_true, hstart]
      rw [perform_bind, hnext]
      rfl

/-- The last element, but a dictionary first looks under the number before zero. -/
theorem perform_lastElement (hkind : v.isSequence = true)
    (hxs : (Heap.mk o s).elements? v = some xs) :
    v.HandsOut (((Heap.mk o s).underMinusOne? v).or xs.getLast?)
      (if v.isCursor then .error (.indexOutOfRange "list") else .ok .none)
      ((lastElement v).perform s o).1 := by
  unfold lastElement
  rw [perform_heap_bind, Heap.truthy_sequence hkind hxs]
  rcases eq_nil_or_concat xs with rfl | ⟨ys, x, rfl⟩
  · refine .inl ⟨by rw [Heap.underMinusOne?_empty hxs]; rfl, ?_⟩
    cases v <;> cases hkind
    case inl.cursor.refl r =>
      obtain ⟨o', helements⟩ := perform_elements (v := .cursor r) rfl nofun hxs
      show ((elements (.cursor r) >>= _).perform s o).1 = _
      rw [perform_bind, helements]
      rfl
    all_goals rfl
  · rw [concat_eq_append] at hxs ⊢
    have hlast (y? : Option Value) : y?.or (ys ++ [x]).getLast? = some (y?.getD x) := by
      cases y? <;> simp
    have htrue : (v.isCursor || !(ys ++ [x]).isEmpty) = true := by simp
    rw [htrue]
    rcases Heap.subscript_minusOne hkind hxs with hsub | ⟨⟨hnone, htext⟩, f, hsub, hfamily⟩
    · obtain ⟨z, o', htaken, hhands⟩ :=
        perform_taken v (((Heap.mk o s).underMinusOne? v).getD x) s o
      refine .inr ⟨_, z, hlast _, ?_, hhands⟩
      simp only [Bool.not_true, Bool.false_eq_true, if_false, hsub, htaken]
    · obtain ⟨o', helements⟩ := perform_elements hkind htext hxs
      refine .inr ⟨x, x, by rw [hlast, hnone]; rfl, ?_, ?_⟩
      · simp only [Bool.not_true, Bool.false_eq_true, if_false, hsub, if_pos hfamily]
        rw [perform_bind, helements]
        simp only [getLast?_concat]
        rfl
      · unfold Value.Hands
        split <;> rfl

/-- The number of elements. -/
theorem perform_countElements (hkind : v.isSequence = true)
    (hxs : (Heap.mk o s).elements? v = some xs) :
    ∃ n o', (countElements v).perform s o = (.ok n, o') ∧ n.int? = some (xs.length : Int) := by
  have hnew (o : Objects) :
      ∃ n o', (newInt xs.length).perform s o = (.ok n, o') ∧ n.int? = some (xs.length : Int) := by
    obtain ⟨origin, o', hnew⟩ := perform_newInt xs.length s o
    exact ⟨_, _, hnew, rfl⟩
  by_cases hcursor : v.isCursor = true
  · obtain ⟨r, rfl⟩ : ∃ r, v = .cursor r := by cases v <;> first | exact ⟨_, rfl⟩ | cases hcursor
    obtain ⟨o', helements⟩ := perform_elements hkind nofun hxs
    have hrun : (countElements (.cursor r)).perform s o = (newInt xs.length).perform s o' := by
      unfold countElements
      show (elements (.cursor r) >>= fun items => newInt items.length).perform s o = _
      rw [perform_bind, helements]
    rw [hrun]
    exact hnew o'
  · have hlength : (Heap.mk o s).length v = .ok xs.length := by
      cases v <;> cases hkind <;> cases hxs
      case str t => rw [Heap.length, length_map, String.length_toList]
      case cursor => exact absurd rfl hcursor
      all_goals rfl
    unfold countElements
    cases v <;> cases hkind
    all_goals
      dsimp only
      rw [perform_heap_bind, hlength]
      exact hnew o

/-- The elements in reverse order, in a text for a text and in a list otherwise. -/
theorem perform_reverseElements (hkind : v.isSequence = true)
    (hxs : (Heap.mk o s).elements? v = some xs) :
    ∃ z o', (reverseElements v).perform s o = (.ok z, o') ∧ v.IsReversed z (Heap.mk o' s) xs := by
  have hlist (o : Objects) : ∃ r o', (newList xs.reverse).perform s o = (.ok (.list r), o') ∧
      (Heap.mk o' s).listItems r = xs.reverse := by
    refine ⟨o.lists.size, { o with lists := o.lists.push xs.reverse.toArray }, rfl, ?_⟩
    simp [Objects.listItems, Objects.listAt]
  have hreversed (htext : ∀ t origin, v ≠ .str (o := origin) t) : ∃ r o',
      (elements v >>= fun items => newList items.reverse).perform s o = (.ok (.list r), o') ∧
      (Heap.mk o' s).listItems r = xs.reverse := by
    obtain ⟨o', helements⟩ := perform_elements hkind htext hxs
    rw [perform_bind, helements]
    exact hlist o'
  cases v <;> cases hkind
  case str t =>
    obtain ⟨origin, objects, hnew⟩ := perform_newText (String.ofList t.toList.reverse) s o
    exact ⟨_, _, hnew, origin, rfl⟩
  all_goals
    obtain ⟨r, o', hrun, hitems⟩ := hreversed fun _ _ h => by cases h
    exact ⟨.list r, o', hrun, r, rfl, hitems⟩

variable {w : World} (call : Call)

/-- What an operation hands out, and how it fails, is the same in a run. -/
theorem hands_outcome {x? : Option Value} {cursor : Bool} {f : Fault} {operation : Operation Value}
    (h : v.HandsOut x? (if cursor then .error f else .ok .none)
      (operation.perform w.toSurroundings w.toObjects).1) :
    v.HandsOut x? (if cursor then .error (.fault f) else .ok .none)
      ((liftM operation : Eval Value).outcome w).1 := by
  rw [outcome_lift]
  rcases hrun : operation.perform w.toSurroundings w.toObjects with ⟨out, o'⟩
  rw [hrun] at h
  rcases h with ⟨hnone, hout⟩ | ⟨x, z, hx, hout, hhands⟩
  · refine .inl ⟨hnone, ?_⟩
    cases cursor <;> cases hout <;> rfl
  · cases hout
    exact .inr ⟨x, z, hx, rfl, hhands⟩

/-- **The filters on texts, lists, tuples, dictionaries and one-shot iterators agree with the order
of the elements**: the number of elements, their reverse order, and the first and the last one, or
nothing where there is none. But a one-shot iterator that is used up fails to give a first or a last
one, and a dictionary with an entry under the number before zero gives the value of that entry as
its last element. -/
theorem sequence_filters_follow_iteration (hkind : v.isSequence = true)
    (hxs : w.toHeap.elements? v = some xs) :
    (∃ n u, (apply call .length [v]).outcome w = (.ok n, u) ∧ n.int? = some (xs.length : Int)) ∧
    (∃ z u, (apply call .reverse [v]).outcome w = (.ok z, u) ∧ v.IsReversed z u.toHeap xs ∧
      v.HandsOut xs.getLast? (.ok .none) ((apply call .first [z]).outcome u).1) ∧
    v.HandsOut xs.head? (if v.isCursor then .error (.fault .exhausted) else .ok .none)
      ((apply call .first [v]).outcome w).1 ∧
    v.HandsOut ((w.toHeap.underMinusOne? v).or xs.getLast?)
      (if v.isCursor then .error (.fault (.indexOutOfRange "list")) else .ok .none)
      ((apply call .last [v]).outcome w).1 := by
  have hfirst {v : Value} {w : World} {xs : List Value} (hkind : v.isSequence = true)
      (hxs : w.toHeap.elements? v = some xs) :
      v.HandsOut xs.head? (if v.isCursor then .error (.fault .exhausted) else .ok .none)
        ((apply call .first [v]).outcome w).1 := by
    have happly : apply call .first [v] = (liftM (firstElement v) : Eval Value) := rfl
    exact happly ▸ hands_outcome (perform_firstElement hkind hxs)
  have happly : apply call .last [v] = (liftM (lastElement v) : Eval Value) := rfl
  refine ⟨?_, ?_, hfirst hkind hxs, happly ▸ hands_outcome (perform_lastElement hkind hxs)⟩
  · obtain ⟨n, o', hcount, hn⟩ := perform_countElements hkind hxs
    refine ⟨n, { w with toObjects := o' }, ?_, hn⟩
    show (liftM (countElements v) : Eval Value).outcome w = _
    rw [outcome_lift, hcount]
    rfl
  · obtain ⟨z, o', hreverse, hreversed⟩ := perform_reverseElements hkind hxs
    obtain ⟨hsequence, hcursor, helements, hhands⟩ := hreversed.elements hkind hxs
    refine ⟨z, { w with toObjects := o' }, ?_, hreversed, ?_⟩
    · show (liftM (reverseElements v) : Eval Value).outcome w = _
      rw [outcome_lift, hreverse]
      rfl
    · have hlast := hfirst (w := { w with toObjects := o' }) hsequence helements
      rw [hcursor, head?_reverse] at hlast
      unfold Value.HandsOut at hlast ⊢
      rwa [hhands] at hlast

/-- A one-shot iterator over two numbers. -/
theorem iterator_filters_follow_iteration :
    let w : World := { cursors := Store.push {} [.ofInt 3, .ofInt 5] }
    let v : Value := .cursor 0
    w.toHeap.elements? v = some [.ofInt 3, .ofInt 5] ∧
      v.HandsOut (some (.ofInt 3)) (.error (.fault .exhausted))
        ((apply (Engine.call 9) .first [v]).outcome w).1 ∧
      v.HandsOut (some (.ofInt 5)) (.error (.fault (.indexOutOfRange "list")))
        ((apply (Engine.call 9) .last [v]).outcome w).1 := by
  intro w v
  have hxs : w.toHeap.elements? v = some [.ofInt 3, .ofInt 5] := rfl
  exact ⟨hxs, (sequence_filters_follow_iteration (Engine.call 9) rfl hxs).2.2⟩

/-- The last key of a dictionary is not given if another one is the number before zero. -/
theorem last_of_dictionary_with_minus_one :
    let entries : List (Value × Value) := [(.ofInt (-1), .ofText "a"), (.ofInt 2, .ofText "b")]
    let w : World := { dicts := Store.push {} (.ofEntries entries) }
    ((((apply (Engine.call 9) .last [.dict 0]).outcome w).1.toOption.bind Value.constant?).map
      Constant.text) = some "a" := by
  decide +kernel

end BuiltinFilter

end Stencil
