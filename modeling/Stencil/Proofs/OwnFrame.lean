import Stencil.Proofs.Binding
import Stencil.Proofs.Tameness

/-!
# Binding names in a frame of one's own

A dotted name is bound by walking along its path, from the frame through the dictionaries under the
parts of the path. If the code that owns the frame binds only paths none of which leads into another
one, then every dictionary on the way was made for this purpose, since the frame was opened: no
value that was bound stands on the way of a path (`Charted`). Binding a name therefore changes no
dictionary that was there before the frame, and if this holds of every path whatsoever, it is an
update of what stands at one path (`Updates`).
-/

namespace Stencil

open Heap List Store

variable {next part : String} {more : List String}

/-- What a dictionary has under a text. -/
def Dict.under? (d : Dict) (name : String) : Option Value :=
  (d.entries.find? fun e => e.1.spells name).map (·.2)

theorem Dict.under?_insertEntry (w : Heap) (part : String) (v : Value) (d : Dict) (name : String) :
    (w.insertEntry (.ofText part) v d).under? name =
      if part = name then some v else d.under? name := by
  have h := w.findEntry?_insertEntry (.ofText part) v d name
  rw [w.findEntry?_text, w.findEntry?_text] at h
  simpa [Dict.under?, Value.spells, Value.ofText] using h

/-- A path that is the beginning of a longer one among the given paths. -/
def Inner (paths : List (List String)) (q : List String) : Prop :=
  ∃ p ∈ paths, q <+: p ∧ q ≠ p

/-- A value may be bound at a path: what leads there are inner paths, and a dictionary is not bound
at one. -/
def Bindable (inner : List String → Prop) (v : Value) (path : List String) : Prop :=
  (∀ q, q ≠ [] → q <+: path → q ≠ path → inner q) ∧ ∀ d, v = .dict d → ¬inner path

theorem Unnested.bindable {paths} (h : Unnested paths) {p} (hp : p ∈ paths) (v : Value) :
    Bindable (Inner paths) v p := by
  refine ⟨fun q _ hq hne => ⟨p, hp, hq, hne⟩, fun _ _ hinner => ?_⟩
  obtain ⟨q, hq, hprefix, hne⟩ := hinner
  exact hne (h p hp q hq hprefix)

/-- The dictionaries that stand on the way of the paths that are bound in a frame with the variables
`vars` are those that have a `place`. They are not older than the frame, whose dictionaries have
references from `start` on. -/
structure Charted (inner : List String → Prop) (start : Nat) (place : Ref → Option (List String))
    (vars : Table String Value) (dicts : Store Dict) : Prop where
  fresh {d q} : place d = some q → start ≤ d
  exist {d q} : place d = some q → d < dicts.size
  top {x d} : inner [x] → vars.find? x = some (.dict d) → place d = some [x]
  below {d e q x b} : place d = some q →
    inner (q ++ [x]) → dicts.get? d = some b → b.under? x = some (.dict e) →
    place e = some (q ++ [x])

namespace Charted

variable {inner : List String → Prop} {start : Nat} {place : Ref → Option (List String)}
  {vars : Table String Value} {dicts : Store Dict}

theorem empty (dicts : Store Dict) : Charted inner start (fun _ => none) {} dicts where
  fresh h := by cases h
  exist h := by cases h
  top _ h := by cases h
  below h := by cases h

theorem grow {dicts'} (h : Charted inner start place vars dicts) (hext : Extends dicts dicts') :
    Charted inner start place vars dicts' where
  fresh := h.fresh
  exist hd := Nat.lt_of_lt_of_le (h.exist hd) hext.1
  top := h.top
  below hd hq hb := h.below hd hq (hext.2 _ (h.exist hd) ▸ hb)

/-- A variable may get a value if no path goes on from it, or if the value has that place. -/
theorem bind (h : Charted inner start place vars dicts) {x v}
    (hv : ∀ e, v = .dict e → inner [x] → place e = some [x]) :
    Charted inner start place (vars.insert x v) dicts where
  fresh := h.fresh
  exist := h.exist
  top {y d} hy hd := by
    by_cases hxy : y = x
    · subst hxy
      rw [Table.find?_insert_self, Option.some.injEq] at hd
      exact hv d hd hy
    · rw [vars.find?_insert_of_ne hxy] at hd
      exact h.top hy hd
  below := h.below

/-- The same for an entry of a dictionary that has a place. -/
theorem setEntry (h : Charted inner start place vars dicts) {d q b} (hd : place d = some q)
    (hb : dicts.get? d = some b) {x v}
    (hv : ∀ e, v = .dict e → inner (q ++ [x]) → place e = some (q ++ [x])) (w : Heap) :
    Charted inner start place vars (dicts.set d (w.insertEntry (.ofText x) v b)) where
  fresh := h.fresh
  exist hd := by
    rw [size_set]
    exact h.exist hd
  top := h.top
  below {d' e q' y b'} hd' hq hb' he := by
    by_cases hdd : d = d'
    · subst hdd
      rw [dicts.get?_set_self _ (h.exist hd), Option.some.injEq] at hb'
      subst hb'
      obtain rfl : q = q' := Option.some.inj (hd.symm.trans hd')
      rw [Dict.under?_insertEntry] at he
      split at he
      · rename_i hxy
        subst hxy
        exact hv e (Option.some.inj he) hq
      · exact h.below hd hq hb he
    · rw [dicts.get?_set_of_ne _ hdd] at hb'
      exact h.below hd' hq hb' he

/-- A new dictionary may get a place. -/
theorem push (h : Charted inner start place vars dicts) (hstart : start ≤ dicts.size)
    (q : List String) :
    Charted inner start (fun d => if d = dicts.size then some q else place d) vars
      (dicts.push {}) := by
  have hold {d : Ref} {q' : List String} (hd : place d = some q') :
      (if d = dicts.size then some q else place d) = some q' := by
    rw [if_neg (Nat.ne_of_lt (h.exist hd)), hd]
  constructor
  · intro d q' hd
    split at hd
    · rename_i heq
      exact heq ▸ hstart
    · exact h.fresh hd
  · intro d q' hd
    rw [size_push]
    split at hd
    · rename_i heq
      exact heq ▸ Nat.lt_succ_self _
    · exact Nat.lt_succ_of_lt (h.exist hd)
  · intro x d hx hd
    exact hold (h.top hx hd)
  · intro d e q' x b hd hq hb he
    split at hd
    · rename_i heq
      rw [heq, get?_push_self, Option.some.injEq] at hb
      subst hb
      cases he
    · rw [dicts.get?_push_of_lt _ (h.exist hd)] at hb
      exact hold (h.below hd hq hb he)

end Charted

theorem not_concat_isPrefix_self (q : List String) (x : String) : ¬q ++ [x] <+: q := by
  intro h
  have hlength := h.length_le
  rw [length_append, length_singleton] at hlength
  omega

theorem concat_isPrefix_unique {q p} {x y : String} (hx : q ++ [x] <+: p)
    (hy : q ++ [y] <+: p) : x = y := by
  obtain ⟨more, rfl⟩ := hx
  obtain ⟨more', h⟩ := hy
  simp only [append_assoc, append_cancel_left_eq] at h
  exact (cons.inj h).1.symm

/-! ## What stands at a path -/

/-- What stands at a path if names are looked up as given: every part but the last leads to the
dictionary in which the next one is looked up. -/
def follow (dicts : Store Dict) : (String → Option Value) → List String → Option Value
  | _, [] => none
  | look, [part] => look part
  | look, part :: next :: more =>
    match look part with
    | some (.dict d) => follow dicts ((dicts.get? d).getD default).under? (next :: more)
    | _ => none

theorem follow_dict {dicts look d} (h : look part = some (.dict d)) :
    follow dicts look (part :: next :: more) =
      follow dicts ((dicts.get? d).getD default).under? (next :: more) := by
  simp only [follow, h]

theorem follow_none {dicts look} (h : ∀ d, look part ≠ some (.dict d)) :
    follow dicts look (part :: next :: more) = none := by
  unfold follow
  split
  next d hd => exact absurd hd (h d)
  next => rfl

theorem follow_empty (dicts : Store Dict) (path : List String) :
    follow dicts (default : Dict).under? path = none := by
  match path with
  | [] | [_] => rfl
  | _ :: _ :: _ => exact follow_none fun _ => nofun

/-- Paths that begin with a name do not depend on dictionaries that have a place elsewhere. -/
theorem Charted.follow_congr {inner start place vars dicts dicts'}
    (h : Charted inner start place vars dicts) (hinner : ∀ q, inner q) :
    ∀ (path : List String) {q : List String} {name : String} {look look' : String → Option Value},
      look' name = look name → (∀ d, look name = some (.dict d) → place d = some (q ++ [name])) →
      (∀ d q', place d = some q' → q ++ [name] <+: q' → dicts'.get? d = dicts.get? d) →
      follow dicts' look' (name :: path) = follow dicts look (name :: path)
  | [], _, _, _, _, hname, _, _ => hname
  | next :: more, q, name, look, look', hname, hlook, hsame => by
    by_cases hd : ∃ d, look name = some (.dict d)
    · obtain ⟨d, hd⟩ := hd
      have hplace := hlook d hd
      obtain ⟨b, hb⟩ := exists_get?_of_lt (h.exist hplace)
      rw [follow_dict (hname.trans hd), follow_dict hd, hsame d _ hplace (prefix_refl _), hb]
      exact h.follow_congr hinner more rfl (fun e he => h.below hplace (hinner _) hb he)
        fun e q' he hq => hsame e q' he ((prefix_append _ _).trans hq)
    · have hne (d : Ref) : look name ≠ some (.dict d) := fun h => hd ⟨d, h⟩
      rw [follow_none hne, follow_none (hname ▸ hne)]

/-- What stands at paths before and after a value is bound at one of them: nothing is left below
that path, and paths that neither lead to it nor go on from it are not concerned. -/
structure Updates (path : List String) (v : Value) (old new : List String → Option Value) :
    Prop where
  here : new path = some v
  beyond (p : List String) : path <+: p → p ≠ path → new p = none
  apart (p : List String) : ¬p <+: path → ¬path <+: p → new p = old p

namespace Updates

variable {v : Value} {old new old' new' : List String → Option Value}

/-- A name gets a value that is no dictionary. -/
theorem name (hpart : new [part] = some v) (hbeyond : ∀ x more, new (part :: x :: more) = none)
    (hother : ∀ x more, x ≠ part → new (x :: more) = old (x :: more)) :
    Updates [part] v old new where
  here := hpart
  beyond p hp hne := by
    obtain ⟨_ | ⟨x, more⟩, rfl⟩ := hp
    · exact absurd rfl hne
    · exact hbeyond x more
  apart p hp hp' := by
    rcases p with _ | ⟨x, more⟩
    · exact absurd nil_prefix hp
    · refine hother x more fun hx => hp' ?_
      simp [hx]

/-- An update below a name. -/
theorem below (h : Updates (next :: more) v old' new')
    (hold : ∀ x more, old (part :: x :: more) = old' (x :: more))
    (hnew : ∀ x more, new (part :: x :: more) = new' (x :: more))
    (hother : ∀ x more, x ≠ part → new (x :: more) = old (x :: more)) :
    Updates (part :: next :: more) v old new where
  here := (hnew next more).trans h.here
  beyond p hp hne := by
    obtain ⟨rest, rfl⟩ := hp
    exact (hnew next _).trans (h.beyond _ (prefix_append _ rest) fun heq =>
      hne (congrArg (part :: ·) heq))
  apart p hp hp' := by
    rcases p with _ | ⟨x, _ | ⟨y, rest⟩⟩
    · exact absurd nil_prefix hp
    · exact hother x [] fun hx => hp (by simp [hx])
    · by_cases hx : x = part
      · subst hx
        rw [hnew, hold]
        simp only [cons_prefix_cons, true_and] at hp hp'
        exact h.apart _ (by simpa using hp) (by simpa using hp')
      · exact hother x _ hx

end Updates

/-! ## Walking along a path -/

namespace Eval

variable {s : Surroundings} {o : Objects} {d : Ref} {v : Value}

theorem subDict_new {found} (h : ∀ e, found ≠ some (.dict e)) : subDict found =
      modifyGet fun w => ((w.dicts.size, true), { w with dicts := w.dicts.push {} }) := by
  unfold subDict
  split
  next e => exact absurd rfl (h e)
  next => rfl

theorem perform_setPath_last (part : String) : (setPath d [part] v).perform s o = (.ok (), { o with
      dicts := o.dicts.set d ((mk o s).insertEntry (.ofText part) v (o.dictAt d)) }) :=
  rfl

/-- A path of two parts or more goes on from the dictionary that `subDict` gives. -/
theorem perform_setPath_cons (part next : String) (more : List String) :
    (setPath d (part :: next :: more) v).perform s o = (do
        let (inner, isNew) ← subDict ((o.dictAt d).under? part)
        if isNew then
          setEntry d (.ofText part) (.dict inner)
        setPath inner (next :: more) v : Operation Unit).perform s o := by
  rw [show (o.dictAt d).under? part =
    findEntry? (mk o s) ((mk o s).dictEntries d) (.ofText part) from
    ((mk o s).findEntry?_text _ part).symm]
  exact perform_heap_bind _ s o

theorem perform_setPath_found {e} (h : (o.dictAt d).under? part = some (.dict e)) :
    (setPath d (part :: next :: more) v).perform s o =
      (setPath e (next :: more) v).perform s o := by
  rw [perform_setPath_cons, h]
  rfl

theorem perform_setPath_new (h : ∀ e, (o.dictAt d).under? part ≠ some (.dict e)) :
    (setPath d (part :: next :: more) v).perform s o =
      (setPath o.dicts.size (next :: more) v).perform s { o with
        dicts := (o.dicts.push {}).set d ((mk { o with dicts := o.dicts.push {} } s).insertEntry
          (.ofText part) (.dict o.dicts.size)
          ({ o with dicts := o.dicts.push {} }.dictAt d)) } := by
  rw [perform_setPath_cons, subDict_new h]
  rfl

/-- Binding a path below a dictionary that has a place changes no older dictionary and none that has
a place elsewhere, and leaves values that were bound off the way of all inner paths. If all paths
are inner ones, it is an update of what stands at the path. -/
theorem setPath_charted {inner base vars} :
    ∀ (parts : List String) {d : Ref} {o : Objects} {q : List String}
      {place : Ref → Option (List String)}, Charted inner base.size place vars o.dicts →
      Extends base o.dicts → place d = some q → parts ≠ [] → Bindable inner v (q ++ parts) →
      ∃ dicts place', (setPath d parts v).perform s o = (.ok (), { o with dicts }) ∧
        Extends base dicts ∧ Charted inner base.size place' vars dicts ∧
        (∀ e q', place e = some q' → ¬q <+: q' → dicts.get? e = o.dicts.get? e) ∧
        ((∀ q, inner q) → Updates parts v (follow o.dicts (o.dictAt d).under?)
          (follow dicts ((dicts.get? d).getD default).under?))
  | [part], d, o, q, place, h, hbase, hd, _, hpath => by
    obtain ⟨b, hb⟩ := exists_get?_of_lt (h.exist hd)
    have hdict : o.dictAt d = b := by rw [Objects.dictAt, hb, Option.getD_some]
    have hne {e : Ref} {q' : List String} (he : place e = some q') (hq : q ≠ q') : d ≠ e := by
      rintro rfl
      exact hq (Option.some.inj (hd.symm.trans he))
    refine ⟨_, place, perform_setPath_last part, hbase.set (h.fresh hd) _, ?_, ?_, fun hinner => ?_⟩
    · rw [hdict]
      exact h.setEntry hd hb (fun e he hinner => absurd hinner (hpath.2 e he)) _
    · exact fun e q' he hq => o.dicts.get?_set_of_ne _ (hne he fun heq => hq (heq ▸ prefix_refl q))
    · have hlook (x : String) := Dict.under?_insertEntry (mk o s) part v (o.dictAt d) x
      rw [o.dicts.get?_set_self _ (h.exist hd), Option.getD_some]
      refine .name ((hlook part).trans (if_pos rfl)) (fun x more => follow_none fun e he => ?_)
        fun x more hx => h.follow_congr hinner more ((hlook x).trans (if_neg (Ne.symm hx)))
          (fun e he => h.below hd (hinner _) hb (hdict ▸ he)) fun e q' he hq =>
            o.dicts.get?_set_of_ne _ (hne he fun heq => not_concat_isPrefix_self q x (heq ▸ hq))
      rw [hlook, if_pos rfl, Option.some.injEq] at he
      exact hpath.2 e he (hinner _)
  | part :: next :: more, d, o, q, place, h, hbase, hd, _, hpath => by
    have hpart : inner (q ++ [part]) := hpath.1 _ (by simp) ⟨next :: more, by simp⟩ (by simp)
    have hpath' : Bindable inner v (q ++ [part] ++ next :: more) := by simpa using hpath
    obtain ⟨b, hb⟩ := exists_get?_of_lt (h.exist hd)
    have hdict : o.dictAt d = b := by rw [Objects.dictAt, hb, Option.getD_some]
    by_cases hfound : ∃ e, (o.dictAt d).under? part = some (.dict e)
    · obtain ⟨e, he⟩ := hfound
      obtain ⟨dicts, place', hset, hbase', h', hlocal, hup⟩ :=
        setPath_charted (next :: more) h hbase (h.below hd hpart hb (hdict ▸ he)) (by simp) hpath'
      refine ⟨dicts, place', (perform_setPath_found he).trans hset, hbase', h',
        fun e q' he hq => hlocal e q' he fun hq' => hq ((prefix_append _ _).trans hq'),
        fun hinner => ?_⟩
      rw [hlocal d q hd (not_concat_isPrefix_self q part)]
      exact .below (hup hinner) (fun _ _ => follow_dict he) (fun _ _ => follow_dict he)
        fun x more hx => h.follow_congr hinner more rfl
          (fun e he => h.below hd (hinner _) hb (hdict ▸ he)) fun e q' he hq =>
            hlocal e q' he fun hq' => hx (concat_isPrefix_unique hq hq')
    · -- A new dictionary gets the place in question before the walk goes on from it.
      have hnew := h.push hbase.1 (q ++ [part])
      have hold {e : Ref} {q' : List String} (he : place e = some q') :
          (if e = o.dicts.size then some (q ++ [part]) else place e) = some q' :=
        (if_neg (Nat.ne_of_lt (h.exist he))).trans he
      have hb' : (o.dicts.push {}).get? d = some b := by
        rw [o.dicts.get?_push_of_lt _ (h.exist hd), hb]
      have hdict' : ({ o with dicts := o.dicts.push {} } : Objects).dictAt d = b := by
        simp only [Objects.dictAt, hb', Option.getD_some]
      rw [perform_setPath_new fun e he => hfound ⟨e, he⟩, hdict']
      generalize mk { o with dicts := o.dicts.push {} } s = heap
      have hlook (x : String) := Dict.under?_insertEntry heap part (.dict o.dicts.size) b x
      have hset := hnew.setEntry (hold hd) hb' (fun e he _ => if_pos (Value.dict.inj he).symm) heap
      obtain ⟨dicts, place', hrun, hbase', h', hlocal, hup⟩ := setPath_charted
        (o := { o with dicts := (o.dicts.push {}).set d (heap.insertEntry (.ofText part) _ b) })
        (next :: more) hset ((hbase.push {}).set (h.fresh hd) _) (if_pos rfl) (by simp) hpath'
      have hsame {e : Ref} {q' : List String} (he : place e = some q') (hq : q ≠ q')
          (hq' : ¬q ++ [part] <+: q') : dicts.get? e = o.dicts.get? e := by
        rw [hlocal e q' (hold he) hq', get?_set_of_ne, o.dicts.get?_push_of_lt _ (h.exist he)]
        rintro rfl
        exact hq (Option.some.inj (hd.symm.trans he))
      refine ⟨dicts, place', hrun, hbase', h', fun e q' he hq => hsame he
        (fun heq => hq (heq ▸ prefix_refl q)) fun hq' => hq ((prefix_append _ _).trans hq'),
        fun hinner => ?_⟩
      rw [hlocal d q (hold hd) (not_concat_isPrefix_self q part),
        get?_set_self _ _ (get?_eq_some_lt hb'), Option.getD_some, hdict]
      refine .below (hup hinner) (fun x more => ?_) (fun _ _ => follow_dict ((hlook part).trans
        (if_pos rfl))) fun x more hx => h.follow_congr hinner more ((hlook x).trans
          (if_neg (Ne.symm hx))) (fun e he => h.below hd (hinner _) hb he) fun e q' he hq =>
            hsame he (fun heq => not_concat_isPrefix_self q x (heq ▸ hq)) fun hq' =>
              hx (concat_isPrefix_unique hq hq')
      have hempty : ((o.dicts.push {}).set d (heap.insertEntry (.ofText part)
          (.dict o.dicts.size) b)).get? o.dicts.size = some default := by
        rw [get?_set_of_ne _ _ (Nat.ne_of_lt (h.exist hd)), get?_push_self]
        rfl
      rw [follow_none fun e he => hfound ⟨e, hdict ▸ he⟩, Objects.dictAt, hempty]
      exact (follow_empty _ _).symm

end Eval

/-! ## Binding a name -/

/-- The state in which a frame has the given variables, and the dictionaries are the given ones. -/
def World.withFrame (w : World) (f : Ref) (vars : Table String Value) (dicts : Store Dict) :
    World :=
  { w with dicts, frames := w.frames.set f { w.frame f with vars } }

namespace World

variable (w : World) {f : Ref}

/-- A frame that keeps its variables. -/
theorem withFrame_self (h : f < w.frames.size) (dicts : Store Dict) :
    w.withFrame f (w.frame f).vars dicts = { w with dicts } := by
  have hset : w.frames.set f (w.frame f) = w.frames := by
    obtain ⟨a, ha⟩ := exists_get?_of_lt h
    have hframe : w.frame f = a := by rw [frame, ha, Option.getD_some]
    rw [hframe, ← w.frames.modify_eq_set (fun _ => a) ha]
    obtain ⟨⟨_, _⟩, ⟨frames⟩, _⟩ := w
    simp only [Store.modify, Store.mk.injEq]
    apply Array.ext_getElem?
    intro i
    rw [Array.getElem?_modify]
    split
    · rename_i hi
      subst hi
      rw [show frames[f]? = some a from ha]
      rfl
    · rfl
  show { w with dicts, frames := w.frames.set f (w.frame f) } = { w with dicts }
  rw [hset]

theorem frame_withFrame (h : f < w.frames.size) (vars : Table String Value) (dicts : Store Dict) :
    (w.withFrame f vars dicts).frame f = { w.frame f with vars } := by
  show ((w.frames.set f { w.frame f with vars }).get? f).getD default = _
  rw [w.frames.get?_set_self _ h, Option.getD_some]

end World

namespace Eval

variable {inner : List String → Prop} {base : Store Dict} {place : Ref → Option (List String)}
  {w : World} {f : Ref} {name : String}

theorem outcome_setInFrame_cons (hname : pathParts name = part :: next :: more) (v : Value) :
    (setInFrame f name v).outcome w = (do
        let (inner, isNew) ← (subDict ((w.frame f).vars.find? part) : Eval (Ref × Bool))
        if isNew then
          bindVariable f part (.dict inner)
        setPath inner (next :: more) v : Eval Unit).outcome w := by
  simp only [setInFrame, hname]
  rfl

theorem pathParts_ne_nil (name : String) : pathParts name ≠ [] := by
  unfold pathParts
  rw [Ne, map_eq_nil_iff]
  cases name.toList with
  | nil => exact cons_ne_nil _ _
  | cons c cs =>
    unfold Text.splitAt
    split
    · exact cons_ne_nil _ _
    · split <;> exact cons_ne_nil _ _

/-- Binding a name changes the variables of the frame and no dictionary that was there before the
frame, and leaves values that were bound off the way of all inner paths. If all paths are inner
ones, it is an update of what stands at the path. -/
theorem setInFrame_charted (h : Charted inner base.size place (w.frame f).vars w.dicts)
    (hbase : Extends base w.dicts) (hf : f < w.frames.size) {v}
    (hname : Bindable inner v (pathParts name)) :
    ∃ vars dicts place', (setInFrame f name v).outcome w = (.ok (), w.withFrame f vars dicts) ∧
      Extends base dicts ∧ Charted inner base.size place' vars dicts ∧
      ((∀ q, inner q) → Updates (pathParts name) v (follow w.dicts (w.frame f).vars.find?)
        (follow dicts vars.find?)) := by
  rcases hparts : pathParts name with _ | ⟨part, _ | ⟨next, more⟩⟩
  · exact absurd hparts (pathParts_ne_nil name)
  · rw [hparts] at hname
    refine ⟨(w.frame f).vars.insert part v, w.dicts, place, ?_, hbase,
      h.bind fun e he hinner => absurd hinner (hname.2 e he), fun hinner => ?_⟩
    · simp only [setInFrame, hparts]
      rfl
    · have hfind := (w.frame f).vars.find?_insert_self part v
      refine .name hfind (fun x more => follow_none fun e he => ?_) fun x more hx =>
        h.follow_congr (q := []) hinner more ((w.frame f).vars.find?_insert_of_ne hx v)
          (fun e he => h.top (hinner _) he) fun _ _ _ _ => rfl
      exact hname.2 e (Option.some.inj (hfind.symm.trans he)) (hinner _)
  · rw [hparts] at hname
    have hpart : inner [part] := hname.1 _ (by simp) ⟨next :: more, rfl⟩ (by simp)
    rw [outcome_setInFrame_cons hparts]
    by_cases hfound : ∃ d, (w.frame f).vars.find? part = some (.dict d)
    · obtain ⟨d, hd⟩ := hfound
      obtain ⟨dicts, place', hset, hbase', h', hlocal, hup⟩ := setPath_charted
        (next :: more) h hbase (h.top hpart hd) (by simp) hname
      refine ⟨_, dicts, place', ?_, hbase', h', fun hinner => ?_⟩
      · rw [hd]
        show (liftM (setPath d (next :: more) v) : Eval Unit).outcome w = _
        rw [outcome_lift, hset, w.withFrame_self hf]
        rfl
      · exact .below (hup hinner) (fun _ _ => follow_dict hd) (fun _ _ => follow_dict hd)
          fun x more hx => h.follow_congr hinner more rfl (fun e he => h.top (hinner _) he)
            fun e q' he hq => hlocal e q' he fun hq' => hx (concat_isPrefix_unique (q := []) hq hq')
    · -- The variable gets a new dictionary, which has the place in question.
      have hfind := (w.frame f).vars.find?_insert_self part (.dict w.dicts.size)
      have hnew := (h.push hbase.1 [part]).bind
        fun e he _ => if_pos (Value.dict.inj he).symm
      obtain ⟨dicts, place', hset, hbase', h', hlocal, hup⟩ := setPath_charted
        (o := { w.toObjects with dicts := w.dicts.push {} }) (next :: more)
        hnew (hbase.push {}) (if_pos rfl) (by simp) hname
      refine ⟨_, dicts, place', ?_, hbase', h', fun hinner => ?_⟩
      · rw [subDict_new fun d hd => hfound ⟨d, hd⟩]
        show (liftM (setPath w.dicts.size (next :: more) v) : Eval Unit).outcome
          (w.withFrame f ((w.frame f).vars.insert part (.dict w.dicts.size)) (w.dicts.push {})) = _
        rw [outcome_lift]
        have hobjects : (w.withFrame f ((w.frame f).vars.insert part (.dict w.dicts.size))
            (w.dicts.push {})).toObjects = { w.toObjects with dicts := w.dicts.push {} } := rfl
        have hsurroundings : (w.withFrame f ((w.frame f).vars.insert part (.dict w.dicts.size))
            (w.dicts.push {})).toSurroundings = w.toSurroundings := rfl
        rw [hobjects, hsurroundings, hset]
        rfl
      · refine .below (hup hinner) (fun x more => ?_) (fun _ _ => follow_dict hfind)
          fun x more hx =>
          h.follow_congr (q := []) hinner more ((w.frame f).vars.find?_insert_of_ne hx _)
            (fun e he => h.top (hinner _) he) fun e q' he hq => ?_
        · rw [follow_none fun e he => hfound ⟨e, he⟩, Objects.dictAt, get?_push_self]
          exact (follow_empty _ _).symm
        · rw [hlocal e q' ((if_neg (Nat.ne_of_lt (h.exist he))).trans he) fun hq' =>
            hx (concat_isPrefix_unique hq hq')]
          exact w.dicts.get?_push_of_lt _ (h.exist he)

end Eval

end Stencil
