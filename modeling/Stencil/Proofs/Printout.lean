import Stencil.Proofs.Apart
import Stencil.Proofs.Instruction

/-!
# What a function prints

`Script.recordAll` runs statements and tells, beside their result, what they have added to a buffer,
in order; apart from that it does what `Script.execAll` does (`recordAll_eq`). Code that prints to a
buffer adds texts to the list there, and it does nothing else to that list (`Prints.fills`). So the
call of a script function gives what the texts that it has printed make up, or a text that it
returns before its end, and all other buffers keep their content (`shields_callClosure`).
-/


namespace Stencil

open Eval List

variable {α β : Type}

/-! ## Recording -/

/-- The value that a variable holds, if it holds one. -/
def Cell.values : Cell → List Value
  | .value v => [v]
  | _ => []

namespace Script

/-- What an expression adds to a buffer. -/
def emission? (buffer : Ident) : Expr → Option Expr
  | .call (.attr (.name id) .append) [e] => if id = buffer then some e else none
  | _ => none

/-- Evaluate an expression for what it does, and tell what it adds to a buffer. -/
def recordExpr (call : Call) (r : Ref) (buffer : Ident) (e : Expr) : Eval (List Value) :=
  match emission? buffer e with
  | some e => do
    let append ← eval call r (.attr (.name buffer) .append)
    let c ← eval call r e
    let _ ← callCell call append [c]
    return c.values
  | none => do
    let _ ← eval call r e
    return []

/-- Go on with another run unless the first one has returned, and tell what both add to a buffer. -/
def andThen (x y : Eval (Option Cell × List Value)) : Eval (Option Cell × List Value) := do
  let (result, printed) ← x
  match result with
  | some c => return (some c, printed)
  | none =>
    let (result, more) ← y
    return (result, printed ++ more)

/-- Run the rounds of a loop over a fixed list of values, and tell what they add to a buffer. -/
def recordOver (round : Value → Eval (Option Cell × List Value)) :
    List Value → Eval (Option Cell × List Value)
  | [] => return (none, [])
  | v :: rest => andThen (round v) (recordOver round rest)

/-- Run the rounds of a loop over something that may change, and tell what they add to a buffer. -/
def recordFrom (round : Value → Eval (Option Cell × List Value)) :
    Nat → Iteration → Eval (Option Cell × List Value)
  | 0, _ => throw .outOfFuel
  | fuel + 1, it => do
    match ← it.next with
    | none => return (none, [])
    | some (v, it) => andThen (round v) (recordFrom round fuel it)

/-- Run a loop over a value, and tell what it adds to a buffer. -/
def recordLoop (limit : Nat) (source : Value) (round : Value → Eval (Option Cell × List Value)) :
    Eval (Option Cell × List Value) := do
  let w ← get
  match Iteration.start? w.toHeap source with
  | none => fail (.notIterable source.typeName)
  | some (.over (.fixed items)) => recordOver round items
  | some it => recordFrom round ((it.limit? w.toHeap).getD limit + 1) it

mutual

/-- Run a statement, and tell what it adds to a buffer. -/
def record (call : Call) (limit : Nat) (r : Ref) (buffer : Ident) :
    Stmt → Eval (Option Cell × List Value)
  | .expr e => do return (none, ← recordExpr call r buffer e)
  | .branch test body otherwise => do
    let v ← valueIn (← eval call r test)
    if (← get).truthy v then recordAll call limit r buffer body
    else recordAll call limit r buffer otherwise
  | .loop target source body => do
    let source ← valueIn (← eval call r source)
    recordLoop limit source fun v => do
      assignTarget r target v
      recordAll call limit r buffer body
  | s => do return (← exec call limit r s, [])

/-- Run statements one after the other until one returns, and tell what they add to a buffer. -/
def recordAll (call : Call) (limit : Nat) (r : Ref) (buffer : Ident) :
    List Stmt → Eval (Option Cell × List Value)
  | [] => return (none, [])
  | s :: rest => andThen (record call limit r buffer s) (recordAll call limit r buffer rest)

end

/-! ## The record beside the run -/

variable {call : Call} {limit : Nat} {r : Ref} {buffer : Ident}

theorem emission?_eq_some {e e'} (h : emission? buffer e = some e') :
    e = .call (.attr (.name buffer) .append) [e'] := by
  unfold emission? at h
  split at h
  · split at h
    next hid =>
      cases h
      rw [hid]
    next => cases h
  · cases h

theorem recordExpr_eq (buffer : Ident) (e : Expr) :
    (do let _ ← recordExpr call r buffer e; return none : Eval (Option Cell)) =
      exec call limit r (.expr e) := by
  unfold recordExpr
  split
  next e' he =>
    rw [emission?_eq_some he]
    simp only [exec, eval, evalAll, bind_assoc, pure_bind]
  next => simp only [exec, bind_assoc, pure_bind]

theorem andThen_nothing (x : Eval (Option Cell × List Value)) :
    andThen x (pure (none, [])) = x := by
  refine Eq.trans (bind_congr fun p => ?_) (bind_pure x)
  rcases p with ⟨_ | c, printed⟩
  · simp only [pure_bind, append_nil]
  · rfl

theorem nothing_andThen (y : Eval (Option Cell × List Value)) :
    andThen (pure (none, [])) y = y := by
  simp only [andThen, pure_bind, nil_append]
  exact bind_pure y

theorem andThen_assoc (x y z : Eval (Option Cell × List Value)) :
    andThen (andThen x y) z = andThen x (andThen y z) := by
  simp only [andThen, bind_assoc]
  refine bind_congr fun p => ?_
  rcases p with ⟨_ | c, printed⟩
  · simp only [bind_assoc, pure_bind]
    refine bind_congr fun q => ?_
    rcases q with ⟨_ | c, more⟩
    · simp only [bind_assoc, pure_bind, append_assoc]
    · simp only [pure_bind]
  · simp only [pure_bind]

theorem recordAll_singleton (s : Stmt) :
    recordAll call limit r buffer [s] = record call limit r buffer s := by
  rw [recordAll, recordAll, andThen_nothing]

theorem recordAll_append (ss ts : List Stmt) : recordAll call limit r buffer (ss ++ ts) =
    andThen (recordAll call limit r buffer ss) (recordAll call limit r buffer ts) := by
  induction ss with
  | nil => rw [nil_append, recordAll, nothing_andThen]
  | cons s rest ih => rw [cons_append, recordAll, recordAll, ih, andThen_assoc]

theorem fst_andThen (x y : Eval (Option Cell × List Value)) {f}
    (hsome : ∀ c, f (some c) = pure (some c)) (hnone : f none = Prod.fst <$> y) :
    Prod.fst <$> andThen x y = Prod.fst <$> x >>= f := by
  simp only [andThen, map_eq_pure_bind, bind_assoc, pure_bind]
  refine bind_congr fun p => ?_
  rcases p with ⟨_ | c, printed⟩
  · rw [hnone]
    simp only [map_eq_pure_bind, bind_assoc, pure_bind]
  · rw [hsome, pure_bind]

section

variable {round : Value → Eval (Option Cell × List Value)} {plain : Value → Eval (Option Cell)}
  (h : ∀ v, Prod.fst <$> round v = plain v)

include h

theorem recordOver_eq : ∀ vs, Prod.fst <$> recordOver round vs = roundsOver plain vs := by
  intro vs
  induction vs with
  | nil => rfl
  | cons v rest ih =>
    rw [recordOver, roundsOver, ← h v, ← ih]
    exact fst_andThen _ _ (fun _ => rfl) rfl

theorem recordFrom_eq : ∀ fuel it,
    Prod.fst <$> recordFrom round fuel it = roundsFrom plain fuel it := by
  intro fuel
  induction fuel with
  | zero => exact fun _ => rfl
  | succ fuel ih =>
    intro it
    rw [recordFrom, roundsFrom, map_bind]
    refine bind_congr fun next? => ?_
    rcases next? with _ | ⟨v, it⟩
    · rfl
    · dsimp only
      rw [← h v, ← ih it]
      exact fst_andThen _ _ (fun _ => rfl) rfl

theorem recordLoop_eq (limit : Nat) (source : Value) :
    Prod.fst <$> recordLoop limit source round = runLoop limit source plain := by
  unfold recordLoop runLoop
  rw [map_bind]
  refine bind_congr fun w => ?_
  rcases Iteration.start? w.toHeap source with _ | it
  · rfl
  · cases it with
    | «over» t =>
      cases t with
      | fixed items => exact recordOver_eq h items
      | _ => exact recordFrom_eq h _ _
    | _ => exact recordFrom_eq h _ _

end

mutual

/-- Telling what a statement prints does not change what it does. -/
theorem record_eq (buffer : Ident) : ∀ s : Stmt,
    Prod.fst <$> record call limit r buffer s = exec call limit r s
  | .expr e => by
    rw [record, ← recordExpr_eq buffer e]
    simp only [map_eq_pure_bind, bind_assoc, pure_bind]
  | .branch test body otherwise => by
    rw [record, exec, map_bind]
    refine bind_congr fun c => ?_
    rw [map_bind]
    refine bind_congr fun v => ?_
    rw [map_bind]
    refine bind_congr fun w => ?_
    split
    · exact recordAll_eq buffer body
    · exact recordAll_eq buffer otherwise
  | .loop target source body => by
    rw [record, exec, map_bind]
    refine bind_congr fun c => ?_
    rw [map_bind]
    refine bind_congr fun v => recordLoop_eq (fun u => ?_) limit v
    rw [map_bind]
    exact bind_congr fun _ => recordAll_eq buffer body
  | .assign .. | .increment .. | .ret _ | .define .. | .pass => by
    simp only [record, map_eq_pure_bind, bind_assoc, pure_bind, bind_pure]

/-- Telling what statements print does not change what they do. -/
theorem recordAll_eq (buffer : Ident) : ∀ ss : List Stmt,
    Prod.fst <$> recordAll call limit r buffer ss = execAll call limit r ss
  | [] => rfl
  | s :: rest => by
    rw [recordAll, execAll, ← record_eq buffer s]
    refine fst_andThen _ _ (fun _ => rfl) ?_
    rw [recordAll_eq buffer rest]

end

end Script

/-! ## Buffers -/

open Script

variable {P P' : Lists} {r out : Ref} {buffer : Ident} {w : World}

/-- An activation collects its output in a list, through its variable for a buffer. -/
def World.PrintsTo (w : World) (r : Ref) (buffer : Ident) (out : Ref) : Prop :=
  ∃ a, w.activations.get? r = some a ∧ buffer ∈ a.owned ∧
    a.vars.find? buffer = some (.value (.list out))

theorem World.Later.printsTo {A E u} (h : World.Later A E P w P' u) (hb : buffer.isBuffer = true)
    (hw : w.PrintsTo r buffer out) : u.PrintsTo r buffer out := by
  obtain ⟨a, ha, howned, hvar⟩ := hw
  obtain ⟨a', ha', howned', hvars⟩ := h.own r a ha
  exact ⟨a', ha', howned' ▸ howned, (hvars buffer hb).trans hvar⟩

theorem World.Sealed.hidden_of_printsTo (hw : w.Sealed P) (hb : buffer.isBuffer = true)
    (h : w.PrintsTo r buffer out) : out < w.lists.size ∧ ¬P out := by
  obtain ⟨a, ha, -, hvar⟩ := h
  obtain ⟨l, hl, hlt, hP⟩ := (hw.activations r a ha).buffer buffer _ hvar hb
  cases hl
  exact ⟨hlt, hP⟩

theorem World.PrintsTo.outcome_read (h : w.PrintsTo r buffer out) :
    (read r buffer).outcome w = (.ok (.value (.list out)), w) := by
  obtain ⟨a, ha, howned, hvar⟩ := h
  exact outcome_read_own ha howned hvar

/-- A text is added to the list in a buffer. -/
theorem World.Sealed.append (hw : w.Sealed P) (hlt : out < w.lists.size) {v} (hv : v.IsText) :
    (w.append out v).Sealed P ∧ World.Later nobody (· = out) P w P (w.append out v) ∧
      (w.append out v).listItems out = w.listItems out ++ [v] := by
  obtain ⟨items, hitems⟩ := Store.exists_get?_of_lt hlt
  have hself : (w.lists.modify out (·.push v)).get? out = some (items.push v) := by
    rw [Store.get?_modify_self, hitems]
    rfl
  have hne (l : Ref) (hl : out ≠ l) : (w.lists.modify out (·.push v)).get? l = w.lists.get? l :=
    w.lists.get?_modify_of_ne _ hl
  have hsize : (w.lists.modify out (·.push v)).size = w.lists.size := Store.size_modify _ _ _
  refine ⟨?_, ?_, ?_⟩
  · have hexist (l : Ref) (hl : P l) : l < (w.lists.modify out (·.push v)).size :=
      Nat.lt_of_lt_of_eq (hw.heap.objects.exist l hl) hsize.symm
    refine ⟨⟨(hw.heap.objects.holds.changeList hne fun xs hxs x hx => ?_).within hexist,
      hw.heap.surroundings⟩, hw.templates, hw.frames, hw.functions, fun q a ha => ?_⟩
    · cases hself.symm.trans hxs
      rw [Array.toList_push, mem_append, mem_singleton] at hx
      rcases hx with hx | rfl
      · exact hw.heap.objects.lists out items hitems x hx
      · exact hv.within
    · exact hw.activation_mono (fun _ h => h) (Nat.le_of_eq hsize.symm) (fun _ _ h => h) ha
  · exact ⟨fun _ h => h, Nat.le_of_eq hsize.symm, fun _ _ h => h,
      fun l _ _ hl => hne l fun h => hl h.symm, fun _ _ _ => rfl,
      fun q a ha => ⟨a, ha, rfl, fun _ _ => rfl⟩, .refl _, .refl _, Nat.le_refl _⟩
  · unfold Objects.listItems Objects.listAt World.append
    rw [hself, hitems]
    simp

/-- Calls that add a value to a list and join the texts of a list as lists do, while the fuel
lasts. -/
structure Call.Collects (call : Call) : Prop where
  append (w : World) (out : Ref) (v : Value) :
    (call.method (.value (.list out)) .append [.value v]).outcome w =
        (.ok (.value .none), w.append out v) ∨
      (call.method (.value (.list out)) .append [.value v]).outcome w = (.error .outOfFuel, w)
  join (w : World) (out : Ref) :
    (call.method (.value (.ofText "")) .join [.value (.list out)]).outcome w =
        (do return .value (← joinWith "" (.list out)) : Eval Cell).outcome w ∨
      (call.method (.value (.ofText "")) .join [.value (.list out)]).outcome w =
        (.error .outOfFuel, w)

/-! ## Runs that add to a buffer -/

/-- From a sealed state in which the activation `r` prints to the list `out`, a run leaves such a
state; among the lists that are not public it changes `out` only, by adding values to it, and among
the activations `r` only. `Q` holds of its result and the values. -/
def Eval.Fills (r : Ref) (buffer : Ident) (out : Ref) (P : Lists)
    (Q : Lists → α → List Value → Prop) (x : Eval α) : Prop :=
  ∀ w : World, w.Sealed P → w.PrintsTo r buffer out → ShieldsAt (· = r) (· = out) P w
      (fun P' a u => ∃ vs, u.listItems out = w.listItems out ++ vs ∧ Q P' a vs) x

namespace Eval.Fills

variable {Q : Lists → α → List Value → Prop} {R : Lists → β → List Value → Prop} {x : Eval α}
  {f : α → Eval β}

protected theorem pure {a} (h : Q P a []) : Fills r buffer out P Q (pure a) :=
  fun _ hw _ => .pure hw ⟨[], (append_nil _).symm, h⟩

protected theorem fail (e : Fault) : Fills r buffer out P Q (fail e : Eval α) :=
  fun _ hw _ => .of_error rfl hw

protected theorem throw (e : Halt) : Fills r buffer out P Q (throw e : Eval α) :=
  fun _ hw _ => .of_error rfl hw

section

variable (hb : buffer.isBuffer = true)

include hb

theorem of_shields {Q} (hx : Shields (· = r) P Q x) :
    Fills r buffer out P (fun P' a vs => vs = [] ∧ Q P' a) x := by
  intro w hw hout
  obtain ⟨hlt, hP⟩ := hw.hidden_of_printsTo hb hout
  refine (hx w hw).weaken (fun _ _ h => h) (fun _ _ h => h.elim) fun P' a u hlater hQ => ?_
  refine ⟨[], ?_, rfl, hQ⟩
  rw [append_nil, Objects.listItems, Objects.listAt, hlater.kept out hlt hP id]
  rfl

theorem bind (hx : Fills r buffer out P Q x) (hf : ∀ P' a vs, (∀ l, P l → P' l) → Q P' a vs →
      Fills r buffer out P' (fun P'' b more => R P'' b (vs ++ more)) (f a)) :
    Fills r buffer out P R (x >>= f) := by
  intro w hw hout
  refine (hx w hw hout).bind fun P' a u hlater hu hQ => ?_
  obtain ⟨vs, hvs, hQ⟩ := hQ
  have hrun := hf P' a vs hlater.mono hQ u hu (hlater.printsTo hb hout)
  refine hrun.weaken (fun _ _ h => h) (fun _ _ h => h) fun P'' b v _ hR => ?_
  obtain ⟨more, hmore, hR⟩ := hR
  exact ⟨vs ++ more, by rw [hmore, hvs, append_assoc], hR⟩

theorem shields_bind {Q} (hx : Shields (· = r) P Q x)
    (hf : ∀ P' a, (∀ l, P l → P' l) → Q P' a → Fills r buffer out P' R (f a)) :
    Fills r buffer out P R (x >>= f) := by
  refine (of_shields hb hx).bind hb fun P' a vs h hQ => ?_
  obtain ⟨rfl, hQ⟩ := hQ
  exact hf P' a h hQ

end

theorem get_bind {g} (hg : ∀ w : World, w.Sealed P → Fills r buffer out P R (g w)) :
    Fills r buffer out P R (get >>= g) :=
  fun w hw hout => hg w hw w hw hout

end Eval.Fills

/-! ## Statements that print -/

/-- The record of a run that has added `vs` to a buffer: these are texts, what the run returns is a
text, and it returns before its end only where `returns` says that it may. -/
structure Recorded (returns : Bool) (p : Option Cell × List Value) (vs : List Value) : Prop where
  printed : p.2 = vs
  texts : ∀ v ∈ vs, v.IsText
  result : ∀ c, p.1 = some c → c.IsText
  ends : returns = false → p.1 = none

theorem Recorded.nothing {returns} : Recorded returns (none, []) [] :=
  ⟨rfl, forall_mem_nil _, fun _ h => (nomatch h), fun _ => rfl⟩

namespace Script

open Eval

variable {call : Call} {limit : Nat} {returns : Bool}

theorem fills_nothing (hb : buffer.isBuffer = true) {Q x} (hx : Shields (· = r) P Q x)
    (hQ : ∀ P' c?, Q P' c? → c? = none) :
    Fills r buffer out P (fun _ => Recorded returns) (do return (← x, [])) := by
  refine .shields_bind hb hx fun P' c? _ hc => ?_
  obtain rfl := hQ P' c? hc
  exact .pure .nothing

theorem fills_andThen (hb : buffer.isBuffer = true) {x y}
    (hx : Fills r buffer out P (fun _ => Recorded returns) x)
    (hy : ∀ P', (∀ l, P l → P' l) → Fills r buffer out P' (fun _ => Recorded returns) y) :
    Fills r buffer out P (fun _ => Recorded returns) (andThen x y) := by
  refine hx.bind hb fun P₁ p vs h₁ hp => ?_
  rcases p with ⟨_ | c, printed⟩
  · refine (hy P₁ h₁).bind hb fun P₂ q more _ hq => .pure ?_
    rw [append_nil, ← hp.printed, ← hq.printed]
    exact ⟨rfl, forall_mem_append.2 ⟨hp.printed ▸ hp.texts, hq.printed ▸ hq.texts⟩, hq.result,
      hq.ends⟩
  · refine .pure ?_
    rwa [append_nil]

variable (hc : call.Shields) (hcollect : call.Collects) (hb : buffer.isBuffer = true)

include hc hb

variable {e : Expr} {A : Ref → Prop} {ss : List Stmt}

/-- What a statement prints goes to the buffer. -/
theorem fills_emit (hcollect : call.Collects) (he : e.Textual) :
    Fills r buffer out P (fun _ => Recorded returns)
      (record call limit r buffer (.emit buffer e)) := by
  have hmethod {P : Lists} : Fills r buffer out P
      (fun _ m vs => vs = [] ∧ m = .method (.value (.list out)) .append)
      (eval call r (.attr (.name buffer) .append)) := by
    intro w hw hout
    have houtcome : (eval call r (.attr (.name buffer) .append)).outcome w =
        (.ok (.method (.value (.list out)) .append), w) := by
      rw [eval, eval, outcome_bind_of_ok hout.outcome_read]
      rfl
    exact .of_ok houtcome (.refl P w) hw ⟨[], (append_nil _).symm, rfl, rfl⟩
  have happend {P : Lists} {v : Value} (hv : v.IsText) : Fills r buffer out P
      (fun _ _ vs => vs = [v]) (call.method (.value (.list out)) .append [.value v]) := by
    intro w hw hout
    obtain ⟨hsealed, hlater, hitems⟩ := hw.append (hw.hidden_of_printsTo hb hout).1 hv
    rcases hcollect.append w out v with houtcome | houtcome
    · refine .of_ok houtcome (hlater.weaken (fun _ _ h => h.elim) fun _ _ h => h) hsealed ?_
      exact ⟨[v], hitems, rfl⟩
    · exact .of_error houtcome hw
  have hemission : emission? buffer (.method (.name buffer) .append [e]) = some e := if_pos rfl
  rw [Stmt.emit, record, recordExpr, hemission]
  simp only [bind_assoc, pure_bind]
  refine hmethod.bind hb fun P₁ m vs _ hm => ?_
  obtain ⟨rfl, rfl⟩ := hm
  refine .shields_bind hb (shields_textual (A := (· = r)) hc rfl he) fun P₂ c _ hcell => ?_
  obtain ⟨v, rfl, hv⟩ := hcell.exists_value
  refine (happend hv).bind hb fun P₃ _ vs _ hvs => .pure ?_
  subst hvs
  exact ⟨rfl, forall_mem_singleton.2 hv, fun _ h => (by cases h), fun _ => rfl⟩

/-! ## Loops -/

section

variable {round : Value → Eval (Option Cell × List Value)}
  (hround : ∀ {P : Lists} {v : Value}, v.Within P →
    Fills r buffer out P (fun _ => Recorded returns) (round v))

include hround

omit hc in
theorem fills_recordOver : ∀ (vs : List Value) {P : Lists}, (∀ v ∈ vs, v.Within P) →
    Fills r buffer out P (fun _ => Recorded returns) (recordOver round vs) := by
  intro vs
  induction vs with
  | nil => exact fun _ => .pure .nothing
  | cons v rest ih =>
    intro P hvs
    obtain ⟨hv, hrest⟩ := forall_mem_cons.1 hvs
    exact fills_andThen hb (hround hv) fun P' h => ih fun u hu => (hrest u hu).mono h

omit hc in
theorem fills_recordFrom : ∀ (fuel : Nat) {it : Iteration} {P : Lists}, it.Within P →
    Fills r buffer out P (fun _ => Recorded returns) (recordFrom round fuel it) := by
  intro fuel
  induction fuel with
  | zero => exact fun _ => .throw _
  | succ fuel ih =>
    intro it P hit
    refine .shields_bind hb (.lift (guards_iteration_next hit)) fun P₁ next? _ hnext => ?_
    rcases next? with _ | ⟨v, it⟩
    · exact .pure .nothing
    · obtain ⟨hv, hit⟩ := hnext v it rfl
      exact fills_andThen hb (hround hv) fun P' h => ih (hit.mono h)

omit hc in
theorem fills_recordLoop (limit : Nat) {source} (hsource : source.Within P) :
    Fills r buffer out P (fun _ => Recorded returns) (recordLoop limit source round) := by
  refine .get_bind fun w hw => ?_
  split
  · exact .fail _
  next items hstart =>
    exact fills_recordOver hb hround items (hw.heap.holds.iteration? hsource hstart)
  next hstart => exact fills_recordFrom hb hround _ (hw.heap.holds.iteration? hsource hstart)

end

/-! ## Statements -/

omit hc hb in
theorem shields_assignTarget (hr : A r) {target} (ho : target.Obeys apart) {v} (hv : v.Within P) :
    Shields A P Lists.any (assignTarget r target v) := by
  unfold assignTarget
  split
  · exact shields_write hr (ho _ (by simp [Target.assigned])) hv
  next first second _ a b =>
    obtain ⟨ha, hb, -⟩ := hv
    have ha : (Cell.value a).Within P := ha
    refine (shields_write hr (ho first (by simp [Target.assigned])) ha).bind fun P₁ _ h₁ _ => ?_
    exact shields_write hr (ho second (by simp [Target.assigned])) (hb.mono h₁)
  · exact .fail _

omit hb in
theorem shields_captureAll {A} (hr : A r) : ∀ (es : List (Ident × Expr)) {P : Lists},
    (∀ p ∈ es, p.1.isBuffer = false ∧ p.2.Obeys apart) →
    Shields A P (fun P' cs => ∀ p ∈ cs, p.1.isBuffer = false ∧ p.2.Within P') (captureAll call r es)
  | [], _, _ => .pure (forall_mem_nil _)
  | (id, e) :: rest, _, ho => by
    obtain ⟨he, hrest⟩ := forall_mem_cons.1 ho
    have hrest {P : Lists} := shields_captureAll hr rest (P := P) hrest
    refine (shields_eval hc hr e he.2).bind fun _ c _ hcell => hrest.bind fun _ cs h hcs => ?_
    exact .pure (forall_mem_cons.2 ⟨⟨he.1, hcell.mono h⟩, hcs⟩)

omit hb in
theorem shields_exec_expr (hr : A r) (he : e.Obeys apart) :
    Shields A P (fun _ c? => c? = none) (exec call limit r (.expr e)) := by
  rw [exec]
  exact (shields_eval hc hr e he).bind fun _ _ _ _ => .pure rfl

omit hb in
theorem shields_exec_assign (hr : A r) {id} (hid : id.isBuffer = false) (he : e.Obeys apart) :
    Shields A P (fun _ c? => c? = none) (exec call limit r (.assign id e)) := by
  rw [exec]
  refine (shields_eval hc hr e he).bind fun _ c _ hcell => ?_
  exact (shields_write hr hid hcell).bind fun _ _ _ _ => .pure rfl

omit hb in
/-- A function is defined. -/
theorem shields_define (hr : A r) {name} (hname : name.isBuffer = false) {params}
    (hparams : ∀ p ∈ params, p.isBuffer = false) {captured}
    (hcaptured : ∀ p ∈ captured, p.1.isBuffer = false ∧ p.2.Obeys apart)
    (hss : Prints .macroOutput false ss) : Shields A P (fun _ c? => c? = none)
      (exec call limit r (.define name params captured (printed .macroOutput ss))) := by
  rw [exec]
  refine (shields_captureAll hc hr captured hcaptured).bind fun P₁ cs _ hcs => ?_
  refine .get_bind fun w _ => ?_
  have hfunction : (Stencil.Function.closure (closureIn w r name params cs
      (printed .macroOutput ss))).Within P₁ := by
    refine ⟨hcs, hparams, .macroOutput, ss, rfl, ?_, rfl, hss.returning⟩
    rw [closureIn, ownedBy, mem_eraseDups]
    exact mem_append_right _ mem_cons_self
  refine (shields_newFunction hfunction).bind fun P₂ f _ hf => ?_
  obtain ⟨q, rfl⟩ := hf
  have hvalue : (Cell.value (.function q)).Within P₂ := trivial
  exact (shields_write hr hname hvalue).bind fun _ _ _ _ => .pure rfl

omit hb hc in
/-- Statements that come to their end leave buffers alone if each of them does. -/
theorem shields_execAll
    (h : ∀ s ∈ ss, ∀ P, Shields A P (fun _ c? => c? = none) (exec call limit r s)) (P : Lists) :
    Shields A P (fun _ c? => c? = none) (execAll call limit r ss) := by
  induction ss generalizing P with
  | nil => exact .pure rfl
  | cons s rest ih =>
    obtain ⟨hs, hrest⟩ := forall_mem_cons.1 h
    refine (hs P).bind fun P' c? _ hnone => ?_
    subst hnone
    exact ih hrest P'

omit hc in
theorem emission?_eq_none (he : e.Obeys apart) : emission? buffer e = none := by
  cases h : emission? buffer e with
  | none => rfl
  | some e' =>
    rw [emission?_eq_some h] at he
    have hread := (he.resolve_left id).1.2
    exact Bool.noConfusion (hb.symm.trans hread)

/-- Code that prints to a buffer adds texts to it, and leaves the buffers of others alone. -/
theorem Prints.fills (hcollect : call.Collects) (h : Prints buffer returns ss) :
    ∀ {P : Lists}, Fills r buffer out P (fun _ => Recorded returns)
      (recordAll call limit r buffer ss) := by
  induction h with
  | nil => exact .pure .nothing
  | append _ _ ih ih' =>
    rw [recordAll_append]
    exact fills_andThen hb (ih hb) fun _ _ => ih' hb
  | expr he =>
    intro P
    rw [recordAll_singleton, record, recordExpr, emission?_eq_none hb he]
    simp only [bind_assoc, pure_bind]
    exact .shields_bind hb (shields_eval (A := (· = r)) hc rfl _ he) fun _ _ _ _ => .pure .nothing
  | assign hid he =>
    intro P
    simp only [recordAll_singleton, record]
    exact fills_nothing hb (shields_exec_assign (A := (· = r)) hc rfl hid he) fun _ _ h => h
  | @increment _ _ id e hid he =>
    intro P
    have hexec : Shields (· = r) P (fun _ c? => c? = none)
        (exec call limit r (.increment id e)) := by
      rw [exec]
      refine (shields_read r hid).value fun _ v _ hv => ?_
      refine (shields_eval (A := (· = r)) hc rfl e he).value fun _ amount h hamount => ?_
      refine (Shields.lift (guards_binary .add (hv.mono h) hamount)).bind fun P' sum _ hsum => ?_
      have hsum : (Cell.value sum).Within P' := hsum
      exact (shields_write (A := (· = r)) rfl hid hsum).bind fun _ _ _ _ => .pure rfl
    simp only [recordAll_singleton, record]
    exact fills_nothing hb hexec fun _ _ h => h
  | pass =>
    intro P
    simp only [recordAll_singleton, record, exec, pure_bind]
    exact .pure .nothing
  | emit he =>
    intro P
    rw [recordAll_singleton]
    exact fills_emit hc hb hcollect he
  | @ret _ e he =>
    intro P
    simp only [recordAll_singleton, record, exec, bind_assoc, pure_bind]
    refine .shields_bind hb (shields_textual (A := (· = r)) hc rfl he) fun _ c _ hcell => .pure ?_
    refine ⟨rfl, forall_mem_nil _, fun c' h => ?_, fun h => nomatch h⟩
    cases h
    exact hcell
  | @branch _ _ test body otherwise he _ _ ih ih' =>
    intro P
    rw [recordAll_singleton, record]
    refine .shields_bind hb (shields_eval (A := (· = r)) hc rfl test he) fun _ c _ hcell => ?_
    refine .shields_bind hb (.lift (guards_valueIn hcell)) fun P₁ v _ _ => ?_
    refine .get_bind fun w _ => ?_
    split
    · exact ih hb
    · exact ih' hb
  | @loop _ _ target source body ht he _ ih =>
    intro P
    rw [recordAll_singleton, record]
    refine .shields_bind hb (shields_eval (A := (· = r)) hc rfl source he) fun _ c _ hcell => ?_
    refine .shields_bind hb (.lift (guards_valueIn hcell)) fun P₁ v _ hv => ?_
    refine fills_recordLoop hb (fun hu => ?_) limit hv
    exact .shields_bind hb (shields_assignTarget (A := (· = r)) rfl ht hu) fun _ _ _ _ => ih hb
  | @define _ _ name params captured ss hname hparams hcaptured hss _ =>
    intro P
    simp only [recordAll_singleton, record]
    exact fills_nothing hb (shields_define (A := (· = r)) hc rfl hname hparams hcaptured hss)
      fun _ _ h => h

end Script

end Stencil
