import Stencil.Proofs.Library
import Stencil.Proofs.Frames
import Stencil.Proofs.Instruction
import Stencil.Proofs.Tameness

/-!
# Computations that leave lists, dictionaries and frames alone

In a tame state all script functions are made of tame code, and so is what the loader has
(`World.Tame`). A computation grows such a state if it leaves each list, each dictionary, each frame
and each activation as it was and the state tame, whatever it gives and also when it fails
(`Eval.Grows`). Given that calls do so, the expressions of tame code grow the state
(`Script.Expr.Tame.grows`).
-/

namespace Stencil

open Script Compile Eval List

variable {name : String} {es : List Expr}

variable {α β : Type} {builtin : String → Prop}

/-! ## Tame states -/

namespace Script

theorem assignedIn_eq_nil (h : ∀ e ∈ es, e.assigned = []) : assignedIn es = [] := by
  induction es with
  | nil => rfl
  | cons e rest ih =>
    obtain ⟨he, hrest⟩ := forall_mem_cons.1 h
    rw [assignedIn, he, ih hrest, append_nil]

theorem assignedInEntries_eq_nil {es} (h : ∀ p ∈ es, p.1.assigned = [])
    (h' : ∀ p ∈ es, p.2.assigned = []) : assignedInEntries es = [] := by
  induction es with
  | nil => rfl
  | cons p rest ih =>
    obtain ⟨hkey, hkeys⟩ := forall_mem_cons.1 h
    obtain ⟨hvalue, hvalues⟩ := forall_mem_cons.1 h'
    rw [assignedInEntries, hkey, hvalue, ih hkeys hvalues, append_nil, append_nil]

theorem assignedInOperands_eq_nil {es} (h : ∀ p ∈ es, p.2.assigned = []) :
    assignedInOperands es = [] := by
  induction es with
  | nil => rfl
  | cons p rest ih =>
    obtain ⟨hp, hrest⟩ := forall_mem_cons.1 h
    rw [assignedInOperands, hp, ih hrest, append_nil]

/-- Tame expressions assign nothing. -/
theorem Expr.Tame.assigned {e : Expr} (h : e.Tame builtin) : e.assigned = [] := by
  induction h with
  | const | tree | name | parent => rfl
  | attr _ ih => exact ih
  | unary _ ih => exact ih
  | subscript _ _ ih ih' => rw [Expr.assigned, ih, ih', append_nil]
  | boolean _ _ ih ih' => rw [Expr.assigned, ih, ih', append_nil]
  | binary _ _ ih ih' => rw [Expr.assigned, ih, ih', append_nil]
  | method _ _ _ ih ih' =>
    rw [Expr.method, Expr.assigned, Expr.assigned, ih, assignedIn_eq_nil ih', append_nil]
  | core _ _ ih => exact assignedIn_eq_nil ih
  | filter _ _ ih => exact assignedIn_eq_nil ih
  | block c => cases c <;> rfl
  | list _ ih => exact assignedIn_eq_nil ih
  | tuple _ ih => exact assignedIn_eq_nil ih
  | dict _ _ ih ih' => exact assignedInEntries_eq_nil ih ih'
  | compare _ _ ih ih' => rw [Expr.assigned, ih, assignedInOperands_eq_nil ih', append_nil]

theorem Ident.isCore_of_isPlain {id : Ident} (h : id.isPlain = true) : id.isCore = false := by
  simp only [isPlain, Bool.and_eq_true, Bool.not_eq_true'] at h
  exact h.1.2

attribute [local simp] assignedInBody Stmt.assigned Expr.assigned assignedIn Expr.method in
/-- Tame code does not assign the functions that every module knows. -/
theorem Tame.assigned {buffer paths ss} (h : Tame builtin buffer paths ss) :
    ∀ id ∈ assignedInBody ss, id.isCore = false := by
  induction h with
  | nil => exact forall_mem_nil _
  | append _ _ ih ih' =>
    rw [assignedInBody_append]
    exact forall_mem_append.2 ⟨ih, ih'⟩
  | expr he => simp [he.assigned]
  | assign hid he => simp [he.assigned, Ident.isCore_of_isPlain hid]
  | increment hid he => simp [he.assigned, Ident.isCore_of_isPlain hid]
  | emit he => simp [Stmt.emit, he.assigned]
  | frameSet _ he => simp [Stmt.frameSet, Expr.text, he.assigned]
  | ret he => simp [he.assigned]
  | pass => simp
  | branch he _ _ ih ih' =>
    simp only [assignedInBody, Stmt.assigned, he.assigned, nil_append, append_nil]
    exact forall_mem_append.2 ⟨ih, ih'⟩
  | loop ht he _ ih =>
    simp only [assignedInBody, Stmt.assigned, he.assigned, append_nil]
    exact forall_mem_append.2 ⟨fun id hid => Ident.isCore_of_isPlain (ht id hid), ih⟩
  | define hname _ _ _ => simp [Ident.isCore_of_isPlain hname]
  | framed _ _ ih =>
    rw [assignedInBody_append, assignedInBody_append]
    refine forall_mem_append.2 ⟨forall_mem_append.2 ⟨?_, ih⟩, ?_⟩ <;> decide

end Script

/-- A script function that prints to a buffer of its own by tame code, with a variable of its own
for the frame. -/
structure Closure.Tame (builtin : String → Prop) (c : Closure) : Prop where
  frame : .frame ∈ c.owned
  owned : ∀ id ∈ c.owned, id.isCore = false
  body : ∃ buffer ss, buffer ∈ c.owned ∧ buffer.isBuffer = true ∧ c.body = printed buffer ss ∧
    Script.Tame builtin buffer [] ss

/-- A function that is defined with such a body. -/
theorem Script.Tame.closure {buffer params ss} {c : Closure} (h : Script.Tame builtin buffer [] ss)
    (hbuffer : buffer.isBuffer = true) (hframe : .frame ∈ params)
    (hparams : ∀ id ∈ params, id.isCore = false) (hbody : c.body = printed buffer ss)
    (howned : c.owned = ownedBy params (printed buffer ss)) : c.Tame builtin where
  frame := by
    rw [howned]
    exact mem_eraseDups.2 (mem_append_left _ hframe)
  owned id hid := by
    rw [howned] at hid
    rcases mem_append.1 (mem_eraseDups.1 hid) with hid | hid
    · exact hparams id hid
    · simp only [printed, cons_append, assignedInBody, assignedInBody_append, Stmt.assigned,
        Expr.assigned, assignedIn, mem_append, mem_cons, not_mem_nil,
        or_false] at hid
      rcases hid with rfl | hid | hid
      · cases id <;> first | rfl | cases hbuffer
      · cases hid
      · exact h.assigned id (by
          simpa [Expr.joined, Expr.method, Expr.assigned, assignedIn, Expr.text] using hid)
  body := by
    refine ⟨buffer, ss, ?_, hbuffer, hbody, h⟩
    rw [howned]
    refine mem_eraseDups.2 (mem_append_right _ ?_)
    exact mem_cons_self

theorem Script.Function.Tame.closure {f : Script.Function} (h : f.Tame builtin) (r : Ref) :
    (f.closure r).Tame builtin := by
  obtain ⟨ss, hbody, hss⟩ := h.body
  refine hss.closure rfl h.frame (fun id hid => ?_) hbody (by rw [← hbody]; rfl)
  rcases h.params id hid with rfl | hid
  · rfl
  · exact Ident.isCore_of_isPlain hid

/-- All script functions are made of tame code, and so is what the loader has; names for which
`builtin` holds are those of built-in filters, if of any; no activation hides the functions that
every module knows; and no record can be asked to join texts. -/
structure World.Tame (builtin : String → Prop) (w : World) : Prop where
  functions : ∀ q c, w.functions.get? q = some (.closure c) → c.Tame builtin
  activations : ∀ r a, w.activations.get? r = some a → ∀ id ∈ a.owned, id.isCore = false
  loader : ∀ l, w.env.loader? = some l → ∀ tree ∈ l.trees, tree.Tame builtin
  filters : ∀ name v, builtin name → w.env.filters.find? name = some v → ∃ b, v = .filter b
  records : ∀ r t, w.records.get? r = some t → Table.find? t "join" = none

/-- In the state `w'` all lists, dictionaries, frames and activations of `w` are as they were, and
so are the records and the environment. -/
structure World.Grown (w w' : World) : Prop where
  objects : w.toObjects.Grown w'.toObjects
  frames : Extends w.frames w'.frames
  activations : Extends w.activations w'.activations
  env : w'.env = w.env

namespace World

variable {w w' w'' : World}

theorem Grown.refl (w : World) : w.Grown w :=
  ⟨.refl _, .refl _, .refl _, rfl⟩

theorem Grown.trans (h : w.Grown w') (h' : w'.Grown w'') : w.Grown w'' :=
  ⟨h.objects.trans h'.objects, h.frames.trans h'.frames, h.activations.trans h'.activations,
    h'.env.trans h.env⟩

/-- Whether a state is tame depends on its functions and activations, the environment and the
records. -/
theorem Tame.congr (h : w.Tame builtin) (hfunctions : w'.functions = w.functions)
    (hactivations : w'.activations = w.activations) (henv : w'.env = w.env)
    (hrecords : w'.records = w.records) : w'.Tame builtin where
  functions := hfunctions ▸ h.functions
  activations := hactivations ▸ h.activations
  loader := henv ▸ h.loader
  filters := henv ▸ h.filters
  records := hrecords ▸ h.records

theorem Tame.pushFunction (h : w.Tame builtin) {f} (hf : ∀ c, f = .closure c → c.Tame builtin) :
    Tame builtin { w with functions := w.functions.push f } where
  functions q c hq := by
    rcases Store.get?_push_eq_some hq with hq | heq
    · exact h.functions q c hq
    · exact hf c heq.symm
  activations := h.activations
  loader := h.loader
  filters := h.filters
  records := h.records

theorem Tame.pushActivation (h : w.Tame builtin) {a} (ha : ∀ id ∈ a.owned, id.isCore = false) :
    Tame builtin { w with activations := w.activations.push a } where
  functions := h.functions
  activations r b hb := by
    rcases Store.get?_push_eq_some hb with hb | rfl
    · exact h.activations r b hb
    · exact ha
  loader := h.loader
  filters := h.filters
  records := h.records

theorem Tame.assign (h : w.Tame builtin) (r : Ref) (id : Ident) (c : Cell) :
    Tame builtin (w.assign r id c) where
  functions := h.functions
  activations q b hb := by
    by_cases hr : r = q
    · subst hr
      rw [w.activations.get?_modify_self] at hb
      obtain ⟨a, ha, rfl⟩ := Option.map_eq_some_iff.1 hb
      exact h.activations r a ha
    · rw [w.activations.get?_modify_of_ne _ hr] at hb
      exact h.activations q b hb
  loader := h.loader
  filters := h.filters
  records := h.records

end World

/-! ## Computations that grow a tame state -/

namespace Eval

/-- A computation that leaves all lists, dictionaries, frames and activations of a tame state as
they are, and the state tame. -/
def Grows (builtin : String → Prop) (x : Eval α) : Prop :=
  ∀ w, w.Tame builtin → w.Grown (x.outcome w).2 ∧ (x.outcome w).2.Tame builtin

namespace Grows

variable {x : Eval α} {f : α → Eval β}

protected theorem pure (a : α) : Grows builtin (pure a) :=
  fun w hw => ⟨.refl w, hw⟩

protected theorem fail (e : Fault) : Grows builtin (fail e : Eval α) :=
  fun w hw => ⟨.refl w, hw⟩

protected theorem throw (e : Halt) : Grows builtin (throw e : Eval α) :=
  fun w hw => ⟨.refl w, hw⟩

theorem ofExcept (e : Except Fault α) : Grows builtin (ofExcept e : Eval α) := by
  cases e with
  | ok a => exact .pure a
  | error f => exact .fail f

/-- Something may be known of what the first computation gives. -/
theorem bind_of_ok (hx : Grows builtin x)
    (hf : ∀ w a u, w.Tame builtin → x.outcome w = (.ok a, u) → Grows builtin (f a)) :
    Grows builtin (x >>= f) := by
  intro w hw
  obtain ⟨hgrown, htame⟩ := hx w hw
  rcases hr : x.outcome w with ⟨e | a, u⟩ <;> rw [hr] at hgrown htame
  · rw [outcome_bind_of_error hr]
    exact ⟨hgrown, htame⟩
  · rw [outcome_bind_of_ok hr]
    obtain ⟨hgrown', htame'⟩ := hf w a u hw hr u htame
    exact ⟨hgrown.trans hgrown', htame'⟩

theorem bind (hx : Grows builtin x) (hf : ∀ a, Grows builtin (f a)) : Grows builtin (x >>= f) :=
  hx.bind_of_ok fun _ a _ _ _ => hf a

theorem get_bind {g : World → Eval β} (hg : ∀ w, w.Tame builtin → Grows builtin (g w)) :
    Grows builtin (get >>= g) :=
  fun w hw => hg w hw w hw

theorem ite {c : Prop} [Decidable c] {y} (hx : Grows builtin x) (hy : Grows builtin y) :
    Grows builtin (if c then x else y) := by
  split
  · exact hx
  · exact hy

theorem lift {Q} {y : Operation α} (hy : y.Guards True Lists.all Q) : Grows builtin (liftM y) := by
  intro w hw
  have hgrown := (hy.grown w.toSurroundings w.toObjects).1
  rw [outcome_lift]
  exact ⟨⟨hgrown, .refl _, .refl _, rfl⟩, hw.congr rfl rfl rfl hgrown.records⟩

theorem lift_bind {Q} {y : Operation α} (hy : y.Guards True Lists.all Q)
    (hf : ∀ P a, Q P a → Grows builtin (f a)) : Grows builtin (liftM y >>= f) := by
  refine (lift hy).bind_of_ok fun w a u _ hr => ?_
  rw [outcome_lift] at hr
  rcases hp : (y.perform w.toSurroundings w.toObjects).1 with e | b <;> rw [hp] at hr <;> cases hr
  obtain ⟨P, hQ⟩ := (hy.grown _ _).2 a hp
  exact hf P a hQ

theorem modifyGet {g} (hg : ∀ w, w.Tame builtin → w.Grown (g w).2 ∧ (g w).2.Tame builtin) :
    Grows builtin (modifyGet g : Eval α) :=
  fun w hw => hg w hw

theorem recover (accepts : Fault → Bool) {g} (hx : Grows builtin x)
    (hg : ∀ e, Grows builtin (g e)) : Grows builtin (recover accepts x g) := by
  intro w hw
  obtain ⟨hgrown, htame⟩ := hx w hw
  rw [outcome_recover]
  rcases hr : x.outcome w with ⟨(e | _) | a, u⟩ <;> rw [hr] at hgrown htame
  · obtain ⟨hgrown', htame'⟩ := ite (c := accepts e = true) (hg e) (.fail e) u htame
    exact ⟨hgrown.trans hgrown', htame'⟩
  · exact ⟨hgrown, htame⟩
  · exact ⟨hgrown, htame⟩

end Grows

/-! ## Objects of the engine -/

theorem grows_newFrame (f : Frame) : Grows builtin (newFrame f) :=
  .modifyGet fun _ hw =>
    ⟨⟨.refl _, (Extends.refl _).push f, .refl _, rfl⟩, hw.congr rfl rfl rfl rfl⟩

theorem grows_newContext (c : Context) : Grows builtin (newContext c) :=
  .modifyGet fun _ hw => ⟨⟨.refl _, .refl _, .refl _, rfl⟩, hw.congr rfl rfl rfl rfl⟩

theorem grows_newTemplate (t : Template) : Grows builtin (newTemplate t) :=
  .modifyGet fun _ hw => ⟨⟨.refl _, .refl _, .refl _, rfl⟩, hw.congr rfl rfl rfl rfl⟩

theorem grows_newMacro (m : Macro) : Grows builtin (newMacro m) :=
  .modifyGet fun _ hw => ⟨⟨.refl _, .refl _, .refl _, rfl⟩, hw.congr rfl rfl rfl rfl⟩

theorem grows_newFunction {f} (hf : ∀ c, f = .closure c → c.Tame builtin) :
    Grows builtin (newFunction f) :=
  .modifyGet fun _ hw => ⟨⟨.refl _, .refl _, .refl _, rfl⟩, hw.pushFunction hf⟩

theorem grows_modifyContext (r : Ref) (f : Context → Context) : Grows builtin (modifyContext r f) :=
  .modifyGet fun _ hw => ⟨⟨.refl _, .refl _, .refl _, rfl⟩, hw.congr rfl rfl rfl rfl⟩

theorem grows_getSuper (env : Value) (r : Ref) (name : Constant) (block : Value) :
    Grows builtin (getSuper env r name block) :=
  .get_bind fun _ _ => grows_newFunction fun _ hc => by cases hc

theorem grows_resolve (context frame : Ref) (name : String) :
    Grows builtin (resolve context frame name) := by
  refine .get_bind fun _ _ => ?_
  split
  · split
    · exact .pure _
    · exact .pure _
    · exact .pure _
  · exact .pure _

variable {x : Eval α}

theorem grows_withState (state? : Option RenderState) (hx : Grows builtin x) :
    Grows builtin (withState state? x) := by
  intro w hw
  rw [outcome_withState]
  obtain ⟨hgrown, htame⟩ := hx { w with state? } (hw.congr rfl rfl rfl rfl)
  exact ⟨⟨hgrown.objects, hgrown.frames, hgrown.activations, hgrown.env⟩,
    htame.congr rfl rfl rfl rfl⟩

theorem grows_inRender (template? : Option String) (hx : Grows builtin x) :
    Grows builtin (inRender template? x) := by
  refine .get_bind fun _ _ => ?_
  split
  · exact grows_withState _ hx
  · split
    · exact .fail _
    · exact grows_withState _ hx

theorem grows_reporting (template? : Option String) (hx : Grows builtin x) :
    Grows builtin (reporting template? x) :=
  .recover _ hx fun _ => .get_bind fun _ _ => (Grows.ofExcept _).bind fun _ => .fail _

end Eval

/-! ## Calls -/

/-- Calls that change no list and no dictionary as long as entering functions does not: those with
as many arguments as an entry point takes, and those of filters, of script functions and of the
method that joins texts. -/
def Harmless (f : Value) (args : List Value) : Prop :=
  args.length = 4 ∨ (∃ b, f = .filter b) ∨ (∃ kind self, f = .method kind self "join") ∨
    ∃ q, f = .function q

/-- Calls that grow tame states. The methods of the machinery do what the engine makes of them. -/
structure Call.Tame (builtin : String → Prop) (call : Call) : Prop where
  value {f args} : Harmless f args → Grows builtin (call.value f args)
  enter (entry env : Value) (context frame : Ref) :
    Grows builtin (call.enter entry env context frame)
  method (self : Cell) {field} (args : List Cell) : field.isCalm = true →
    Grows builtin (call.method self field args)
  machine (self : Cell) (field : Attr) (args : List Cell) :
    call.method self field args = throw .outOfFuel ∨
      ∃ inner : Call, call.method self field args = Engine.callMethod inner self field args

/-! ### Filters -/

theorem Members.find?_eq_method {m : Members} {self j} (h : m.find? self name = some j) :
    ∃ kind v, j = .method kind v name := by
  unfold Members.find? at h
  split at h
  · exact ⟨_, _, (Option.some.inj h).symm⟩
  · split at h
    · exact ⟨_, _, (Option.some.inj h).symm⟩
    · split at h
      · exact ⟨_, _, (Option.some.inj h).symm⟩
      · cases h

theorem Members.findInType?_eq_method {m : Members} {type j}
    (h : m.findInType? type name = some j) : ∃ kind v, j = .method kind v name := by
  unfold Members.findInType? at h
  split at h
  · exact ⟨_, _, (Option.some.inj h).symm⟩
  · split at h
    · exact ⟨_, _, (Option.some.inj h).symm⟩
    · split at h
      · exact ⟨_, _, (Option.some.inj h).symm⟩
      · cases h

namespace Heap

variable {w : Heap} {v j : Value}

theorem orElse_eq_some {a b} (h : (a <|> b) = some j) : a = some j ∨ b = some j := by
  cases a with
  | none => exact .inr h
  | some v => exact .inl h

theorem typeAttribute?_join {type : String} (h : typeAttribute? type "join" = some j) :
    ∃ kind self, j = .method kind self "join" := by
  rcases orElse_eq_some h with h | h <;> exact Members.findInType?_eq_method h

/-- What a value that is no record joins texts with is a method. -/
theorem attribute?_join (hrecords : ∀ r t, w.records.get? r = some t → Table.find? t "join" = none)
    (h : w.attribute? v "join" = some j) : ∃ kind self, j = .method kind self "join" := by
  have hfound := orElse_eq_some h
  clear h
  rcases hfound with h | h
  · cases v
    case record r =>
      have h : ((w.records.get? r).getD {}).find? "join" = some j := h
      cases hr : w.records.get? r with
      | none =>
        rw [hr] at h
        cases h
      | some t =>
        rw [hr, Option.getD_some, hrecords r t hr] at h
        cases h
    case typeObject type => exact typeAttribute?_join h
    case typeAlias type argument => exact typeAttribute?_join h
    case host f => cases f <;> cases h
    all_goals cases h
  · cases v
    case record => cases h
    case host => cases h
    all_goals
      rcases orElse_eq_some h with h | h <;> exact Members.find?_eq_method h

end Heap

namespace BuiltinFilter

open Eval

variable {call : Call}

theorem grows_joinElements (hcall : call.Tame builtin) (v separator : Value) :
    Grows builtin (joinElements call v separator) := by
  unfold joinElements
  split
  · exact .pure _
  · refine (Grows.lift (guards_attribute? (.all _) _)).bind_of_ok fun w joiner? u hw hr => ?_
    cases joiner? with
    | none =>
      dsimp only
      split <;> exact .fail _
    | some joiner =>
      have hattribute : (liftM (attribute? separator "join") : Eval (Option Value)).outcome w =
          (.ok (w.attribute? separator "join"), w) := by
        cases separator <;> rfl
      rw [hattribute] at hr
      have hmethod := Heap.attribute?_join hw.records (Except.ok.inj (Prod.mk.inj hr).1)
      refine (Grows.lift (guards_textsOf (.all v))).bind fun texts => hcall.value ?_
      exact .inr (.inr (.inl hmethod))

theorem grows_run (hcall : call.Tame builtin) (f : BuiltinFilter) (args : List Value) :
    Grows builtin (f.run call args) := by
  cases f with
  | upper | lower | title | capitalize => exact .lift (BuiltinFilter.guards_onText _ _)
  | trim => exact .lift (BuiltinFilter.guards_keepingText _ (.all _))
  | string => exact .lift (guards_toText (.all _))
  | replace =>
    exact (Grows.lift (looks_outputOf _).guards).bind fun _ =>
      .lift (guards_replaceText (.all _) _ _ _ _)
  | length => exact .lift (guards_countElements (.all _))
  | join => exact grows_joinElements hcall _ _
  | first => exact .lift (guards_firstElement (.all _))
  | last => exact .lift (guards_lastElement (.all _))
  | reverse => exact .lift (guards_reverseElements (.all _))
  | default => exact .lift (guards_orDefault (.all _) (.all _) _)
  | int =>
    refine (Grows.ofExcept _).bind fun n? => ?_
    cases n? with
    | none => exact .pure _
    | some n =>
      dsimp only
      split
      · exact .pure _
      · exact .lift (guards_newInt n)

theorem grows_apply (hcall : call.Tame builtin) (f : BuiltinFilter) (args : List Value) :
    Grows builtin (f.apply call args) :=
  (Grows.lift (looks_checkArity _ _ _).guards).bind fun _ => grows_run hcall f args

end BuiltinFilter

/-! ## Expressions -/

namespace Script

open Eval

variable {call : Call} {r : Ref}

theorem grows_read (r : Ref) (id : Ident) : Grows builtin (read r id) := by
  intro w hw
  rw [snd_outcome_read]
  exact ⟨.refl w, hw⟩

variable {w u : World} {id : Ident} {field : Attr} {c : Cell}

theorem ownerFrom_core (hw : w.Tame builtin) (hid : id.isCore = true) (fuel : Nat) :
    ∀ r, ownerFrom w.activations id fuel r = none := by
  induction fuel with
  | zero => exact fun _ => rfl
  | succ fuel ih =>
    intro r
    rw [ownerFrom]
    cases ha : w.activations.get? r with
    | none => rfl
    | some a =>
      have howned : ¬a.owned.contains id = true := by
        intro hmem
        rw [hw.activations r a ha id (contains_iff_mem.1 hmem)] at hid
        cases hid
      dsimp only
      rw [if_neg howned]
      cases a.outer with
      | none => rfl
      | some o => exact ih o

theorem outcome_read_core (hw : w.Tame builtin) (hid : id.isCore = true) (r : Ref) :
    ∃ f, (read r id).outcome w = (.ok (.core f), w) := by
  have hread := reads?_of_unowned (ownerFrom_core hw hid (r + 1) r)
  cases id with
  | len => exact ⟨_, outcome_read_of_reads? hread⟩
  | list => exact ⟨_, outcome_read_of_reads? hread⟩
  | range => exact ⟨_, outcome_read_of_reads? hread⟩
  | _ => cases hid

theorem grows_fieldOf (c : Cell) (field : Attr) : Grows builtin (fieldOf c field) := by
  unfold fieldOf
  split
  · exact .pure _
  · exact .get_bind fun _ _ => .pure _
  · exact .ite (.pure _) (.fail _)

/-- Of the attributes that generated code asks for, only two are no methods. -/
theorem fieldOf_calm (h : field.isCalm = true) (c : Cell) :
    (hasMethod c field = true ∧ fieldOf c field = pure (.method c field)) ∨
      ∃ e, fieldOf c field = fail e := by
  unfold fieldOf
  split
  · cases h
  · cases h
  · split
    next hmethod => exact .inl ⟨hmethod, rfl⟩
    next => exact .inr ⟨_, rfl⟩

/-- The calls of what an expression gives, with the arguments of an entry point or of a filter. -/
theorem grows_callCell_value (hcall : call.Tame builtin) {f cells}
    (h : cells.length = 4 ∨ ∃ b, f = .filter b) :
    Grows builtin (callCell call (.value f) cells) := by
  have hvalues : (valuesIn cells).Guards True Lists.all fun _ vs => vs.length = cells.length := by
    clear h
    unfold valuesIn
    induction cells with
    | nil => exact .pure rfl
    | cons c rest ih =>
      rw [mapM_cons]
      refine (looks_valueIn c).guards_bind fun v => ih.bind fun _ vs _ hvs => .pure ?_
      rw [length_cons, length_cons, hvs]
  unfold callCell
  dsimp only
  split
  · exact (hcall.enter _ _ _ _).bind fun _ => .pure _
  · refine .lift_bind hvalues fun _ vs hvs => (hcall.value ?_).bind fun _ => .pure _
    rcases h with h | h
    · exact .inl (hvs.trans h)
    · exact .inr (.inl h)

theorem grows_evalAll (h : ∀ e ∈ es, Grows builtin (eval call r e)) :
    Grows builtin (evalAll call r es) := by
  induction es with
  | nil => exact .pure _
  | cons e rest ih =>
    obtain ⟨he, hrest⟩ := forall_mem_cons.1 h
    exact he.bind fun _ => (ih hrest).bind fun _ => .pure _

theorem length_of_evalAll {cells} (h : (evalAll call r es).outcome w = (.ok cells, u)) :
    cells.length = es.length := by
  induction es generalizing cells w with
  | nil =>
    cases h
    rfl
  | cons e rest ih =>
    obtain ⟨c, v, cs, rfl, -, hrest⟩ := outcome_evalAll_cons_eq_ok h
    rw [length_cons, length_cons, ih hrest]

theorem grows_evalEntries {es : List (Expr × Expr)} (h : ∀ p ∈ es, Grows builtin (eval call r p.1))
    (h' : ∀ p ∈ es, Grows builtin (eval call r p.2)) : Grows builtin (evalEntries call r es) := by
  induction es with
  | nil => exact .pure _
  | cons p rest ih =>
    obtain ⟨hkey, hkeys⟩ := forall_mem_cons.1 h
    obtain ⟨hvalue, hvalues⟩ := forall_mem_cons.1 h'
    refine hkey.bind fun _ => (Grows.lift (looks_valueIn _).guards).bind fun _ => ?_
    refine hvalue.bind fun _ => (Grows.lift (looks_valueIn _).guards).bind fun _ => ?_
    exact (ih hkeys hvalues).bind fun _ => .pure _

theorem grows_evalChain {es : List (CompareOp × Expr)}
    (h : ∀ p ∈ es, Grows builtin (eval call r p.2)) :
    ∀ left, Grows builtin (evalChain call r left es) := by
  induction es with
  | nil => exact fun _ => .pure _
  | cons p rest ih =>
    obtain ⟨hp, hrest⟩ := forall_mem_cons.1 h
    intro left
    refine hp.bind fun _ => (Grows.lift (looks_valueIn _).guards).bind fun right => ?_
    refine (Grows.lift (guards_compareBy _ _ _)).bind fun holds => .ite ?_ (.pure _)
    exact .ite (.pure _) (ih hrest right)

/-- The call of a method that leaves lists and dictionaries alone. -/
theorem grows_eval_method (hcall : call.Tame builtin) {object args} (hfield : field.isCalm = true)
    (hobject : Grows builtin (eval call r object))
    (hargs : ∀ e ∈ args, Grows builtin (eval call r e)) :
    Grows builtin (eval call r (.method object field args)) := by
  rw [Expr.method, eval, eval, bind_assoc]
  refine hobject.bind fun c => ?_
  obtain ⟨-, h⟩ | ⟨e, h⟩ := fieldOf_calm hfield c <;> rw [h]
  · rw [pure_bind]
    exact (grows_evalAll hargs).bind fun cells => hcall.method c cells hfield
  · exact fun w hw => ⟨.refl w, hw⟩

/-- What the call of a method of an identifier gives is what the method gives. -/
theorem exists_method_of_eval (hfield : field.isCalm = true) {args}
    (h : (eval call r (.method (.name id) field args)).outcome w = (.ok c, u)) :
    ∃ self cells v, hasMethod self field = true ∧ (evalAll call r args).outcome w = (.ok cells, v) ∧
      (call.method self field cells).outcome v = (.ok c, u) := by
  rw [Expr.method, eval, eval, bind_assoc] at h
  obtain ⟨self, v, hread, hcalled⟩ := outcome_bind_eq_ok h
  have hv : v = w := by rw [← snd_outcome_read r id w, ← eval, hread]
  subst hv
  obtain ⟨hmethod, hfieldOf⟩ | ⟨e, hfieldOf⟩ := fieldOf_calm hfield self <;>
    rw [hfieldOf] at hcalled
  · rw [pure_bind] at hcalled
    obtain ⟨cells, v', hargs, hcalled⟩ := outcome_bind_eq_ok hcalled
    exact ⟨self, cells, v', hmethod, hargs, hcalled⟩
  · cases hcalled

/-- The filter that generated code asks for is a built-in one. -/
theorem filter_of_eval (hcall : call.Tame builtin) (hname : builtin name) (hw : w.Tame builtin)
    (h : (eval call r (.method (.name .env) .getFilter [.text name])).outcome w = (.ok c, u)) :
    ∃ b, c = .value (.filter b) := by
  obtain ⟨self, cells, v, hmethod, hargs, h⟩ := exists_method_of_eval rfl h
  obtain ⟨rfl, rfl⟩ : cells = [.value (.ofConstant (.str name))] ∧ v = w := by
    cases hargs
    exact ⟨rfl, rfl⟩
  obtain rfl : self = .value .environment := by
    cases self with
    | value f =>
      cases f with
      | environment => rfl
      | _ => cases hmethod
    | _ => cases hmethod
  obtain hout | ⟨inner, hinner⟩ := hcall.machine (.value .environment) .getFilter
    [.value (.ofConstant (.str name))]
  · rw [hout] at h
    cases h
  · rw [hinner] at h
    obtain ⟨f, u', hfilter, h⟩ := outcome_bind_eq_ok h
    cases h
    rw [outcome_lift] at hfilter
    rcases hp : (getFilter name).perform v.toSurroundings v.toObjects with ⟨e | g, o⟩ <;>
      rw [hp] at hfilter <;> cases hfilter
    obtain ⟨b, rfl⟩ := hw.filters name f hname (find?_of_getFilter hp)
    exact ⟨b, rfl⟩

/-- Only a template has a root, and the root is a value. -/
theorem value_of_rootRenderFunc {self} (h : (fieldOf self .rootRenderFunc).outcome w = (.ok c, u)) :
    ∃ v, c = .value v := by
  unfold fieldOf at h
  split at h
  · cases h
    exact ⟨_, rfl⟩
  · cases h
    exact ⟨_, rfl⟩
  · rw [if_neg (by simp [hasMethod])] at h
    cases h

/-- The call of what a computation gives, with the arguments of an entry point. -/
theorem grows_entry (hcall : call.Tame builtin) {x} (hx : Grows builtin x)
    (hresult : ∀ w c u, x.outcome w = (.ok c, u) → (∃ v, c = .value v) ∨ ∃ f, c = .frame f) :
    Grows builtin (x >>= fun callee => evalAll call r Expr.entryArgs >>= callCell call callee) := by
  have hargs : Grows builtin (evalAll call r Expr.entryArgs) := by
    refine grows_evalAll fun e he => ?_
    simp only [Expr.entryArgs, mem_cons, not_mem_nil, or_false] at he
    rcases he with rfl | rfl | rfl | rfl <;> exact grows_read _ _
  refine hx.bind_of_ok fun w callee u _ hr => hargs.bind_of_ok fun _ cells _ _ hcells => ?_
  obtain ⟨f, rfl⟩ | ⟨f, rfl⟩ := hresult w callee u hr
  · exact grows_callCell_value hcall (.inl (length_of_evalAll hcells))
  · exact .fail _

/-- Tame expressions grow tame states. -/
theorem Expr.Tame.grows (hcall : call.Tame builtin) (r : Ref) {e : Expr} (h : e.Tame builtin) :
    Grows builtin (eval call r e) := by
  have hvalue (c : Cell) : Grows builtin (liftM (valueIn c)) := .lift (looks_valueIn c).guards
  have hvalues (cells : List Cell) : Grows builtin (liftM (valuesIn cells)) :=
    .lift (Operation.Looks.guards (.mapM looks_valueIn cells))
  induction h with
  | const => exact .pure _
  | tree => exact .fail _
  | name id => exact grows_read r id
  | attr _ ih => exact ih.bind fun c => grows_fieldOf c _
  | subscript _ _ ih ih' =>
    refine ih.bind fun _ => (hvalue _).bind fun _ => ih'.bind fun _ => (hvalue _).bind fun _ => ?_
    exact (Grows.lift (guards_subscript (.all _) (.all _))).bind fun _ => .pure _
  | method hfield _ _ ih ih' => exact grows_eval_method hcall hfield ih ih'
  | core hid _ ih =>
    refine (grows_read r _).bind_of_ok fun w c u hw hr => (grows_evalAll ih).bind fun cells => ?_
    obtain ⟨f, hread⟩ := outcome_read_core hw hid r
    rw [hread] at hr
    cases hr
    refine (hvalues cells).bind fun vs => ?_
    exact (Grows.lift (guards_callCore f fun _ _ => .all _)).bind fun _ => .pure _
  | @filter name args hname _ ih =>
    have hfilter : Grows builtin (eval call r (.method (.name .env) .getFilter [.text name])) :=
      grows_eval_method hcall rfl (grows_read r _) (forall_mem_singleton.2 (.pure _))
    refine hfilter.bind_of_ok fun w c u hw hr => (grows_evalAll ih).bind fun cells => ?_
    obtain ⟨b, rfl⟩ := filter_of_eval hcall hname hw hr
    exact grows_callCell_value hcall (.inr ⟨b, rfl⟩)
  | block c =>
    have hcontent : Grows builtin (eval call r (.ofContent c)) := by
      cases c with
      | constant => exact .pure _
      | node => exact .fail _
    have hblock : Grows builtin (eval call r (.method (.name .context) .getBlock [.ofContent c])) :=
      grows_eval_method hcall rfl (grows_read r _) (forall_mem_singleton.2 hcontent)
    refine grows_entry hcall hblock fun w c u hr => ?_
    obtain ⟨self, cells, v, -, -, hmethod⟩ := exists_method_of_eval rfl hr
    obtain hout | ⟨inner, hinner⟩ := hcall.machine self .getBlock cells
    · rw [hout] at hmethod
      cases hmethod
    · rw [hinner] at hmethod
      exact Engine.result_callMethod hmethod
  | parent =>
    have hroot : Grows builtin (eval call r (.attr (.name .parentTemplate) .rootRenderFunc)) :=
      (grows_read r _).bind fun c => grows_fieldOf c _
    refine grows_entry hcall hroot fun w c u hr => ?_
    obtain ⟨self, v, -, hfield⟩ := outcome_bind_eq_ok hr
    exact .inl (value_of_rootRenderFunc hfield)
  | list _ ih =>
    refine (grows_evalAll ih).bind fun _ => (hvalues _).bind fun _ => ?_
    exact (Grows.lift (guards_newList fun _ _ => .all _)).bind fun _ => .pure _
  | tuple _ ih =>
    refine (grows_evalAll ih).bind fun _ => (hvalues _).bind fun _ => ?_
    exact (Grows.lift (guards_newTuple fun _ _ => .all _)).bind fun _ => .pure _
  | dict _ _ ih ih' =>
    refine (grows_evalEntries ih ih').bind fun _ => .get_bind fun _ _ => ?_
    exact (Grows.lift (guards_newDict (.all _))).bind fun _ => .pure _
  | @boolean op _ _ _ _ ih ih' =>
    cases op
    · exact ih.bind fun _ => (hvalue _).bind fun _ => .get_bind fun _ _ => .ite (.pure _) ih'
    · exact ih.bind fun _ => (hvalue _).bind fun _ => .get_bind fun _ _ => .ite ih' (.pure _)
  | binary _ _ ih ih' =>
    refine ih.bind fun _ => (hvalue _).bind fun _ => ih'.bind fun _ => (hvalue _).bind fun _ => ?_
    exact (Grows.lift (guards_binary _ (.all _) (.all _))).bind fun _ => .pure _
  | unary _ ih =>
    refine ih.bind fun _ => (hvalue _).bind fun _ => ?_
    exact (Grows.lift (guards_unary _ (.all _))).bind fun _ => .pure _
  | compare _ _ ih ih' =>
    exact ih.bind fun _ => (hvalue _).bind fun _ => (grows_evalChain ih' _).bind fun _ => .pure _

end Script

end Stencil
