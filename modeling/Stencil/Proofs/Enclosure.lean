import Stencil.Proofs.Discreet
import Stencil.Proofs.Ownership

/-!
# A context that only discreet code can reach

A context is `Enclosed` when no variable holds it except the variable for the context, when the
functions that see such a variable are discreet, and when only known entry points are ever entered
with it. Everything the engine does keeps a context enclosed, and with that the blocks it holds
(`Enclosed.kept`).
-/

namespace Stencil

open Script List Store Table

variable {w : World} {a : Activation} {id : Ident} {cell : Cell} {q : Ref} {f : Closure}

variable {α : Type} {c : Ref} {known : Value → Prop} {fs : Store Function}
  {acts acts' : Store Activation} {r : Ref}

/-- The content of a variable is a context or a method that has been taken from it. -/
def Cell.Reaches (c : Ref) : Cell → Prop
  | .context r => r = c
  | .method self _ => self.Reaches c
  | _ => False

/-! ## Activations that have a context at hand -/

/-- An activation in which the variable for the context holds the given one. -/
def Inside (c : Ref) (acts : Store Activation) (r : Ref) : Prop :=
  ((ownerOf acts .context r).bind acts.get?).bind (·.vars.find? .context) = some (.context c)

theorem inside_iff : Inside c w.activations r ↔ reads? w r .context = some (.context c) := by
  unfold Inside reads?
  cases (ownerOf w.activations .context r).bind w.activations.get? with
  | none => simp [coreFunction?]
  | some a => rfl

theorem inside_extends (h : Nested acts) (h' : Nested acts') (he : Extends acts acts')
    (hr : r < acts.size) : Inside c acts' r ↔ Inside c acts r := by
  have howner : ownerOf acts' .context r = ownerOf acts .context r := ownerOf_extends h h' he hr
  unfold Inside
  rw [howner]
  cases hp : ownerOf acts .context r with
  | none => rfl
  | some p => rw [Option.bind_some, Option.bind_some,
      he.2 p (Nat.lt_of_le_of_lt (ownerOf_le h hp) hr)]

/-- An activation that owns the variable for the context has at hand what the variable holds. -/
theorem inside_of_owned (h : Nested acts) (ha : acts.get? r = some a) (hown : .context ∈ a.owned) :
    Inside c acts r ↔ a.vars.find? .context = some (.context c) := by
  unfold Inside
  rw [ownerOf_eq_self h ha hown, Option.bind_some, ha, Option.bind_some]

/-- Any other activation has at hand what the activation around it has. -/
theorem inside_of_not_owned (h : Nested acts) (ha : acts.get? r = some a)
    (hown : .context ∉ a.owned) : Inside c acts r ↔ ∃ o, a.outer = some o ∧ Inside c acts o := by
  unfold Inside
  rw [ownerOf_eq_outer h ha hown]
  cases a.outer <;> simp

/-- A new activation that stands alone and holds no context has none at hand. -/
theorem not_inside_push (h : Nested (acts.push a)) (houter : a.outer = none)
    (hvars : ∀ id cell, a.vars.find? id = some cell → ¬ cell.Reaches c) :
    ¬ Inside c (acts.push a) acts.size := by
  have hself := acts.get?_push_self a
  by_cases hown : .context ∈ a.owned
  · rw [inside_of_owned h hself hown]
    exact fun hfind => hvars _ _ hfind rfl
  · rw [inside_of_not_owned h hself hown]
    rintro ⟨o, ho, -⟩
    simp [houter] at ho

/-- Assigning a variable does not change which activations have the context at hand, unless it is
the variable for the context where the context is at hand. -/
theorem inside_assign (h : Nested acts) (hcell : ¬ cell.Reaches c)
    (hid : Inside c acts r → id ≠ .context) (q : Ref) :
    Inside c (acts.modify r (·.assign id cell)) q ↔ Inside c acts q := by
  have howner : ownerOf (acts.modify r (·.assign id cell)) .context q = ownerOf acts .context q :=
    ownerOf_modify h fun _ => rfl
  unfold Inside
  rw [howner]
  cases hp : ownerOf acts .context q with
  | none => rfl
  | some p =>
    rw [Option.bind_some, Option.bind_some]
    by_cases hrp : r = p
    · subst hrp
      obtain ⟨a, ha, hown⟩ := owns_of_ownerOf h hp
      rw [acts.get?_modify_self, ha]
      show (a.vars.insert id cell).find? .context = some (.context c) ↔
        a.vars.find? .context = some (.context c)
      by_cases hcontext : id = .context
      · -- Here the context is not at hand, neither before the assignment nor after it.
        subst hcontext
        rw [a.vars.find?_insert_self]
        refine ⟨fun hc => ?_, fun hc => ?_⟩
        · cases hc
          exact (hcell rfl).elim
        · exact (hid ((inside_of_owned h ha hown).2 hc) rfl).elim
      · rw [a.vars.find?_insert_of_ne (Ne.symm hcontext)]
    · rw [acts.get?_modify_of_ne _ hrp]

/-! ## Enclosed contexts -/

/-- A function that may be entered with an enclosed context. -/
structure Closure.IsEntry (f : Closure) : Prop where
  params : f.params = entryParams
  captured : f.captured = []
  owned : .context ∈ f.owned
  body : DiscreetIn f.body

/-- A context that only discreet code can reach: no variable holds it but the variable for the
context, functions that find it there are discreet, and the functions of overridden blocks enter
known entry points with it. -/
structure Enclosed (c : Ref) (known : Value → Prop) (fs : Store Function)
    (acts : Store Activation) : Prop where
  nesting : Scoped fs acts
  holder {r : Ref} {a id cell} : acts.get? r = some a →
    a.vars.find? id = some cell → cell.Reaches c → id = .context ∧ cell = .context c
  captured {q : Ref} {f} : fs.get? q = some (.closure f) → ∀ p ∈ f.captured, ¬ p.2.Reaches c
  discreet {q f o} : fs.get? q = some (.closure f) → f.outer = some o →
    Inside c acts o → DiscreetIn f.body ∧ .context ∉ f.owned
  entry {v} : known v → ∃ q f, v = .function q ∧ fs.get? q = some (.closure f) ∧ f.IsEntry
  overridden {q env name next} : fs.get? q = some (.superBlock env c name (some next)) → known next

namespace Enclosed

/-- A new function that cannot reach the context, or is discreet where it can. -/
theorem pushFunction (h : Enclosed c known fs acts) {g : Function}
    (hclosure : ∀ f, g = .closure f → (∀ p ∈ f.captured, ¬ p.2.Reaches c) ∧
      ∀ o, f.outer = some o → o < acts.size ∧
        (Inside c acts o → DiscreetIn f.body ∧ .context ∉ f.owned))
    (hsuper : ∀ env name next, g = .superBlock env c name (some next) → known next) :
    Enclosed c known (fs.push g) acts where
  nesting := h.nesting.pushFunction fun f o hf ho => ((hclosure f hf).2 o ho).1
  holder := h.holder
  captured hq := by
    rcases get?_push_eq_some hq with hq | rfl
    · exact h.captured hq
    · exact (hclosure _ rfl).1
  discreet hq ho := by
    rcases get?_push_eq_some hq with hq | rfl
    · exact h.discreet hq ho
    · exact ((hclosure _ rfl).2 _ ho).2
  entry hv := by
    obtain ⟨q, f, rfl, hq, hf⟩ := h.entry hv
    exact ⟨q, f, rfl, by rw [fs.get?_push_of_lt g (get?_eq_some_lt hq), hq], hf⟩
  overridden hq := by
    rcases get?_push_eq_some hq with hq | rfl
    · exact h.overridden hq
    · exact hsuper _ _ _ rfl

/-- A new activation, in which the context stands at most under its own variable. -/
theorem pushActivation (h : Enclosed c known fs acts)
    (houter : ∀ o, a.outer = some o → o < acts.size)
    (hvars : ∀ id cell, a.vars.find? id = some cell → cell.Reaches c →
      id = .context ∧ cell = .context c) :
    Enclosed c known fs (acts.push a) := by
  have hscoped := h.nesting.pushActivation houter
  exact
    { nesting := hscoped
      holder := fun {r b id cell} hr => by
        rcases get?_push_eq_some hr with hr | rfl
        · exact h.holder hr
        · exact hvars id cell
      captured := h.captured
      discreet := fun hq ho hin => by
        have hlt := h.nesting.closure hq ho
        rw [inside_extends h.nesting.activation hscoped.activation ((Extends.refl acts).push a)
          hlt] at hin
        exact h.discreet hq ho hin
      entry := h.entry
      overridden := h.overridden }

/-- Assigning a variable something that does not reach the context. -/
theorem assign (h : Enclosed c known fs acts) (hcell : ¬ cell.Reaches c)
    (hid : Inside c acts r → id ≠ .context) :
    Enclosed c known fs (acts.modify r (·.assign id cell)) where
  nesting := h.nesting.modify r fun _ => rfl
  holder {q a i d} hq hd hreach := by
    by_cases hrq : r = q
    · subst hrq
      rw [acts.get?_modify_self] at hq
      obtain ⟨b, hb, rfl⟩ := Option.map_eq_some_iff.1 hq
      by_cases hi : i = id
      · subst hi
        have hd : (b.vars.insert i cell).find? i = some d := hd
        rw [b.vars.find?_insert_self] at hd
        exact (hcell (Option.some.inj hd ▸ hreach)).elim
      · have hd : (b.vars.insert id cell).find? i = some d := hd
        rw [b.vars.find?_insert_of_ne hi] at hd
        exact h.holder hb hd hreach
    · rw [acts.get?_modify_of_ne _ hrq] at hq
      exact h.holder hq hd hreach
  captured := h.captured
  discreet hq ho hin :=
    h.discreet hq ho ((inside_assign h.nesting.activation hcell hid _).1 hin)
  entry := h.entry
  overridden := h.overridden

/-- The functions of a new module see their own activation only. -/
theorem load (h : Enclosed c known fs acts) (m : Script.Module) (ha : a.outer = none)
    (hvars : ∀ id cell, a.vars.find? id = some cell → ¬ cell.Reaches c) :
    Enclosed c known (fs.append (m.functions.map fun f => .closure (f.closure acts.size)))
      (acts.push a) := by
  have hpush := h.pushActivation (fun o ho => by simp [ha] at ho)
    fun id cell hfind hreach => (hvars id cell hfind hreach).elim
  have hout : ¬ Inside c (acts.push a) acts.size :=
    not_inside_push hpush.nesting.activation ha hvars
  have look {q : Ref} {g : Function}
      (hq : (fs.append (m.functions.map fun f => .closure (f.closure acts.size))).get? q = some g) :
      fs.get? q = some g ∨ ∃ f ∈ m.functions, g = .closure (f.closure acts.size) := by
    refine (get?_append_eq_some hq).imp_right fun hg => ?_
    obtain ⟨f, hf, rfl⟩ := mem_map.1 hg
    exact ⟨f, hf, rfl⟩
  exact
    { nesting := h.nesting.load m ha
      holder := hpush.holder
      captured := fun hq => by
        rcases look hq with hq | ⟨f, -, heq⟩
        · exact h.captured hq
        · cases heq
          exact fun p hp => (nomatch hp)
      discreet := fun hq ho hin => by
        rcases look hq with hq | ⟨f, -, heq⟩
        · exact hpush.discreet hq ho hin
        · cases heq
          cases ho
          exact (hout hin).elim
      entry := fun hv => by
        obtain ⟨q, f, rfl, hq, hf⟩ := h.entry hv
        exact ⟨q, f, rfl, by rw [fs.get?_append_of_lt _ (get?_eq_some_lt hq), hq], hf⟩
      overridden := fun hq => by
        rcases look hq with hq | ⟨f, -, heq⟩
        · exact h.overridden hq
        · cases heq }

/-- A function that is called with nothing that reaches the context gets hold of it only where it
was defined. -/
theorem activate (h : Enclosed c known fs acts) (hq : fs.get? q = some (.closure f))
    {args : List Cell} (hargs : ∀ a ∈ args, ¬ a.Reaches c) :
    Enclosed c known fs (acts.push (f.activation args)) ∧
      (Inside c (acts.push (f.activation args)) acts.size → DiscreetIn f.body) := by
  have hvars : ∀ id cell, (f.activation args).vars.find? id = some cell → ¬ cell.Reaches c := by
    intro id cell hfind
    rcases mem_append.1 (mem_of_find?_ofList hfind) with hmem | hmem
    · exact hargs cell (of_mem_zip hmem).2
    · exact h.captured hq _ hmem
  have hpush := h.pushActivation (fun o ho => h.nesting.closure hq ho)
    fun id cell hfind hreach => (hvars id cell hfind hreach).elim
  refine ⟨hpush, fun hin => ?_⟩
  have hself := acts.get?_push_self (f.activation args)
  by_cases hown : .context ∈ f.owned
  · rw [inside_of_owned hpush.nesting.activation hself hown] at hin
    exact (hvars _ _ hin rfl).elim
  · rw [inside_of_not_owned hpush.nesting.activation hself hown] at hin
    obtain ⟨o, ho, hin⟩ := hin
    exact (hpush.discreet hq ho hin).1

/-- A known entry point that is entered with the context has it at hand. -/
theorem activateEntry (h : Enclosed c known fs acts) (hq : fs.get? q = some (.closure f))
    (hf : f.IsEntry) (env : Value) (frame : Ref) :
    let a := f.activation [.value env, .context c, .frame frame, .runtime]
    Enclosed c known fs (acts.push a) ∧ Inside c (acts.push a) acts.size := by
  intro a
  have hvars : a.vars = ofList [(.env, .value env), (.context, .context c),
      (.frame, .frame frame), (.runtime, .runtime)] := by
    show ofList (f.params.zip _ ++ f.captured) = _
    rw [hf.params, hf.captured]
    rfl
  have hpush := h.pushActivation (fun o ho => h.nesting.closure hq ho) (by
    intro id cell hfind hreach
    rw [hvars] at hfind
    have hmem := mem_of_find?_ofList hfind
    simp only [mem_cons, Prod.mk.injEq, not_mem_nil, or_false] at hmem
    rcases hmem with ⟨-, rfl⟩ | ⟨rfl, rfl⟩ | ⟨-, rfl⟩ | ⟨-, rfl⟩
    · exact hreach.elim
    · exact ⟨rfl, rfl⟩
    · exact hreach.elim
    · exact hreach.elim)
  refine ⟨hpush, ?_⟩
  rw [inside_of_owned hpush.nesting.activation (acts.get?_push_self a) hf.owned, hvars]
  rfl

end Enclosed

/-! ## What the engine keeps -/

/-- A state in which a context is enclosed and holds the given blocks. -/
structure Guarded (c : Ref) (known : Value → Prop) (blocks : Table String (List Value))
    (w : World) : Prop where
  enclosed : Enclosed c known w.functions w.activations
  lt : c < w.contexts.size
  blocks_eq : (w.context c).blocks = blocks

/-- What may be entered with which context: only known entry points with an enclosed one. -/
def admitted (c : Ref) (known : Value → Prop) : World → Ref → Value → Prop :=
  fun _ r e => r = c → known e

/-- Which methods may be called: no block is added to an enclosed context. -/
def tame (c : Ref) : Cell → Attr → Prop :=
  fun self field => self = .context c → field ≠ .addBlock

namespace Guarded

variable {blocks : Table String (List Value)}

theorem setContext (h : Guarded c known blocks w) {context : Context}
    (hblocks : q = c → context.blocks = (w.context c).blocks) :
    Guarded c known blocks (w.setContext q context) where
  enclosed := h.enclosed
  lt := by rw [size_set]; exact h.lt
  blocks_eq := by
    rw [w.context_setContext]
    split
    · next hq => exact (hblocks hq.1).trans h.blocks_eq
    · exact h.blocks_eq

section

variable (hknown : ∀ name, ∀ v ∈ (blocks.find? name).getD [], known v)

include hknown

/-- The definitions of the blocks are known. -/
theorem known_of_mem_chainOf (h : Guarded c known blocks w) (name : Constant) {v : Value}
    (hv : v ∈ (w.context c).chainOf name) : known v := by
  cases name with
  | str name =>
    have hv : v ∈ ((w.context c).blocks.find? name).getD [] := hv
    rw [h.blocks_eq] at hv
    exact hknown name v hv
  | _ => cases hv

/-- Nothing the engine does by itself touches an enclosed context. -/
theorem closed : Closed (Always (Guarded c known blocks)) (admitted c known) (tame c) where
  twin h := ⟨_, h.1⟩
  rest h _ _ _ := ⟨by rw [h.1], h.2.enclosed, h.2.lt, h.2.blocks_eq⟩
  pushFrame h _ := ⟨by rw [h.1], h.2.enclosed, h.2.lt, h.2.blocks_eq⟩
  setFrame h _ _ _ _ := ⟨by rw [h.1], h.2.enclosed, h.2.lt, h.2.blocks_eq⟩
  pushContext {w _} h r vars := by
    refine ⟨by rw [h.1], h.2.enclosed, ?_, ?_⟩
    · show c < (w.contexts.push _).size
      rw [size_push]
      exact Nat.lt_succ_of_lt h.2.lt
    · exact (congrArg (·.blocks) ((w.context_push _ c).trans (if_neg (Nat.ne_of_lt h.2.lt)))).trans
        h.2.blocks_eq
  entryFresh h _ _ _ _ hc := absurd h.2.lt (hc ▸ Nat.lt_irrefl _)
  entryRest h _ _ _ _ := h
  setContext h _ _ hblocks := ⟨by rw [h.1], h.2.setContext fun hq => hq ▸ hblocks⟩
  addBlock h _ _ _ hmethod :=
    ⟨by rw [h.1], h.2.setContext fun hq => (hmethod (congrArg Cell.context hq) rfl).elim⟩
  pushSuper {w _} h env r name next? hnext := by
    refine ⟨by rw [h.1], h.2.enclosed.pushFunction (fun f hf => nomatch hf) ?_, h.2.lt,
      h.2.blocks_eq⟩
    rintro _ _ next ⟨⟩
    exact h.2.known_of_mem_chainOf hknown _ (hnext next rfl)
  entrySuper h _ _ _ _ _ hq hc := h.2.enclosed.overridden (hc ▸ hq)

end

end Guarded

/-- Calls that keep to their own activations, never hand out an enclosed context, and answer with
known entry points when they are asked for its blocks. -/
structure Call.Guards (c : Ref) (known : Value → Prop) (blocks : Table String (List Value))
    (call : Call) : Prop where
  steady : call.Steady
  result {self field args w u cell} :
    (call.method self field args).outcome w = (.ok cell, u) → ¬ cell.Reaches c
  block {args : List Cell} {w u : World} {cell : Cell} : Guarded c known blocks w →
    (call.method (.context c) .getBlock args).outcome w = (.ok cell, u) →
    ∃ v, cell = .value v ∧ known v

/-- A guarded state, and whether the activation `r` has the enclosed context at hand. -/
def Watched (c : Ref) (known : Value → Prop) (blocks : Table String (List Value)) (r : Ref)
    (inside : Prop) (w : World) : Prop :=
  Guarded c known blocks w ∧ (r < w.activations.size ∧ (Inside c w.activations r ↔ inside))

namespace Watched

variable {blocks : Table String (List Value)} {inside : Prop} {call call' : Call}

theorem of_extends {u : World} (h : Guarded c known blocks w)
    (hr : r < w.activations.size ∧ (Inside c w.activations r ↔ inside))
    (h' : Guarded c known blocks u) (he : Extends w.activations u.activations) :
    r < u.activations.size ∧ (Inside c u.activations r ↔ inside) :=
  ⟨Nat.lt_of_lt_of_le hr.1 he.1, by
    rw [inside_extends h.enclosed.nesting.activation h'.enclosed.nesting.activation he hr.1, hr.2]⟩

/-- What is read without the context at hand, or from another variable, does not reach the
context. -/
theorem not_reaches_of_read {u : World} (h : Watched c known blocks r inside w)
    (hid : inside → id ≠ .context) (hread : (read r id).outcome w = (.ok cell, u)) :
    ¬ cell.Reaches c := by
  intro hreach
  rcases held_or_core_of_read hread with ⟨q, a, hq, ha, hfind⟩ | ⟨f, rfl⟩
  · obtain ⟨rfl, rfl⟩ := h.1.enclosed.holder ha hfind hreach
    have hin : Inside c w.activations r := inside_iff.2 ((reads?_of_owner hq ha).trans hfind)
    exact hid (h.2.2.1 hin) rfl
  · exact hreach

theorem alike_read (id : Ident) :
    Alike (Always (Watched c known blocks r inside)) (read r id) (read r id) :=
  Always.alike_iff.2 fun w hw => by rwa [snd_outcome_read]

section

variable (hknown : ∀ name, ∀ v ∈ (blocks.find? name).getD [], known v)
  (hg : call.Guards c known blocks)
  (hc : CallsAlike (Always (Watched c known blocks r inside)) (admitted c known) (tame c) call
    call')

include hknown hg hc

/-- A script stays away from an enclosed context if it has none at hand, or if it neither reads nor
assigns the variable for it and defines discreet functions only. -/
theorem conducts {π : Policy} (hreads : ∀ id, π.reads id → inside → id ≠ .context)
    (hwrites : ∀ id, π.writes id → inside → id ≠ .context)
    (hdefines : ∀ own body, π.defines own body → inside → .context ∉ own ∧ DiscreetIn body)
    (hwhole : ∀ callee args, ¬ π.whole callee args) :
    Conducts (Always (Watched c known blocks r inside)) (admitted c known) (tame c) call call' r π
      (¬ ·.Reaches c) where
  toClosed := (Guarded.closed hknown).always_and_activations fun acts =>
    r < acts.size ∧ (Inside c acts r ↔ inside)
  toCallsAlike := hc
  heldValue _ := id
  heldMethod _ h := h
  heldResult self field args hpermit :=
    (hc.method self field args hpermit).gets fun _ _ _ _ hrun => hg.result hrun
  allowsMethod h hself := (h (by rw [hself]; rfl)).elim
  allowsEntry _ h _ _ _ hr := (h hr).elim
  read id hid := (alike_read id).gets fun _ _ _ hw => hw.not_reaches_of_read (hreads id hid)
  write id cell hid hcell := Always.alike_iff.2 fun w hw => by
    have hcontext : Inside c w.activations r → id ≠ .context :=
      fun hin => hwrites id hid (hw.2.2.1 hin)
    refine ⟨⟨hw.1.enclosed.assign hcell hcontext, hw.1.lt, hw.1.blocks_eq⟩, ?_, ?_⟩
    · show r < (w.activations.modify r _).size
      rw [size_modify]
      exact hw.2.1
    · exact (inside_assign hw.1.enclosed.nesting.activation hcell hcontext r).trans hw.2.2
  define name params captured body hbody hcaptured := Always.alike_iff.2 fun w hw => by
    refine ⟨⟨hw.1.enclosed.pushFunction ?_ (fun _ _ _ hf => nomatch hf), hw.1.lt, hw.1.blocks_eq⟩,
      hw.2⟩
    rintro f ⟨⟩
    refine ⟨hcaptured, ?_⟩
    rintro o ⟨⟩
    refine ⟨hw.2.1, fun hin => ?_⟩
    obtain ⟨hown, hdiscreet⟩ := hdefines _ _ hbody (hw.2.2.1 hin)
    exact ⟨hdiscreet, not_ownedBy hown hdiscreet⟩
  whole callee args h := (hwhole callee args h).elim

end

/-! ### Discreet code with the context at hand -/

theorem read_context (h : Watched c known blocks r True w) :
    (read r .context).outcome w = (.ok (.context c), w) :=
  outcome_read_of_reads? (inside_iff.1 (h.2.2.2 trivial))

/-- Variables and constants are evaluated one after the other. -/
theorem gets_evalAll : ∀ es : List Expr, (∀ e ∈ es, (∃ id, e = .name id) ∨ ∃ k, e = .const k) →
    Gets (Always (Watched c known blocks r inside)) (·.length = es.length)
      (evalAll call r es) (evalAll call' r es)
  | [], _ => .pure rfl
  | e :: rest, h => by
    have hfirst : Alike (Always (Watched c known blocks r inside)) (eval call r e)
        (eval call' r e) := by
      rcases h e mem_cons_self with ⟨id, rfl⟩ | ⟨k, rfl⟩
      · exact alike_read id
      · exact Alike.pure _
    refine hfirst.gets_bind fun cell => ?_
    refine (gets_evalAll rest fun e he => h e (mem_cons_of_mem _ he)).bind fun cs hcs => ?_
    exact .pure (congrArg (· + 1) hcs)

section

variable (hknown : ∀ name, ∀ v ∈ (blocks.find? name).getD [], known v)
  (hg : call.Guards c known blocks)
  (hc : CallsAlike (Always (Watched c known blocks r True)) (admitted c known) (tame c) call call')

include hknown hg hc

/-- Discreet code that does not use the context at hand stays away from it. -/
theorem conductsAway :
    Conducts (Always (Watched c known blocks r True)) (admitted c known) (tame c) call call' r
      { discreetPolicy with whole := fun _ _ => False } (¬ ·.Reaches c) :=
  conducts hknown hg hc (fun _ h _ => h) (fun _ h _ => h) (fun _ _ h _ => h) fun _ _ h => h

/-- A method other than `addBlock` is called on the context. -/
theorem gets_callContext {field} (hfield : field ≠ .addBlock) {args} (hargs : ∀ e ∈ args, Plain e)
    {held} (hheld : ∀ cells w cell u, Watched c known blocks r True w →
      (call.method (.context c) field cells).outcome w = (.ok cell, u) → held cell) :
    Gets (Always (Watched c known blocks r True)) held
      (eval call r (.call (.attr (.name .context) field) args))
      (eval call' r (.call (.attr (.name .context) field) args)) := by
  refine (gets_contextMethod (fun _ => read_context) field).bind ?_
  rintro _ rfl
  refine ((conductsAway hknown hg hc).evalAll args (Plain.obeyIn (fun _ h => h) hargs)).bind
    fun cells _ => ?_
  exact (hc.method (.context c) field cells fun _ => hfield).gets fun w cell u =>
    hheld cells w cell u

/-- Discreet code leaves the blocks of the context at hand alone. -/
theorem conductsDiscreet :
    Conducts (Always (Watched c known blocks r True)) (admitted c known) (tame c) call call' r
      discreetPolicy (¬ ·.Reaches c) :=
  { conductsAway hknown hg hc with
    whole := fun callee args hwhole => by
      have haway := conductsAway hknown hg hc
      cases hwhole with
      | method hfield hargs =>
        exact gets_callContext hknown hg hc hfield hargs fun _ _ _ _ _ hrun => hg.result hrun
      | block name =>
        have hplain : ∀ e ∈ [Expr.ofContent name], Plain e := by
          rw [forall_mem_singleton]
          cases name with
          | constant k => exact .const k
          | node n => exact .tree n
        have hblock : Gets (Always (Watched c known blocks r True))
            (fun cell => ∃ v, cell = .value v ∧ known v)
            (eval call r (.call (.attr (.name .context) .getBlock) [.ofContent name]))
            (eval call' r (.call (.attr (.name .context) .getBlock) [.ofContent name])) :=
          gets_callContext hknown hg hc Attr.noConfusion hplain
            fun cells w cell u hw hrun => hg.block hw.1 hrun
        refine hblock.bind ?_
        rintro _ ⟨v, rfl, hv⟩
        refine (gets_evalAll Expr.entryArgs (by simp [Expr.entryArgs])).bind fun cells _ => ?_
        refine haway.callCell id ?_
        rintro f env q frame ⟨⟩ - _ _ - -
        exact hv
      | search x =>
        have hcallee := haway.eval (.attr (.name .runtime) .resolve) ⟨trivial, Ident.noConfusion⟩
        refine hcallee.bind fun cell hcell => ?_
        refine (gets_evalAll _ (by simp [Expr.text])).bind fun cells hcells => ?_
        refine haway.callCell hcell ?_
        rintro f env q frame - hentry
        -- An entry point takes four arguments.
        unfold entryArguments? at hentry
        split at hentry
        · simp at hcells
        · cases hentry }

end

end Watched

namespace Guarded

variable {blocks : Table String (List Value)} {call call' : Call}

/-- The activation of a call, with what may run in it: discreet code where the context is at
hand. -/
theorem activate (h : Guarded c known blocks w) (hq : w.functions.get? q = some (.closure f))
    {args : List Cell} (hargs : Given (admitted c known) w q args) :
    Enclosed c known w.functions (w.activations.push (f.activation args)) ∧
      (Inside c (w.activations.push (f.activation args)) w.activations.size →
        DiscreetIn f.body) := by
  rcases hargs with ⟨vs, rfl⟩ | ⟨env, r, frame, rfl, hentry⟩
  · refine h.enclosed.activate hq fun cell hcell => ?_
    obtain ⟨v, -, rfl⟩ := mem_map.1 hcell
    exact fun hreach => hreach
  · by_cases hr : r = c
    · subst hr
      obtain ⟨p, g, hp, hg, hentry⟩ := h.enclosed.entry (hentry rfl)
      cases hp
      cases hq.symm.trans hg
      exact ⟨(h.enclosed.activateEntry hq hentry env frame).1, fun _ => hentry.body⟩
    · refine h.enclosed.activate hq fun cell hcell => ?_
      simp only [mem_cons, not_mem_nil, or_false] at hcell
      rcases hcell with rfl | rfl | rfl | rfl
      · exact fun hreach => hreach
      · exact hr
      · exact fun hreach => hreach
      · exact fun hreach => hreach

/-- Everything the engine does keeps a context enclosed, with the blocks it holds. -/
theorem kept (hknown : ∀ name, ∀ v ∈ (blocks.find? name).getD [], known v) :
    Kept (Always (Guarded c known blocks)) (admitted c known) (tame c)
      (fun call _ => call.Guards c known blocks) where
  toClosed := closed hknown
  load := by
    refine (closed hknown).getTemplate (fun m _ => Always.alike_iff.2 fun w hw => ?_) fun t =>
      Always.alike_iff.2 fun w hw => ⟨hw.enclosed, hw.lt, hw.blocks_eq⟩
    refine ⟨hw.enclosed.load m rfl fun id cell hfind => ?_, hw.lt, hw.blocks_eq⟩
    obtain ⟨p, -, hp⟩ := mem_map.1 (mem_of_find?_ofList hfind)
    cases hp
    exact fun hreach => hreach
  closure {call call'} hc hg limit q f args := by
    refine Engine.coupled_callClosure (closed hknown) (fun _ _ h => h.1) limit f args ?_
    rintro _ w ⟨⟨rfl, hw⟩, hq, hargs⟩
    obtain ⟨hpush, hbody⟩ := hw.activate hq hargs
    have hcalls (inside : Prop) := hc.always_and
      (Q := fun u => w.activations.size < u.activations.size ∧
        (Inside c u.activations w.activations.size ↔ inside))
      (fun _ _ => Watched.of_extends) hg.steady.evolves
    have hsize : w.activations.size < (w.activations.push (f.activation args)).size := by simp
    have forget {inside : Prop} {o o' : Except Halt (Option Cell) × World}
        (h : Agree (fun a b u u' => b = a ∧
          Always (Watched c known blocks w.activations.size inside) u u')
          (Always (Watched c known blocks w.activations.size inside)) o o') :
        Agree (fun a b u u' => b = a ∧ Always (Guarded c known blocks) u u')
          (Always (Guarded c known blocks)) o o' :=
      h.mono (fun _ _ _ _ h => ⟨h.1, h.2.1, h.2.2.1⟩) fun _ _ h => ⟨h.1, h.2.1⟩
    have hguarded : Guarded c known blocks
        (w.activate f args) :=
      ⟨hpush, hw.lt, hw.blocks_eq⟩
    by_cases hin : Inside c (w.activations.push (f.activation args)) w.activations.size
    · have hconduct := Watched.conductsDiscreet hknown hg (hcalls True)
      exact forget (hconduct.execAll limit f.body ((hbody hin).obeys) _ _
        ⟨rfl, hguarded, hsize, iff_of_true hin trivial⟩)
    · have hconduct := Watched.conducts (π := Runs.policy fun _ => True) hknown hg (hcalls False)
        (fun _ _ h => h.elim) (fun _ _ h => h.elim) (fun _ _ _ h => h.elim) fun _ _ h => h
      exact forget (hconduct.execAll limit f.body (Runs.obeyInBody f.body fun _ _ => trivial) _ _
        ⟨rfl, hguarded, hsize, iff_of_false hin id⟩)

end Guarded

end Stencil
