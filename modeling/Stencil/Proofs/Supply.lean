import Stencil.Proofs.Adoption
import Stencil.Proofs.BlockUse
import Stencil.Proofs.Enclosure
import Stencil.Proofs.Loading

/-!
# States in which blocks are supplied

The code of a template names blocks by text, and in its module it sees the functions of these
blocks. `World.Supplied` ties the two to the contexts of renders: code that has a context at hand
sees only functions that stand in the chains of that context, and only such functions may be entered
with the context as were defined where this is so. The steps of the engine keep states supplied;
loading a template does too, if its blocks are named by texts.
-/

namespace Stencil

open Script List Store Table

variable {c : Ref} {t : Template} {v : Value}

variable {acts acts' : Store Activation} {r : Ref} {b : String} {w u : World}

/-! ## The functions of blocks that code sees -/

/-- What an activation sees of the function of a block: nothing if no activation around it owns a
variable for it, else what the variable holds. -/
def blockSeen (acts : Store Activation) (r : Ref) (b : String) : Option (Option Cell) :=
  (ownerOf acts (.blockName b) r).map fun o => (acts.get? o).bind (·.vars.find? (.blockName b))

theorem blockSeen_extends (h : Nested acts) (h' : Nested acts') (he : Extends acts acts')
    (hr : r < acts.size) : blockSeen acts' r b = blockSeen acts r b := by
  have howner : ownerOf acts' (.blockName b) r = ownerOf acts (.blockName b) r :=
    ownerOf_extends h h' he hr
  unfold blockSeen
  rw [howner]
  cases hp : ownerOf acts (.blockName b) r with
  | none => rfl
  | some p => rw [Option.map_some, Option.map_some,
      he.2 p (Nat.lt_of_le_of_lt (ownerOf_le h hp) hr)]

theorem blockSeen_assign (h : Nested acts) {id} (hid : ∀ b, id ≠ .blockName b) (q : Ref)
    (cell : Cell) : blockSeen (acts.modify q (·.assign id cell)) r b = blockSeen acts r b := by
  have howner : ownerOf (acts.modify q (·.assign id cell)) (.blockName b) r =
      ownerOf acts (.blockName b) r := ownerOf_modify h fun _ => rfl
  unfold blockSeen
  rw [howner]
  cases ownerOf acts (.blockName b) r with
  | none => rfl
  | some p =>
    rw [Option.map_some, Option.map_some]
    by_cases hp : q = p
    · subst hp
      rw [acts.get?_modify_self]
      cases acts.get? q with
      | none => rfl
      | some a => exact congrArg some (a.vars.find?_insert_of_ne (Ne.symm (hid b)) cell)
    · rw [acts.get?_modify_of_ne _ hp]

theorem blockSeen_outer (h : Nested acts) {a} (ha : acts.get? r = some a)
    (hown : .blockName b ∉ a.owned) : blockSeen acts r b = a.outer.bind (blockSeen acts · b) := by
  unfold blockSeen
  rw [ownerOf_eq_outer h ha hown]
  cases a.outer <;> rfl

theorem reads?_of_blockSeen {cell} (h : blockSeen w.activations r b = some (some cell)) :
    reads? w r (.blockName b) = some cell := by
  obtain ⟨o, howner, hfind⟩ := Option.map_eq_some_iff.1 h
  obtain ⟨a, ha, hfind⟩ := Option.bind_eq_some_iff.1 hfind
  exact (reads?_of_owner howner ha).trans hfind

theorem Script.Module.not_reaches_of_find? (m : Module) {q id cell}
    (hfind : (m.activation q).vars.find? id = some cell) : ¬ cell.Reaches c := by
  obtain ⟨p, -, hp⟩ := mem_map.1 (mem_of_find?_ofList hfind)
  cases hp
  exact fun hreach => hreach

/-! ## Supplied code -/

/-- The functions of blocks that an activation sees stand in the given chains. -/
def Supplies (chain : String → List Value) (acts : Store Activation) (r : Ref) : Prop :=
  ∀ b held?, blockSeen acts r b = some held? →
    ∃ k, held? = some (.value (.function k)) ∧ .function k ∈ chain b

theorem Supplies.mono {chain chain' r'} (h : Supplies chain acts r)
    (hchain : ∀ b, chain b ⊆ chain' b) (hseen : ∀ b, blockSeen acts' r' b = blockSeen acts r b) :
    Supplies chain' acts' r' := by
  intro b held? hb
  obtain ⟨k, hk, hmem⟩ := h b held? (hseen b ▸ hb)
  exact ⟨k, hk, hchain b hmem⟩

/-- The chains that the blocks of a template make up by themselves. -/
def Template.chain (t : Template) (b : String) : List Value :=
  (t.blocks.find? b).toList

theorem Template.entry_of_mem_chain (h : v ∈ t.chain b) : t.Entry v :=
  .inr ⟨b, by simpa [chain] using h⟩

namespace World

theorem chain_pushContext (w : World) (t : Template) (vars : Table String Value) (b : String) :
    ((w.pushContext t vars).context w.contexts.size).chain b = t.chain b :=
  (congrArg (·.chain b) ((w.context_push _ _).trans (if_pos rfl))).trans
    (Context.chain_ofBlocks vars t b)

/-- A value that may be entered where the given chains are at hand: if it is a function at all, it
is an entry point that was defined where blocks are supplied from these chains. -/
def Opens (w : World) (chain : String → List Value) (e : Value) : Prop :=
  ∀ q, e = .function q → ∃ f o, w.functions.get? q = some (.closure f) ∧ f.params = entryParams ∧
    f.captured = [] ∧ f.outer = some o ∧ Supplies chain w.activations o

/-- A value that may be entered with a context. -/
def Enterable (w : World) (c : Ref) (e : Value) : Prop :=
  c < w.contexts.size ∧ w.Opens (w.context c).chain e

theorem Opens.mono {chain chain' e} (h : w.Opens chain e) (hs : w.Scoped)
    (hchain : ∀ b, chain b ⊆ chain' b) (hf : Extends w.functions u.functions)
    (hseen : ∀ o < w.activations.size, ∀ b,
      blockSeen u.activations o b = blockSeen w.activations o b) : u.Opens chain' e := by
  intro q hq
  obtain ⟨f, o, hf', hparams, hcaptured, ho, hsupplies⟩ := h q hq
  refine ⟨f, o, (hf.2 q (get?_eq_some_lt hf')).trans hf', hparams, hcaptured, ho, ?_⟩
  exact hsupplies.mono hchain (hseen o (hs.closure hf' ho))

end World

/-- A function whose code names the blocks that it sees and keeps its context to itself. -/
structure Closure.Hosted (acts : Store Activation) (f : Closure) : Prop where
  captured : ∀ p ∈ f.captured, ∀ c, ¬ p.2.Reaches c
  params : f.params = entryParams ∧ f.captured = [] ∨
    ∀ id ∈ f.params ++ f.captured.map (·.1), id.Ordinary
  owned : f.owned = ownedBy (f.params ++ f.captured.map (·.1)) f.body
  body : ∃ o < acts.size, f.outer = some o ∧
    Refers (fun b => (blockSeen acts o b).isSome) f.owned f.body

theorem Closure.Hosted.mono {f : Closure} (h : f.Hosted acts) (hsize : acts.size ≤ acts'.size)
    (hseen : ∀ o < acts.size, ∀ b, blockSeen acts' o b = blockSeen acts o b) : f.Hosted acts' where
  captured := h.captured
  params := h.params
  owned := h.owned
  body := by
    obtain ⟨o, hlt, ho, hbody⟩ := h.body
    refine ⟨o, Nat.lt_of_lt_of_le hlt hsize, ho, ?_⟩
    simpa only [hseen o hlt] using hbody

/-- The parameters of a function apart, what belongs to it is ordinary or the parent template. -/
theorem Closure.Hosted.not_blockName {f : Closure} (h : f.Hosted acts) (b : String) :
    .blockName b ∉ f.owned := by
  obtain ⟨o, -, -, hbody⟩ := h.body
  intro hown
  rw [h.owned, ownedBy, mem_eraseDups, mem_append] at hown
  have hassigned (hid : .blockName b ∈ assignedInBody f.body) : False := by
    rcases hbody.ordinary_of_assigned _ hid with heq | hid
    · cases heq
    · exact hid.2.2 b rfl
  rcases hown with hown | hown
  · rcases h.params with ⟨hparams, hcaptured⟩ | hparams
    · rw [hparams, hcaptured] at hown
      simp [entryParams] at hown
    · exact (hparams _ hown).2.2 b rfl
  · exact hassigned hown

/-! ## Supplied states -/

/-- A state in which blocks are supplied. Only the variable for the context holds a context, the
contexts of running code and of entry points have what the code sees, and the code that loaders have
names its blocks by texts. -/
structure World.Supplied (w : World) : Prop where
  nesting : w.Scoped
  holder {r a id cell c} :
    w.activations.get? r = some a → a.vars.find? id = some cell → cell.Reaches c →
    id = .context ∧ cell = .context c ∧ c < w.contexts.size
  inside {c r : Ref} : Inside c w.activations r → Supplies (w.context c).chain w.activations r
  closure {q f} : w.functions.get? q = some (.closure f) → f.Hosted w.activations
  chain {c : Ref} {b v} : v ∈ (w.context c).chain b → w.Opens (w.context c).chain v
  overridden {q env c name next} :
    w.functions.get? q = some (.superBlock env c name (some next)) → w.Enterable c next
  template (r : Ref) {e : Value} : (w.template r).Entry e → w.Opens (w.template r).chain e
  named (loader : Loader) : w.env.loader? = some loader → ∀ tree ∈ loader.trees, tree.BlocksNamed

namespace World.Supplied

theorem lt_of_inside (h : w.Supplied) (hin : Inside c w.activations r) : c < w.contexts.size := by
  obtain ⟨a, ha, hfind⟩ := Option.bind_eq_some_iff.1 hin
  obtain ⟨o, -, ho⟩ := Option.bind_eq_some_iff.1 ha
  exact (h.holder ho hfind rfl).2.2

theorem congr (h : w.Supplied) (hcontexts : u.contexts = w.contexts)
    (hfunctions : u.functions = w.functions) (htemplates : u.templates = w.templates)
    (henv : u.env = w.env) (hactivations : u.activations = w.activations) : u.Supplied := by
  obtain ⟨⟨objects, surroundings⟩, frames, activations⟩ := u
  obtain ⟨contexts, functions, macros, templates, env, state?⟩ := surroundings
  subst hcontexts hfunctions htemplates henv hactivations
  exact ⟨h.nesting, h.holder, h.inside, h.closure, h.chain, h.overridden, h.template, h.named⟩

/-! ### Contexts -/

/-- Chains may grow behind what they hold, as long as what is added may be entered. -/
theorem setContexts (h : w.Supplied) {contexts : Store Context}
    (hsize : w.contexts.size ≤ contexts.size)
    (hgrown : ∀ c b, (w.context c).chain b ⊆ (({ w with contexts } : World).context c).chain b)
    (hadded : ∀ c b v, v ∈ (({ w with contexts } : World).context c).chain b →
      v ∈ (w.context c).chain b ∨ w.Opens (({ w with contexts } : World).context c).chain v) :
    ({ w with contexts } : World).Supplied where
  nesting := h.nesting
  holder hr hfind hreach := by
    obtain ⟨hid, hcell, hlt⟩ := h.holder hr hfind hreach
    exact ⟨hid, hcell, Nat.lt_of_lt_of_le hlt hsize⟩
  inside hin := (h.inside hin).mono (hgrown _) fun _ => rfl
  closure hq := h.closure hq
  chain hv := by
    rcases hadded _ _ _ hv with hv | hv
    · exact (h.chain hv).mono h.nesting (hgrown _) (Extends.refl _) fun _ _ _ => rfl
    · exact hv
  overridden hq := by
    obtain ⟨hlt, hopens⟩ := h.overridden hq
    exact ⟨Nat.lt_of_lt_of_le hlt hsize,
      hopens.mono h.nesting (hgrown _) (Extends.refl _) fun _ _ _ => rfl⟩
  template r := h.template r
  named := h.named

theorem pushContext (h : w.Supplied) (t : Ref) (vars : Table String Value) :
    (w.pushContext (w.template t) vars).Supplied := by
  have hnew := w.chain_pushContext (w.template t) vars
  have hold {c : Ref} (hc : c ≠ w.contexts.size) :
      (w.pushContext (w.template t) vars).context c = w.context c :=
    (w.context_push _ c).trans (if_neg hc)
  refine h.setContexts (by simp) (fun c b => ?_) fun c b v hv => ?_
  · by_cases hc : c = w.contexts.size
    · subst hc
      simp [Heap.context, Store.get?_eq_none (Nat.le_refl _), Context.chain, Table.find?,
        Table.findIn, show (default : Context) = {} from rfl]
    · change _ ⊆ ((w.pushContext (w.template t) vars).context c).chain b
      rw [hold hc]
      exact List.Subset.refl _
  · by_cases hc : c = w.contexts.size
    · subst hc
      refine .inr ?_
      change v ∈ ((w.pushContext (w.template t) vars).context w.contexts.size).chain b at hv
      rw [hnew] at hv
      exact (h.template t (Template.entry_of_mem_chain hv)).mono h.nesting
        (fun b _ hv => (hnew b).symm ▸ hv) (Extends.refl _) fun _ _ _ => rfl
    · exact .inl ((hold hc) ▸ hv)

/-- A change of a context that leaves its chains alone. -/
theorem setContext (h : w.Supplied) {context : Context}
    (hblocks : context.blocks = (w.context c).blocks) :
    (w.setContext c context).Supplied := by
  have hchain (d : Ref) (b : String) :
      ((w.setContext c context).context d).chain b = (w.context d).chain b := by
    unfold Context.chain
    rw [w.context_setContext]
    split
    · next hd => rw [hblocks, hd.1]
    · rfl
  refine h.setContexts (by simp) (fun d b => ?_) fun d b v hv => .inl ?_
  · rw [hchain]
    exact Subset.refl _
  · rwa [hchain] at hv

/-- The blocks of a template are added to a context. -/
theorem addBlocks (h : w.Supplied) (hc : c < w.contexts.size) (t : Ref) :
    (w.setContext c ((w.template t).blocks.entries.foldl
      (fun c e => c.addBlock e.1 e.2) (w.context c))).Supplied := by
  let u : World := w.setContext c ((w.template t).blocks.entries.foldl
    (fun c e => c.addBlock e.1 e.2) (w.context c))
  have hself (b : String) :
      (u.context c).chain b = (w.context c).chain b ++ (w.template t).chain b := by
    rw [World.context_set hc, Context.chain_foldl_addBlock (w.template t).nodup_blocks]
    rfl
  have hother {d : Ref} (hd : c ≠ d) : u.context d = w.context d :=
    (w.context_setContext c _ d).trans (if_neg fun h => hd h.1)
  refine h.setContexts (by simp) (fun d b => ?_) fun d b v hv => ?_
  · change _ ⊆ (u.context d).chain b
    by_cases hd : c = d
    · subst hd
      rw [hself]
      exact subset_append_left _ _
    · rw [hother hd]
      exact Subset.refl _
  · change v ∈ (u.context d).chain b at hv
    by_cases hd : c = d
    · subst hd
      rw [hself, mem_append] at hv
      refine hv.imp_right fun hv => ?_
      refine (h.template t (Template.entry_of_mem_chain hv)).mono h.nesting (fun b v hv => ?_)
        (Extends.refl _) fun _ _ _ => rfl
      exact (hself b).symm ▸ mem_append_right _ hv
    · exact .inl (hother hd ▸ hv)

/-! ### Functions -/

/-- Functions may be added. -/
theorem setFunctions (h : w.Supplied) {fs : Store Function} (hf : Extends w.functions fs)
    (hclosure : ∀ q f, fs.get? q = some (.closure f) →
      w.functions.get? q = some (.closure f) ∨ f.Hosted w.activations)
    (hsuper : ∀ q env c name next, fs.get? q = some (.superBlock env c name (some next)) →
      w.functions.get? q = some (.superBlock env c name (some next)) ∨ w.Enterable c next) :
    ({ w with functions := fs } : World).Supplied := by
  have hopens {chain : String → List Value} {e : Value} (he : w.Opens chain e) :
      ({ w with functions := fs } : World).Opens chain e :=
    he.mono h.nesting (fun _ => Subset.refl _) hf fun _ _ _ => rfl
  have hhosted {q : Ref} {f : Closure} (hq : fs.get? q = some (.closure f)) :
      f.Hosted w.activations := (hclosure q f hq).elim h.closure id
  exact
    { nesting :=
        { activation := h.nesting.activation
          closure := fun hq ho => by
            obtain ⟨o, hlt, ho', -⟩ := (hhosted hq).body
            cases ho.symm.trans ho'
            exact hlt }
      holder := h.holder
      inside := h.inside
      closure := hhosted
      chain := fun hv => hopens (h.chain hv)
      overridden := fun hq => by
        obtain ⟨hlt, he⟩ := (hsuper _ _ _ _ _ hq).elim h.overridden id
        exact ⟨hlt, hopens he⟩
      template := fun r e he => hopens (h.template r he)
      named := h.named }

theorem pushFunction (h : w.Supplied) {g : Function}
    (hclosure : ∀ f, g = .closure f → f.Hosted w.activations)
    (hsuper : ∀ env c name next, g = .superBlock env c name (some next) → w.Enterable c next) :
    ({ w with functions := w.functions.push g } : World).Supplied := by
  refine h.setFunctions ((Extends.refl _).push g) (fun q f hq => ?_) fun q env c name next hq => ?_
  · exact (get?_push_eq_some hq).imp_right fun hg => hclosure f hg.symm
  · exact (get?_push_eq_some hq).imp_right fun hg => hsuper env c name next hg.symm

/-! ### Activations -/

/-- Activations may change if code sees the same functions of blocks as before, and contexts where
it had them. -/
theorem setActivations (h : w.Supplied) (hnesting : Stencil.Scoped w.functions acts)
    (hsize : w.activations.size ≤ acts.size)
    (hseen : ∀ o < w.activations.size, ∀ b, blockSeen acts o b = blockSeen w.activations o b)
    (hholder : ∀ r a id cell c, acts.get? r = some a → a.vars.find? id = some cell →
      cell.Reaches c → id = .context ∧ cell = .context c ∧ c < w.contexts.size)
    (hinside : ∀ c r, Inside c acts r → Supplies (w.context c).chain acts r) :
    ({ w with activations := acts } : World).Supplied := by
  have hopens {chain : String → List Value} {e : Value} (he : w.Opens chain e) :
      ({ w with activations := acts } : World).Opens chain e :=
    he.mono h.nesting (fun _ => Subset.refl _) (Extends.refl _) hseen
  exact
    { nesting := hnesting
      holder := hholder _ _ _ _ _
      inside := hinside _ _
      closure := fun hq => (h.closure hq).mono hsize hseen
      chain := fun hv => hopens (h.chain hv)
      overridden := fun hq => ⟨(h.overridden hq).1, hopens (h.overridden hq).2⟩
      template := fun r e he => hopens (h.template r he)
      named := h.named }

/-- A new activation that has a context at hand only where it is supplied. -/
theorem pushActivation (h : w.Supplied) {a : Activation}
    (houter : ∀ o, a.outer = some o → o < w.activations.size)
    (hvars : ∀ id cell c, a.vars.find? id = some cell → cell.Reaches c →
      id = .context ∧ cell = .context c ∧ c < w.contexts.size)
    (hinside : ∀ c, Inside c (w.activations.push a) w.activations.size →
      Supplies (w.context c).chain (w.activations.push a) w.activations.size) :
    ({ w with activations := w.activations.push a } : World).Supplied := by
  have hnesting := h.nesting.pushActivation houter
  have hext : Extends w.activations (w.activations.push a) := (Extends.refl _).push a
  have hseen (o : Ref) (ho : o < w.activations.size) (b : String) :
      blockSeen (w.activations.push a) o b = blockSeen w.activations o b :=
    blockSeen_extends h.nesting.activation hnesting.activation hext ho
  refine h.setActivations hnesting (by simp) hseen (fun r b id cell c hr => ?_) fun c r hin => ?_
  · rcases get?_push_eq_some hr with hr | rfl
    · exact h.holder hr
    · exact hvars id cell c
  · rcases Nat.lt_or_ge r w.activations.size with hlt | hge
    · rw [inside_extends h.nesting.activation hnesting.activation hext hlt] at hin
      exact (h.inside hin).mono (fun _ => Subset.refl _) (hseen r hlt)
    · rcases Nat.eq_or_lt_of_le hge with rfl | hgt
      · exact hinside c hin
      · have hnone : (w.activations.push a).get? r = none :=
          get?_eq_none (by rw [size_push]; exact hgt)
        simp [Inside, ownerOf, ownerFrom, hnone] at hin

/-- A variable that stands neither for the context nor for the function of a block is assigned
something that does not reach a context. -/
theorem assign (h : w.Supplied) (id : Ident) (cell : Cell) (hcontext : id ≠ .context)
    (hblock : ∀ b, id ≠ .blockName b) (hcell : ∀ c, ¬ cell.Reaches c) (r : Ref) :
    (w.assign r id cell).Supplied := by
  have hseen (o : Ref) (b : String) :
      blockSeen (w.activations.modify r (·.assign id cell)) o b = blockSeen w.activations o b :=
    blockSeen_assign h.nesting.activation hblock r cell
  refine h.setActivations (h.nesting.modify r fun _ => rfl) (by simp) (fun o _ => hseen o)
    (fun q a i d c hq hd hreach => ?_) fun c q hin => ?_
  · by_cases hrq : r = q
    · subst hrq
      rw [w.activations.get?_modify_self] at hq
      obtain ⟨a', ha', rfl⟩ := Option.map_eq_some_iff.1 hq
      have hd : (a'.vars.insert id cell).find? i = some d := hd
      by_cases hi : i = id
      · subst hi
        rw [a'.vars.find?_insert_self] at hd
        exact (hcell c (Option.some.inj hd ▸ hreach)).elim
      · rw [a'.vars.find?_insert_of_ne hi] at hd
        exact h.holder ha' hd hreach
    · rw [w.activations.get?_modify_of_ne _ hrq] at hq
      exact h.holder hq hd hreach
  · rw [inside_assign h.nesting.activation (hcell c) fun _ => hcontext] at hin
    exact (h.inside hin).mono (fun _ => Subset.refl _) (hseen q)

/-! ### Templates -/

theorem pushTemplate (h : w.Supplied) (ht : ∀ e, t.Entry e → w.Opens t.chain e) :
    ({ w with templates := w.templates.push t } : World).Supplied where
  nesting := h.nesting
  holder := h.holder
  inside := h.inside
  closure := h.closure
  chain := h.chain
  overridden := h.overridden
  template r e he := by
    by_cases hr : r = w.templates.size
    · have hnew : ({ w with templates := w.templates.push t } : World).template r = t := by
        show ((w.templates.push t).get? r).getD default = t
        rw [hr, w.templates.get?_push_self]
        rfl
      rw [hnew] at he ⊢
      exact ht e he
    · have hold : ({ w with templates := w.templates.push t } : World).template r =
          w.template r := by
        show ((w.templates.push t).get? r).getD default = (w.templates.get? r).getD default
        rcases Nat.lt_or_gt_of_ne hr with hlt | hgt
        · rw [w.templates.get?_push_of_lt _ hlt]
        · rw [get?_eq_none (Nat.le_of_lt hgt),
            get?_eq_none (by rw [size_push]; exact hgt)]
      rw [hold] at he ⊢
      exact h.template r he
  named := h.named

end World.Supplied

namespace Template.Loaded

variable {t : Template} {tree : Node} {q : Ref}

/-- The functions of a loaded template see each other. -/
theorem blockSeen_eq (h : t.Loaded tree q r w) (hn : Nested w.activations) (b : String) :
    blockSeen w.activations r b = (t.blocks.find? b).map fun v => some (.value v) := by
  obtain ⟨a, ha, houter, hblocks⟩ := h.activation
  cases hfind : t.blocks.find? b with
  | none =>
    have hown : .blockName b ∉ a.owned := fun hown => by
      obtain ⟨v, hv⟩ := (hblocks b).1.1 hown
      cases hfind.symm.trans hv
    rw [blockSeen_outer hn ha hown, houter]
    rfl
  | some v =>
    have hown : .blockName b ∈ a.owned := (hblocks b).1.2 ⟨v, hfind⟩
    unfold blockSeen
    rw [ownerOf_eq_self hn ha hown, Option.map_some, ha, Option.bind_some, (hblocks b).2 v hfind]
    rfl

theorem isSome_blockSeen (h : t.Loaded tree q r w) (hn : Nested w.activations) (b : String) :
    (blockSeen w.activations r b).isSome ↔ b ∈ tree.definitions.keys := by
  rw [h.blockSeen_eq hn, Option.isSome_map, Option.isSome_iff_exists]
  constructor
  · rintro ⟨v, hv⟩
    obtain ⟨body, _, _, _, _, hbody, -⟩ := h.block hv
    exact mem_map_of_mem ((findIn_eq_some_iff (nodup_keys_ofList _)).1 hbody)
  · intro hb
    obtain ⟨body, hbody⟩ := exists_findIn_of_mem hb
    exact h.complete hbody

/-- The entry points of a loaded template are supplied by its own blocks. -/
theorem opens (h : t.Loaded tree q r w) (hn : Nested w.activations) {e} (he : t.Entry e) :
    w.Opens t.chain e := by
  have hsupplies : Supplies t.chain w.activations r := by
    intro b held? hb
    rw [h.blockSeen_eq hn, Option.map_eq_some_iff] at hb
    obtain ⟨v, hv, rfl⟩ := hb
    obtain ⟨_, _, _, _, k, _, _, _, _, rfl, _⟩ := h.block hv
    exact ⟨k, rfl, by simp [Template.chain, hv]⟩
  rintro k rfl
  rcases he with he | ⟨b, hb⟩
  · obtain ⟨pos, items, f, p, -, hgives, hroot, hq⟩ := h.root
    cases he.trans hroot
    obtain ⟨_, _, -, rfl⟩ := Compile.gives_rootFunction hgives
    exact ⟨_, r, hq, rfl, rfl, rfl, hsupplies⟩
  · obtain ⟨body, f, p, p', k', -, hgives, -, -, hk, hq⟩ := h.block hb
    cases hk
    obtain ⟨_, _, -, rfl⟩ := Compile.gives_blockFunction hgives
    exact ⟨_, r, hq, rfl, rfl, rfl, hsupplies⟩

end Template.Loaded

namespace World.Supplied

/-- Loading a template whose blocks are named by texts. -/
theorem load (h : w.Supplied) {tree : Node} {m : Module} {ms} (hnames : tree.BlocksNamed)
    (hm : Compile.Functions tree m.functions)
    (ht : t.Loaded tree w.functions.size w.activations.size (w.load m t ms)) :
    (w.load m t ms).Supplied := by
  have hvalues {id : Ident} {cell : Cell} {c : Ref}
      (hfind : (m.activation w.functions.size).vars.find? id = some cell) : ¬ cell.Reaches c :=
    m.not_reaches_of_find? hfind
  have hnested := h.nesting.pushActivation (a := m.activation w.functions.size)
    fun o ho => by simp [Module.activation] at ho
  have hpush := h.pushActivation (fun o ho => by simp [Module.activation] at ho)
    (fun id cell c hfind hreach => (hvalues hfind hreach).elim)
    fun c hin => (not_inside_push hnested.activation rfl (fun _ _ => hvalues) hin).elim
  have hseen :
      (fun b => ((blockSeen (w.load m t ms).activations w.activations.size b).isSome : Prop)) =
      (· ∈ tree.definitions.keys) :=
    funext fun b => propext (ht.isSome_blockSeen hnested.activation b)
  have hmodule : ({ w with
        functions := (w.load m t ms).functions, activations := (w.load m t ms).activations } :
      World).Supplied := by
    refine hpush.setFunctions ((Extends.refl _).append _) (fun q f hq => ?_)
      fun q env c name next hq => ?_
    · refine (get?_append_eq_some hq).imp_right fun hf => ?_
      obtain ⟨g, hg, hf⟩ := mem_map.1 hf
      cases hf
      obtain ⟨hparams, hbody⟩ := hm.refers hnames g hg
      refine ⟨forall_mem_nil _, .inl ⟨hparams, rfl⟩, ?_, w.activations.size, by simp, rfl, ?_⟩
      · simp [Script.Function.closure]
      · exact hseen ▸ hbody
    · refine (get?_append_eq_some hq).imp_right fun hf => ?_
      obtain ⟨g, -, hf⟩ := mem_map.1 hf
      cases hf
  refine (hmodule.pushTemplate fun e he => ?_).congr rfl rfl rfl rfl rfl
  exact ht.opens hnested.activation he

theorem of_attempted (h : w.Supplied) {result : Except Halt Ref × World}
    (hresult : Eval.Attempted w result) : result.2.Supplied := by
  cases hresult with
  | failed e o => exact h.congr rfl rfl rfl rfl rfl
  | @loaded tree m t o message hnames hm ht =>
    have ho : ({ w with toObjects := o } : World).Supplied := h.congr rfl rfl rfl rfl rfl
    exact ho.load hnames hm ht

/-! ### The engine -/

theorem lt_of_mem_chainOf (name : Constant) (hv : v ∈ (w.context c).chainOf name) :
    c < w.contexts.size := by
  refine Nat.lt_of_not_le fun hle => ?_
  have hdefault : w.context c = {} := by
    unfold Heap.context
    rw [Store.get?_eq_none hle]
    rfl
  rw [hdefault] at hv
  cases name <;> simp [Context.chainOf, Context.chain, Table.find?, Table.findIn] at hv

theorem enterable_of_mem_chainOf (h : w.Supplied) (name : Constant)
    (hv : v ∈ (w.context c).chainOf name) : w.Enterable c v := by
  refine ⟨lt_of_mem_chainOf name hv, ?_⟩
  cases name with
  | str b => exact h.chain hv
  | _ => cases hv

end World.Supplied

/-- The methods that have nothing to do with the blocks of a context. -/
def apartFromBlocks : Cell → Attr → Prop :=
  fun self field => ∀ c, self = .context c →
    field ≠ .addBlock ∧ field ≠ .getBlock ∧ field ≠ .getSuper

/-- What the engine does by itself keeps states supplied. -/
theorem World.Supplied.closed : Closed (Always World.Supplied) World.Enterable apartFromBlocks where
  twin h := ⟨_, h.1⟩
  rest h _ _ _ := ⟨by rw [h.1], h.2.congr rfl rfl rfl rfl rfl⟩
  pushFrame h _ := ⟨by rw [h.1], h.2.congr rfl rfl rfl rfl rfl⟩
  setFrame h _ _ _ _ := ⟨by rw [h.1], h.2.congr rfl rfl rfl rfl rfl⟩
  pushContext h r vars := ⟨by rw [h.1], h.2.pushContext r vars⟩
  setContext h _ _ hblocks := ⟨by rw [h.1], h.2.setContext hblocks⟩
  addBlock _ r _ _ hmethod := ((hmethod r rfl).1 rfl).elim
  pushSuper h _ r name next? hnext := by
    refine ⟨by rw [h.1], h.2.pushFunction (fun f hf => nomatch hf) ?_⟩
    rintro _ _ _ next ⟨⟩
    exact h.2.enterable_of_mem_chainOf _ (hnext next rfl)
  entryFresh {w _} h r vars e he := by
    refine ⟨by simp [World.pushContext], ?_⟩
    exact (h.2.template r he).mono h.2.nesting
      (fun b v hv => (w.chain_pushContext (w.template r) vars b).symm ▸ hv) (Extends.refl _)
      fun _ _ _ => rfl
  entryRest h _ _ _ _ := h
  entrySuper h _ _ _ _ _ hq := h.2.overridden hq

end Stencil
