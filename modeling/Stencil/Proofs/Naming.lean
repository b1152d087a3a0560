import Stencil.Proofs.Ledger
import Stencil.Proofs.Making

/-!
# Which identifiers generated code uses

Generated code reads what its scope knows, and it assigns temporaries and names of the template.
Apart from these it uses a few fixed identifiers. So when all of these are in a set, all identifiers
of the code are (`usesIn_of_made`), and those that it assigns are in the set of the variables or
hold the frame and the parent template.
-/

namespace Stencil.Compile

open Script

/-- Identifiers in `K` may be read and identifiers in `V` may be assigned as well; what every module
knows may be read. -/
structure Naming (K V : Ident → Prop) : Prop where
  known : ∀ id, V id → K id
  fixed : ∀ id ∈ [Ident.env, .context, .frame, .runtime, .output, .macroOutput, .parentTemplate,
    .len, .list, .range], K id

/-- An expression reads identifiers in `K` and assigns identifiers in `V`. -/
def Uses (K V : Ident → Prop) (e : Expr) : Prop :=
  (∀ id ∈ e.mentioned, K id) ∧ ∀ id ∈ e.assigned, V id

/-- Statements use identifiers in `K`, and they assign identifiers in `V`, the frame and, if they
may inherit, the parent template. -/
structure UsesIn (K V : Ident → Prop) (inherits : Prop) (ss : List Stmt) : Prop where
  all : ∀ id ∈ identifiersIn ss, K id
  assigned : ∀ id ∈ assignedInBody ss, V id ∨ id = .frame ∨ inherits ∧ id = .parentTemplate

/-- What code is made of that reads `K` and assigns `V`. -/
def namingMakings (K V : Ident → Prop) (inherits : Prop) : Makings where
  known := K
  var := V
  expr := Uses K V
  inherits := inherits

theorem mentioned_ofContent (c : Node.Content) : (Expr.ofContent c).mentioned = [] := by
  cases c <;> rfl

section

attribute [local simp] Uses Stmt.setVariable Stmt.addExport Stmt.emit Stmt.pushFrame Stmt.popFrame
  Stmt.frameSet identifiersIn Stmt.identifiers Expr.identifiers Expr.method Expr.helper Expr.joined
  Expr.text Expr.int Expr.entryArgs Target.assigned Expr.mentioned mentionedIn mentionedInOperands
  Expr.assigned assignedIn assignedInOperands assignedInBody Stmt.assigned mentioned_ofContent
  assigned_ofContent or_imp forall_and

variable {K V : Ident → Prop} {I : Prop} {e : Expr} {ss ts : List Stmt}

theorem usesIn_nil : UsesIn K V I [] :=
  ⟨List.forall_mem_nil _, List.forall_mem_nil _⟩

theorem UsesIn.append (h : UsesIn K V I ss) (h' : UsesIn K V I ts) : UsesIn K V I (ss ++ ts) where
  all := by
    rw [identifiersIn_append, List.forall_mem_append]
    exact ⟨h.all, h'.all⟩
  assigned := by
    rw [assignedInBody_append, List.forall_mem_append]
    exact ⟨h.assigned, h'.assigned⟩

theorem uses_all {es} (h : ∀ e ∈ es, Uses K V e) :
    (∀ id ∈ mentionedIn es, K id) ∧ ∀ id ∈ assignedIn es, V id := by
  induction es with
  | nil => exact ⟨List.forall_mem_nil _, List.forall_mem_nil _⟩
  | cons e rest ih =>
    obtain ⟨he, hrest⟩ := List.forall_mem_cons.1 h
    simp only [mentionedIn, assignedIn, List.forall_mem_append]
    exact ⟨⟨he.1, (ih hrest).1⟩, he.2, (ih hrest).2⟩

variable (hn : Naming K V)

include hn

theorem uses_compound (h : e.Compound (namingMakings K V I)) : Uses K V e := by
  have hfixed := hn.fixed
  induction h with
  | emitted he => exact he
  | const | tree | empty => simp [mentionedInEntries, assignedInEntries]
  | name hid => exact ⟨List.forall_mem_singleton.2 (hn.known _ hid), List.forall_mem_nil _⟩
  | orphan => simpa using hfixed .parentTemplate (by simp)
  | subscript _ _ ih ih' | either _ _ ih ih' | binary _ _ ih ih' | compare _ _ ih ih' =>
    simp only [Uses, Expr.mentioned, mentionedInOperands, Expr.assigned, assignedInOperands,
      List.append_nil, List.forall_mem_append]
    exact ⟨⟨ih.1, ih'.1⟩, ih.2, ih'.2⟩
  | list _ ih | tuple _ ih => exact uses_all ih
  | @core id _ hid _ ih =>
    have hcore : K id := hfixed id (by cases id <;> simp_all [Ident.isCore])
    simpa [hcore] using ih
  | helper _ _ ih => simpa [hfixed] using uses_all ih
  | template _ ih | module _ ih => simpa [hfixed] using ih

theorem uses_shown (h : e.Shown (namingMakings K V I)) : Uses K V e := by
  have hfixed := hn.fixed
  cases h with
  | raw s => simp
  | value he => exact uses_compound hn (.helper rfl (List.forall_mem_singleton.2 (.emitted he)))
  | block _ => simp [hfixed]
  | inclusion hid => simp [hfixed, hn.known _ hid]

theorem usesIn_step {buffer} (hb : K buffer) {s} (h : s.Step (namingMakings K V I) buffer) :
    UsesIn K V I [s] := by
  have hfixed := hn.fixed
  cases h with
  | pass => exact ⟨List.forall_mem_nil _, List.forall_mem_nil _⟩
  | expr he =>
    have he := uses_compound hn he
    exact ⟨by simpa using ⟨he.1, fun id hid => hn.known id (he.2 id hid)⟩,
      by simpa using fun id hid => .inl (he.2 id hid)⟩
  | publish name hid => exact ⟨by simp [hfixed, hn.known _ hid], by simp⟩
  | offer name => exact ⟨by simp [hfixed], by simp⟩
  | @assign id e hid he =>
    have he := uses_compound hn he
    have hid : V id := hid
    exact ⟨by simpa [hn.known id hid] using ⟨he.1, fun id hid => hn.known id (he.2 id hid)⟩,
      by simpa [hid] using fun id hid => .inl (he.2 id hid)⟩
  | @increment id hid =>
    have hid : V id := hid
    exact ⟨by simp [hn.known id hid], by simp [hid]⟩
  | emit he =>
    have he := uses_shown hn he
    exact ⟨by simpa [hb] using ⟨he.1, fun id hid => hn.known id (he.2 id hid)⟩,
      by simpa using fun id hid => .inl (he.2 id hid)⟩

theorem usesIn_framed (h : UsesIn K V I ss) : UsesIn K V I ([.pushFrame] ++ ss ++ [.popFrame]) := by
  have hfixed := hn.fixed
  exact (UsesIn.append ⟨by simp [hfixed], by simp⟩ h).append ⟨by simp [hfixed], by simp⟩

/-- Code uses what it is made of. -/
theorem usesIn_of_made {buffer bound} (h : Made (namingMakings K V I) buffer bound ss) :
    K buffer → UsesIn K V I ss := by
  have hfixed := hn.fixed
  have hall {e : Expr} (he : Uses K V e) : ∀ id ∈ e.identifiers, K id :=
    List.forall_mem_append.2 ⟨he.1, fun id hid => hn.known id (he.2 id hid)⟩
  induction h with
  | nil => exact fun _ => usesIn_nil
  | append _ _ ih ih' => exact fun hb => (ih hb).append (ih' hb)
  | step hs => exact fun hb => usesIn_step hn hb hs
  | frameSet _ he =>
    have he := uses_compound hn he
    exact fun _ => ⟨by simpa [hfixed] using ⟨he.1, fun id hid => hn.known id (he.2 id hid)⟩,
      by simpa using fun id hid => .inl (he.2 id hid)⟩
  | branch he _ _ ih ih' =>
    have he := uses_compound hn he
    refine fun hb => ⟨?_, ?_⟩
    · simpa [-Expr.identifiers] using ⟨hall he, (ih hb).all, (ih' hb).all⟩
    · simpa using ⟨fun id hid => .inl (he.2 id hid), (ih hb).assigned, (ih' hb).assigned⟩
  | loop ht he _ ih =>
    have he := uses_compound hn he
    refine fun hb => ⟨?_, ?_⟩
    · simpa [-Expr.identifiers] using ⟨fun id hid => hn.known id (ht id hid), hall he, (ih hb).all⟩
    · simpa using ⟨fun id hid => .inl (ht id hid), fun id hid => .inl (he.2 id hid),
        (ih hb).assigned⟩
  | @define _ _ name params ss hname hparams _ ih =>
    have hname : V (.macroName name) := hname
    have hss := (ih (hfixed _ (by simp))).all
    have hparams : ∀ p ∈ params, K (.localName p.text) := fun p hp => hn.known _ (hparams p hp)
    refine fun _ => usesIn_framed hn ⟨?_, by simp [hname]⟩
    simpa [printed, hn.known _ hname, hfixed] using ⟨hparams, hss⟩
  | framed _ _ ih => exact fun hb => usesIn_framed hn (ih hb)
  | @inheritance _ _ _ k hinherits he hkey =>
    have hinherits : I := hinherits
    have hkey : V (.temp k) := hkey
    exact fun _ => ⟨by
      simpa [inheritance, hn.known _ hkey, hfixed] using
        ⟨he.1, fun id hid => hn.known id (he.2 id hid)⟩,
      by simpa [inheritance, hkey, hinherits] using fun id hid => .inl (he.2 id hid)⟩

/-- Identifiers of these sets are enough for nodes whose names are variables. -/
theorem Naming.fits {p ns}
    (hnames : ∀ n ∈ ns, ∀ x ∈ givenNames n, V (.localName x) ∧ V (.macroName x))
    (hinherits : p.child = false → I) : Fits (namingMakings K V I) p ns where
  known hid := hn.known _ hid
  emits _ he hs ht := by
    have hbound : ∀ id v, .bind id v ∈ Expr.parts _ → V id := fun id v hv => by
      obtain ⟨⟨k, rfl, hlo, hhi⟩, -⟩ := he.pieces.bind id v hv
      cases k with
      | zero => cases hlo
      | succ k => exact ht k (Nat.le_of_lt_succ hlo) hhi
    constructor
    · intro id hid
      rcases he.pieces.name id ((Expr.mem_mentioned_iff _).1 hid) with hp | ⟨x, hx⟩ | ⟨v, hv⟩
      · refine hn.fixed id ?_
        simp only [entryParams, List.mem_cons, List.not_mem_nil, or_false] at hp
        rcases hp with rfl | rfl | rfl | rfl <;> simp
      · exact hs x id hx
      · exact hn.known id (hbound id v hv)
    · intro id hid
      obtain ⟨v, hv⟩ := (Expr.mem_assigned_iff _).1 hid
      exact hbound id v hv
  names hn x hx := hnames _ hn x hx
  block _ _ := trivial
  loop _ _ := trivial
  inherits hchild _ _ := hinherits hchild

end

/-- Temporaries and names of the template. -/
def Ident.isOwn : Ident → Bool
  | .temp _ | .localName _ | .macroName _ => true
  | _ => false

/-- Apart from the frame, code assigns temporaries and names of the template, and the parent if none
is named before. -/
theorem BuildsAll.own_of_assigned {site scope scope' ns p p' ss}
    (h : BuildsAll site scope ns p ss scope' p') : ∀ id ∈ assignedInBody ss,
      Ident.isOwn id = true ∨ id = .frame ∨ p.child = false ∧ id = .parentTemplate := by
  have hn : Naming (fun _ => True) fun id => Ident.isOwn id = true := ⟨by simp, by simp⟩
  have hmade := (h.made (hn.fits (fun _ _ _ _ => ⟨rfl, rfl⟩) id) (fun _ _ _ => trivial)
    fun _ _ _ => rfl).1 []
  exact (usesIn_of_made hn hmade trivial).assigned

end Stencil.Compile
