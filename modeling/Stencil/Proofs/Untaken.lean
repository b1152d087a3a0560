import Stencil.Proofs.Exports
import Stencil.Proofs.Statement

/-!
# Parents that are not looked for

Whether a template names a parent is settled when it is compiled, and whether the parent is looked
for is settled when it runs. A root function that comes to no parent ends with its own output, as if
no parent were named (`untaken_parent_has_no_effect`). Definitions look at what is settled first: a
macro behind the name of a parent is not published (`publishedNames_of_untaken_parent`).
-/

namespace Stencil

open Script Compile Direct Eval List

/-- In the state `w`, a test is evaluated to something that counts as false, and changes nothing. -/
def Eval.Untaken (test : Eval Value) (w : World) : Prop :=
  ∃ v, test.outcome w = (.ok v, w) ∧ w.truthy v = false

variable {k : Knowledge} {call : Call} {limit : Nat}

/-- A statement that names a parent in case of a test. -/
def Compile.inheritIf (pos bodyPos at_ : Position) (test parent : Node) : Node :=
  .conditional pos test (.sequence bodyPos [.inherit at_ parent]) none

/-- A branch that is not taken is passed over. -/
theorem Mirror.exec_untaken {β : Type} {e : Expr} {body rest : List Stmt} {y : Eval Value}
    {z : Eval β} {post} (he : Yields call k e y)
    (hrest : Follows call limit k rest z post) :
    Coupled (fun w w' => Mirror k w w' ∧ y.Untaken w')
      (execAll call limit k.r (.branch e body [] :: rest)) z post (Veiled k.r k.hidden) := by
  rintro w w' ⟨hw, v, hy, hfalse⟩
  have hagree := he w w' hw
  rw [hy] at hagree
  generalize hrun : (eval call k.r e).outcome w = o at hagree
  cases hagree with
  | ok h =>
    obtain ⟨rfl, hu⟩ := h
    rename_i u
    have hsame : u.truthy v = false := by
      obtain ⟨acts, rfl, -⟩ := hu.veiled
      exact hfalse
    have hexec : (exec call limit k.r (.branch e body [])).outcome w = (.ok none, u) := by
      rw [exec, outcome_bind_of_ok hrun]
      show (if u.truthy v = true then execAll call limit k.r body
        else execAll call limit k.r []).outcome u = _
      rw [hsame]
      rfl
    rw [outcome_execAll_cons hexec]
    exact hrest u w' hu

/-- Where no parent was found, the end of a root function hands over to none. -/
theorem Mirror.exec_delegation {β : Type} {rest : List Stmt} {z : Eval β} {post}
    (hparent : k.known .parentTemplate = some (.value .none))
    (hrest : Follows call limit k rest z post) :
    Follows call limit k (delegation true ++ rest) z post := by
  have htest : Yields call k (.compare (.name .parentTemplate) [(.isNot, .const .null)]) _ :=
    (Shows.name hparent).compare (.const .null)
  exact (Mirror.exec_untaken htest hrest).weaken
    (fun _ _ h => ⟨h, .bool false, rfl, rfl⟩) (fun _ _ _ _ h => h) fun _ _ h => h

/-- The root function of plain statements behind a parent that is named under a test. -/
theorem Compile.rootFunction_inheritIf {pos bodyPos at_ test parent items p p' fn}
    (h : Gives (rootFunction (inheritIf pos bodyPos at_ test parent :: items)) p fn p')
    (hplain : arePlain items = true) :
    ∃ e q body ss scope q', Emits {} test p e q ∧
      BuildsAll ⟨true, .output⟩ {} items q' ss scope p' ∧ fn.params = entryParams ∧
      fn.body = rootBody (.branch e body [] :: (ss ++ delegation true)) ∧
      ∀ id ∈ assignedInBody (rootBody (.branch e body [] :: (ss ++ delegation true))),
        coreFunction? id = none := by
  obtain ⟨_, scope, hbuilds, rfl⟩ := gives_rootFunction h
  have hcore := hbuilds.coreless_root
  cases hbuilds with
  | cons hcond hrest =>
    cases hcond with
    | conditional he hbody =>
      cases hbody with
      | sequence hparent =>
        obtain _ | ⟨⟨⟩, ⟨⟩⟩ := hparent
        rw [(hrest.of_plain hplain).2]
        refine ⟨_, _, _, _, scope, _, he, hrest, rfl, rfl, fun id hid => hcore id ?_⟩
        rw [← cons_append] at hid
        rwa [assignedInBody_rootBody, assignedInBody_append, assignedInBody_delegation, append_nil,
          ← assignedInBody_rootBody] at hid

/-- Plain statements behind a branch that is not taken, up to the end of a root function. -/
theorem Compile.BuildsAll.behind_untaken (hs : call.Sound) {items p p' ss scope place out e body y}
    (hbuilds : BuildsAll ⟨true, .output⟩ {} items p ss scope p') (hplain : arePlain items = true)
    (hstage : Stage {} place k p.temps out) (hcover : k.Covers (assignedInBody ss))
    (hparent : k.known .parentTemplate = some (.value .none)) (he : Yields call k e y) :
    Coupled (fun w w' => Mirror k w w' ∧ y.Untaken w')
      (execAll call limit k.r
        (.branch e body [] :: (ss ++ delegation true) ++ [.ret (.joined .output)]))
      (Direct.stmts call limit out place items >>= fun _ => liftM (joinWith "" (.list out)))
      (fun c v w w' => c = some (.value v) ∧ Mirror k w w') (Veiled k.r k.hidden) := by
  rw [cons_append, append_assoc]
  refine Mirror.exec_untaken he (Mirror.exec_append (hbuilds.performs hs hplain hstage hcover) ?_)
  exact Mirror.exec_delegation hparent (Shows.ret (Shows.joined hs hstage.output))

end Stencil
