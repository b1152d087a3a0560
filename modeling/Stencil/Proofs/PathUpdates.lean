import Stencil.Proofs.OwnFrame

/-!
# Dotted names are paths

The names that are bound in a frame behave like paths in a tree, whatever the names are and in
whatever order they come (`newFrame_setAll_follow`): what stands at a path is what was bound there
last, until a path that leads there or that goes on from there is bound.
-/

namespace Stencil

open List

/-- What stands at a path in a frame. -/
def World.follow (w : World) (f : Ref) (path : List String) : Option Value :=
  Stencil.follow w.dicts (w.frame f).vars.find? path

/-- Bind names in a frame one after the other. -/
def Eval.setAll (f : Ref) : List (String × Value) → Eval Unit
  | [] => pure ()
  | (name, v) :: rest => do
    setInFrame f name v
    setAll f rest

/-- The frame exists, and each dictionary on the way of a path in it stands at this path alone. -/
def Planted (f : Ref) (w : World) : Prop :=
  f < w.frames.size ∧ ∃ place, Charted (fun _ => True) 0 place (w.frame f).vars w.dicts

namespace Planted

variable {f : Ref} {w : World}

/-- Binding one name. -/
theorem set (h : Planted f w) {v : Value} (hv : ∀ d, v ≠ .dict d) (name : String) :
    ∃ u, (Eval.setInFrame f name v).outcome w = (.ok (), u) ∧ Planted f u ∧
      Updates (pathParts name) v (w.follow f) (u.follow f) := by
  obtain ⟨hf, place, hplace⟩ := h
  have hbase : Extends ⟨#[]⟩ w.dicts := ⟨Nat.zero_le _, fun _ hr => absurd hr (Nat.not_lt_zero _)⟩
  obtain ⟨vars, dicts, place', hset, _, hplace', hup⟩ := Eval.setInFrame_charted hplace hbase hf
    ⟨fun _ _ _ _ => trivial, fun d hd => absurd hd (hv d)⟩
  have hvars : ((w.withFrame f vars dicts).frame f).vars = vars :=
    congrArg Frame.vars (w.frame_withFrame hf vars dicts)
  refine ⟨_, hset, ⟨?_, place', ?_⟩, ?_⟩
  · exact Nat.lt_of_lt_of_eq hf (w.frames.size_set _ _).symm
  · rw [hvars]
    exact hplace'
  · unfold World.follow
    rw [hvars]
    exact hup fun _ => trivial

/-- Binding names one after the other. The induction carries along what becomes of the paths that no
name concerns, and of those that were not bound before. -/
theorem setAll : ∀ {sets : List (String × Value)} {w : World}, Planted f w →
    (∀ s ∈ sets, ∀ d, s.2 ≠ .dict d) →
    ∃ u, (Eval.setAll f sets).outcome w = (.ok (), u) ∧
      (∀ p, (∀ s ∈ sets, ¬p <+: pathParts s.1 ∧ ¬pathParts s.1 <+: p) →
        u.follow f p = w.follow f p) ∧
      (∀ p, (∀ s ∈ sets, ¬p <+: pathParts s.1) → w.follow f p = none → u.follow f p = none) ∧
      ∀ before name v after, sets = before ++ (name, v) :: after →
        (∀ s ∈ after, ¬pathParts name <+: pathParts s.1 ∧ ¬pathParts s.1 <+: pathParts name) →
        u.follow f (pathParts name) = some v
  | [], w, _, _ => ⟨w, rfl, fun _ _ => rfl, fun _ _ h => h, fun _ _ _ _ h => by simp at h⟩
  | (name, v) :: rest, w, h, hsets => by
    obtain ⟨hv, hrest⟩ := forall_mem_cons.1 hsets
    obtain ⟨m, hset, hm, hup⟩ := h.set hv name
    obtain ⟨u, hrun, hkeep, hnone, hlast⟩ := hm.setAll hrest
    refine ⟨u, (Eval.outcome_bind_of_ok hset _).trans hrun, fun p hp => ?_, fun p hp hw => ?_, ?_⟩
    · obtain ⟨hfirst, hp⟩ := forall_mem_cons.1 hp
      rw [hkeep p hp, hup.apart p hfirst.1 hfirst.2]
    · obtain ⟨hfirst, hp⟩ := forall_mem_cons.1 hp
      refine hnone p hp ?_
      by_cases hbeyond : pathParts name <+: p
      · exact hup.beyond p hbeyond fun heq => hfirst (heq ▸ prefix_refl _)
      · rw [hup.apart p hfirst hbeyond, hw]
    · intro before name' v' after heq hafter
      rcases before with _ | ⟨s, before⟩
      · cases heq
        rw [hkeep _ hafter, hup.here]
      · exact hlast before name' v' after (cons.inj heq).2 hafter

end Planted

/-- Names that are bound in a new frame, one after the other and to values that are no dictionaries:
a path holds what was bound there last if no path that leads there or goes on from there was bound
later, and it holds nothing if it leads to none of the names. -/
theorem newFrame_setAll_follow (w : World) (parent : Option Ref) (sets : List (String × Value))
    (hsets : ∀ s ∈ sets, ∀ d, s.2 ≠ .dict d) :
    ∃ u, (Eval.newFrame { parent } >>= fun f => Eval.setAll f sets).outcome w = (.ok (), u) ∧
      (∀ before name v after, sets = before ++ (name, v) :: after →
        (∀ s ∈ after, ¬pathParts name <+: pathParts s.1 ∧ ¬pathParts s.1 <+: pathParts name) →
        u.follow w.frames.size (pathParts name) = some v) ∧
      ∀ path, (∀ s ∈ sets, ¬path <+: pathParts s.1) → u.follow w.frames.size path = none := by
  have hframe : ({ w with frames := w.frames.push { parent } } : World).frame w.frames.size =
      { parent } := by
    rw [World.frame, Store.get?_push_self, Option.getD_some]
  have hplanted : Planted w.frames.size { w with frames := w.frames.push { parent } } := by
    refine ⟨by simp, fun _ => none, ?_⟩
    rw [hframe]
    exact .empty _
  obtain ⟨u, hrun, _, hnone, hlast⟩ := hplanted.setAll hsets
  refine ⟨u, hrun, hlast, fun path hpath => hnone path hpath ?_⟩
  unfold World.follow
  rw [hframe]
  exact follow_empty _ path

/-- A loop counts its rounds by binding the parts of its record again. -/
theorem newFrame_setAll_follow_record : ∃ u, (Eval.newFrame {} >>= fun f => Eval.setAll f
      [("loop.index", .ofInt 1), ("loop.first", .bool true), ("loop.index", .ofInt 2)]).outcome {} =
        (.ok (), u) ∧
    u.follow 0 ["loop", "index"] = some (.ofInt 2) ∧
    u.follow 0 ["loop", "first"] = some (.bool true) ∧ u.follow 0 ["item"] = none := by
  obtain ⟨u, hrun, hlast, hnone⟩ := newFrame_setAll_follow {} none
    [("loop.index", .ofInt 1), ("loop.first", .bool true), ("loop.index", .ofInt 2)]
    (by simp [Value.ofInt])
  exact ⟨u, hrun, hlast [_, _] _ _ [] rfl (by simp), hlast [_] _ _ [_] rfl (by decide),
    hnone ["item"] (by decide)⟩

end Stencil
