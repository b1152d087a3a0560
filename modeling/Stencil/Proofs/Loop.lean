import Stencil.Proofs.Steps

/-!
# Generated loops

The code of a loop over a sequence and of a loop over pairs, with what a round of each does. The
variables of a loop are temporaries: the elements gone through and their number are known during the
whole loop, the element of a round is known during the round, and the number of a round over pairs
is carried along from round to round.
-/

namespace Stencil

open Script Compile Direct Eval

variable {v : Value} {e : Expr} {y : Eval Value}

variable {k : Knowledge} {call : Call} {limit : Nat}

/-! ## Rounds -/

namespace Shows

theorem const (c : Constant) : Yields call k (.const c) (pure (.ofConstant c)) := by
  rw [Yields, eval]
  exact Shows.pure _

variable {l r : Expr} {y y' : Eval Value}

theorem binary {op} (hl : Yields call k l y)
    (hr : Yields call k r y') (hc : (l.isConstant && r.isConstant) = false) :
    Yields call k (.binary op l r)
      (y >>= fun a => y' >>= fun b => binary op a b) := by
  simp only [Yields, eval, hc]
  exact value_bind hl fun a => value_bind hr fun b => value (lift _)

theorem compare {op} (hl : Yields call k l y) (hr : Yields call k r y') :
    Yields call k (.compare l [(op, r)])
      (y >>= fun a => y' >>= fun b => compareBy op a b >>= fun t => pure (.bool t)) := by
  simp only [Yields, eval, evalChain, bind_assoc]
  refine value_bind hl fun a => value_bind hr fun b => (lift _).bind fun t => ?_
  cases t with
  | true => exact Shows.pure _
  | false => exact Shows.pure _

theorem subscript (hl : Yields call k l y) (hr : Yields call k r y') :
    Yields call k (.subscript l r)
      (y >>= fun a => y' >>= fun b => subscript a b) := by
  simp only [Yields, eval]
  exact value_bind hl fun a => value_bind hr fun b => value (lift _)

end Shows

namespace Performs

variable {i n : Value} {f : Ref}

/-- The loop record of a round in a loop over a sequence, and what comes after it. -/
theorem sequenceRecord (hs : call.Sound) (hf : k.known .frame = some (.frame f))
    {index length element} (hi : k.known index = some (.value i))
    (hn : k.known length = some (.value n)) (hv : k.known element = some (.value v)) (name : String)
    {ss y} (hss : Performs call limit k ss y) :
    Performs call limit k (sequenceRecord name index length element ++ ss) (do
        setInFrame f name v
        sequenceRecord f i n
        y) := by
  have hindex : Yields call k (.name index) (pure i) := .name hi
  have hlength : Yields call k (.name length) (pure n) := .name hn
  have hone : Yields call k (.int 1) (pure (.ofInt 1)) := .const _
  have hzero : Yields call k (.int 0) (pure (.ofInt 0)) := .const _
  have h : Performs call limit k (Compile.sequenceRecord name index length element ++ ss) _ :=
    Mirror.exec_frameSet hs hf (.name hv) <|
    Mirror.exec_frameSet hs hf (hindex.binary hone rfl) <|
    Mirror.exec_frameSet hs hf hindex <|
    Mirror.exec_frameSet hs hf (hlength.binary hindex rfl) <|
    Mirror.exec_frameSet hs hf ((hlength.binary hindex rfl).binary hone rfl) <|
    Mirror.exec_frameSet hs hf (hindex.compare hzero) <|
    Mirror.exec_frameSet hs hf (hindex.compare (hlength.binary hone rfl)) <|
    Mirror.exec_frameSet hs hf hlength hss
  simpa only [bind_assoc, pure_bind, Direct.sequenceRecord] using h

/-- The loop record of a round in a loop over pairs, and what comes after it. -/
theorem pairRecord (hs : call.Sound) (hf : k.known .frame = some (.frame f)) {index key element u}
    (hi : k.known index = some (.value i)) (hu : k.known key = some (.value u))
    (hv : k.known element = some (.value v)) (keyName valueName : String) {ss y}
    (hss : Performs call limit k ss y) :
    Performs call limit k (pairRecord keyName valueName index key element ++ ss) (do
        setInFrame f keyName u
        setInFrame f valueName v
        pairRecord f i
        y) := by
  have hindex : Yields call k (.name index) (pure i) := .name hi
  have hone : Yields call k (.int 1) (pure (.ofInt 1)) := .const _
  have hzero : Yields call k (.int 0) (pure (.ofInt 0)) := .const _
  have h : Performs call limit k (Compile.pairRecord keyName valueName index key element ++ ss) _ :=
    Mirror.exec_frameSet hs hf (.name hu) <|
    Mirror.exec_frameSet hs hf (.name hv) <|
    Mirror.exec_frameSet hs hf (hindex.binary hone rfl) <|
    Mirror.exec_frameSet hs hf hindex <|
    Mirror.exec_frameSet hs hf (hindex.compare hzero) hss
  simpa only [bind_assoc, pure_bind, Direct.pairRecord] using h

end Performs

/-! ## Whole loops -/

theorem Eval.int?_newInt {n w u} (h : (liftM (newInt n) : Eval Value).outcome w = (.ok v, u)) :
    v.int? = some n := by
  unfold newInt renew at h
  split at h <;> cases h <;> rfl

namespace Shows

theorem core {id fn} (hid : k.known id = some (.core fn)) (he : Yields call k e y) :
    Yields call k (.call (.name id) [e]) (y >>= fun v => callCore fn [v]) := by
  simp only [Yields, eval, evalAll, bind_assoc, pure_bind]
  exact Mirror.read hid (he.bind fun v => value (lift _))

theorem orElse {e'} {standIn : Operation Value} (he : Yields call k e y)
    (he' : Yields call k e' standIn) :
    Yields call k (.boolean .or e e') (y >>= fun v => orElse v standIn) := by
  simp only [Yields, eval]
  exact value_bind he fun v => .ite_truthy v (Shows.pure v) he'

end Shows

theorem Shows.with_fact {α β : Type} {f} {x : Eval α} {y} {P : β → Prop} (h : Shows k f x y)
    (hP : ∀ {w u b}, y.outcome w = (.ok b, u) → P b) :
    Coupled (Mirror k) x y (fun a b w w' => (a = f b ∧ P b) ∧ Mirror k w w')
      (Veiled k.r k.hidden) := by
  intro w w' hw
  obtain ⟨a, b, u, u', hu, hu', hab, hm⟩ | ⟨e, u, u', hu, hu', hv⟩ := (h w w' hw).results_or_halt
  · rw [hu, hu']
    exact .ok ⟨⟨hab, hP hu'⟩, hm⟩
  · rw [hu, hu']
    exact .error hv

section

variable {scope : Scope Ident} {place : Place} {temps : Nat} {out : Ref}

variable {items : Value} {index arr element key : Nat} {ss : List Stmt}
  {body : Place → Eval Unit} {keyName valueName : String}

/-- The number of elements that a loop over a sequence is about to go through. -/
theorem Performs.length (hk : Stage scope place k temps out) {arr length : Ident}
    (harr : k.known arr = some (.value items)) (hid : length ∈ k.own ∧ k.hidden length)
    (hnew : k.known length = none) {rest : List Stmt} {z : Nat → Value → Eval Unit}
    (hrest : ∀ (count : Nat) (n : Value), n.int? = some (count : Int) →
      Performs call limit (k.learn length (.value n)) rest (z count n)) :
    Performs call limit k (.assign length (.call (.name .len) [.name arr]) :: rest)
      (do
        let count : Nat ← Eval.length items
        let n ← Eval.newInt count
        z count n) := by
  have hcall : callCell call (.core .len) [.value items] = (do
      let count : Nat ← Eval.length items
      let n ← Eval.newInt count
      return .value n) := by
    show (liftM (Eval.length items >>= fun count : Nat => Eval.newInt count) : Eval Value) >>=
      (fun n => pure (Cell.value n)) = _
    rw [Eval.lift_bind, bind_assoc]
  simp only [Performs, execAll, exec, eval, evalAll, bind_assoc, pure_bind]
  refine Mirror.read hk.len (Mirror.read harr ?_)
  simp only [hcall, bind_assoc, pure_bind]
  refine Coupled.bind (Shows.lift (Eval.length items)) fun count _ => ?_
  rintro w w' ⟨rfl, hw⟩
  refine Coupled.bind ((Shows.lift (Eval.newInt count)).with_fact Eval.int?_newInt) ?_ w w' hw
  rintro n _ w w' ⟨⟨rfl, hn⟩, hw⟩
  refine Mirror.write hid.1 hid.2 ?_ w w' hw
  exact (hrest count n hn).ensures fun _ _ _ _ h => ⟨h.1, h.2.forget hnew⟩

theorem temp_ne {i j} (h : i < j) : Ident.temp i ≠ .temp j :=
  fun he => Nat.ne_of_lt h (Ident.temp.inj he)

section

variable {name : String} (hs : call.Sound) (hbody : ∀ known v,
    Stage (scope.set name (.temp element)) (place.bind name v) (k.knowing known) element out →
    Performs call limit (k.knowing known) ss (body (place.bind name v)))

include hs hbody

/-- The rounds of a loop over a sequence. -/
theorem Performs.sequenceRounds (hk : Stage scope place k temps out)
    {length count : Nat} {n} (hindex : index ≤ temps)
    (hfree : ∀ x, scope.lookup x ≠ some (.temp index)) (hunknown : k.known (.temp index) = none)
    (helement : temps < element) (harr : k.known (.temp arr) = some (.value items))
    (hlength : k.known (.temp length) = some (.value n)) (hn : n.int? = some (count : Int))
    (hci : Ident.temp index ∈ k.own ∧ k.hidden (.temp index))
    (hce : Ident.temp element ∈ k.own ∧ k.hidden (.temp element)) :
    Performs call limit k [.loop (.single (.temp index))
        (.call (.name .range) [.name (.temp length)])
        (sequenceRound name (.temp index) (.temp arr) (.temp length) (.temp element) ++ ss)]
      (each limit (.range count) (fun _ i => sequenceRound place name items n body i) ()) := by
  have hrange : Yields call k (.call (.name .range) [.name (.temp length)])
      (pure (.range count)) := by
    have h : Yields call k (.call (.name .range) [.name (.temp length)]) _ :=
      Shows.core hk.range (.name hlength)
    simpa [callCore, hn] using h
  have hkeep {j : Nat} {c : Cell} (hj : k.known (.temp j) = some c) (d : Cell) :
      (k.learn (.temp index) d).known (.temp j) = some c := by
    refine (k.known_learn_of_ne ?_ d).trans hj
    rintro ⟨⟩
    exact nomatch hunknown.symm.trans hj
  have hround (u : Unit) (i : Value) : k.Carries (fun _ => k.known) (do
        assignTarget k.r (.single (.temp index)) i
        execAll call limit k.r (sequenceRound name (.temp index) (.temp arr)
          (.temp length) (.temp element) ++ ss))
      (sequenceRound place name items n body i) u := by
    have hindexed := hk.relearn hindex hfree (.value i)
    have hi := k.known_learn_self (.temp index) (.value i)
    have hsub : Shows (k.learn (.temp index) (.value i)) Cell.value
        (eval call k.r (.subscript (.name (.temp arr)) (.name (.temp index)))) _ :=
      Shows.subscript (.name (hkeep harr _)) (.name hi)
    simp only [pure_bind] at hsub
    have hrun : Performs call limit (k.learn (.temp index) (.value i))
        (sequenceRound name (.temp index) (.temp arr)
          (.temp length) (.temp element) ++ ss) _ :=
      Performs.assign hce (hindexed.unknown helement) hsub fun v =>
        have hready := hindexed.learn helement (.value v)
        Performs.sequenceRecord hs hready.frame (hindexed.keep helement hi _)
          (hindexed.keep helement (hkeep hlength _) _) (Knowledge.known_learn_self ..) name
          (hbody _ v (hready.bind (Knowledge.known_learn_self ..)))
    refine Mirror.write hci.1 hci.2 ?_
    exact hrun.ensures fun _ _ _ _ h => ⟨h.1, h.2.forget hunknown⟩
  rw [Performs, execAll_singleton, exec]
  have h := Shows.value_bind hrange fun source => Mirror.runLoop hround limit source ()
  simpa only [pure_bind] using h

/-- A loop over a sequence, inside its frame. -/
theorem Performs.sequenceLoop (hk : Stage scope place k temps out)
    {length : Nat} (hindex : temps < index) (harr : index < arr) (hlength : arr < length)
    (helement : length < element)
    (hcov : k.Covers [.temp index, .temp arr, .temp length, .temp element])
    (he : Yields call k e y) : Performs call limit k
      (Compile.sequenceLoop name (.temp index) (.temp arr) (.temp length)
        (.temp element) e ss)
      (y >>= fun v => Direct.sequenceLoop limit place name v body) := by
  have hempty : Yields call k (.tuple []) (liftM (Eval.newTuple [])) := by
    simp only [Yields, eval, evalAll, pure_bind]
    exact .value (.lift (Eval.newTuple []))
  have htake : temps < arr := Nat.lt_trans hindex harr
  have hunknown (items n : Value) : ((k.learn (.temp arr) (.value items)).learn (.temp length)
      (.value n)).known (.temp index) = none := by
    rw [Knowledge.known_learn_of_ne _ (temp_ne (Nat.lt_trans harr hlength)),
      Knowledge.known_learn_of_ne _ (temp_ne harr), hk.unknown hindex]
  have hrun : Performs call limit k
      (Compile.sequenceLoop name (.temp index) (.temp arr) (.temp length)
        (.temp element) e ss) _ :=
    Performs.assign (hcov _ (by simp)) (hk.unknown htake) (Shows.core hk.list (.orElse he hempty))
      fun items =>
        have hk' := hk.learn htake (.value items)
        Performs.length hk' (Knowledge.known_learn_self ..) (hcov _ (by simp))
          (hk'.unknown hlength) fun count n hn =>
            have hk'' := hk'.learn hlength (.value n)
            Performs.sequenceRounds (k := (k.learn _ _).learn _ _) hs hbody hk''
              (Nat.le_of_lt (Nat.lt_trans harr hlength))
              (hk.lookup_ne hindex) (hunknown items n) helement
              (hk'.keep hlength (Knowledge.known_learn_self ..) _)
              (Knowledge.known_learn_self ..) hn (hcov _ (by simp)) (hcov _ (by simp))
  simpa only [callCore, Eval.lift_bind, bind_assoc, Direct.sequenceLoop] using hrun

end

theorem Mirror.exec_increment {β : Type} {post id} (hv : k.known id = some (.value v))
    (hid : id ∈ k.own ∧ k.hidden id) {rest} {z : Value → Eval β}
    (hrest : ∀ u, Follows call limit (k.learn id (.value u)) rest (z u) post) :
    Follows call limit k (.increment id (.int 1) :: rest)
      (do z (← binary .add v (.ofInt 1))) post := by
  simp only [Follows, execAll, exec, eval, Expr.int, bind_assoc, pure_bind]
  refine Mirror.read hv ?_
  simp only [valueIn_value, pure_bind]
  refine Coupled.bind (Mirror.step (.lift (binary .add v (.ofInt 1)))) fun u _ => ?_
  rintro w w' ⟨rfl, hw⟩
  exact Mirror.write hid.1 hid.2 (hrest _) w w' hw

theorem Direct.unpack_cases (pair : Value) : (∃ o u v, pair = .tuple (o := o) [u, v]) ∨
      unpack pair = fail (.cannotUnpack pair.typeName) ∧
        ∀ r first second, assignTarget r (.pair first second) pair =
          fail (.cannotUnpack pair.typeName) := by
  cases pair with
  | tuple items =>
    match items with
    | [u, v] => exact .inl ⟨_, u, v, rfl⟩
    | [] | [_] | _ :: _ :: _ :: _ => exact .inr ⟨rfl, fun _ _ _ => rfl⟩
  | _ => exact .inr ⟨rfl, fun _ _ _ => rfl⟩

section

variable (hs : call.Sound)
  (hbody : ∀ known u v, Stage ((scope.set keyName (.temp key)).set valueName (.temp element))
        ((place.bind keyName u).bind valueName v) (k.knowing known) element out →
      Performs call limit (k.knowing known) ss (body ((place.bind keyName u).bind valueName v)))

include hs hbody

/-- The body of a round of a loop over pairs, when its number is known. -/
theorem Mirror.pairBody {known i u}
    (hk : Stage scope place (k.knowing known) element out)
    (hi : known (.temp index) = some (.value i)) (hu : known (.temp key) = some (.value u))
    (hv : known (.temp element) = some (.value v))
    (hback : ∀ id c, (k.learn (.temp index) (.value i)).known id = some c → known id = some c) :
    Follows call limit (k.knowing known)
      (pairRecord keyName valueName (.temp index) (.temp key) (.temp element) ++ ss) (do
        setInFrame place.frame keyName u
        setInFrame place.frame valueName v
        pairRecord place.frame i
        body ((place.bind keyName u).bind valueName v)
        return i)
      fun o t w w' => o = none ∧
        Mirror (k.knowing (k.learn (.temp index) (.value t)).known) w w' := by
  have hrun := Performs.pairRecord hs hk.frame hi hu hv keyName valueName
    (hbody known u v ((hk.bind hu).bind hv))
  have hround : Follows call limit (k.knowing known)
      (pairRecord keyName valueName (.temp index) (.temp key) (.temp element) ++ ss) _
      fun o t w w' => o = none ∧
        Mirror (k.knowing (k.learn (.temp index) (.value t)).known) w w' :=
    Coupled.map_right hrun fun _ _ _ _ h =>
      ⟨h.1, h.2.weaken hback fun _ hp => hp⟩
  simpa only [bind_assoc] using hround

/-- A round of a loop over pairs. -/
theorem Mirror.pairRound (hk : Stage scope place k temps out)
    (hindex : index ≤ temps) (hfree : ∀ x, scope.lookup x ≠ some (.temp index)) (hkey : temps < key)
    (helement : key < element) (hcov : k.Covers [.temp index, .temp key, .temp element])
    (i pair : Value) :
    k.Carries (fun i => (k.learn (.temp index) (.value i)).known) (do
        assignTarget k.r (.pair (.temp key) (.temp element)) pair
        execAll call limit k.r (pairRound keyName valueName (.temp index) (.temp key)
          (.temp element) ++ ss))
      (pairRound place keyName valueName body i pair) i := by
  have hci := hcov (.temp index) (by simp)
  have hck := hcov (.temp key) (by simp)
  have hce := hcov (.temp element) (by simp)
  unfold Knowledge.Carries Direct.pairRound
  rcases unpack_cases pair with ⟨_, u, v, rfl⟩ | ⟨hdirect, hassign⟩
  · simp only [assignTarget, bind_assoc]
    have hindexed := hk.relearn hindex hfree (.value i)
    have hkeyed := hindexed.learn hkey (.value u)
    have hpaired := hkeyed.learn helement (.value v)
    refine Mirror.write hck.1 hck.2 (Mirror.write hce.1 hce.2 ?_)
    refine Mirror.exec_increment (hkeyed.keep helement
      (hindexed.keep hkey (Knowledge.known_learn_self ..) _) _) hci fun i' => ?_
    have hready := hpaired.relearn (Nat.le_trans hindex (Nat.le_of_lt (Nat.lt_trans hkey helement)))
      hfree (.value i')
    have hki : key ≠ index := Nat.ne_of_gt (Nat.lt_of_le_of_lt hindex hkey)
    have hei : element ≠ index :=
      Nat.ne_of_gt (Nat.lt_trans (Nat.lt_of_le_of_lt hindex hkey) helement)
    refine Mirror.pairBody (k := k) hs hbody hready (Knowledge.known_learn_self ..) ?_ ?_
      fun id c hc => ?_
    · simp [Knowledge.learn, hki, Nat.ne_of_lt helement]
    · simp [Knowledge.learn, hei]
    · by_cases hid : id = .temp index
      · subst hid
        simpa [Knowledge.learn] using hc
      · rw [Knowledge.known_learn_of_ne _ hid] at hc
        have hne {j : Nat} (hj : temps < j) : id ≠ .temp j := by
          rintro rfl
          exact nomatch (hk.unknown hj).symm.trans hc
        simp [Knowledge.learn, hid, hne hkey, hne (Nat.lt_trans hkey helement), hc]
  · rw [hdirect, hassign]
    exact Coupled.fail fun _ _ h => h.veiled

/-- The rounds of a loop over pairs. -/
theorem Performs.pairRounds (hk : Stage scope place k temps out)
    (hindex : index ≤ temps) (hfree : ∀ x, scope.lookup x ≠ some (.temp index))
    (hunknown : k.known (.temp index) = none) (hkey : temps < key) (helement : key < element)
    (harr : k.known (.temp arr) = some (.value items))
    (hcov : k.Covers [.temp index, .temp key, .temp element]) :
    Performs call limit k [.assign (.temp index) (.int (-1)),
        .loop (.pair (.temp key) (.temp element)) (.helper .iterItems [.name (.temp arr)])
          (pairRound keyName valueName (.temp index) (.temp key) (.temp element) ++ ss)]
      (do
        let source ← Engine.iterItems items
        let _ ← each limit source (pairRound place keyName valueName body) (.ofInt (-1))) := by
  have hloop (i : Value) : Follows call limit (k.learn (.temp index) (.value i))
      [.loop (.pair (.temp key) (.temp element)) (.helper .iterItems [.name (.temp arr)])
        (pairRound keyName valueName (.temp index) (.temp key) (.temp element) ++ ss)] (do
        let source ← Engine.iterItems items
        let _ ← each limit source (pairRound place keyName valueName body) i)
      fun o _ w w' => o = none ∧ Mirror k w w' := by
    have hindexed := hk.relearn hindex hfree (.value i)
    have harr' : (k.learn (.temp index) (.value i)).known (.temp arr) = some (.value items) := by
      refine (k.known_learn_of_ne ?_ _).trans harr
      rintro ⟨⟩
      exact nomatch hunknown.symm.trans harr
    have hsource : Shows (k.learn (.temp index) (.value i)) Cell.value
        (eval call k.r (.helper .iterItems [.name (.temp arr)])) _ :=
      Shows.helper_one hs hindexed.runtime .iterItems rfl (.name harr')
        fun inner v => .value (.lift _)
    simp only [pure_bind] at hsource
    rw [Follows, execAll_singleton, exec]
    refine Coupled.bind hsource fun c source => ?_
    rintro w w' ⟨rfl, hw⟩
    have hrounds := Mirror.runLoop
      (Mirror.pairRound hs hbody hk hindex hfree hkey helement hcov) limit source i
    exact Coupled.map_right hrounds (fun _ t _ _ h => ⟨h.1, Mirror.forget h.2 hunknown⟩) w w' hw
  have hrun := Mirror.exec_assign (hcov (.temp index) (by simp)) (.const (.int (-1))) hloop
  rwa [pure_bind] at hrun

/-- A loop over pairs, inside its frame. -/
theorem Performs.pairLoop (hk : Stage scope place k temps out)
    (hindex : temps < index) (harr : index < arr) (hkey : arr < key) (helement : key < element)
    (hcov : k.Covers [.temp index, .temp arr, .temp key, .temp element]) (he : Yields call k e y) :
    Performs call limit k (Compile.pairLoop keyName valueName (.temp index) (.temp arr)
        (.temp key) (.temp element) e ss)
      (y >>= fun v => Direct.pairLoop limit place keyName valueName v body) := by
  have hempty : Yields call k (.dict [])
      (liftM (Eval.newDict (displayStart 0))) := by
    simp only [Yields, eval, evalEntries, pure_bind]
    exact .value (.lift (Eval.newDict (displayStart 0)))
  have htake : temps < arr := Nat.lt_trans hindex harr
  have hrun : Performs call limit k
      (Compile.pairLoop keyName valueName (.temp index) (.temp arr)
        (.temp key) (.temp element) e ss) _ :=
    Performs.assign (hcov _ (by simp)) (hk.unknown htake) (.orElse he hempty) fun items =>
      Performs.pairRounds (k := k.learn _ _) hs hbody
        (hk.learn htake (.value items)) (Nat.le_of_lt harr) (hk.lookup_ne hindex)
        ((k.known_learn_of_ne (temp_ne harr) _).trans (hk.unknown hindex)) hkey helement
        (Knowledge.known_learn_self ..) (hcov.sub (by simp))
  simpa only [bind_assoc, Direct.pairLoop] using hrun

end

end

end Stencil
