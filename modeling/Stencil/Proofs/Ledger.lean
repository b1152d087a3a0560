import Stencil.Proofs.Assembly
import Stencil.Proofs.Inventory

/-!
# What generated code binds

The temporaries of a module are numbered by one counter that runs through the whole compilation.
Each piece of generated code binds temporaries of the range that its compilation handed out and no
others, and the ranges of different pieces do not meet. So no temporary is bound twice, except that
the code of a call occurs in copies where the call is an argument, and every temporary belongs to a
single function. A `Ledger` holds what matters of a piece of code, and `Hygienic` says that it is as
it should be; pieces that take their temporaries one after the other can be put together
(`Hygienic.seq`), and each building block of the compiler has the ledger of its pieces.
-/

namespace Stencil

open List

namespace Script

/-! ## What occurs in a module -/

/-- The identifiers that occur in an expression. -/
def Expr.identifiers (e : Expr) : List Ident :=
  e.mentioned ++ e.assigned

mutual

/-- The identifiers that occur in a statement, those of functions defined in it included. -/
def Stmt.identifiers : Stmt → List Ident
  | .expr e | .ret e => e.identifiers
  | .assign id e | .increment id e => id :: e.identifiers
  | .branch test body otherwise =>
    test.identifiers ++ identifiersIn body ++ identifiersIn otherwise
  | .loop target source body => target.assigned ++ source.identifiers ++ identifiersIn body
  | .define name params captured body =>
    name :: params ++ captured.flatMap (fun c => c.1 :: c.2.identifiers) ++ identifiersIn body
  | .pass => []

/-- The identifiers that occur in statements, those of functions defined in them included. -/
def identifiersIn : List Stmt → List Ident
  | [] => []
  | s :: rest => s.identifiers ++ identifiersIn rest

end

mutual

/-- The targets of the assignments and loops in a statement and in the functions defined in it, as
often as they occur. -/
def Stmt.targets : Stmt → List Ident
  | .assign id _ => [id]
  | .branch _ body otherwise => targetsIn body ++ targetsIn otherwise
  | .loop target _ body => target.assigned ++ targetsIn body
  | .define _ _ _ body => targetsIn body
  | .expr _ | .ret _ | .increment _ _ | .pass => []

/-- The targets of the assignments and loops in statements, as often as they occur. -/
def targetsIn : List Stmt → List Ident
  | [] => []
  | s :: rest => s.targets ++ targetsIn rest

end

mutual

/-- The expressions in a statement and in the functions defined in it, with all their parts. -/
def Stmt.parts : Stmt → List Expr
  | .expr e | .ret e | .assign _ e | .increment _ e => e.parts
  | .branch test body otherwise => test.parts ++ partsIn body ++ partsIn otherwise
  | .loop _ source body => source.parts ++ partsIn body
  | .define _ _ captured body => captured.flatMap (·.2.parts) ++ partsIn body
  | .pass => []

/-- The expressions in statements, with all their parts. -/
def partsIn : List Stmt → List Expr
  | [] => []
  | s :: rest => s.parts ++ partsIn rest

end

mutual

/-- The functions defined in a statement, at any depth. -/
def Stmt.functions : Stmt → List Function
  | .branch _ body otherwise => functionsIn body ++ functionsIn otherwise
  | .loop _ _ body => functionsIn body
  | .define name params captured body =>
    ⟨name, params ++ captured.map (·.1), body⟩ :: functionsIn body
  | .expr _ | .ret _ | .assign _ _ | .increment _ _ | .pass => []

/-- The functions defined in statements, at any depth. -/
def functionsIn : List Stmt → List Function
  | [] => []
  | s :: rest => s.functions ++ functionsIn rest

end

/-- The identifiers that occur in a function. -/
def Function.identifiers (f : Function) : List Ident :=
  f.name :: f.params ++ identifiersIn f.body

/-- The identifiers that belong to a function: its parameters and all that its own code binds. -/
def Function.bound (f : Function) : List Ident :=
  ownedBy f.params f.body

namespace Module

/-- The identifiers that occur in a module. -/
def identifiers (m : Module) : List Ident :=
  m.functions.flatMap Function.identifiers

/-- The targets of all assignments and loops of a module, as often as they occur. -/
def targets (m : Module) : List Ident :=
  m.functions.flatMap fun f => targetsIn f.body

/-- All expressions of a module with all their parts. -/
def parts (m : Module) : List Expr :=
  m.functions.flatMap fun f => partsIn f.body

/-- All functions of a module, those defined inside others included. -/
def allFunctions (m : Module) : List Function :=
  m.functions.flatMap fun f => f :: functionsIn f.body

end Module

section

variable (ss ts : List Stmt)

@[simp]
theorem identifiersIn_append : identifiersIn (ss ++ ts) = identifiersIn ss ++ identifiersIn ts := by
  induction ss with
  | nil => rfl
  | cons s rest ih => simp [identifiersIn, ih]

@[simp]
theorem targetsIn_append : targetsIn (ss ++ ts) = targetsIn ss ++ targetsIn ts := by
  induction ss with
  | nil => rfl
  | cons s rest ih => simp [targetsIn, ih]

@[simp]
theorem partsIn_append : partsIn (ss ++ ts) = partsIn ss ++ partsIn ts := by
  induction ss with
  | nil => rfl
  | cons s rest ih => simp [partsIn, ih]

@[simp]
theorem functionsIn_append : functionsIn (ss ++ ts) = functionsIn ss ++ functionsIn ts := by
  induction ss with
  | nil => rfl
  | cons s rest ih => simp [functionsIn, ih]

end

end Script

namespace Compile

open Script

/-! ## Temporaries are bound once -/

/-- Whether an expression binds an identifier or chooses how to call. -/
def isChoice : Expr → Bool
  | .bind .. | .conditional .. => true
  | _ => false

/-- Code whose expressions have the parts `xs` and whose assignments and loops have the targets `ts`
binds temporaries of the set `S`: each one once, or as the callee of one call. -/
structure Fresh (S : Nat → Prop) (xs : List Expr) (ts : List Ident) : Prop where
  target : ∀ k, .temp k ∈ ts → S k
  once : ∀ k, ts.count (.temp k) ≤ 1
  bind : ∀ id v, .bind id v ∈ xs →
    (∃ k, id = .temp k ∧ S k ∧ .temp k ∉ ts) ∧ ∃ ps ks, dualCall id v ps ks ∈ xs
  call : ∀ id f ps ks, dualCall id f ps ks ∈ xs → .bind id f ∈ xs
  same : ∀ id f ps ks f' ps' ks', dualCall id f ps ks ∈ xs → dualCall id f' ps' ks' ∈ xs →
    f = f' ∧ ps = ps' ∧ ks = ks'

/-- The numbers after `lo` up to `hi`. -/
def Between (lo hi k : Nat) : Prop :=
  lo < k ∧ k ≤ hi

namespace Fresh

variable {S T : Nat → Prop} {xs ys : List Expr} {ts us : List Ident}

theorem nil : Fresh S [] [] where
  target _ h := nomatch h
  once _ := Nat.zero_le 1
  bind _ _ h := nomatch h
  call _ _ _ _ h := nomatch h
  same _ _ _ _ _ _ _ h := nomatch h

theorem ofPieces {scope lo hi} (h : Pieces scope lo hi xs) : Fresh (Between lo hi) xs [] where
  target _ h := nomatch h
  once _ := Nat.zero_le 1
  bind id v hv := by
    obtain ⟨⟨k, hk, hrange⟩, hcall⟩ := h.bind id v hv
    exact ⟨⟨k, hk, hrange, not_mem_nil⟩, hcall⟩
  call := h.call
  same := h.same

theorem mono (h : Fresh S xs ts) (hST : ∀ k, S k → T k) : Fresh T xs ts :=
  { h with
    target := fun k hk => hST k (h.target k hk)
    bind := fun id v hv => by
      obtain ⟨⟨k, hk, hS, hts⟩, hcall⟩ := h.bind id v hv
      exact ⟨⟨k, hk, hST k hS, hts⟩, hcall⟩ }

/-- Only bindings and choices among the parts matter. -/
theorem of_filter (h : Fresh S (xs.filter isChoice) ts) : Fresh S xs ts where
  target := h.target
  once := h.once
  bind id v hv := by
    obtain ⟨hk, ps, ks, hcall⟩ := h.bind id v (mem_filter.2 ⟨hv, rfl⟩)
    exact ⟨hk, ps, ks, (mem_filter.1 hcall).1⟩
  call id f ps ks hcall :=
    (mem_filter.1 (h.call id f ps ks (mem_filter.2 ⟨hcall, rfl⟩))).1
  same id f ps ks f' ps' ks' hcall hcall' :=
    h.same id f ps ks f' ps' ks' (mem_filter.2 ⟨hcall, rfl⟩) (mem_filter.2 ⟨hcall', rfl⟩)

theorem filter (h : Fresh S xs ts) : Fresh S (xs.filter isChoice) ts where
  target := h.target
  once := h.once
  bind id v hv := by
    obtain ⟨hk, ps, ks, hcall⟩ := h.bind id v (mem_filter.1 hv).1
    exact ⟨hk, ps, ks, mem_filter.2 ⟨hcall, rfl⟩⟩
  call id f ps ks hcall :=
    mem_filter.2 ⟨h.call id f ps ks (mem_filter.1 hcall).1, rfl⟩
  same id f ps ks f' ps' ks' hcall hcall' :=
    h.same id f ps ks f' ps' ks' (mem_filter.1 hcall).1 (mem_filter.1 hcall').1

theorem range (h : Fresh S xs ts) {id f ps ks} (hcall : dualCall id f ps ks ∈ xs) :
    ∃ k, id = .temp k ∧ S k := by
  obtain ⟨⟨k, hk, hS, -⟩, -⟩ := h.bind id f (h.call id f ps ks hcall)
  exact ⟨k, hk, hS⟩

/-- Pieces of code that take different temporaries. -/
theorem append (h : Fresh S xs ts) (h' : Fresh T ys us) (hST : ∀ k, S k → ¬ T k) :
    Fresh (fun k => S k ∨ T k) (xs ++ ys) (ts ++ us) where
  target k hk := by
    rcases mem_append.1 hk with hk | hk
    · exact .inl (h.target k hk)
    · exact .inr (h'.target k hk)
  once k := by
    rw [count_append]
    by_cases hk : .temp k ∈ ts
    · have hus : .temp k ∉ us := fun hus => hST k (h.target k hk) (h'.target k hus)
      rw [count_eq_zero_of_not_mem hus]
      exact h.once k
    · rw [count_eq_zero_of_not_mem hk, Nat.zero_add]
      exact h'.once k
  bind id v hv := by
    rcases mem_append.1 hv with hv | hv
    · obtain ⟨⟨k, rfl, hS, hts⟩, ps, ks, hcall⟩ := h.bind id v hv
      refine ⟨⟨k, rfl, .inl hS, fun hmem => ?_⟩, ps, ks, mem_append_left _ hcall⟩
      rcases mem_append.1 hmem with hmem | hmem
      · exact hts hmem
      · exact hST k hS (h'.target k hmem)
    · obtain ⟨⟨k, rfl, hT, hus⟩, ps, ks, hcall⟩ := h'.bind id v hv
      refine ⟨⟨k, rfl, .inr hT, fun hmem => ?_⟩, ps, ks, mem_append_right _ hcall⟩
      rcases mem_append.1 hmem with hmem | hmem
      · exact hST k (h.target k hmem) hT
      · exact hus hmem
  call id f ps ks hcall := by
    rcases mem_append.1 hcall with hcall | hcall
    · exact mem_append_left _ (h.call id f ps ks hcall)
    · exact mem_append_right _ (h'.call id f ps ks hcall)
  same id f ps ks f' ps' ks' hcall hcall' := by
    rcases mem_append.1 hcall with hcall | hcall <;>
      rcases mem_append.1 hcall' with hcall' | hcall'
    · exact h.same id f ps ks f' ps' ks' hcall hcall'
    · obtain ⟨k, rfl, hS⟩ := h.range hcall
      obtain ⟨k', hk', hT⟩ := h'.range hcall'
      cases hk'
      exact absurd hT (hST k hS)
    · obtain ⟨k, rfl, hT⟩ := h'.range hcall
      obtain ⟨k', hk', hS⟩ := h.range hcall'
      cases hk'
      exact absurd hT (hST k hS)
    · exact h'.same id f ps ks f' ps' ks' hcall hcall'

theorem seq {lo mid hi} (h : Fresh (Between lo mid) xs ts) (h' : Fresh (Between mid hi) ys us)
    (hlo : lo ≤ mid) (hhi : mid ≤ hi) : Fresh (Between lo hi) (xs ++ ys) (ts ++ us) := by
  refine (h.append h' fun k hk hk' => ?_).mono fun k hk => ?_
  · unfold Between at hk hk'
    omega
  · unfold Between at hk ⊢
    omega

/-- One more target, with a temporary that was not taken yet. -/
theorem cons_temp (h : Fresh S xs ts) {k} (hk : ¬ S k) :
    Fresh (fun j => j = k ∨ S j) xs (.temp k :: ts) := by
  have hone : Fresh (· = k) [] [.temp k] :=
    { target := fun j hj => by simpa using hj
      once := fun j => by
        have := count_le_length (a := Ident.temp j) (l := [.temp k])
        simpa using this
      bind := fun _ _ hv => nomatch hv
      call := fun _ _ _ _ hcall => nomatch hcall
      same := fun _ _ _ _ _ _ _ hcall => nomatch hcall }
  exact hone.append h fun j hj hS => hk (hj ▸ hS)

/-- Targets that are no temporaries change nothing. -/
theorem of_count (h : Fresh S xs ts) (hcount : ∀ k, us.count (.temp k) = ts.count (.temp k)) :
    Fresh S xs us := by
  have hmem : ∀ k, .temp k ∈ us ↔ .temp k ∈ ts := fun k => by
    rw [← count_pos_iff, ← count_pos_iff, hcount]
  exact { h with
      target := fun k hk => h.target k ((hmem k).1 hk)
      once := fun k => hcount k ▸ h.once k
      bind := fun id v hv => by
        obtain ⟨⟨k, hk, hS, hts⟩, hcall⟩ := h.bind id v hv
        exact ⟨⟨k, hk, hS, fun hus => hts ((hmem k).1 hus)⟩, hcall⟩ }

end Fresh

/-! ## Every temporary belongs to one function -/

/-- A piece of code that itself binds `own`, and in which functions are defined that bind `inner`:
all temporaries are of the set `S`, and none is bound in two functions. -/
structure Separate (S : Nat → Prop) (own : List Ident) (inner : List (List Ident)) : Prop where
  within : ∀ l ∈ own :: inner, ∀ k, .temp k ∈ l → S k
  apart : (own :: inner).Pairwise fun l l' => ∀ k, .temp k ∈ l → .temp k ∉ l'

namespace Separate

variable {S T : Nat → Prop} {own own' : List Ident} {inner inner' : List (List Ident)}

theorem single (h : ∀ k, .temp k ∈ own → S k) : Separate S own [] where
  within := by simpa using h
  apart := by simp

theorem mono (h : Separate S own inner) (hST : ∀ k, S k → T k) : Separate T own inner where
  within l hl k hk := hST k (h.within l hl k hk)
  apart := h.apart

theorem of_temps (h : Separate S own inner) (hown : ∀ k, .temp k ∈ own' → .temp k ∈ own) :
    Separate S own' inner where
  within l hl k hk := by
    rcases mem_cons.1 hl with rfl | hl
    · exact h.within own mem_cons_self k (hown k hk)
    · exact h.within l (mem_cons_of_mem _ hl) k hk
  apart := by
    obtain ⟨hhead, htail⟩ := pairwise_cons.1 h.apart
    exact pairwise_cons.2 ⟨fun l hl k hk => hhead l hl k (hown k hk), htail⟩

/-- Pieces of code of one function that take different temporaries. -/
theorem append (h : Separate S own inner) (h' : Separate T own' inner') (hST : ∀ k, S k → ¬ T k) :
    Separate (fun k => S k ∨ T k) (own ++ own') (inner ++ inner') where
  within l hl k hk := by
    rcases mem_cons.1 hl with rfl | hl
    · rcases mem_append.1 hk with hk | hk
      · exact .inl (h.within _ mem_cons_self k hk)
      · exact .inr (h'.within _ mem_cons_self k hk)
    · rcases mem_append.1 hl with hl | hl
      · exact .inl (h.within l (mem_cons_of_mem _ hl) k hk)
      · exact .inr (h'.within l (mem_cons_of_mem _ hl) k hk)
  apart := by
    obtain ⟨hhead, htail⟩ := pairwise_cons.1 h.apart
    obtain ⟨hhead', htail'⟩ := pairwise_cons.1 h'.apart
    have hcross : ∀ l ∈ own :: inner, ∀ l' ∈ own' :: inner', ∀ k, .temp k ∈ l → .temp k ∉ l' :=
      fun l hl l' hl' k hk hk' => hST k (h.within l hl k hk) (h'.within l' hl' k hk')
    refine pairwise_cons.2 ⟨fun l hl k hk hkl => ?_, pairwise_append.2
      ⟨htail, htail', fun l hl l' hl' => hcross l (mem_cons_of_mem _ hl) l'
        (mem_cons_of_mem _ hl')⟩⟩
    rcases mem_append.1 hl with hl | hl <;> rcases mem_append.1 hk with hk | hk
    · exact hhead l hl k hk hkl
    · exact hcross l (mem_cons_of_mem _ hl) own' mem_cons_self k hkl hk
    · exact hcross own mem_cons_self l (mem_cons_of_mem _ hl) k hk hkl
    · exact hhead' l hl k hk hkl

theorem seq {lo mid hi} (h : Separate (Between lo mid) own inner)
    (h' : Separate (Between mid hi) own' inner') (hlo : lo ≤ mid) (hhi : mid ≤ hi) :
    Separate (Between lo hi) (own ++ own') (inner ++ inner') := by
  refine (h.append h' fun k hk hk' => ?_).mono fun k hk => ?_
  · unfold Between at hk hk'
    omega
  · unfold Between at hk ⊢
    omega

/-- The code of a function becomes that of an inner function, with other code around it. -/
theorem enclose (h : Separate S own inner) (hown : ∀ k, .temp k ∈ own' → T k)
    (hST : ∀ k, T k → ¬ S k) : Separate (fun k => T k ∨ S k) own' (own :: inner) where
  within l hl k hk := by
    rcases mem_cons.1 hl with rfl | hl
    · exact .inl (hown k hk)
    · exact .inr (h.within l hl k hk)
  apart := by
    refine pairwise_cons.2 ⟨fun l hl k hk hkl => ?_, h.apart⟩
    exact hST k (hown k hk) (h.within l hl k hkl)

end Separate

/-! ## What a piece of code binds -/

/-- What matters of a piece of code: the choices among its expressions, the targets of its
assignments and loops, the functions defined in it, and what its own code binds. -/
structure Ledger where
  choices : List Expr
  targets : List Ident
  functions : List Script.Function
  bound : List Ident

instance : Append Ledger where
  append a b := ⟨a.choices ++ b.choices, a.targets ++ b.targets, a.functions ++ b.functions,
    a.bound ++ b.bound⟩

namespace Ledger

/-- The ledger of statements. -/
def ofBody (ss : List Stmt) : Ledger where
  choices := (partsIn ss).filter isChoice
  targets := targetsIn ss
  functions := functionsIn ss
  bound := assignedInBody ss

/-- The ledger of expressions. -/
def ofExprs (es : List Expr) : Ledger where
  choices := (partsOf es).filter isChoice
  targets := []
  functions := []
  bound := assignedIn es

/-- The ledger of a target. -/
def ofTarget (id : Ident) : Ledger where
  choices := []
  targets := [id]
  functions := []
  bound := [id]

section

variable (a b : Ledger)

@[simp]
theorem choices_append : (a ++ b).choices = a.choices ++ b.choices := rfl

@[simp]
theorem targets_append : (a ++ b).targets = a.targets ++ b.targets := rfl

@[simp]
theorem functions_append : (a ++ b).functions = a.functions ++ b.functions := rfl

@[simp]
theorem bound_append : (a ++ b).bound = a.bound ++ b.bound := rfl

end

theorem ofBody_append (ss ts : List Stmt) : ofBody (ss ++ ts) = ofBody ss ++ ofBody ts := by
  simp only [ofBody, partsIn_append, filter_append, targetsIn_append, functionsIn_append,
    assignedInBody_append]
  rfl

/-- Two ledgers of the same temporaries. -/
structure Same (a b : Ledger) : Prop where
  choices : a.choices = b.choices
  targets : ∀ k, a.targets.count (.temp k) = b.targets.count (.temp k)
  functions : a.functions = b.functions
  bound : ∀ k, .temp k ∈ a.bound ↔ .temp k ∈ b.bound

namespace Same

variable {a b c a' b' : Ledger}

theorem refl (a : Ledger) : a.Same a :=
  ⟨rfl, fun _ => rfl, rfl, fun _ => .rfl⟩

theorem trans (h : a.Same b) (h' : b.Same c) : a.Same c where
  choices := h.choices.trans h'.choices
  targets k := (h.targets k).trans (h'.targets k)
  functions := h.functions.trans h'.functions
  bound k := (h.bound k).trans (h'.bound k)

theorem append (h : a.Same a') (h' : b.Same b') : (a ++ b).Same (a' ++ b') where
  choices := by rw [choices_append, choices_append, h.choices, h'.choices]
  targets k := by simp only [targets_append, count_append, h.targets k, h'.targets k]
  functions := by rw [functions_append, functions_append, h.functions, h'.functions]
  bound k := by simp only [bound_append, mem_append, h.bound k, h'.bound k]

end Same

end Ledger

/-- A piece of code binds temporaries of the set `S` only, each one once or as the callee of one
call, and in a single function. -/
structure Hygienic (S : Nat → Prop) (l : Ledger) : Prop where
  fresh : Fresh S l.choices l.targets
  separate : Separate S l.bound (l.functions.map Function.bound)

namespace Hygienic

variable {lo mid hi : Nat} {a b : Ledger}

theorem nil : Hygienic (Between lo hi) (.ofBody []) where
  fresh := .nil
  separate := .single fun _ hk => nomatch hk

theorem seq (h : Hygienic (Between lo mid) a) (h' : Hygienic (Between mid hi) b) (hlo : lo ≤ mid)
    (hhi : mid ≤ hi) : Hygienic (Between lo hi) (a ++ b) where
  fresh := h.fresh.seq h'.fresh hlo hhi
  separate := by
    rw [Ledger.bound_append, Ledger.functions_append, map_append]
    exact h.separate.seq h'.separate hlo hhi

theorem of_same (h : Hygienic (Between lo hi) b) (hab : a.Same b) : Hygienic (Between lo hi) a where
  fresh := by
    rw [hab.choices]
    exact h.fresh.of_count hab.targets
  separate := by
    rw [hab.functions]
    exact h.separate.of_temps fun k => (hab.bound k).1

theorem target : Hygienic (Between lo (lo + 1)) (.ofTarget (.temp (lo + 1))) where
  fresh := by
    refine ((Fresh.nil (S := fun _ => False)).cons_temp id).mono fun k hk => ?_
    rw [hk.resolve_right id]
    exact ⟨Nat.lt_succ_self lo, Nat.le_refl _⟩
  separate := .single fun k hk => by
    cases mem_singleton.1 hk
    exact ⟨Nat.lt_succ_self lo, Nat.le_refl _⟩

theorem loop (h : Hygienic (Between (lo + 1 + 1) mid) a)
    (h' : Hygienic (Between (mid + 1 + 1) hi) b) (hlo : lo + 1 + 1 ≤ mid) (hhi : mid + 1 + 1 ≤ hi) :
    Hygienic (Between lo hi) (.ofTarget (.temp (lo + 1)) ++ .ofTarget (.temp (lo + 1 + 1)) ++ a ++
      .ofTarget (.temp (mid + 1)) ++ .ofTarget (.temp (mid + 1 + 1)) ++ b) := by
  have hbefore := ((target.seq target (Nat.le_succ lo) (Nat.le_succ _)).seq h (by omega) hlo)
  have hafter := (hbefore.seq target (by omega) (Nat.le_succ mid)).seq target (by omega)
    (Nat.le_succ _)
  exact hafter.seq h' (by omega) hhi

end Hygienic

attribute [local simp] Ledger.ofBody Ledger.ofExprs Ledger.ofTarget Stmt.emit Stmt.pushFrame
  Stmt.popFrame Stmt.frameSet Expr.joined Expr.method Expr.helper Expr.text Expr.int isChoice
  Target.assigned count_cons
  partsIn Stmt.parts Expr.parts partsOf partsOfEntries partsOfOperands targetsIn Stmt.targets
  functionsIn Stmt.functions assignedInBody Stmt.assigned Expr.assigned assignedIn assignedInEntries
  assignedInOperands

@[simp]
theorem parts_ofContent (c : Node.Content) : (Expr.ofContent c).parts.filter isChoice = [] := by
  cases c <;> rfl

@[simp]
theorem assigned_ofContent (c : Node.Content) : (Expr.ofContent c).assigned = [] := by
  cases c <;> rfl

namespace Ledger

/-! ### The ledgers of the building blocks -/

/-- Code that binds no temporary. -/
def Idle (ss : List Stmt) : Prop :=
  Same (ofBody ss) (ofBody [])

variable {ss : List Stmt}

theorem Idle.append {ts} (hss : Idle ss) (hts : Idle ts) : Idle (ss ++ ts) := by
  unfold Idle at *
  rw [ofBody_append]
  exact hss.append hts

theorem Idle.flatMap {α : Type} {f} (h : ∀ a, Idle (f a)) (as : List α) : Idle (as.flatMap f) := by
  induction as with
  | nil => exact .refl _
  | cons a rest ih => exact (h a).append ih

theorem idle_store (id : Ident) (name : String) : Idle (store id name) := by
  unfold store
  split <;> exact .refl _

theorem idle_publication (child : Bool) (c : Node.Content) : Idle (publication child c) := by
  unfold publication
  split
  · split
    · exact .refl _
    · split <;> exact .refl _
  · exact .refl _

theorem idle_publishImport (child : Bool) (name : String) : Idle (publishImport child name) := by
  unfold publishImport
  split <;> exact .refl _

theorem idle_importName (child : Bool) (template exports : Ident) (name bound : String) :
    Idle (importName child template exports name bound) := by
  refine @Idle.append [_] _ ?_ (idle_publishImport child bound)
  exact ⟨rfl, fun k => rfl, rfl, fun k => by simp⟩

theorem idle_blockReference (site : Site) (c : Node.Content) : Idle [blockReference site c] := by
  unfold blockReference
  cases c <;> split <;> exact .refl _

theorem Same.append_idle {a b} (hab : a.Same b) (h : Idle ss) : (a ++ ofBody ss).Same b := by
  refine (hab.append h).trans ⟨?_, fun k => ?_, ?_, fun k => ?_⟩
  · exact append_nil _
  · rw [targets_append]
    exact congrArg (count _) (append_nil _)
  · exact append_nil _
  · rw [bound_append]
    exact iff_of_eq (congrArg (_ ∈ ·) (append_nil _))

theorem Same.idle_append {a b} (hab : a.Same b) (h : Idle ss) : (ofBody ss ++ a).Same b :=
  (Same.append h hab).trans ⟨rfl, fun _ => rfl, rfl, fun _ => .rfl⟩

theorem same_branch (e : Expr) (ss ts : List Stmt) :
    Same (ofBody [.branch e (if ss.isEmpty then [.pass] else ss) ts])
      (ofExprs [e] ++ (ofBody ss ++ ofBody ts)) := by
  cases ss <;> constructor <;> simp

theorem same_sequenceLoop (name : String) (index arr length value : Ident) (e : Expr)
    (ss : List Stmt) :
    Same (ofBody ([.pushFrame] ++ sequenceLoop name index arr length value e ss ++ [.popFrame]))
      (ofTarget index ++ ofTarget arr ++ ofExprs [e] ++ ofTarget length ++ ofTarget value ++
        ofBody ss) := by
  simp only [sequenceLoop, sequenceRound, sequenceRecord]
  constructor
  case targets => simp; omega
  case bound => simp; grind
  all_goals simp

theorem same_pairLoop (keyName valueName : String) (index arr key value : Ident) (e : Expr)
    (ss : List Stmt) :
    Same (ofBody ([.pushFrame] ++ pairLoop keyName valueName index arr key value e ss ++
        [.popFrame]))
      (ofTarget index ++ ofTarget arr ++ ofExprs [e] ++ ofTarget key ++ ofTarget value ++
        ofBody ss) := by
  simp only [pairLoop, pairRound, pairRecord]
  constructor
  case targets => simp; omega
  case bound => simp; grind
  all_goals simp

theorem same_emit (buffer : Ident) (e : Expr) :
    Same (ofBody [.emit buffer (.helper .toStr [e])]) (ofExprs [e]) := by
  constructor <;> simp

theorem same_assign (id : Ident) (e : Expr) :
    Same (ofBody [.assign id e]) (ofTarget id ++ ofExprs [e]) := by
  constructor <;> simp

theorem same_inheritance (e : Expr) (key : Ident) :
    Same (ofBody (inheritance e key)) (ofExprs [e] ++ ofTarget key) := by
  unfold inheritance
  constructor <;> simp

theorem same_inclusion (id buffer : Ident) (e : Expr) :
    Same (ofBody [.assign id (.method (.name .env) .getTemplate [e]), .emit buffer (.rendered id)])
      (ofTarget id ++ ofExprs [e]) := by
  constructor <;> simp

theorem same_importAll (target : String) (e : Expr) :
    Same (ofBody [.assign (.localName target) (moduleOf e)]) (ofExprs [e]) := by
  unfold moduleOf
  constructor <;> simp

theorem same_importNames (id exports : Ident) (e : Expr) :
    Same (ofBody [.assign id e, .assign exports (moduleOf (.name id))])
      (ofTarget id ++ ofTarget exports ++ ofExprs [e]) := by
  unfold moduleOf
  constructor
  case bound => simp; grind
  all_goals simp

end Ledger

/-- The function that a macro definition defines. -/
def macroFunction (c : Node.Content) (names : List Node.Content) (ss : List Stmt) :
    Script.Function where
  name := .macroName c.text
  params := names.map (fun p => .localName p.text) ++ [.frame]
  body := [.assign .macroOutput (.list [])] ++ ss ++ [.ret (.joined .macroOutput)]

variable {ss : List Stmt} {lo hi : Nat} {p p' : Progress} {f : Script.Function}

theorem mem_bound_macroFunction {c names k} (hk : .temp k ∈ (macroFunction c names ss).bound) :
    .temp k ∈ assignedInBody ss := by
  simpa [Function.bound, macroFunction, ownedBy, assignedInBody_append] using hk

/-- What the body of a macro binds belongs to the macro's function, what its signature binds to the
function around it. -/
theorem Hygienic.macroDefinition {mid es} (h : Hygienic (Between lo mid) (.ofBody ss))
    (h' : Hygienic (Between mid hi) (.ofExprs es)) (hlo : lo ≤ mid) (hhi : mid ≤ hi)
    (c : Node.Content) (names : List Node.Content) :
    Hygienic (Between lo hi) (.ofBody (macroDefinition c names es ss)) where
  fresh := by
    have hchoices : (Ledger.ofBody (Compile.macroDefinition c names es ss)).choices =
        (Ledger.ofBody ss).choices ++ (Ledger.ofExprs es).choices := by
      simp [Compile.macroDefinition]
    rw [hchoices]
    refine (h.fresh.seq h'.fresh hlo hhi).of_count fun k => ?_
    simp [Compile.macroDefinition]
  separate := by
    have hfunctions : (Ledger.ofBody (Compile.macroDefinition c names es ss)).functions =
        macroFunction c names ss :: functionsIn ss := by
      simp [Compile.macroDefinition, macroFunction]
    have hbound : ∀ k, .temp k ∈ (Ledger.ofBody (Compile.macroDefinition c names es ss)).bound →
        Between mid hi k := fun k hk => by
      refine h'.separate.within (assignedIn es) List.mem_cons_self k ?_
      simpa [Compile.macroDefinition] using hk
    have hinner := h.separate.of_temps fun k => @mem_bound_macroFunction ss c names k
    rw [hfunctions, List.map_cons]
    refine (hinner.enclose hbound fun k hk hk' => ?_).mono fun k hk => ?_
    · unfold Between at hk hk'
      omega
    · unfold Between at hk ⊢
      omega

/-! ### All generated code is hygienic -/

variable {scope : Scope Ident}

theorem Emits.hygienic {n e} (h : Emits scope n p e p') :
    Hygienic (Between p.temps p'.temps) (.ofExprs [e]) where
  fresh := by
    have hfresh := (Fresh.ofPieces h.pieces).filter
    simpa using hfresh
  separate := .single fun k hk => by
    have hk : .temp k ∈ e.assigned := by simpa using hk
    obtain ⟨v, hv⟩ := e.mem_assigned_iff.1 hk
    obtain ⟨⟨j, hj, hrange⟩, -⟩ := h.pieces.bind _ v hv
    cases hj
    exact hrange

theorem BuildsOutputs.hygienic {buffer items} (h : BuildsOutputs scope buffer items p ss p') :
    Hygienic (Between p.temps p'.temps) (.ofBody ss) := by
  induction h with
  | nil => exact .nil
  | text _ ih =>
    split
    · exact ih
    · exact ih
  | expr _ he h ih =>
    refine (he.hygienic.seq ih he.advances.temps_le h.advances.temps_le).of_same ?_
    rw [← singleton_append, Ledger.ofBody_append]
    exact (Ledger.same_emit _ _).append (.refl _)

theorem BuildsSignature.hygienic {params es} (h : BuildsSignature scope params p es p') :
    Hygienic (Between p.temps p'.temps) (.ofExprs es) := by
  induction h with
  | nil => exact .nil
  | required _ _ ih =>
    refine ih.of_same ⟨?_, fun _ => rfl, rfl, fun k => ?_⟩
    · simp
    · simp
  | optional _ he h ih =>
    refine (he.hygienic.seq ih he.advances.temps_le h.advances.temps_le).of_same
      ⟨?_, fun _ => rfl, rfl, fun k => ?_⟩
    · simp
    · simp

mutual

/-- The code of a statement is hygienic, with the temporaries that its compilation handed out. -/
theorem Builds.hygienic {site scope scope' n p p' ss} : Builds site scope n p ss scope' p' →
    Hygienic (Between p.temps p'.temps) (.ofBody ss)
  | .text => by
    split
    · exact .nil
    · exact .nil
  | .output h => h.hygienic
  | .sequence h => h.hygienic
  | .conditional he h => by
    have hbranches := h.hygienic.seq .nil h.temps_le (Nat.le_refl _)
    exact (he.hygienic.seq hbranches he.advances.temps_le h.temps_le).of_same
      (Ledger.same_branch _ _ _)
  | .alternative he h h' => by
    have hbranches := h.hygienic.seq h'.hygienic h.temps_le h'.temps_le
    exact (he.hygienic.seq hbranches he.advances.temps_le
      (Nat.le_trans h.temps_le h'.temps_le)).of_same (Ledger.same_branch _ _ _)
  | .sequenceLoop _ he h =>
    (Hygienic.loop he.hygienic h.hygienic he.advances.temps_le h.temps_le).of_same
      (Ledger.same_sequenceLoop _ _ _ _ _ _ _)
  | .pairLoop _ he h =>
    (Hygienic.loop he.hygienic h.hygienic he.advances.temps_le h.temps_le).of_same
      (Ledger.same_pairLoop _ _ _ _ _ _ _ _)
  | .assign he _ => by
    refine (Hygienic.target.seq he.hygienic (Nat.le_succ _) he.advances.temps_le).of_same ?_
    rw [← singleton_append, Ledger.ofBody_append]
    exact (Ledger.same_assign _ _).append_idle (.flatMap (Ledger.idle_store _) _)
  | .macroDef _ _ h hes => by
    rw [Ledger.ofBody_append]
    exact (h.hygienic.macroDefinition hes.hygienic h.temps_le hes.advances.temps_le _ _).of_same
      ((Ledger.Same.refl _).append_idle (Ledger.idle_publication _ _))
  | .block _ => Hygienic.nil.of_same (Ledger.idle_blockReference _ _)
  | .inherit _ he =>
    (he.hygienic.seq .target he.advances.temps_le (Nat.le_succ _)).of_same
      (Ledger.same_inheritance _ _)
  | .inclusion he =>
    (Hygienic.target.seq he.hygienic (Nat.le_succ _) he.advances.temps_le).of_same
      (Ledger.same_inclusion _ _ _)
  | .importAll he => by
    refine he.hygienic.of_same ?_
    rw [← singleton_append, Ledger.ofBody_append]
    exact (Ledger.same_importAll _ _).append_idle (Ledger.idle_publishImport _ _)
  | .importNames he => by
    have htargets := Hygienic.target.seq .target (Nat.le_succ p.temps) (Nat.le_succ _)
    refine (htargets.seq he.hygienic (by omega) he.advances.temps_le).of_same ?_
    rw [Ledger.ofBody_append]
    exact (Ledger.same_importNames _ _ _).append_idle
      (.flatMap (fun _ => Ledger.idle_importName _ _ _ _ _) _)

theorem BuildsAll.hygienic {site scope scope' ns p p' ss} : BuildsAll site scope ns p ss scope' p' →
    Hygienic (Between p.temps p'.temps) (.ofBody ss)
  | .nil => .nil
  | .cons h hs => by
    rw [Ledger.ofBody_append]
    exact h.hygienic.seq hs.hygienic h.temps_le hs.temps_le

end

/-- The ledger of functions that stand beside each other. -/
def Ledger.ofFunctions (fs : List Script.Function) : Ledger where
  choices := (fs.flatMap fun f => partsIn f.body).filter isChoice
  targets := fs.flatMap fun f => targetsIn f.body
  functions := fs.flatMap fun f => f :: functionsIn f.body
  bound := []

theorem Ledger.ofFunctions_cons (f : Script.Function) (fs : List Script.Function) :
    ofFunctions (f :: fs) = ofFunctions [f] ++ ofFunctions fs := by
  show _ = (⟨_, _, _, _⟩ : Ledger)
  simp [ofFunctions]

/-- A function whose parameters are no temporaries. -/
theorem Hygienic.function (h : Hygienic (Between lo hi) (.ofBody f.body))
    (hparams : ∀ k, .temp k ∉ f.params) :
    Hygienic (Between lo hi) (.ofFunctions [f]) where
  fresh := by simpa [Ledger.ofFunctions] using h.fresh
  separate := by
    have hinner : Separate (Between lo hi) f.bound _ := h.separate.of_temps fun k hk => by
      simpa [Function.bound, ownedBy, hparams k, Ledger.ofBody] using hk
    have henclosed : Separate (fun k => False ∨ Between lo hi k) [] _ :=
      hinner.enclose (fun k hk => nomatch hk) fun k hk => hk.elim
    simpa [Ledger.ofFunctions, Ledger.ofBody] using henclosed

theorem not_mem_entryParams (k : Nat) : Ident.temp k ∉ entryParams := by
  simp [entryParams]

/-- What a function does before and after its statements binds no temporary. -/
theorem Hygienic.body {head last} (h : Hygienic (Between lo hi) (.ofBody ss))
    (hhead : Ledger.Idle head) (hlast : Ledger.Idle last) :
    Hygienic (Between lo hi) (.ofBody (head ++ ss ++ last)) := by
  rw [Ledger.ofBody_append, Ledger.ofBody_append]
  exact h.of_same ((Ledger.Same.refl _).idle_append hhead |>.append_idle hlast)

theorem idle_ret_joined (buffer : Ident) : Ledger.Idle [.ret (.joined buffer)] :=
  ⟨rfl, fun _ => rfl, rfl, fun _ => .rfl⟩

theorem idle_delegation (child : Bool) : Ledger.Idle (delegation child) := by
  unfold delegation
  split
  · exact ⟨rfl, fun _ => rfl, rfl, fun _ => .rfl⟩
  · exact .refl _

theorem hygienic_rootFunction {items} (h : Gives (rootFunction items) p f p') :
    p.temps ≤ p'.temps ∧ Hygienic (Between p.temps p'.temps) (.ofFunctions [f]) := by
  obtain ⟨ss, _, hbuilds, rfl⟩ := gives_rootFunction h
  refine ⟨hbuilds.temps_le, .function ?_ not_mem_entryParams⟩
  have hss : Hygienic (Between p.temps p'.temps) (.ofBody (ss ++ delegation p'.child)) := by
    rw [Ledger.ofBody_append]
    exact hbuilds.hygienic.of_same ((Ledger.Same.refl _).append_idle (idle_delegation _))
  refine hss.body ⟨rfl, fun k => ?_, rfl, fun k => ?_⟩ (idle_ret_joined .output)
  · simp
  · simp

theorem hygienic_blockFunction {name body} (h : Gives (blockFunction name body) p f p') :
    p.temps ≤ p'.temps ∧ Hygienic (Between p.temps p'.temps) (.ofFunctions [f]) := by
  obtain ⟨ss, _, hbuilds, rfl⟩ := gives_blockFunction h
  refine ⟨hbuilds.temps_le, .function ?_ not_mem_entryParams⟩
  refine hbuilds.hygienic.body ⟨?_, fun k => ?_, rfl, fun k => ?_⟩ (idle_ret_joined .output)
  · simp
  · simp
  · simp

theorem BuildsBlocks.hygienic {table fs} (h : BuildsBlocks table p fs p') :
    p.temps ≤ p'.temps ∧ Hygienic (Between p.temps p'.temps) (.ofFunctions fs) := by
  induction h with
  | nil => exact ⟨Nat.le_refl _, .nil⟩
  | cons hf _ ih =>
    obtain ⟨hle, hfirst⟩ := hygienic_blockFunction hf
    rw [Ledger.ofFunctions_cons]
    exact ⟨Nat.le_trans hle ih.1, hfirst.seq ih.2 hle ih.1⟩

theorem hygienic_templateModule {n m names} (h : Gives (templateModule n) p (m, names) p') :
    Hygienic (Between p.temps p'.temps) (.ofFunctions m.functions) := by
  obtain ⟨pos, items, root, table, blocks, q, -, hroot, -, hblocks, rfl, -⟩ :=
    gives_templateModule h
  obtain ⟨hle, hfirst⟩ := hygienic_rootFunction hroot
  obtain ⟨hle', hrest⟩ := (buildsBlocks_of_gives hblocks).hygienic
  rw [Ledger.ofFunctions_cons]
  exact hfirst.seq hrest hle hle'

end Compile

end Stencil
