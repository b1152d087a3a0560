import Stencil.Proofs.Acceptance
import Stencil.Proofs.Loading

/-!
# Templates that compile and cannot be loaded

A tree that obeys the grammar compiles, but its module may still be refused when it is loaded: when
a comparison compares nothing (`Node.comparesNothing`), a macro takes one parameter twice
(`Node.repeatedParam?`) or loops are nested too deep (`Node.nestsTooDeep`). The generated code has
such a flaw exactly when the compiled part of the tree has it (`loadError?_of_gives`), so these and
a null character in the file name are the only reasons why loading a template fails otherwise than
with a report.
-/

namespace Stencil

open Compile List Script

variable {n tree : Node}

/-! ## Flaws of a tree -/

namespace Node

mutual

/-- Whether a comparison without operands gets into the code of a node. The keyword arguments of a
filter do not get there, nor does the body of a block into the code of the reference to it. -/
def comparesNothing : Node → Bool
  | compare _ first rest => rest.isEmpty || (comparesNothing first || comparesNothingIn rest)
  | group _ items | array _ items | dict _ items | output _ items | sequence _ items =>
    comparesNothingIn items
  | pair _ _ e | operand _ e _ | keyword _ _ e | unary _ _ e | assign _ _ e | inherit _ e
  | inclusion _ e | importAll _ e _ | importNames _ e _ => comparesNothing e
  | binary _ _ a b | lookup _ a b | loop _ _ a b => comparesNothing a || comparesNothing b
  | call _ callee none => comparesNothing callee
  | call _ callee (some args) => comparesNothing callee || comparesNothingIn args
  | filter _ _ (some args) => positionalComparesNothing args
  | conditional _ test body none => comparesNothing test || comparesNothing body
  | conditional _ test body (some otherwise) =>
    comparesNothing test || (comparesNothing body || comparesNothing otherwise)
  | param _ _ (some d) => comparesNothing d
  | macroDef _ _ params body => comparesNothing body || comparesNothingIn params
  | _ => false

/-- Whether a comparison without operands gets into the code of nodes. -/
def comparesNothingIn : List Node → Bool
  | [] => false
  | n :: rest => comparesNothing n || comparesNothingIn rest

/-- Whether a comparison without operands gets into the code of positional arguments. -/
def positionalComparesNothing : List Node → Bool
  | [] => false
  | keyword .. :: rest => positionalComparesNothing rest
  | n :: rest => comparesNothing n || positionalComparesNothing rest

end

/-- The names of the parameters of a macro. -/
def paramNames (params : List Node) : List String :=
  params.filterMap fun param => param.nameNode?.bind textName?

/-- The first name of a list that also occurs before its place. -/
def firstRepeated? (seen : List String) : List String → Option String
  | [] => none
  | x :: rest => if x ∈ seen then some x else firstRepeated? (x :: seen) rest

mutual

/-- The first parameter that a macro defined in a statement takes twice. -/
def repeatedParam? : Node → Option String
  | sequence _ items => repeatedParamIn? items
  | conditional _ _ body none | loop _ _ _ body => repeatedParam? body
  | conditional _ _ body (some otherwise) => (repeatedParam? body).or (repeatedParam? otherwise)
  | macroDef _ _ params body => (firstRepeated? [] (paramNames params)).or (repeatedParam? body)
  | _ => none

/-- The first parameter that a macro defined in statements takes twice. -/
def repeatedParamIn? : List Node → Option String
  | [] => none
  | n :: rest => (repeatedParam? n).or (repeatedParamIn? rest)

end

mutual

/-- Whether loops are nested too deep in the code of a statement that stands in `depth` loops of its
function. A parent template is taken over in a loop, and the body of a macro is a function of its
own. -/
def nestsTooDeep (depth : Nat) : Node → Bool
  | sequence _ items => nestTooDeep depth items
  | conditional _ _ body none => nestsTooDeep depth body
  | conditional _ _ body (some otherwise) => nestsTooDeep depth body || nestsTooDeep depth otherwise
  | loop _ _ _ body => decide (loopLimit ≤ depth) || nestsTooDeep (depth + 1) body
  | inherit .. => decide (loopLimit ≤ depth)
  | macroDef _ _ _ body => nestsTooDeep 0 body
  | _ => false

/-- The same for statements. -/
def nestTooDeep (depth : Nat) : List Node → Bool
  | [] => false
  | n :: rest => nestsTooDeep depth n || nestTooDeep depth rest

end

theorem comparesNothingIn_append (ns rest : List Node) : comparesNothingIn (ns ++ rest) =
      (comparesNothingIn ns || comparesNothingIn rest) := by
  induction ns with
  | nil => rfl
  | cons n others ih =>
    rw [cons_append, comparesNothingIn, comparesNothingIn, ih, Bool.or_assoc]

theorem repeatedParamIn?_append (ns rest : List Node) :
    repeatedParamIn? (ns ++ rest) = (repeatedParamIn? ns).or (repeatedParamIn? rest) := by
  induction ns with
  | nil => rfl
  | cons n others ih =>
    rw [cons_append, repeatedParamIn?, repeatedParamIn?, ih, Option.or_assoc]

theorem nestTooDeep_append (depth : Nat) (ns rest : List Node) :
    nestTooDeep depth (ns ++ rest) = (nestTooDeep depth ns || nestTooDeep depth rest) := by
  induction ns with
  | nil => rfl
  | cons n others ih => rw [cons_append, nestTooDeep, nestTooDeep, ih, Bool.or_assoc]

end Node

/-! ## Flaws of the generated code -/

namespace Script

/-- The fault of code that compares nothing. -/
def hollow (compares : Bool) : Option LoadError :=
  if compares then some .emptyComparison else none

@[simp]
theorem hollow_false : hollow false = none :=
  rfl

@[simp]
theorem hollow_or (a b : Bool) : (hollow a).or (hollow b) = hollow (a || b) := by
  cases a <;> rfl

theorem Expr.malformed?_method (object : Expr) (field : Attr) (args : List Expr) :
    (method object field args).malformed? = object.malformed?.or (malformedIn? args) := by
  simp [method, malformed?]

theorem Expr.malformed?_helper (field : Attr) (args : List Expr) :
    (helper field args).malformed? = malformedIn? args := by
  simp [helper, malformed?_method, malformed?]

theorem malformedBody?_append (ss rest : List Stmt) :
    malformedBody? (ss ++ rest) = (malformedBody? ss).or (malformedBody? rest) := by
  induction ss with
  | nil => rfl
  | cons s others ih => simp [malformedBody?, ih, Option.or_assoc]

end Script

namespace Compile

open Script (Ident Stmt hollow malformedBody? malformedIn? malformedKey? malformedValue?
  malformedOperand?)

variable {c : Node.Content}

attribute [local simp] Node.children Node.comparesNothing Node.comparesNothingIn
  Expr.malformed? Expr.malformed?_method Expr.malformed?_helper malformedIn?
  malformedKey? malformedValue? malformedOperand? Expr.text Expr.int

theorem malformed?_reference (scope : Scope Ident) (x : String) :
    (reference scope x).malformed? = none := by
  unfold reference
  split <;> rfl

theorem malformed?_ofContent (hn : n.isName = true) (hc : n.content? = some c) :
    (Expr.ofContent c).malformed? = none := by
  obtain ⟨pos, name, rfl⟩ := Node.exists_of_isName hn
  cases hc
  rfl

theorem malformed?_dualCall {callee function positional keywords a b c}
    (hfunction : function.malformed? = hollow a) (hpositional : malformedIn? positional = hollow b)
    (hkeys : malformedKey? keywords = none) (hvalues : malformedValue? keywords = hollow c) :
    (dualCall callee function positional keywords).malformed? = hollow (a || (b || c)) := by
  simp only [dualCall, Expr.malformed?, Expr.malformed?_helper, malformedIn?,
    hfunction, hpositional, hkeys, hvalues]
  cases a <;> cases b <;> cases c <;> rfl

theorem malformedValue?_cons {key e rest a b} (he : e.malformed? = hollow a)
    (hrest : malformedValue? rest = hollow b) :
    malformedValue? ((key, e) :: rest) = hollow (a || b) := by
  simp [he, hrest]

theorem positionalComparesNothing_cons (h : ∀ pos key value, n ≠ .keyword pos key value)
    (rest : List Node) : Node.positionalComparesNothing (n :: rest) =
      (n.comparesNothing || Node.positionalComparesNothing rest) := by
  cases n with
  | keyword pos key value => exact absurd rfl (h pos key value)
  | _ => rfl

theorem comparesNothing_call (pos : Position) (callee : Node) (args? : Option (List Node)) :
    (Node.call pos callee args?).comparesNothing =
      (callee.comparesNothing || Node.comparesNothingIn (args?.getD [])) := by
  cases args? <;> simp

theorem comparesNothing_filter (pos : Position) (name : Node) (args? : Option (List Node)) :
    (Node.filter pos name args?).comparesNothing =
      Node.positionalComparesNothing (args?.getD []) := by
  cases args? <;> simp [Node.positionalComparesNothing]

mutual

/-- The code of an expression compares nothing when the expression does. -/
theorem Emits.malformed? {scope n p p' e} (hn : n.Declared) :
    Emits scope n p e p' → e.malformed? = hollow n.comparesNothing
  | .literal | .text => rfl
  | .symbol => malformed?_reference scope _
  | .group h => by
    have he := h.malformed? (hn.child (by simp))
    simp [he]
  | .tuple _ h | .array h => by
    have hes := h.malformed? fun n h => hn.child h
    simp only [Expr.malformed?, Node.comparesNothing, hes]
    rfl
  | .dict h => by
    obtain ⟨hkeys, hvalues⟩ := h.malformed? fun n h => hn.child h
    simp [hkeys, hvalues]
  | .boolean _ hl hr | .binary _ hl hr => by
    have hl := hl.malformed? (hn.child (by simp))
    have hr := hr.malformed? (hn.child (by simp))
    simp [hl, hr]
  | .floorDiv hl hr | .power hl hr => by
    have hl := hl.malformed? (hn.child (by simp))
    have hr := hr.malformed? (hn.child (by simp))
    simp [hl, hr]
  | .unary _ h => by
    have he := h.malformed? (hn.child (by simp))
    simp [he]
  | .compare hf hr => by
    have hf := hf.malformed? (hn.child (by simp))
    have hes := hr.malformed? fun n h => hn.child (mem_cons_of_mem _ h)
    cases hr with
    | nil => simp [hollow]
    | cons hop he hes' =>
      simp [-malformedOperand?, -Node.comparesNothingIn, hf, hes, Bool.or_comm]
  | .lookup _ _ ht hk => by
    have ht := ht.malformed? (hn.child (by simp))
    have hk := hk.malformed? (hn.child (by simp))
    simp [ht, hk]
  | .call _ ha hf => by
    have hf := hf.malformed? (hn.child (by simp))
    obtain ⟨hpositional, hkeys, b, hvalues, hall⟩ :=
      ha.malformed? fun n h => hn.child (mem_cons_of_mem _ h)
    rw [malformed?_dualCall hf hpositional hkeys hvalues, ← hall, comparesNothing_call]
  | .filter ha => by
    obtain ⟨hpositional, -⟩ := ha.malformed? fun n h => hn.child (mem_cons_of_mem _ h)
    rw [comparesNothing_filter, ← hpositional]
    simp

theorem EmitsAll.malformed? {scope ns p p' es} (hns : ∀ n ∈ ns, n.Declared) :
    EmitsAll scope ns p es p' → malformedIn? es = hollow (Node.comparesNothingIn ns)
  | .nil => rfl
  | .cons h hs => by
    obtain ⟨hn, hrest⟩ := forall_mem_cons.1 hns
    simp [h.malformed? hn, hs.malformed? hrest]

theorem EmitsEntries.malformed? {scope ns p p' es} (hns : ∀ n ∈ ns, n.Declared) :
    EmitsEntries scope ns p es p' →
    malformedKey? es = none ∧ malformedValue? es = hollow (Node.comparesNothingIn ns)
  | .nil => ⟨rfl, rfl⟩
  | .cons _ _ h hs => by
    obtain ⟨hn, hrest⟩ := forall_mem_cons.1 hns
    have he := h.malformed? (hn.child (by simp))
    obtain ⟨hkeys, hvalues⟩ := hs.malformed? hrest
    refine ⟨?_, malformedValue?_cons he hvalues⟩
    simp [hkeys]

theorem EmitsOperands.malformed? {scope ns p p' es} (hns : ∀ n ∈ ns, n.Declared) :
    EmitsOperands scope ns p es p' → malformedOperand? es = hollow (Node.comparesNothingIn ns)
  | .nil => rfl
  | .cons _ h hs => by
    obtain ⟨hn, hrest⟩ := forall_mem_cons.1 hns
    have he := h.malformed? (hn.child (by simp))
    simp [he, hs.malformed? hrest]

/-- The code of positional arguments, and of the arguments together. -/
theorem EmitsArguments.malformed? {scope ns p p' positional keywords} (hns : ∀ n ∈ ns, n.Declared) :
    EmitsArguments scope ns p positional keywords p' →
    malformedIn? positional = hollow (Node.positionalComparesNothing ns) ∧
      malformedKey? keywords = none ∧
      ∃ b, malformedValue? keywords = hollow b ∧
        Node.comparesNothingIn ns = (Node.positionalComparesNothing ns || b)
  | .nil => ⟨rfl, rfl, false, rfl, rfl⟩
  | .keyword hc h hs => by
    obtain ⟨hn, hrest⟩ := forall_mem_cons.1 hns
    have he := h.malformed? (hn.child (by simp))
    obtain ⟨hpositional, hkeys, b, hvalues, hall⟩ := hs.malformed? hrest
    refine ⟨hpositional, ?_, _, malformedValue?_cons he hvalues, ?_⟩
    · simp [malformed?_ofContent hn.self hc, hkeys]
    · rw [Node.comparesNothingIn, hall, Node.comparesNothing, Node.positionalComparesNothing,
        Bool.or_left_comm]
  | .positional hkind h hs => by
    obtain ⟨hn, hrest⟩ := forall_mem_cons.1 hns
    have he := h.malformed? hn
    obtain ⟨hpositional, hkeys, b, hvalues, hall⟩ := hs.malformed? hrest
    rw [positionalComparesNothing_cons hkind]
    refine ⟨?_, hkeys, b, hvalues, ?_⟩
    · simp [he, hpositional]
    · rw [Node.comparesNothingIn, hall, Bool.or_assoc]

end

/-! ## Statements -/

open Script (bodyDuplicateParam? bodyNestsTooDeep firstDuplicate loopLimit)

/-- Statements compare nothing just if the first argument says so, define a function that takes a
parameter twice just if the second one names the parameter, and nest loops too deep just if the
third one says so, which is given the number of loops around them. -/
structure Flawed (ss : List Stmt) (compares : Bool) (repeated? : Option String)
    (deep : Nat → Bool) : Prop where
  malformed : malformedBody? ss = hollow compares
  duplicate : bodyDuplicateParam? ss = repeated?.map .localName
  nested (depth : Nat) : bodyNestsTooDeep depth ss = deep depth

/-- Statements without a flaw. -/
def Flawless (ss : List Stmt) : Prop :=
  Flawed ss false none fun _ => false

theorem bodyDuplicateParam?_append (ss rest : List Stmt) : bodyDuplicateParam? (ss ++ rest) =
      (bodyDuplicateParam? ss).or (bodyDuplicateParam? rest) := by
  induction ss with
  | nil => rfl
  | cons s others ih => simp [bodyDuplicateParam?, ih, Option.or_assoc]

theorem bodyNestsTooDeep_append (depth : Nat) (ss rest : List Stmt) :
    bodyNestsTooDeep depth (ss ++ rest) =
      (bodyNestsTooDeep depth ss || bodyNestsTooDeep depth rest) := by
  induction ss with
  | nil => rfl
  | cons s others ih => simp [bodyNestsTooDeep, ih, Bool.or_assoc]

namespace Flawed

variable {ss ts : List Stmt} {a b : Bool} {x? y? : Option String} {d d' : Nat → Bool}

theorem append (h : Flawed ss a x? d) (h' : Flawed ts b y? d') :
    Flawed (ss ++ ts) (a || b) (x?.or y?) fun k => d k || d' k := by
  constructor
  · rw [malformedBody?_append, h.malformed, h'.malformed, hollow_or]
  · rw [bodyDuplicateParam?_append, h.duplicate, h'.duplicate, Option.map_or]
  · intro depth
    rw [bodyNestsTooDeep_append, h.nested, h'.nested]

theorem append_sound (h : Flawed ss a x? d) (h' : Flawless ts) : Flawed (ss ++ ts) a x? d := by
  have happend := h.append h'
  simpa only [Bool.or_false, Option.or_none] using happend

theorem sound_append (h : Flawless ss) (h' : Flawed ts a x? d) : Flawed (ss ++ ts) a x? d := by
  have happend := Flawed.append h h'
  simpa only [Bool.false_or, Option.none_or] using happend

theorem nil : Flawless [] :=
  ⟨rfl, rfl, fun _ => rfl⟩

theorem flatMap {α : Type} {f} (h : ∀ a, Flawless (f a)) (as : List α) :
    Flawless (as.flatMap f) := by
  induction as with
  | nil => exact nil
  | cons a rest ih => exact sound_append (h a) ih

theorem store (id : Ident) (x : String) : Flawless (store id x) := by
  unfold Compile.store
  split <;> exact ⟨rfl, rfl, fun _ => rfl⟩

theorem publication (child : Bool) (c : Node.Content) : Flawless (publication child c) := by
  unfold Compile.publication
  repeat' split
  all_goals exact ⟨rfl, rfl, fun _ => rfl⟩

theorem publishImport (child : Bool) (name : String) : Flawless (publishImport child name) := by
  cases child <;> exact ⟨rfl, rfl, fun _ => rfl⟩

theorem importName (child : Bool) (template exports : Ident) (name bound : String) :
    Flawless (importName child template exports name bound) := by
  cases child <;> exact ⟨rfl, rfl, fun _ => rfl⟩

theorem delegation (child : Bool) : Flawless (delegation child) := by
  cases child <;> exact ⟨rfl, rfl, fun _ => rfl⟩

theorem blockReference (site : Site) (hn : n.isName = true) (hc : n.content? = some c) :
    Flawless [blockReference site c] := by
  obtain ⟨pos, name, rfl⟩ := Node.exists_of_isName hn
  cases hc
  unfold blockReference
  split <;> exact ⟨rfl, rfl, fun _ => rfl⟩

theorem orPass (h : Flawed ss a x? d) : Flawed (if ss.isEmpty then [.pass] else ss) a x? d := by
  cases ss <;> exact ⟨h.malformed, h.duplicate, h.nested⟩

theorem framed (h : Flawed ss a x? d) : Flawed ([.pushFrame] ++ ss ++ [.popFrame]) a x? d :=
  (sound_append ⟨rfl, rfl, fun _ => rfl⟩ h).append_sound ⟨rfl, rfl, fun _ => rfl⟩

attribute [local simp] malformedBody? Stmt.malformed? bodyDuplicateParam? Stmt.duplicateParam?
  bodyNestsTooDeep Stmt.nestsTooDeep Stmt.emit Stmt.pushFrame Stmt.popFrame Stmt.frameSet
  Expr.joined Option.map_or bodyDuplicateParam?_append malformedBody?_append
  bodyNestsTooDeep_append

theorem single {s} (h : s.malformed? = hollow a) (h' : s.duplicateParam? = none)
    (h'' : ∀ depth, s.nestsTooDeep depth = d depth) : Flawed [s] a none d := by
  constructor
  · simp [h]
  · simp [h']
  · simp [h'']

variable {e : Expr}

theorem branch {c} (he : e.malformed? = hollow c) (h : Flawed ss a x? d) (h' : Flawed ts b y? d') :
    Flawed [.branch e ss ts] (c || (a || b)) (x?.or y?) fun k => d k || d' k := by
  constructor
  · simp [he, h.malformed, h'.malformed]
  · simp [h.duplicate, h'.duplicate]
  · simp [h.nested, h'.nested]

theorem sequenceLoop (name : String) (index arr length value : Ident) (he : e.malformed? = hollow b)
    (h : Flawed ss a x? d) : Flawed (sequenceLoop name index arr length value e ss) (b || a) x?
      fun k => decide (loopLimit ≤ k) || d (k + 1) := by
  constructor
  · simp [Compile.sequenceLoop, sequenceRound, sequenceRecord, he, h.malformed]
  · simp [Compile.sequenceLoop, sequenceRound, sequenceRecord, h.duplicate]
  · simp [Compile.sequenceLoop, sequenceRound, sequenceRecord, h.nested]

theorem pairLoop (keyName valueName : String) (index arr key value : Ident)
    (he : e.malformed? = hollow b) (h : Flawed ss a x? d) :
    Flawed (pairLoop keyName valueName index arr key value e ss) (b || a) x?
      fun k => decide (loopLimit ≤ k) || d (k + 1) := by
  constructor
  · simp [Compile.pairLoop, pairRound, pairRecord, he, h.malformed]
  · simp [Compile.pairLoop, pairRound, pairRecord, h.duplicate]
  · simp [Compile.pairLoop, pairRound, pairRecord, h.nested]

theorem macroDefinition {names signature} (hn : n.isName = true) (hc : n.content? = some c)
    (hsignature : malformedIn? signature = hollow b)
    (hnames : firstDuplicate [] (names.map (fun c => .localName c.text) ++ [.frame]) =
      y?.map .localName) (h : Flawed ss a x? d) :
    Flawed (macroDefinition c names signature ss) (a || b) (y?.or x?) fun _ => d 0 := by
  constructor
  · simp [Compile.macroDefinition, malformed?_ofContent hn hc, h.malformed, hsignature]
  · simp [Compile.macroDefinition, hnames, h.duplicate]
  · simp [Compile.macroDefinition, h.nested]

end Flawed

theorem malformed?_emit (buffer : Ident) (e : Expr) :
    (Stmt.emit buffer e).malformed? = e.malformed? := by
  simp [Stmt.emit, Stmt.malformed?]

variable {p' : Progress} {params : List Node} {names : List Node.Content}

theorem BuildsOutputs.flawed {scope buffer items p ss} (hitems : ∀ n ∈ items, n.Declared)
    (h : BuildsOutputs scope buffer items p ss p') :
    Flawed ss (Node.comparesNothingIn items) none fun _ => false := by
  induction h with
  | nil => exact .nil
  | @text pos s rest p p' ss h ih =>
    have hrest := ih (forall_mem_cons.1 hitems).2
    have htext : Node.comparesNothingIn (.text pos s :: rest) = Node.comparesNothingIn rest := by
      simp
    rw [htext]
    split
    · exact hrest
    · exact .sound_append (.single (malformed?_emit _ _) rfl fun _ => rfl) hrest
  | expr _ he h ih =>
    obtain ⟨hn, hrest⟩ := forall_mem_cons.1 hitems
    exact .append (.single (by simp [malformed?_emit, he.malformed? hn]) rfl fun _ => rfl)
      (ih hrest)

theorem BuildsSignature.malformed? {scope p es} (hparams : ∀ n ∈ params, n.Declared)
    (h : BuildsSignature scope params p es p') :
    malformedIn? es = hollow (Node.comparesNothingIn params) := by
  induction h with
  | nil => rfl
  | required hc h ih =>
    obtain ⟨hn, hrest⟩ := forall_mem_cons.1 hparams
    simp [malformed?_ofContent hn.self hc, ih hrest]
  | optional hc he h ih =>
    obtain ⟨hn, hrest⟩ := forall_mem_cons.1 hparams
    simp [malformed?_ofContent hn.self hc, he.malformed? (hn.child (by simp)), ih hrest]

theorem NamesParams.texts (h : NamesParams params names)
    (hkinds : ∀ param ∈ params, param.isParam = true) (hparams : ∀ param ∈ params, param.Declared) :
    names.map Node.Content.text = Node.paramNames params := by
  induction h with
  | nil => rfl
  | @cons n name c rest names hname hc h ih =>
    obtain ⟨hkind, hothers⟩ := forall_mem_cons.1 hkinds
    obtain ⟨hn, hrest⟩ := forall_mem_cons.1 hparams
    obtain ⟨pos, param, default?, rfl⟩ := Node.exists_of_isParam hkind
    cases hname
    obtain ⟨namePos, s, rfl⟩ := Node.exists_of_isName hn.self
    cases hc
    rw [map_cons, ih hothers hrest]
    rfl

/-- The function of a macro takes a parameter twice when the macro does. -/
theorem firstDuplicate_params (seen names : List String) :
    firstDuplicate (seen.map .localName) (names.map .localName ++ [.frame]) =
      (Node.firstRepeated? seen names).map .localName := by
  induction names generalizing seen with
  | nil =>
    rw [map_nil, nil_append, firstDuplicate, if_neg (by simp)]
    rfl
  | cons x rest ih =>
    rw [map_cons, cons_append, firstDuplicate, Node.firstRepeated?]
    have hmem : Ident.localName x ∈ seen.map Ident.localName ↔ x ∈ seen := by simp
    simp only [hmem]
    split
    · rfl
    · exact ih (x :: seen)

theorem firstDuplicate_of_texts (h : names.map Node.Content.text = Node.paramNames params) :
    firstDuplicate [] (names.map (fun c => .localName c.text) ++ [.frame]) =
      (Node.firstRepeated? [] (Node.paramNames params)).map .localName := by
  rw [← h, ← firstDuplicate_params, map_map]
  rfl

attribute [local simp] Stmt.malformed? malformed?_emit moduleOf

mutual

/-- The code of a statement has the flaws of the statement. -/
theorem Builds.flawed {site scope scope' n p p' ss} (hn : n.Declared) :
    Builds site scope n p ss scope' p' →
    Flawed ss n.comparesNothing n.repeatedParam? n.nestsTooDeep
  | .text => by
    split <;> exact ⟨rfl, rfl, fun _ => rfl⟩
  | .output h => h.flawed fun n h => hn.child h
  | .sequence h => h.flawed fun n h => hn.child h
  | .conditional he h => by
    have hbranch := Flawed.branch (he.malformed? (hn.child (by simp)))
      (h.flawed (hn.child (by simp))).orPass .nil
    simp only [Bool.or_false, Option.or_none] at hbranch
    exact hbranch
  | .alternative he h h' =>
    .branch (he.malformed? (hn.child (by simp))) (h.flawed (hn.child (by simp))).orPass
      (h'.flawed (hn.child (by simp)))
  | .sequenceLoop _ he h =>
    (Flawed.sequenceLoop _ _ _ _ _ (he.malformed? (hn.child (by simp)))
      (h.flawed (hn.child (by simp)))).framed
  | .pairLoop _ he h =>
    (Flawed.pairLoop _ _ _ _ _ _ (he.malformed? (hn.child (by simp)))
      (h.flawed (hn.child (by simp)))).framed
  | .assign he _ =>
    (Flawed.single (by simp [he.malformed? (hn.child (by simp))]) rfl fun _ => rfl).append_sound
      (.flatMap (.store _) _)
  | .macroDef hc hnames h hes => by
    have hself := Bool.and_eq_true_iff.1 hn.self
    have hes := hes.malformed? fun param hparam => hn.child (by simp [hparam])
    have htexts := hnames.texts (all_eq_true.1 hself.2) fun param hparam =>
      hn.child (by simp [hparam])
    exact (Flawed.macroDefinition hself.1 hc hes (firstDuplicate_of_texts htexts)
      (h.flawed (hn.child (by simp)))).append_sound (.publication _ _)
  | .block hc => .blockReference site hn.self hc
  | .inherit _ he => by
    have he := he.malformed? (hn.child (by simp))
    refine ⟨by simp [inheritance, malformedBody?, he], rfl, fun depth => ?_⟩
    simp [inheritance, bodyNestsTooDeep, Stmt.nestsTooDeep, Node.nestsTooDeep]
  | .inclusion he => by
    have he := he.malformed? (hn.child (by simp))
    exact ⟨by simp [malformedBody?, he], rfl, fun _ => rfl⟩
  | .importAll he => by
    have he := he.malformed? (hn.child (by simp))
    exact (Flawed.single (by simp [he]) rfl fun _ => rfl).append_sound (.publishImport _ _)
  | .importNames he => by
    have he := he.malformed? (hn.child (by simp))
    refine Flawed.append_sound ⟨?_, rfl, fun _ => rfl⟩ (.flatMap (fun _ => .importName _ _ _ _ _) _)
    simp [malformedBody?, he]

theorem BuildsAll.flawed {site scope scope' ns p p' ss} (hns : ∀ n ∈ ns, n.Declared) :
    BuildsAll site scope ns p ss scope' p' →
    Flawed ss (Node.comparesNothingIn ns) (Node.repeatedParamIn? ns) (Node.nestTooDeep · ns)
  | .nil => .nil
  | .cons h hs =>
    have hall := forall_mem_cons.1 hns
    (h.flawed hall.1).append (hs.flawed hall.2)

end

/-! ## Modules -/

/-- The first fault in the form of functions. -/
def malformedAmong? (fs : List Script.Function) : Option LoadError :=
  fs.findSome? fun f => malformedBody? f.body

/-- The first parameter that functions, or functions defined in them, take twice. -/
def duplicateAmong? (fs : List Script.Function) : Option Ident :=
  fs.findSome? fun f => firstDuplicate [] f.params <|> bodyDuplicateParam? f.body

/-- Functions have the flaws of the nodes that they are compiled from. -/
structure SharesFlaws (fs : List Script.Function) (ns : List Node) : Prop where
  malformed : malformedAmong? fs = hollow (Node.comparesNothingIn ns)
  duplicate : duplicateAmong? fs = (Node.repeatedParamIn? ns).map .localName
  nested : (fs.any fun f => bodyNestsTooDeep 0 f.body) = Node.nestTooDeep 0 ns

namespace SharesFlaws

theorem nil : SharesFlaws [] [] :=
  ⟨rfl, rfl, rfl⟩

variable {f : Script.Function} {fs : List Script.Function} {rest : List Node} {p' : Progress}

/-- An entry point before other functions. -/
theorem cons {ns} (hparams : f.params = entryParams)
    (hf : Flawed f.body (Node.comparesNothingIn ns) (Node.repeatedParamIn? ns)
      (Node.nestTooDeep · ns)) (h : SharesFlaws fs rest) : SharesFlaws (f :: fs) (ns ++ rest) := by
  constructor
  · have hcons : malformedAmong? (f :: fs) = (malformedBody? f.body).or (malformedAmong? fs) := by
      simp only [malformedAmong?, findSome?_cons]
      cases malformedBody? f.body <;> rfl
    rw [hcons, hf.malformed, h.malformed, hollow_or, Node.comparesNothingIn_append]
  · have hentry : firstDuplicate [] f.params = none := by
      rw [hparams]
      rfl
    have hcons : duplicateAmong? (f :: fs) =
        (bodyDuplicateParam? f.body).or (duplicateAmong? fs) := by
      simp only [duplicateAmong?, findSome?_cons, hentry]
      cases bodyDuplicateParam? f.body <;> rfl
    rw [hcons, hf.duplicate, h.duplicate, ← Option.map_or, Node.repeatedParamIn?_append]
  · rw [any_cons, hf.nested, h.nested, Node.nestTooDeep_append]

theorem rootFunction {items p} (hitems : ∀ n ∈ items, n.Declared)
    (hf : Gives (rootFunction items) p f p') (h : SharesFlaws fs rest) :
    SharesFlaws (f :: fs) (items ++ rest) := by
  obtain ⟨ss, scope, hss, rfl⟩ := gives_rootFunction hf
  have hhead : Flawless [.assign .output (.list []), .assign .parentTemplate (.const .null)] :=
    ⟨rfl, rfl, fun _ => rfl⟩
  have hbody := Flawed.sound_append hhead ((hss.flawed hitems).append_sound (.delegation p'.child))
  exact h.cons rfl (hbody.append_sound ⟨rfl, rfl, fun _ => rfl⟩)

theorem blockFunction {d p} (hbody : d.2.Declared)
    (hf : Gives (blockFunction (tableEntry d).1 (tableEntry d).2) p f p')
    (h : SharesFlaws fs rest) : SharesFlaws (f :: fs) (d.2 :: rest) := by
  obtain ⟨ss, scope, hss, rfl⟩ := gives_blockFunction hf
  show SharesFlaws _ ([d.2] ++ rest)
  have hall := (hss.flawed hbody).append .nil
  rw [append_nil] at hall
  refine h.cons rfl (Flawed.append_sound ⟨?_, ?_, fun depth => ?_⟩ ⟨rfl, rfl, fun _ => rfl⟩)
  · rw [malformedBody?_append]
    exact hall.malformed
  · rw [bodyDuplicateParam?_append]
    exact hall.duplicate
  · rw [bodyNestsTooDeep_append]
    exact hall.nested depth

theorem blockFunctions : ∀ (ds : List (String × Node)) {p p' : Progress}
    {fs : List Script.Function}, (∀ d ∈ ds, d.2.Declared) →
    Gives (blockFunctions (ds.map tableEntry)) p fs p' → SharesFlaws fs (ds.map (·.2)) := by
  intro ds
  induction ds with
  | nil =>
    intro p p' fs _ h
    simp only [List.map_nil, Compile.blockFunctions, gives_pure] at h
    rw [h.1]
    exact .nil
  | cons d rest ih =>
    intro p p' fs hds h
    obtain ⟨hd, hrest⟩ := List.forall_mem_cons.1 hds
    simp only [List.map_cons, Compile.blockFunctions, gives_bind, gives_pure] at h
    obtain ⟨f, q, hf, fs, q', hfs, rfl, rfl⟩ := h
    exact .blockFunction hd hf (ih hrest hfs)

theorem of_gives {m} (h : tree.Declared) (hgives : Gives (templateModule tree) {} (m, names) p') :
    SharesFlaws m.functions tree.compiledPart := by
  obtain ⟨pos, items, root, table, blocks, q, rfl, hroot, htable, hblocks, rfl, rfl⟩ :=
    gives_templateModule hgives
  obtain rfl := blockTable_eq (fun d hd => isSome_textName? (isName_of_mem_blocks h d hd)) htable
  refine .rootFunction (fun n hn => h.child hn) hroot (.blockFunctions _ (fun d hd => ?_) hblocks)
  exact h.of_mem_compiledPart (mem_append_right _ (mem_map_of_mem hd))

end SharesFlaws

/-- A module is refused for the flaws of what is compiled of the template. -/
theorem loadError?_of_gives {m} (h : tree.Declared)
    (hgives : Gives (templateModule tree) {} (m, names) p') :
    m.loadError? = ((hollow (Node.comparesNothingIn tree.compiledPart)).or
      ((Node.repeatedParamIn? tree.compiledPart).map fun x => .duplicateParam (.localName x))).or
        (if Node.nestTooDeep 0 tree.compiledPart then some .nestedLoops else none) := by
  obtain ⟨hmalformed, hduplicate, hnested⟩ := SharesFlaws.of_gives h hgives
  have herror : m.loadError? =
      ((malformedAmong? m.functions).or ((duplicateAmong? m.functions).map .duplicateParam)).or
        (if m.functions.any fun f => bodyNestsTooDeep 0 f.body then some .nestedLoops
          else none) := by
    simp only [Module.loadError?, malformedAmong?, duplicateAmong?, Option.orElse_eq_orElse,
      Option.orElse_eq_or, Option.or_assoc]
  rw [herror, hmalformed, hduplicate, hnested, Option.map_map]
  rfl

end Compile

/-! ## Loading -/

variable {tree : Node} {m : Module} {c : Compiler}

/-- The functions of every compiled module make up a unit. -/
theorem exists_unit (h : ({} : Compiler).compileModule tree false = (.ok m, c)) (q : Ref) :
    ∃ unit, CompiledUnit.ofFunctions (Table.ofList
      ((functionValues q m.functions).map fun f => (f.1.text, f.2))) c.blockTexts = .ok unit := by
  obtain ⟨pos, items, root, table, blocks, p, -, hroot, -, hblocks, rfl, htable⟩ :=
    gives_templateModule (gives_of_compileModule h)
  have hfind (f : Script.Function) (hf : f ∈ root :: blocks) :
      ∃ v, (Table.ofList ((functionValues q (root :: blocks)).map
        fun f => (f.1.text, f.2))).find? f.name.text = some v := by
    obtain ⟨i, hi⟩ := mem_iff_getElem?.1 hf
    refine Table.exists_find?_ofList (mem_map.2 ⟨(f.name.text, .function (q + i)), ?_, rfl⟩)
    exact mem_map.2 ⟨_, mem_functionValues.2 ⟨i, f, hi, rfl, rfl⟩, rfl⟩
  have hname : root.name = .root := by
    obtain ⟨_, _, -, rfl⟩ := gives_rootFunction hroot
    rfl
  obtain ⟨v, hv⟩ := hfind root mem_cons_self
  rw [hname] at hv
  have hblock : ∀ name ∈ c.blockTexts, ∃ v, (Table.ofList
      ((functionValues q (root :: blocks)).map fun f => (f.1.text, f.2))).find? ("b_" ++ name) =
        some v := by
    intro name hname
    rw [Compiler.blockTexts, htable, map_map] at hname
    obtain ⟨entry, hentry, rfl⟩ := mem_map.1 hname
    have hname : Ident.blockName entry.1.text ∈ blocks.map (·.name) := by
      rw [(buildsBlocks_of_gives hblocks).names.1]
      exact mem_map_of_mem hentry
    obtain ⟨f, hf, hfname⟩ := mem_map.1 hname
    have hfound := hfind f (mem_cons_of_mem _ hf)
    rwa [hfname] at hfound
  obtain ⟨entry, hunit, -⟩ := CompiledUnit.ofFunctions_eq_ok hv hblock
  exact ⟨_, hunit⟩

namespace Eval

theorem outcome_loadUnit_of_error {name? file? f}
    (h : ({} : Compiler).compile tree false name? file? = (.error f, c)) (w : World) :
    (loadUnit tree name? file?).outcome w = (.error (.fault f), w) := by
  unfold loadUnit
  simp only [h]
  rfl

end Eval

open Grammar

/-- The fault with which loading a template fails. A violation of the grammar is reported. A
template that obeys the grammar is refused when the name of its file has a null character, when a
comparison in its code compares nothing, when a macro in it takes a parameter twice, or when loops
are nested too deep in it, in this order. -/
def Node.loadFault? (tree : Node) (name? file? : Option String) : Option Fault :=
  let file := properName [file?, name?]
  match Grammar.violation? tree with
  | some v => some (v.error.fault name?)
  | none =>
    if Char.ofNat 0 ∈ file.toList then
      some .nullInFileName
    else if comparesNothingIn tree.compiledPart then
      some (.badModule .emptyComparison file)
    else
      match repeatedParamIn? tree.compiledPart with
      | some x => some (.badModule (.duplicateParam (.localName x)) file)
      | none =>
        if nestTooDeep 0 tree.compiledPart then some (.badModule .nestedLoops file) else none

/-- The fault with which loading a module from a file fails. -/
def Script.Module.refusal? (m : Module) (file : String) : Option Fault :=
  if Char.ofNat 0 ∈ file.toList then some .nullInFileName
  else m.loadError?.map fun e => .badModule e file

theorem Compiler.compile_of_compileModule
    (h : ({} : Compiler).compileModule tree false = (.ok m, c)) (name? file? : Option String) :
    ({} : Compiler).compile tree false name? file? =
      ((m.refusal? (properName [file?, name?])).elim (.ok m) .error, c) := by
  unfold compile Module.refusal?
  simp only [h, contains_iff_mem]
  split
  · rfl
  · cases m.loadError? <;> rfl

/-- A template that obeys the grammar is refused for the reasons for which its module is. -/
theorem Node.loadFault?_eq_refusal? (h : tree.Declared)
    (hviolation : Grammar.violation? tree = none)
    (hc : ({} : Compiler).compileModule tree false = (.ok m, c)) (name? file? : Option String) :
    tree.loadFault? name? file? = m.refusal? (properName [file?, name?]) := by
  unfold loadFault? Module.refusal?
  simp only [hviolation, loadError?_of_gives h (gives_of_compileModule hc)]
  split
  · rfl
  · cases comparesNothingIn tree.compiledPart with
    | true => rfl
    | false =>
      cases repeatedParamIn? tree.compiledPart with
      | some x => rfl
      | none => cases nestTooDeep 0 tree.compiledPart <;> rfl

/-- Compiling a template to a module that can be loaded fails with the fault of the template. -/
theorem compile_of_declared (h : tree.Declared) (name? file? : Option String) :
    (∀ f, tree.loadFault? name? file? = some f →
      ∃ c, ({} : Compiler).compile tree false name? file? = (.error f, c)) ∧
    (tree.loadFault? name? file? = none →
      ∃ m c, ({} : Compiler).compile tree false name? file? = (.ok m, c)) := by
  cases hviolation : Grammar.violation? tree with
  | some v =>
    have hfault : tree.loadFault? name? file? = some (v.error.fault name?) := by
      simp only [Node.loadFault?, hviolation]
    obtain ⟨c, hc⟩ := compileModule_of_violation h hviolation
    rw [hfault]
    refine ⟨fun f hf => ⟨c, ?_⟩, fun hnone => by cases hnone⟩
    cases hf
    simp only [Compiler.compile, hc]
  | none =>
    obtain ⟨m, c, hc⟩ := compileModule_of_no_violation h hviolation
    rw [Node.loadFault?_eq_refusal? h hviolation hc, Compiler.compile_of_compileModule hc]
    refine ⟨fun f hf => ⟨c, by rw [hf]; rfl⟩, fun hnone => ⟨m, c, by rw [hnone]; rfl⟩⟩

/-- A template with a macro that takes a parameter twice. -/
def twiceNamed : Node :=
  .root {} [.macroDef {} (.symbol {} "m")
      [.param {} (.symbol {} "a") none, .param {} (.symbol {} "a") none] (.sequence {} [])]

end Stencil
