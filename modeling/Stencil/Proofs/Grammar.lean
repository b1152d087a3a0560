import Stencil.Proofs.Units

/-!
# The grammar of templates

Which nodes may stand where, as inductive rules (`IsExpression`, `IsStatement`), and the same
grammar as a list of places in the order of compilation (`statementPlaces`), each with the violation
that it shows when the wrong kind of node stands there (`Place.violation?`). A tree obeys the rules
exactly when none of its places shows a violation (`grammatical_iff`).

The parts that a node must have to be a node of its kind at all are not a matter of the grammar:
they are the declared parts (`Node.Declared`).
-/

namespace Stencil

open List

open Compile (isValueKind compareOp? dictKey?)

/-! ## Declared parts -/

namespace Node

/-- Whether a node is a name. -/
def isName : Node → Bool
  | symbol .. => true
  | _ => false

/-- Whether a node is a parameter of a macro. -/
def isParam : Node → Bool
  | param .. => true
  | _ => false

/-- Whether a node is an operand of a comparison. -/
def isOperand : Node → Bool
  | operand .. => true
  | _ => false

/-- The parts of a node that its kind fixes are of the kind that it fixes. -/
def hasDeclaredParts : Node → Bool
  | compare _ _ rest => rest.all isOperand
  | keyword _ key _ => key.isName
  | assign _ targets _ => targets.all isName
  | param _ name _ => name.isName
  | macroDef _ name params _ => name.isName && params.all isParam
  | block _ name _ => name.isName
  | _ => true

/-- All nodes of a tree have their declared parts. -/
def Declared (n : Node) : Prop :=
  ∀ d ∈ n :: n.descendants, d.hasDeclaredParts = true

variable {n : Node}

theorem Declared.self (h : n.Declared) : n.hasDeclaredParts = true :=
  h n mem_cons_self

theorem Declared.of_mem_descendants {d} (h : n.Declared) (hd : d ∈ n.descendants) : d.Declared :=
  fun _ hd' => h _ (mem_cons_of_mem _ (cons_subset_descendants hd hd'))

theorem Declared.child {child} (h : n.Declared) (hchild : child ∈ n.children) : child.Declared :=
  h.of_mem_descendants (mem_descendants_of_mem_children hchild)

theorem exists_of_isName (h : n.isName = true) : ∃ pos name, n = .symbol pos name := by
  cases n <;> cases h
  exact ⟨_, _, rfl⟩

theorem exists_of_isParam (h : n.isParam = true) :
    ∃ pos name default?, n = .param pos name default? := by
  cases n <;> cases h
  exact ⟨_, _, _, rfl⟩

/-- The default of a parameter. -/
def default? : Node → Option Node
  | param _ _ default? => default?
  | _ => none

/-- The nodes of a template that are compiled as statements: those of the root, then the definitions
of its blocks. -/
def compiledPart : Node → List Node
  | root pos items => items ++ (root pos items).definitions.entries.map (·.2)
  | _ => []

theorem mem_descendants_of_mem_blocks {d} (h : d ∈ n.blocks) : d.2 ∈ n.descendants := by
  obtain ⟨b, hb, hd⟩ := mem_filterMap.1 h
  cases b <;> cases hd
  exact n.descendants_subset hb (mem_descendants_of_mem_children (by simp [children]))

theorem Declared.of_mem_compiledPart {d} (h : n.Declared) (hd : d ∈ n.compiledPart) :
    d.Declared := by
  cases n <;> try cases hd
  rcases mem_append.1 hd with hd | hd
  · exact h.child hd
  · obtain ⟨e, he, rfl⟩ := mem_map.1 hd
    obtain ⟨b, hb, hentry⟩ := mem_filterMap.1 (Table.mem_of_mem_ofList he)
    obtain ⟨name, -, rfl⟩ := Option.map_eq_some_iff.1 hentry
    exact h.of_mem_descendants (mem_descendants_of_mem_blocks hb)

end Node

namespace Grammar

/-! ## The rules -/

mutual

/-- The expressions of the grammar. -/
inductive IsExpression : Node → Prop where
  | literal {pos c} : IsExpression (.literal pos c)
  | text {pos s} : IsExpression (.text pos s)
  | symbol {pos s} : IsExpression (.symbol pos s)
  | group {pos items} : (∀ n ∈ items, IsExpression n) → IsExpression (.group pos items)
  | array {pos items} : (∀ n ∈ items, IsExpression n) → IsExpression (.array pos items)
  | dict {pos entries} : (∀ n ∈ entries, IsEntry n) → IsExpression (.dict pos entries)
  | binary {pos op left right} : op ≠ .generic →
    IsExpression left → IsExpression right → IsExpression (.binary pos op left right)
  | unary {pos op target} : op ≠ .generic →
    IsExpression target → IsExpression (.unary pos op target)
  | compare {pos first rest} : IsExpression first →
    (∀ n ∈ rest, IsComparand n) → IsExpression (.compare pos first rest)
  | lookup {pos target key} : IsValue target → IsValue key → IsExpression (.lookup pos target key)
  | call {pos callee args?} : IsValue callee →
    (∀ n ∈ args?.getD [], IsArgument n) → IsExpression (.call pos callee args?)
  | filter {pos namePos name args?} : (∀ n ∈ args?.getD [], IsArgument n) →
    IsExpression (.filter pos (.symbol namePos name) args?)

/-- The expressions of the kinds that a value is checked for. -/
inductive IsValue : Node → Prop where
  | mk {n} : isValueKind n = true → IsExpression n → IsValue n

/-- The entries of a dictionary: a name or a literal text with a value. -/
inductive IsEntry : Node → Prop where
  | named {pos keyPos name value} : IsValue value → IsEntry (.pair pos (.symbol keyPos name) value)
  | quoted {pos keyPos s value} : IsValue value →
    IsEntry (.pair pos (.literal keyPos (.str s)) value)

/-- The further operands of a comparison, each behind its sign. -/
inductive IsComparand : Node → Prop where
  | operand {pos e sign} :
    sign ∈ ["==", "!=", "<", ">", "<=", ">="] → IsExpression e → IsComparand (.operand pos e sign)

/-- The arguments of a call: expressions, and expressions under a keyword. -/
inductive IsArgument : Node → Prop where
  | positional {n} : IsExpression n → IsArgument n
  | keyword {pos key value} : IsExpression value → IsArgument (.keyword pos key value)

end

/-- The targets of a loop: a name, or an array of two names. -/
inductive IsTarget : Node → Prop where
  | one {pos name} : IsTarget (.symbol pos name)
  | two {pos keyPos valuePos key value} :
    IsTarget (.array pos [.symbol keyPos key, .symbol valuePos value])

/-- The statements of the grammar. The body of a block is no part of the statement that refers to
it. -/
inductive IsStatement : Node → Prop where
  | text {pos s} : IsStatement (.text pos s)
  | output {pos items} : (∀ n ∈ items, IsExpression n) → IsStatement (.output pos items)
  | sequence {pos items} : (∀ n ∈ items, IsStatement n) → IsStatement (.sequence pos items)
  | conditional {pos test body otherwise?} : IsValue test →
    IsStatement body → (∀ n ∈ otherwise?, IsStatement n) →
    IsStatement (.conditional pos test body otherwise?)
  | loop {pos target source body} : IsTarget target → IsValue source →
    IsStatement body → IsStatement (.loop pos target source body)
  | assign {pos targets value} : IsValue value → IsStatement (.assign pos targets value)
  | macroDef {pos name body params} : IsStatement body →
    (∀ param ∈ params, ∀ d ∈ param.default?, IsExpression d) →
    IsStatement (.macroDef pos name params body)
  | block {pos name body} : IsStatement (.block pos name body)
  | inherit {pos parent} : IsValue parent → IsStatement (.inherit pos parent)
  | inclusion {pos template} : IsValue template → IsStatement (.inclusion pos template)
  | importAll {pos template target} : IsExpression template →
    IsStatement (.importAll pos template target)
  | importNames {pos template names} :
    IsExpression template → IsStatement (.importNames pos template names)

mutual

/-- How often a statement names a parent template. -/
def inheritances : Node → Nat
  | .inherit .. => 1
  | .sequence _ items => inheritancesIn items
  | .conditional _ _ body none | .loop _ _ _ body | .macroDef _ _ _ body => inheritances body
  | .conditional _ _ body (some otherwise) => inheritances body + inheritances otherwise
  | _ => 0

/-- How often statements name a parent template. -/
def inheritancesIn : List Node → Nat
  | [] => 0
  | n :: rest => inheritances n + inheritancesIn rest

end

/-- A template obeys the grammar: its top node is a root, what is compiled of it are statements, and
at most one of them names a parent. -/
def Grammatical (tree : Node) : Prop :=
  (∃ pos items, tree = .root pos items) ∧ (∀ n ∈ tree.compiledPart, IsStatement n) ∧
    inheritancesIn tree.compiledPart ≤ 1

/-! ## Places -/

/-- A place of a template tree with what stands there. -/
inductive Place where
  | statement (n : Node)
  | expression (n : Node)
  | value (n : Node)
  | entry (n : Node)
  | entryKey (n : Node)
  | sign (pos : Position) (sign : String)
  | filterName (n : Node)
  | target (n : Node)
  | inheritance (pos : Position)

/-- A violation of the grammar, with the position at which it is reported. -/
structure Violation where
  cause : CompileCause
  pos : Position
  deriving DecidableEq

/-- The kinds of statements. -/
def isStatementKind : Node → Bool
  | .text .. | .output .. | .sequence .. | .conditional .. | .loop .. | .assign .. | .macroDef ..
  | .block .. | .inherit .. | .inclusion .. | .importAll .. | .importNames .. => true
  | _ => false

/-- The kinds of expressions. -/
def isExpressionKind : Node → Bool
  | .literal .. | .text .. | .symbol .. | .group .. | .array .. | .dict .. | .compare ..
  | .lookup .. | .call .. | .filter .. => true
  | .binary _ op _ _ => op != .generic
  | .unary _ op _ => op != .generic
  | _ => false

/-- The violation that a node shows unless it is accepted. -/
def rejected (accepted : Bool) (cause : CompileCause) (n : Node) : Option Violation :=
  if accepted then none else some ⟨cause, n.position⟩

/-- The violation of a loop target. -/
def targetViolation? : Node → Option Violation
  | .symbol .. => none
  | .array pos targets =>
    if targets.length = 2 then
      (targets.find? (!·.isName)).map fun n => ⟨.invalidType n.kindName, n.position⟩
    else
      some ⟨.loopTargets targets.length, pos⟩
  | n => some ⟨.invalidType n.kindName, n.position⟩

namespace Place

/-- Whether a parent template is named at a place. -/
def isInheritance : Place → Bool
  | inheritance _ => true
  | _ => false

/-- The violation that a place shows, when a parent template was named before or not. -/
def violation? (inherits : Bool) : Place → Option Violation
  | statement (.root pos _) => some ⟨.rootWithFrame, pos⟩
  | statement n => rejected (isStatementKind n) (.unknownNode n.kindName) n
  | expression n => rejected (isExpressionKind n) (.unknownNode n.kindName) n
  | value n => rejected (isValueKind n) (.invalidType n.kindName) n
  | entry (.pair ..) => none
  | entry n => some ⟨.invalidType n.kindName, n.position⟩
  | entryKey n => rejected (dictKey? n).isSome .dictKey n
  | sign pos s =>
    if s ∈ ["==", "!=", "<", ">", "<=", ">="] then none else some ⟨.invalidOperator s, pos⟩
  | filterName n => rejected n.isName (.invalidType n.kindName) n
  | target n => targetViolation? n
  | inheritance pos => if inherits then some ⟨.multipleExtends, pos⟩ else none

end Place

mutual

/-- The places of an expression, in the order of compilation. -/
def expressionPlaces (n : Node) : List Place :=
  .expression n :: match n with
    | .group _ items | .array _ items => expressionsPlaces items
    | .dict _ entries => entryPlaces entries
    | .binary _ _ left right => expressionPlaces left ++ expressionPlaces right
    | .unary _ _ target => expressionPlaces target
    | .compare _ first rest => expressionPlaces first ++ operandPlaces rest
    | .lookup _ target key =>
      .value target :: (expressionPlaces target ++ (.value key :: expressionPlaces key))
    | .call _ callee args? => callPlaces args? ++ (.value callee :: expressionPlaces callee)
    | .filter _ name args? => .filterName name :: callPlaces args?
    | _ => []

/-- The places of expressions. -/
def expressionsPlaces : List Node → List Place
  | [] => []
  | n :: rest => expressionPlaces n ++ expressionsPlaces rest

/-- The places of the entries of a dictionary. -/
def entryPlaces : List Node → List Place
  | [] => []
  | .pair pos key value :: rest =>
    .entry (.pair pos key value) :: .entryKey key :: .value value ::
      (expressionPlaces value ++ entryPlaces rest)
  | n :: rest => .entry n :: entryPlaces rest

/-- The places of the further operands of a comparison. -/
def operandPlaces : List Node → List Place
  | [] => []
  | .operand pos e sign :: rest => .sign pos sign :: (expressionPlaces e ++ operandPlaces rest)
  | _ :: rest => operandPlaces rest

/-- The places of arguments. -/
def argumentPlaces : List Node → List Place
  | [] => []
  | .keyword _ _ value :: rest => expressionPlaces value ++ argumentPlaces rest
  | n :: rest => expressionPlaces n ++ argumentPlaces rest

/-- The places of the arguments that a call may have. -/
def callPlaces : Option (List Node) → List Place
  | none => []
  | some args => argumentPlaces args

end

/-- The places of a value. -/
def valuePlaces (n : Node) : List Place :=
  .value n :: expressionPlaces n

/-- The places of the defaults of parameters. -/
def defaultPlaces (params : List Node) : List Place :=
  params.flatMap fun param => (param.default?.map expressionPlaces).getD []

mutual

/-- The places of a statement, in the order of compilation. -/
def statementPlaces (n : Node) : List Place :=
  .statement n :: match n with
    | .output _ items => expressionsPlaces items
    | .sequence _ items => statementsPlaces items
    | .conditional _ test body none => valuePlaces test ++ statementPlaces body
    | .conditional _ test body (some otherwise) =>
      valuePlaces test ++ (statementPlaces body ++ statementPlaces otherwise)
    | .loop _ target source body => valuePlaces source ++ (.target target :: statementPlaces body)
    | .assign _ _ value => valuePlaces value
    | .macroDef _ _ params body => statementPlaces body ++ defaultPlaces params
    | .inherit pos parent => .inheritance pos :: valuePlaces parent
    | .inclusion _ template => valuePlaces template
    | .importAll _ template _ | .importNames _ template _ => expressionPlaces template
    | _ => []

/-- The places of statements. -/
def statementsPlaces : List Node → List Place
  | [] => []
  | n :: rest => statementPlaces n ++ statementsPlaces rest

end

theorem statementsPlaces_append (ns rest : List Node) :
    statementsPlaces (ns ++ rest) = statementsPlaces ns ++ statementsPlaces rest := by
  induction ns with
  | nil => rfl
  | cons n others ih => rw [cons_append, statementsPlaces, statementsPlaces, ih, append_assoc]

/-- The first violation that places show. -/
def firstViolation? (inherits : Bool) : List Place → Option Violation
  | [] => none
  | place :: rest =>
    (place.violation? inherits).or (firstViolation? (inherits || place.isInheritance) rest)

/-- The first violation of a template, in the order of compilation. -/
def violation? : Node → Option Violation
  | .root pos items => firstViolation? false (statementsPlaces (Node.root pos items).compiledPart)
  | n => some ⟨.unknownNode n.kindName, n.position⟩

/-! ## Places that show no violation -/

/-- None of the places shows a violation of its own. -/
def Sound (places : List Place) : Prop :=
  ∀ place ∈ places, place.violation? false = none

@[simp]
theorem sound_nil : Sound [] :=
  forall_mem_nil _

@[simp]
theorem sound_cons {place rest} :
    Sound (place :: rest) ↔ place.violation? false = none ∧ Sound rest :=
  forall_mem_cons

variable {places : List Place} {n key value : Node} {inherits : Bool} {pos : Position}

@[simp]
theorem sound_append {rest} : Sound (places ++ rest) ↔ Sound places ∧ Sound rest :=
  forall_mem_append

@[simp]
theorem rejected_eq_none {accepted cause} : rejected accepted cause n = none ↔ accepted = true := by
  cases accepted <;> simp [rejected]

@[simp]
theorem violation?_expression :
    (Place.expression n).violation? inherits = none ↔ isExpressionKind n = true :=
  rejected_eq_none

@[simp]
theorem violation?_statement :
    (Place.statement n).violation? inherits = none ↔ isStatementKind n = true := by
  cases n with
  | root => simp [Place.violation?, isStatementKind]
  | _ => exact rejected_eq_none

@[simp]
theorem violation?_inheritance : (Place.inheritance pos).violation? false = none :=
  rfl

@[simp]
theorem violation?_value : (Place.value n).violation? inherits = none ↔ isValueKind n = true :=
  rejected_eq_none

@[simp]
theorem violation?_sign {s} :
    (Place.sign pos s).violation? inherits = none ↔ s ∈ ["==", "!=", "<", ">", "<=", ">="] := by
  show (if s ∈ _ then none else some _) = none ↔ _
  split <;> simp_all only [reduceCtorEq]

@[simp]
theorem violation?_filterName : (Place.filterName n).violation? inherits = none ↔ n.isName = true :=
  rejected_eq_none

@[simp]
theorem violation?_pair : (Place.entry (.pair pos key value)).violation? inherits = none :=
  rfl

@[simp]
theorem violation?_entryKey :
    (Place.entryKey n).violation? inherits = none ↔ (dictKey? n).isSome = true :=
  rejected_eq_none

theorem violation?_target : (Place.target n).violation? inherits = none ↔ IsTarget n := by
  show targetViolation? n = none ↔ _
  constructor
  · intro h
    cases n with
    | symbol pos name => exact .one
    | array pos targets =>
      match targets with
      | [first, second] =>
        simp only [targetViolation?, length_cons, length_nil, if_true, Option.map_eq_none_iff,
          find?_eq_none, forall_mem_cons] at h
        obtain ⟨_, _, rfl⟩ := Node.exists_of_isName (n := first) (by simpa using h.1)
        obtain ⟨_, _, rfl⟩ := Node.exists_of_isName (n := second) (by simpa using h.2.1)
        exact .two
      | [] | [_] | _ :: _ :: _ :: _ => simp [targetViolation?] at h
    | _ => cases h
  · intro h
    cases h with
    | one => rfl
    | two => rfl

theorem isValue_iff : IsValue n ↔ isValueKind n = true ∧ IsExpression n :=
  ⟨fun ⟨hkind, h⟩ => ⟨hkind, h⟩, fun h => ⟨h.1, h.2⟩⟩

theorem isArgument_iff (h : ∀ pos key value, n ≠ .keyword pos key value) :
    IsArgument n ↔ IsExpression n :=
  ⟨fun ha => match ha with
    | .positional ha => ha
    | .keyword _ => absurd rfl (h _ _ _), .positional⟩

theorem isEntry_pair_iff :
    IsEntry (.pair pos key value) ↔ (dictKey? key).isSome = true ∧ IsValue value := by
  constructor
  · intro h
    cases h <;> exact ⟨rfl, ‹_›⟩
  · rintro ⟨hkey, hvalue⟩
    unfold dictKey? at hkey
    split at hkey
    · exact .named hvalue
    · exact .quoted hvalue
    · cases hkey

theorem isComparand_iff {e sign} : IsComparand (.operand pos e sign) ↔
      sign ∈ ["==", "!=", "<", ">", "<=", ">="] ∧ IsExpression e :=
  ⟨fun ⟨hsign, h⟩ => ⟨hsign, h⟩, fun h => .operand h.1 h.2⟩

theorem isArgument_keyword_iff : IsArgument (.keyword pos key value) ↔ IsExpression value := by
  constructor
  · rintro (h | h)
    · cases h
    · assumption
  · exact .keyword

attribute [local simp] Node.children expressionPlaces expressionsPlaces entryPlaces operandPlaces
  argumentPlaces callPlaces statementPlaces statementsPlaces isExpressionKind isStatementKind
  violation?_target

mutual

/-- An expression obeys the rules when its places show no violation. -/
theorem sound_expressionPlaces : ∀ (n : Node), n.Declared →
    (Sound (expressionPlaces n) ↔ IsExpression n)
  | .literal .., _ => by simp [IsExpression.literal]
  | .text .., _ => by simp [IsExpression.text]
  | .symbol .., _ => by simp [IsExpression.symbol]
  | .group _ items, h => by
    have hitems := sound_expressionsPlaces items fun n hn => h.child hn
    simp [hitems]
    exact ⟨.group, by rintro ⟨⟩; assumption⟩
  | .array _ items, h => by
    have hitems := sound_expressionsPlaces items fun n hn => h.child hn
    simp [hitems]
    exact ⟨.array, by rintro ⟨⟩; assumption⟩
  | .dict _ entries, h => by
    have hentries := sound_entryPlaces entries fun n hn => h.child hn
    simp [hentries]
    exact ⟨.dict, by rintro ⟨⟩; assumption⟩
  | .binary _ op left right, h => by
    have hleft := sound_expressionPlaces left (h.child (by simp))
    have hright := sound_expressionPlaces right (h.child (by simp))
    simp [hleft, hright]
    exact ⟨fun ⟨hop, hl, hr⟩ => .binary hop hl hr, by rintro ⟨⟩; exact ⟨‹_›, ‹_›, ‹_›⟩⟩
  | .unary _ op target, h => by
    have htarget := sound_expressionPlaces target (h.child (by simp))
    simp [htarget]
    exact ⟨fun ⟨hop, ht⟩ => .unary hop ht, by rintro ⟨⟩; exact ⟨‹_›, ‹_›⟩⟩
  | .compare _ first rest, h => by
    have hfirst := sound_expressionPlaces first (h.child (by simp))
    have hrest := sound_operandPlaces rest (all_eq_true.1 h.self)
      fun n hn => h.child (mem_cons_of_mem _ hn)
    simp [hfirst, hrest]
    exact ⟨fun ⟨hf, hr⟩ => .compare hf hr, by rintro ⟨⟩; exact ⟨‹_›, ‹_›⟩⟩
  | .lookup _ target key, h => by
    have htarget := sound_expressionPlaces target (h.child (by simp))
    have hkey := sound_expressionPlaces key (h.child (by simp))
    simp [htarget, hkey, ← isValue_iff, ← and_assoc]
    exact ⟨fun ⟨ht, hk⟩ => .lookup ht hk, by rintro ⟨⟩; exact ⟨‹_›, ‹_›⟩⟩
  | .call _ callee args?, h => by
    have hcallee := sound_expressionPlaces callee (h.child (by simp))
    have hargs := sound_callPlaces args? fun n hn => h.child (mem_cons_of_mem _ hn)
    simp [hcallee, hargs, ← isValue_iff]
    exact ⟨fun ⟨ha, hc⟩ => .call hc ha, by rintro ⟨⟩; exact ⟨‹_›, ‹_›⟩⟩
  | .filter _ name args?, h => by
    have hargs := sound_callPlaces args? fun n hn => h.child (mem_cons_of_mem _ hn)
    simp [hargs]
    constructor
    · rintro ⟨hname, ha⟩
      obtain ⟨_, _, rfl⟩ := Node.exists_of_isName hname
      exact .filter ha
    · rintro ⟨⟩
      exact ⟨rfl, ‹_›⟩
  | .pair .., _ | .operand .., _ | .keyword .., _ | .sequence .., _ | .conditional .., _
  | .loop .., _ | .assign .., _ | .param .., _ | .macroDef .., _ | .output .., _
  | .inherit .., _ | .block .., _ | .inclusion .., _ | .importAll .., _ | .importNames .., _
  | .root .., _ | .unknown .., _ =>
    iff_of_false (fun h => nomatch violation?_expression.1 (sound_cons.1 h).1) (fun h => nomatch h)

theorem sound_expressionsPlaces : ∀ (ns : List Node), (∀ n ∈ ns, n.Declared) →
    (Sound (expressionsPlaces ns) ↔ ∀ n ∈ ns, IsExpression n)
  | [], _ => by simp
  | n :: rest, h => by
    obtain ⟨hn, hrest⟩ := forall_mem_cons.1 h
    rw [expressionsPlaces, sound_append, sound_expressionPlaces n hn,
      sound_expressionsPlaces rest hrest, forall_mem_cons]

theorem sound_entryPlaces : ∀ (ns : List Node), (∀ n ∈ ns, n.Declared) →
    (Sound (entryPlaces ns) ↔ ∀ n ∈ ns, IsEntry n)
  | [], _ => by simp
  | n :: rest, h => by
    cases n with
    | pair pos key value =>
      obtain ⟨hpair, hrest⟩ := forall_mem_cons.1 h
      have hvalue := sound_expressionPlaces value (hpair.child (by simp))
      rw [forall_mem_cons, ← sound_entryPlaces rest hrest, isEntry_pair_iff, isValue_iff, ← hvalue]
      simp [violation?_pair, violation?_entryKey, and_assoc]
    | _ =>
      exact iff_of_false (fun hsound => nomatch (sound_cons.1 hsound).1)
        fun hall => nomatch hall _ mem_cons_self

theorem sound_operandPlaces : ∀ (ns : List Node), (∀ n ∈ ns, n.isOperand = true) →
    (∀ n ∈ ns, n.Declared) → (Sound (operandPlaces ns) ↔ ∀ n ∈ ns, IsComparand n)
  | [], _, _ => by simp
  | n :: rest, hkinds, h => by
    obtain ⟨hkind, hothers⟩ := forall_mem_cons.1 hkinds
    obtain ⟨hn, hrest⟩ := forall_mem_cons.1 h
    cases n with
    | operand pos e sign =>
      have he := sound_expressionPlaces e (hn.child (by simp))
      rw [forall_mem_cons, ← sound_operandPlaces rest hothers hrest, isComparand_iff, ← he]
      simp [violation?_sign, and_assoc]
    | _ => cases hkind

theorem sound_argumentPlaces : ∀ (ns : List Node), (∀ n ∈ ns, n.Declared) →
    (Sound (argumentPlaces ns) ↔ ∀ n ∈ ns, IsArgument n)
  | [], _ => by simp
  | n :: rest, h => by
    obtain ⟨hn, hrest⟩ := forall_mem_cons.1 h
    rw [forall_mem_cons, ← sound_argumentPlaces rest hrest]
    cases n with
    | keyword pos key value =>
      rw [argumentPlaces, sound_append,
        sound_expressionPlaces value (hn.child (by simp)), isArgument_keyword_iff]
    | _ =>
      rw [argumentPlaces, sound_append, sound_expressionPlaces _ hn, isArgument_iff] <;> simp

theorem sound_callPlaces : ∀ (args? : Option (List Node)), (∀ n ∈ args?.getD [], n.Declared) →
    (Sound (callPlaces args?) ↔ ∀ n ∈ args?.getD [], IsArgument n)
  | none, _ => by simp
  | some args, h => sound_argumentPlaces args h

end

theorem sound_valuePlaces (h : n.Declared) : Sound (valuePlaces n) ↔ IsValue n := by
  rw [valuePlaces, sound_cons, violation?_value, sound_expressionPlaces n h, isValue_iff]

theorem sound_defaultPlaces (params : List Node) (h : ∀ param ∈ params, param.Declared) :
    Sound (defaultPlaces params) ↔ ∀ param ∈ params, ∀ d ∈ param.default?, IsExpression d := by
  induction params with
  | nil => simp [defaultPlaces]
  | cons param rest ih =>
    obtain ⟨hparam, hrest⟩ := forall_mem_cons.1 h
    have hfirst : Sound ((param.default?.map expressionPlaces).getD []) ↔
        ∀ d ∈ param.default?, IsExpression d := by
      cases hd : param.default? with
      | none => simp
      | some d =>
        have hchild : d ∈ param.children := by
          cases param <;> cases hd
          simp
        simp [sound_expressionPlaces d (hparam.child hchild)]
    rw [forall_mem_cons, ← ih hrest, ← hfirst]
    exact sound_append

mutual

/-- A statement obeys the rules when its places show no violation. -/
theorem sound_statementPlaces : ∀ (n : Node), n.Declared →
    (Sound (statementPlaces n) ↔ IsStatement n)
  | .text .., _ => by simp [IsStatement.text]
  | .block .., _ => by simp [IsStatement.block]
  | .output _ items, h => by
    have hitems := sound_expressionsPlaces items fun n hn => h.child hn
    simp [hitems]
    exact ⟨.output, by rintro ⟨⟩; assumption⟩
  | .sequence _ items, h => by
    have hitems := sound_statementsPlaces items fun n hn => h.child hn
    simp [hitems]
    exact ⟨.sequence, by rintro ⟨⟩; assumption⟩
  | .conditional _ test body none, h => by
    have htest := sound_valuePlaces (n := test) (h.child (by simp))
    have hbody := sound_statementPlaces body (h.child (by simp))
    simp [htest, hbody]
    exact ⟨fun ⟨ht, hb⟩ => .conditional ht hb (by simp), by rintro ⟨⟩; exact ⟨‹_›, ‹_›⟩⟩
  | .conditional _ test body (some otherwise), h => by
    have htest := sound_valuePlaces (n := test) (h.child (by simp))
    have hbody := sound_statementPlaces body (h.child (by simp))
    have hother := sound_statementPlaces otherwise (h.child (by simp))
    simp [htest, hbody, hother]
    refine ⟨fun ⟨ht, hb, ho⟩ => .conditional ht hb (by simpa using ho), ?_⟩
    rintro (_ | _ | _ | ⟨ht, hb, ho⟩)
    exact ⟨ht, hb, ho _ rfl⟩
  | .loop _ target source body, h => by
    have hsource := sound_valuePlaces (n := source) (h.child (by simp))
    have hbody := sound_statementPlaces body (h.child (by simp))
    simp [hsource, hbody]
    exact ⟨fun ⟨hs, ht, hb⟩ => .loop ht hs hb, by rintro ⟨⟩; exact ⟨‹_›, ‹_›, ‹_›⟩⟩
  | .assign _ targets value, h => by
    have hvalue := sound_valuePlaces (n := value) (h.child (by simp))
    simp [hvalue]
    exact ⟨.assign, by rintro ⟨⟩; assumption⟩
  | .macroDef _ name params body, h => by
    have hbody := sound_statementPlaces body (h.child (by simp))
    have hparams := sound_defaultPlaces params
      fun param hparam => h.child (by simp [hparam])
    simp [hbody, hparams]
    exact ⟨fun ⟨hb, hp⟩ => .macroDef hb hp, by rintro ⟨⟩; exact ⟨‹_›, ‹_›⟩⟩
  | .inherit _ parent, h => by
    have hparent := sound_valuePlaces (n := parent) (h.child (by simp))
    simp [hparent]
    exact ⟨.inherit, by rintro ⟨⟩; assumption⟩
  | .inclusion _ template, h => by
    have htemplate := sound_valuePlaces (n := template) (h.child (by simp))
    simp [htemplate]
    exact ⟨.inclusion, by rintro ⟨⟩; assumption⟩
  | .importAll _ template _, h => by
    have htemplate := sound_expressionPlaces template (h.child (by simp))
    simp [htemplate]
    exact ⟨.importAll, by rintro ⟨⟩; assumption⟩
  | .importNames _ template _, h => by
    have htemplate := sound_expressionPlaces template (h.child (by simp))
    simp [htemplate]
    exact ⟨.importNames, by rintro ⟨⟩; assumption⟩
  | .literal .., _ | .symbol .., _ | .group .., _ | .array .., _ | .pair .., _ | .dict .., _
  | .binary .., _ | .unary .., _ | .operand .., _ | .compare .., _ | .lookup .., _
  | .keyword .., _ | .call .., _ | .filter .., _ | .param .., _ | .root .., _ | .unknown .., _ =>
    iff_of_false (fun h => nomatch violation?_statement.1 (sound_cons.1 h).1) (fun h => nomatch h)

theorem sound_statementsPlaces : ∀ (ns : List Node), (∀ n ∈ ns, n.Declared) →
    (Sound (statementsPlaces ns) ↔ ∀ n ∈ ns, IsStatement n)
  | [], _ => by simp
  | n :: rest, h => by
    obtain ⟨hn, hrest⟩ := forall_mem_cons.1 h
    rw [statementsPlaces, sound_append, sound_statementPlaces n hn,
      sound_statementsPlaces rest hrest, forall_mem_cons]

end

/-! ## Places that name a parent -/

section

attribute [local simp] Place.isInheritance inheritances inheritancesIn

mutual

/-- No parent is named within an expression. -/
theorem countP_expressionPlaces : ∀ n, (expressionPlaces n).countP Place.isInheritance = 0
  | .group _ items | .array _ items => by
    simp [countP_expressionsPlaces items]
  | .dict _ entries => by simp [countP_entryPlaces entries]
  | .binary _ _ left right => by
    simp [countP_expressionPlaces left, countP_expressionPlaces right]
  | .unary _ _ target => by
    simp [countP_expressionPlaces target]
  | .compare _ first rest => by
    simp [countP_expressionPlaces first, countP_operandPlaces rest]
  | .lookup _ target key => by
    simp [countP_expressionPlaces target, countP_expressionPlaces key]
  | .call _ callee args? => by
    simp [countP_expressionPlaces callee, countP_callPlaces args?]
  | .filter _ _ args? => by
    simp [countP_callPlaces args?]
  | .literal .. | .text .. | .symbol .. | .pair .. | .operand .. | .keyword .. | .sequence ..
  | .conditional .. | .loop .. | .assign .. | .param .. | .macroDef .. | .output .. | .inherit ..
  | .block .. | .inclusion .. | .importAll .. | .importNames .. | .root .. | .unknown .. => rfl

theorem countP_expressionsPlaces : ∀ ns, (expressionsPlaces ns).countP Place.isInheritance = 0
  | [] => rfl
  | n :: rest => by
    simp [countP_expressionPlaces n, countP_expressionsPlaces rest]

theorem countP_entryPlaces : ∀ ns, (entryPlaces ns).countP Place.isInheritance = 0
  | [] => rfl
  | n :: rest => by
    have hrest := countP_entryPlaces rest
    cases n with
    | pair pos key value =>
      simp [countP_expressionPlaces value, hrest]
    | _ => simp [hrest]

theorem countP_operandPlaces : ∀ ns, (operandPlaces ns).countP Place.isInheritance = 0
  | [] => rfl
  | n :: rest => by
    have hrest := countP_operandPlaces rest
    cases n with
    | operand pos e sign =>
      simp [countP_expressionPlaces e, hrest]
    | _ => simp [hrest]

theorem countP_argumentPlaces : ∀ ns, (argumentPlaces ns).countP Place.isInheritance = 0
  | [] => rfl
  | n :: rest => by
    have hrest := countP_argumentPlaces rest
    cases n with
    | keyword pos key value => simp [countP_expressionPlaces value, hrest]
    | _ =>
      rw [argumentPlaces, countP_append, countP_expressionPlaces _, hrest]
      simp

theorem countP_callPlaces : ∀ args?, (callPlaces args?).countP Place.isInheritance = 0
  | none => rfl
  | some args => countP_argumentPlaces args

end

@[simp]
theorem countP_valuePlaces (n : Node) : (valuePlaces n).countP Place.isInheritance = 0 := by
  simp [valuePlaces, countP_expressionPlaces n]

@[simp]
theorem countP_defaultPlaces (params : List Node) :
    (defaultPlaces params).countP Place.isInheritance = 0 := by
  simp only [defaultPlaces, countP_eq_zero, mem_flatMap]
  rintro place ⟨param, -, hplace⟩
  cases hd : param.default? with
  | none => simp [hd] at hplace
  | some d =>
    rw [hd] at hplace
    exact countP_eq_zero.1 (countP_expressionPlaces d) place hplace

mutual

theorem countP_statementPlaces : ∀ n,
    (statementPlaces n).countP Place.isInheritance = inheritances n
  | .output _ items => by
    simp [countP_expressionsPlaces items]
  | .sequence _ items => by
    simp [countP_statementsPlaces items]
  | .conditional _ test body none => by
    simp [countP_statementPlaces body]
  | .conditional _ test body (some otherwise) => by
    simp [countP_statementPlaces body, countP_statementPlaces otherwise]
  | .loop _ _ source body => by
    simp [countP_statementPlaces body]
  | .macroDef _ _ params body => by
    simp [countP_statementPlaces body]
  | .inherit .. => by
    simp [countP_cons]
  | .assign .. | .inclusion .. => by
    simp
  | .importAll _ template _ | .importNames _ template _ => by
    simp [-countP_eq_zero, countP_expressionPlaces template]
  | .literal .. | .text .. | .symbol .. | .group .. | .array .. | .pair .. | .dict .. | .binary ..
  | .unary .. | .operand .. | .compare .. | .lookup .. | .keyword .. | .call .. | .filter ..
  | .param .. | .block .. | .root .. | .unknown .. => rfl

theorem countP_statementsPlaces : ∀ ns,
    (statementsPlaces ns).countP Place.isInheritance = inheritancesIn ns
  | [] => rfl
  | n :: rest => by
    simp [countP_statementPlaces n, countP_statementsPlaces rest]

end

end

/-! ## The first violation -/

theorem violation?_eq_none_iff {place : Place} : place.violation? inherits = none ↔
      place.violation? false = none ∧ (inherits && place.isInheritance) = false := by
  cases place with
  | inheritance pos => cases inherits <;> simp [Place.violation?, Place.isInheritance]
  | entry n => cases n <;> simp [Place.violation?, Place.isInheritance]
  | _ => simp [Place.isInheritance, violation?_target]

/-- Places show no violation when none has one of its own and at most one names a parent. -/
theorem firstViolation?_eq_none_iff : firstViolation? inherits places = none ↔
      Sound places ∧ inherits.toNat + places.countP Place.isInheritance ≤ 1 := by
  induction places generalizing inherits with
  | nil => cases inherits <;> simp [firstViolation?]
  | cons place rest ih =>
    rw [firstViolation?, Option.or_eq_none_iff, ih, violation?_eq_none_iff, sound_cons, countP_cons]
    cases inherits <;> cases place.isInheritance <;> simp [and_assoc, Nat.add_comm 1]

theorem firstViolation?_append (inherits : Bool) (places rest : List Place) :
    firstViolation? inherits (places ++ rest) = (firstViolation? inherits places).or
        (firstViolation? (inherits || places.any Place.isInheritance) rest) := by
  induction places generalizing inherits with
  | nil => simp [firstViolation?]
  | cons place others ih =>
    rw [cons_append, firstViolation?, firstViolation?, ih, any_cons, ← Bool.or_assoc,
      Option.or_assoc]

/-- Where no parent is named, it does not matter whether one was named before. -/
theorem firstViolation?_of_countP_eq_zero (h : places.countP Place.isInheritance = 0)
    (inherits inherits' : Bool) :
    firstViolation? inherits places = firstViolation? inherits' places := by
  induction places with
  | nil => rfl
  | cons place rest ih =>
    have hplace : place.isInheritance = false := by
      simpa using countP_eq_zero.1 h place mem_cons_self
    have hrest := ih (by simpa [countP_cons, hplace] using h)
    rw [firstViolation?, firstViolation?, hplace, Bool.or_false, Bool.or_false, hrest]
    cases place with
    | statement n => cases n <;> rfl
    | entry n => cases n <;> rfl
    | inheritance pos => cases hplace
    | _ => rfl

/-- A template obeys the grammar exactly when it has no first violation. -/
theorem grammatical_iff {tree} (h : tree.Declared) : Grammatical tree ↔ violation? tree = none := by
  cases tree with
  | root pos items =>
    rw [violation?, firstViolation?_eq_none_iff, countP_statementsPlaces,
      sound_statementsPlaces _ fun n hn => h.of_mem_compiledPart hn]
    simp [Grammatical]
  | _ => simp [Grammatical, violation?]

end Grammar

end Stencil
