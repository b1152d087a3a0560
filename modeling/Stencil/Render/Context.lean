import Stencil.Render.Frame

/-!
# Render contexts

A context holds the render variables, the names that a template publishes, and for every block the
chain of its definitions. A block renders the first definition of its chain, and inside a definition
`super` renders the next one.
-/

namespace Stencil

namespace Context

/-- The value of a render variable; unbound names have none. -/
def lookup (c : Context) (name : String) : Value :=
  (c.vars.find? name).getD .none

/-- Publish a name, once. -/
def addExport (c : Context) (name : String) : Context :=
  if c.exported.contains name then c else { c with exported := c.exported ++ [name] }

/-- Add a definition at the end of a block's chain. -/
def addBlock (c : Context) (name : String) (block : Value) : Context :=
  { c with blocks := c.blocks.insert name ((c.blocks.find? name).getD [] ++ [block]) }

/-- The context of the given variables and blocks. -/
def ofBlocks (vars : Table String Value) (blocks : List (String × Value)) : Context :=
  blocks.foldl (fun c b => c.addBlock b.1 b.2) { vars }

/-- The definitions of a block; none for a name that no block has. -/
def chain (c : Context) (name : String) : List Value :=
  (c.blocks.find? name).getD []

/-- The definitions of a block that generated code asks for. Only a text names a block. -/
def chainOf (c : Context) : Constant → List Value
  | .str name => c.chain name
  | _ => []

/-- The definition that follows the given one in a block's chain. -/
def nextBlock? (c : Context) (name : Constant) (block : Value) : Option Value :=
  (((c.chainOf name).dropWhile fun b => !b.identical block).drop 1).head?

/-- The published names with their values. -/
def exports (c : Context) : List (String × Value) :=
  c.exported.map fun name => (name, c.lookup name)

end Context

namespace Report

/-- No template of the inheritance chain defines the block. -/
def unknownBlock (name : String) : Report :=
  .render {
    message := s!"unknown block \"{name}\""
    code := .unknownBlock
    suggestion? := some "Check the block name against the templates in the extends chain" }

/-- The template has no block of that name. -/
def noSuchBlock (template? : Option String) (name : String) (available : List String) : Report :=
  let listed := ", ".intercalate available
  .render {
    message := s!"unknown block \"{name}\""
    code := .unknownBlock
    template?
    suggestion? := some ("Available blocks: " ++ if listed.isEmpty then "(none)" else listed) }

/-- The block overrides no other definition. -/
def noSuper (name : String) : Report :=
  .render {
    message := s!"no super block available for \"{name}\""
    code := .noSuper
    suggestion? := some "Only call super() from a block that overrides a parent block" }

/-- The module of the printed template does not publish the name. -/
def missingExport (template type name : String) : Report :=
  .render {
    message := s!"cannot import \"{name}\""
    code := .importName
    values := [⟨"template", template, type⟩]
    suggestion? := some (s!"Define and export '{name}' in {template} " ++
      "(underscore names are private)") }

/-- The environment has no filter of that name. -/
def unknownFilter (name : String) : Report :=
  .render {
    message := s!"unknown filter '{name}'"
    code := .unknownFilter
    suggestion? := some s!"Register it with env.filters[{Text.quoted name}] = func" }

end Report

namespace Eval

/-- Change a render context. -/
def modifyContext (r : Ref) (f : Context → Context) : Eval Unit :=
  modify fun w => { w with contexts := w.contexts.set r (f (w.context r)) }

/-- Bind a render variable. -/
def setVariable (r : Ref) (name : String) (v : Value) : Eval Unit :=
  modifyContext r fun c => { c with vars := c.vars.insert name v }

/-- The definition that a block renders. -/
def getBlock (r : Ref) (name : Constant) : Operation Value := do
  match ((← heap).context r).chainOf name with
  | block :: _ => return block
  | [] => failWith (.unknownBlock name.text)

/-- The function that renders the definition behind the given one. -/
def getSuper (env : Value) (r : Ref) (name : Constant) (block : Value) : Eval Value := do
  newFunction (.superBlock env r name (((← get).context r).nextBlock? name block))

/-- The published names of a context as a dictionary object. -/
def exportsDict (r : Ref) : Operation Value := do
  newDict (.ofEntries (((← heap).context r).exports.map fun e => (.ofText e.1, e.2)))

/-- What a name of a template means: a render variable, else a variable of the frames, else the
empty text. An empty value counts as missing. -/
def resolve (context frame : Ref) (name : String) : Eval Value := do
  let w ← get
  match (w.context context).lookup name with
  | .none =>
    match w.lookupFrame frame name with
    | some .none | none => return .ofText ""
    | some v => return v
  | v => return v

end Eval

end Stencil
