import Stencil.Compile.Expr

/-!
# Compiling statements

`Compile.stmt` turns a statement node into script statements that append to a given buffer, and
returns the scope for what follows: macro definitions and imports bind their names for the rest of
the surrounding body. Loops and macro bodies open a scope of their own, and so a frame when they
run.
-/

namespace Stencil.Compile

open Script (Ident Stmt)

/-- Where statements are compiled: whether they belong to the root function, and the buffer that
takes their output. -/
structure Site where
  inRoot : Bool
  buffer : Ident

/-- Names with a leading underscore are private to their template. -/
def isPrivate (name : String) : Bool :=
  name.toList.head? == some '_'

/-- The statements that store a value under one target of an assignment. -/
def store (value : Ident) (target : String) : List Stmt :=
  Stmt.setVariable target (.name value) ::
    if isPrivate target then [] else [Stmt.addExport target]

/-- The statement that renders the winning definition of a block. In the root function it is skipped
once a parent template is known. -/
def blockReference (site : Site) (name : Node.Content) : Stmt :=
  let render := Stmt.emit site.buffer
    (.call (.method (.name .context) .getBlock [.ofContent name]) Script.Expr.entryArgs)
  if site.inRoot then
    .branch (.compare (.name .parentTemplate) [(.is, .const .null)]) [render] []
  else
    render

/-- The statements that load a parent template and add its blocks behind those already known. -/
def inheritance (parent : Script.Expr) (key : Ident) : List Stmt :=
  let blocks : Script.Expr := .attr (.name .parentTemplate) .blocks
  [.assign .parentTemplate (.method (.name .env) .getTemplate [parent, .const (.bool true)]),
    .loop (.single key) blocks
      [.expr (.method (.name .context) .addBlock
        [.name key, .subscript blocks (.name key)])]]

/-- The statements that make the element of a round known in the runtime frame, under the loop's
name, together with the full loop record. -/
def sequenceRecord (name : String) (index length value : Ident) : List Stmt :=
  let i : Script.Expr := .name index
  let n : Script.Expr := .name length
  [.frameSet name (.name value),
    .frameSet "loop.index" (.binary .add i (.int 1)),
    .frameSet "loop.index0" i,
    .frameSet "loop.revindex" (.binary .sub n i),
    .frameSet "loop.revindex0" (.binary .sub (.binary .sub n i) (.int 1)),
    .frameSet "loop.first" (.compare i [(.eq, .int 0)]),
    .frameSet "loop.last" (.compare i [(.eq, .binary .sub n (.int 1))]),
    .frameSet "loop.length" n]

/-- The statements that begin a round of a loop over a sequence. -/
def sequenceRound (name : String) (index arr length value : Ident) : List Stmt :=
  .assign value (.subscript (.name arr) (.name index)) :: sequenceRecord name index length value

/-- A loop over the elements of a sequence, taken when the loop starts. -/
def sequenceLoop (name : String) (index arr length value : Ident) (source : Script.Expr)
    (body : List Stmt) : List Stmt :=
  [.assign arr (.call (.name .list) [.boolean .or source (.tuple [])]),
    .assign length (.call (.name .len) [.name arr]),
    .loop (.single index) (.call (.name .range) [.name length])
      (sequenceRound name index arr length value ++ body)]

/-- The statements that make key and element of a round known in the runtime frame, under the
loop's names, together with a loop record without what the number of rounds would tell. -/
def pairRecord (keyName valueName : String) (index key value : Ident) : List Stmt :=
  let i : Script.Expr := .name index
  [.frameSet keyName (.name key),
    .frameSet valueName (.name value),
    .frameSet "loop.index" (.binary .add i (.int 1)),
    .frameSet "loop.index0" i,
    .frameSet "loop.first" (.compare i [(.eq, .int 0)])]

/-- The statements that begin a round of a loop over pairs. -/
def pairRound (keyName valueName : String) (index key value : Ident) : List Stmt :=
  .increment index (.int 1) :: pairRecord keyName valueName index key value

/-- A loop over the pairs of a mapping, or over the positions and elements of a sequence. -/
def pairLoop (keyName valueName : String) (index arr key value : Ident) (source : Script.Expr)
    (body : List Stmt) : List Stmt :=
  [.assign arr (.boolean .or source (.dict [])),
    .assign index (.int (-1)),
    .loop (.pair key value) (.helper .iterItems [.name arr])
      (pairRound keyName valueName index key value ++ body)]

/-- The statements that define a macro: its body as a function that keeps the frame of the
definition, and the wrapper that binds arguments to parameters. -/
def macroDefinition (name : Node.Content) (params : List Node.Content)
    (signature : List Script.Expr) (body : List Stmt) : List Stmt :=
  [.pushFrame,
    .define (.macroName name.text) (params.map fun p => .localName p.text)
      [(.frame, .name .frame)]
      ([.assign .macroOutput (.list [])] ++ body ++ [.ret (.joined .macroOutput)]),
    .popFrame,
    .assign (.localName name.text)
      (.helper .wrapMacro
        [.name (.macroName name.text), .ofContent name, .list signature, .const (.bool false),
          .const (.bool false), .const (.bool false)])]

/-- Publish a macro under its name, unless the template has a parent. -/
def publishMacro (child : Bool) (name : Node.Content) : Gen (List Stmt) := do
  if child then
    return []
  let name ← textOf name
  return (if isPrivate name then [] else [Stmt.addExport name]) ++
    [Stmt.setVariable name (.name (.localName name))]

/-- Bind the local variable of a name. Only a text is a name that a template can refer to. -/
def bindLocal (scope : Scope Ident) : Node.Content → Scope Ident
  | .constant (.str name) => scope.set name (.localName name)
  | _ => scope

/-- Make an imported name a render variable, unless the template has a parent. -/
def publishImport (child : Bool) (name : String) : List Stmt :=
  if child then [] else [Stmt.setVariable name (.name (.localName name))]

/-- The module of a template given by name. -/
def moduleOf (template : Script.Expr) : Script.Expr :=
  .method (.method (.name .env) .getTemplate [template]) .getModule []

/-- The name under which an imported name is bound; an empty alias counts as none. -/
def aliasOf (name : String) : Option String → String
  | some a => if a.isEmpty then name else a
  | none => name

/-- The statements that take one name out of a module. -/
def importName (child : Bool) (template exports : Ident) (name bound : String) : List Stmt :=
  .branch (.compare (.text name) [(.within, .name exports)])
      [.assign (.localName bound) (.subscript (.name exports) (.text name))]
      [.expr (.helper .missingExport [.name template, .text name])] ::
    publishImport child bound

/-- The name of a macro parameter. -/
def paramName (n : Node) : Gen Node.Content :=
  match n.nameNode? with
  | some name => nameOf name
  | none => lacking n "name"

/-- The name of a macro parameter, as a name that the scope of the body knows. -/
def paramKey (n : Node) : Gen Node.Content := do
  let name ← paramName n
  demandKey name
  return name

/-- The signature of a macro: each parameter with its default, evaluated in the surrounding scope.
-/
def signature (scope : Scope Ident) : List Node → Gen (List Script.Expr)
  | [] => return []
  | .param _ name none :: rest => do
    let name ← nameOf name
    return .tuple [.ofContent name, .const .null] :: (← signature scope rest)
  | .param _ name (some d) :: rest => do
    let name ← nameOf name
    let d ← expr scope d
    return .tuple [.ofContent name, d] :: (← signature scope rest)
  | n :: _ => lacking n "default"

/-- The statements that output the items of an output node: raw text as it stands, anything else in
its text form. -/
def outputs (scope : Scope Ident) (buffer : Ident) : List Node → Gen (List Stmt)
  | [] => return []
  | .text _ s :: rest => do
    let stmts ← outputs scope buffer rest
    return if s.isEmpty then stmts else .emit buffer (.text s) :: stmts
  | n :: rest => do
    let e ← expr scope n
    return .emit buffer (.helper .toStr [e]) :: (← outputs scope buffer rest)

/-- The names that a loop target binds. -/
inductive LoopNames where
  | one (name : String)
  | two (key value : String)

/-- The names of a loop target: a name, or an array of two names. -/
def loopNames : Node → Gen LoopNames
  | .symbol _ name => return .one name
  | .array _ [.symbol _ key, .symbol _ value] => return .two key value
  | .array _ [.symbol .., other] => reject (.invalidType other.kindName) other
  | .array _ [other, _] => reject (.invalidType other.kindName) other
  | .array pos targets => throw (.violation (.loopTargets targets.length) (some pos))
  | n => reject (.invalidType n.kindName) n

mutual

/-- The script statements of a statement node, with the scope for what follows it. -/
def stmt (site : Site) (scope : Scope Ident) : Node → Gen (List Stmt × Scope Ident)
  | .text _ s =>
    return (if s.isEmpty then [] else [.emit site.buffer (.text s)], scope)
  | .output _ items => return (← outputs scope site.buffer items, scope)
  | .sequence _ items => stmts site scope items
  | .conditional _ test body none => do
    let test ← value scope test
    let (body, scope) ← stmt site scope body
    return ([.branch test (if body.isEmpty then [.pass] else body) []], scope)
  | .conditional _ test body (some otherwise) => do
    let test ← value scope test
    let (body, scope) ← stmt site scope body
    let (otherwise, scope) ← stmt site scope otherwise
    return ([.branch test (if body.isEmpty then [.pass] else body) otherwise], scope)
  | .loop _ target source body => do
    let index ← fresh
    let arr ← fresh
    let source ← value scope.push source
    match ← loopNames target with
    | .one name =>
      let length ← fresh
      let element ← fresh
      let (body, _) ← stmt site (scope.push.set name element) body
      return ([.pushFrame] ++ sequenceLoop name index arr length element source body ++
        [.popFrame], scope)
    | .two keyName valueName =>
      let key ← fresh
      let element ← fresh
      let (body, _) ← stmt site ((scope.push.set keyName key).set valueName element) body
      return ([.pushFrame] ++ pairLoop keyName valueName index arr key element source body ++
        [.popFrame], scope)
  | .assign _ targets e => do
    let id ← fresh
    let e ← value scope e
    let names ← targets.mapM fun t => do textOf (← nameOf t)
    return (.assign id e :: names.flatMap (store id), scope)
  | .macroDef _ name params body => do
    let name ← nameOf name
    let names ← params.mapM paramKey
    let inner := names.foldl bindLocal scope.push
    let (body, _) ← stmt { site with buffer := .macroOutput } inner body
    let defaults ← signature scope params
    demandKey name
    let published ← publishMacro (← get).child name
    return (macroDefinition name names defaults body ++ published, bindLocal scope name)
  | .block _ name _ => return ([blockReference site (← nameOf name)], scope)
  | .inherit pos parent => do
    if (← get).child then
      throw (.violation .multipleExtends (some pos))
    let parent ← value scope parent
    let key ← fresh
    modify fun p => { p with child := true }
    return (inheritance parent key, scope)
  | .inclusion _ template => do
    let id ← fresh
    let template ← value scope template
    return ([.assign id (.method (.name .env) .getTemplate [template]),
      .emit site.buffer (.method (.name id) .render
        [.method (.name .context) .getVariables [], .name .frame])], scope)
  | .importAll _ template target => do
    let template ← expr scope template
    let child := (← get).child
    return (.assign (.localName target) (moduleOf template) :: publishImport child target,
      scope.set target (.localName target))
  | .importNames _ template names => do
    let id ← fresh
    let exports ← fresh
    let template ← expr scope template
    let child := (← get).child
    let bound := names.map fun (name, alias?) => (name, aliasOf name alias?)
    return ([.assign id template, .assign exports (moduleOf (.name id))] ++
        bound.flatMap (fun (name, b) => importName child id exports name b),
      bound.foldl (fun s (_, b) => s.set b (.localName b)) scope)
  | .root pos _ => throw (.violation .rootWithFrame (some pos))
  | n => reject (.unknownNode n.kindName) n

/-- The script statements of a list of statement nodes, each compiled in the scope that the ones
before it leave. -/
def stmts (site : Site) (scope : Scope Ident) : List Node → Gen (List Stmt × Scope Ident)
  | [] => return ([], scope)
  | n :: rest => do
    let (first, scope) ← stmt site scope n
    let (others, scope) ← stmts site scope rest
    return (first ++ others, scope)

end

end Stencil.Compile
