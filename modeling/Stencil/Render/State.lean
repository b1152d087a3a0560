import Stencil.Report

/-!
# Render states

While a template runs, the render state says which one it is, how deeply includes and imports are
nested, and which renders led to it. A nested render is refused once the depth has reached the
limit.
-/

namespace Stencil

/-- The bookkeeping of one render. -/
structure RenderState where
  template? : Option String := none
  depth : Int := 0
  maxDepth : Int := 50
  stack : TemplateStack := []
  deriving Inhabited, Repr

namespace RenderState

/-- The limit on nested renders, unless an environment sets another one. -/
def defaultMaxDepth : Int := 50

/-- The text of an optional template name inside a message. -/
def nameText : Option String → String
  | some name => name
  | none => "None"

/-- The report of a nested render that would exceed the limit; none while there is room. -/
def depthReport? (s : RenderState) (template? : Option String) : Option Report :=
  if s.depth ≥ s.maxDepth then
    some (.render {
      message := s!"Maximum include depth exceeded ({s.maxDepth}) when rendering " ++
        s!"'{nameText template?}'"
      code := .includeDepth
      template? := s.template?
      stack := s.stack
      suggestion? := some "Check for circular includes or imports: A → B → A" })
  else
    none

/-- The name of a template, if it has one that is not empty. -/
def properName? (template? : Option String) : Option String :=
  template?.filter fun name => !name.isEmpty

/-- The state of a nested render, one level deeper. A template without a name goes by the name of
the one around it. -/
def child (s : RenderState) (template? : Option String) : RenderState :=
  { template? := properName? template? <|> s.template?
    depth := s.depth + 1
    maxDepth := s.maxDepth
    stack :=
      match properName? s.template? with
      | some name => s.stack ++ [(name, s.depth)]
      | none => s.stack }

end RenderState

end Stencil
