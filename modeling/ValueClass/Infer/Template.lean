import ValueClass.Text.Basic

/-! # Templates

Class declarations are written through a template engine. What is documented of
an engine, for text, for variables and for a loop, is all that is known of it.
-/

namespace ValueClass

/-- What a template is made of inside a loop. -/
inductive TemplatePiece where
  /-- Text that is written as it stands. -/
  | text (t : Text)
  /-- The value of a variable. -/
  | value (name : Text)
  deriving Repr, DecidableEq

inductive TemplatePart where
  | piece (piece : TemplatePiece)
  /-- A body that is written for each item of a list. -/
  | each (item list : Text) (body : List TemplatePiece)
  deriving Repr, DecidableEq

abbrev Template := List TemplatePart

/-- What the variables of a template stand for. -/
structure TemplateContext where
  values : List (Text × Text)
  /-- Lists; of an item its attributes are known. -/
  lists : List (Text × List (List (Text × Text))) := []
  deriving Repr, DecidableEq

/-- The context inside a loop: the attributes of the item are variables, too. -/
def TemplateContext.bind (context : TemplateContext) (item : Text)
    (attributes : List (Text × Text)) : TemplateContext :=
  { context with
    values := attributes.map (fun (name, value) => (item ++ "." ++ name, value)) ++ context.values }

/-- What is documented of rendering: the parts are written one after the
    other, a variable as its value and a loop as its body for each item. -/
structure RendersTemplates (render : Template → TemplateContext → Text) : Prop where
  nil (context : TemplateContext) : render [] context = []
  text (t : Text) (rest : Template) (context : TemplateContext) :
    render (.piece (.text t) :: rest) context = t ++ render rest context
  value {name value : Text} {context : TemplateContext}
    (known : context.values.lookup name = some value) (rest : Template) :
    render (.piece (.value name) :: rest) context = value ++ render rest context
  each {list : Text} {items : List (List (Text × Text))} {context : TemplateContext}
    (known : context.lists.lookup list = some items) (item : Text) (body : List TemplatePiece)
    (rest : Template) :
    render (.each item list body :: rest) context =
      (items.flatMap fun attributes =>
        render (body.map .piece) (context.bind item attributes)) ++ render rest context

structure TemplateEngine where
  render : Template → TemplateContext → Text
  /-- Templates are rendered as documented. -/
  documented : RendersTemplates render

namespace TemplateEngine

def renderPiece (context : TemplateContext) : TemplatePiece → Text
  | .text t => t
  | .value name => (context.values.lookup name).getD []

def renderPart (context : TemplateContext) : TemplatePart → Text
  | .piece piece => renderPiece context piece
  | .each item list body =>
    ((context.lists.lookup list).getD []).flatMap fun attributes =>
      body.flatMap (renderPiece (context.bind item attributes))

/-- The engine that writes nothing for a variable it does not know. -/
def plain : TemplateEngine where
  render template context := template.flatMap (renderPart context)
  documented :=
    { nil := fun _ => rfl
      text := fun _ _ _ => rfl
      value := fun known rest => by simp [renderPart, renderPiece, known]
      each := fun known item body rest => by
        simp [renderPart, known, List.flatMap_map] }

end TemplateEngine

end ValueClass
