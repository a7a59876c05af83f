import PLang.Tree.Store

/-!
# Program trees as indented text

A node is one line, `label <line: L, col: C> extra`, and its parts follow two columns further in. A
wrapping expression is shown as what it wraps. Names, numbers and types have no line of their own.
-/

namespace PLang

/-- Two blanks for every level. -/
def indentation (level : Nat) : String := String.ofList (List.replicate (2 * level) ' ')

/-- One line of a rendering. -/
def renderLine (level : Nat) (label : String) (location : Location) (extra : Option String) :
    String :=
  indentation level ++ label ++ " " ++ location.text ++
    ((extra.map (" " ++ ·)).getD "") ++ "\n"

namespace Store

/-- The lines of a declaration: one for each name, with the literal under it. -/
def renderDeclaration (s : Store) (part : Nat → NodeId → List String) (level : Nat)
    (location : Location) (d : DeclarationNode) : List String :=
  let type := ((s.type? d.type).map TypeNode.text).getD ""
  renderLine level "declaration" location none ::
    (s.siblings (some d.names)).flatMap fun name =>
      renderLine (level + 1) "variable" (s.location name)
          (some ((s.name? name).getD "" ++ " " ++ type)) ::
        d.literal.toList.flatMap (part (level + 2))

/-- The lines of an expression. -/
def renderExpression (part : Nat → NodeId → List String) (level : Nat) (location : Location)
    (e : ExpressionNode) : List String :=
  if e.operator.isTerminal then e.left.toList.flatMap (part level)
  else if e.left.isNone then
    renderLine level "unary operator" location (some e.operator.symbol) ::
      e.right.toList.flatMap (part (level + 1))
  else
    renderLine level "binary operator" location (some e.operator.symbol) ::
      (e.left.toList ++ e.right.toList).flatMap (part (level + 1))

/-- The lines of a counting loop: its declaration, its header and its body. -/
def renderFor (s : Store) (part : Nat → NodeId → List String) (level : Nat)
    (location : Location) (f : ForNode) : List String :=
  [renderLine level "for statement" location none] ++
    part (level + 1) f.declaration ++
    [renderLine (level + 1) "assignment statement" (s.location f.assignNode) none,
     renderLine (level + 2) "variable reference" (s.location f.variableNode)
       (some f.loopVariable),
     renderLine (level + 2) "constant" (s.location f.lowerNode) (some (toString f.lower)),
     renderLine (level + 1) "constant" (s.location f.upperNode) (some (toString f.upper))] ++
    part (level + 1) f.body

/-- The lines of a node, given those of its parts. -/
def renderWith (s : Store) (part : Nat → NodeId → List String) (level : Nat) (id : NodeId) :
    List String :=
  let location := s.location id
  let inner := part (level + 1)
  let list := fun head => (s.siblings head).flatMap inner
  match s.kind? id with
  | none => []
  | some (.program p) =>
    renderLine level "program" location (some (p.name ++ " void")) ::
      (list p.declarations ++ list p.functions ++ inner p.body)
  | some (.declaration d) => s.renderDeclaration part level location d
  | some (.type _) => []
  | some (.literal l) => [renderLine level "constant" location (some l.text)]
  | some (.expression e) => renderExpression part level location e
  | some (.compound c) =>
    renderLine level "compound statement" location none ::
      (list c.declarations ++ list c.statements)
  | some (.print value) => renderLine level "print statement" location none :: inner value
  | some (.reference r) =>
    renderLine level "variable reference" location (some r.name) :: list r.indices
  | some (.assign target value) =>
    renderLine level "assignment statement" location none :: (inner target ++ inner value)
  | some (.read target) => renderLine level "read statement" location none :: inner target
  | some (.condition c) =>
    renderLine level "if statement" location none ::
      (inner c.guard ++ inner c.thenBody ++ c.elseBody.toList.flatMap inner)
  | some (.whileLoop guard body) =>
    renderLine level "while statement" location none :: (inner guard ++ inner body)
  | some (.returnValue value) =>
    renderLine level "return statement" location none :: value.toList.flatMap inner
  | some (.forLoop f) => s.renderFor part level location f
  | some (.call c) =>
    renderLine level "function invocation" location (some c.name) :: list c.arguments
  | some (.function f) =>
    renderLine level "function declaration" location
        (some (f.name ++ " " ++ f.result.text ++ " " ++ f.parameterText)) ::
      (list f.parameters ++ list f.body)
  | some (.name _) => []
  | some (.number _) => []
  | some (.epsilon before after) => [renderLine level before location (some after)]

/-- The lines of a node and its parts, down to a depth. -/
def renderNode (s : Store) : Nat → Nat → NodeId → List String
  | 0, _, _ => []
  | depth + 1, level, id => s.renderWith (s.renderNode depth) level id

/-- The text of a node and of those that follow it in its list. A path without a repetition is at
most as long as there are nodes, so nothing is cut off. -/
def render (s : Store) (id : NodeId) : String :=
  String.join ((s.siblings (some id)).flatMap (s.renderNode s.size 0))

end Store

end PLang
