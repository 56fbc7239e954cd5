import Rill.Number.Notation
import Rill.Text.Quoted
import Rill.Tree.Basic

/-!
# Trees as indented outlines

An outline is a labelled tree whose branches may be marked with the part that
they play. It is printed one node a line, each node below its parent and joined
to it by drawn lines.
-/

namespace Rill

inductive Outline where
  | node (label : String) (children : List (String × Outline))

namespace Outline

def renderRole (ink : Ink) (role : String) : String :=
  if role.isEmpty then "" else ink.paint .dim (role ++ ":") ++ " "

mutual

/-- The lines of an outline. The first stands where the caller is; the others start with
`indent`. -/
def render (ink : Ink) (indent : String) : Outline → String
  | .node label children => label ++ "\n" ++ renderChildren ink indent children

def renderChildren (ink : Ink) (indent : String) : List (String × Outline) → String
  | [] => ""
  | [(role, child)] =>
    indent ++ "└── " ++ renderRole ink role ++ child.render ink (indent ++ "    ")
  | (role, child) :: next :: rest =>
    indent ++ "├── " ++ renderRole ink role ++ child.render ink (indent ++ "│   ")
      ++ renderChildren ink indent (next :: rest)

end

end Outline

def Literal.render (ink : Ink) (value : Literal) : String :=
  ink.paint .magenta <|
    match value with
    | .bool b => if b then "true" else "false"
    | .int n => Number.renderInt n
    | .float x => Number.renderFloat x
    | .str s => Text.quoted s

namespace Expr

mutual

def outline (ink : Ink) : Expr → Outline
  | .literal _ value => .node (value.render ink) []
  | .var _ name => .node (ink.paint .blue name.name) []
  | .call _ target args =>
    .node (ink.paint .cyan "Call" ++ " " ++ ink.paint .blue target.name) (outlines ink args)
  | .unary _ op operand =>
    .node (ink.paint .cyan "Unary" ++ " " ++ ink.paint .white op.spelling)
      [("", operand.outline ink)]
  | .binary _ op lhs rhs =>
    .node (ink.paint .cyan "Binary" ++ " " ++ ink.paint .white op.spelling)
      [("", lhs.outline ink), ("", rhs.outline ink)]
  | .logic _ .and lhs rhs =>
    .node (ink.paint .cyan "LogicalAnd") [("", lhs.outline ink), ("", rhs.outline ink)]
  | .logic _ .or lhs rhs =>
    .node (ink.paint .cyan "LogicalOr") [("", lhs.outline ink), ("", rhs.outline ink)]

def outlines (ink : Ink) : List Expr → List (String × Outline)
  | [] => []
  | e :: es => ("", e.outline ink) :: outlines ink es

end

/-- The part of an optional expression. -/
def outlineOpt (ink : Ink) (role : String) : Option Expr → List (String × Outline)
  | none => []
  | some e => [(role, e.outline ink)]

end Expr

namespace Stmt

mutual

def outline (ink : Ink) : Stmt → Outline
  | .ite _ condition positive negative =>
    .node (ink.paint .magenta "If")
      (("condition", condition.outline ink) :: outlineOpt ink "then" positive
        ++ outlineOpt ink "else" negative)
  | .block _ body => .node (ink.paint .magenta "Block") (outlines ink body)
  | .decl _ name ty value =>
    let annotation := match ty with
      | some ty => ": " ++ ty.render ink
      | none => ""
    .node (ink.paint .magenta "Let" ++ " " ++ ink.paint .blue name.name ++ annotation)
      (Expr.outlineOpt ink "value" value)
  | .assign _ target value =>
    .node (ink.paint .magenta "Assign" ++ " " ++ ink.paint .blue target.name)
      [("value", value.outline ink)]
  | .ret _ value => .node (ink.paint .magenta "Return") (Expr.outlineOpt ink "" value)
  | .loop _ condition body =>
    .node (ink.paint .magenta "While")
      [("condition", condition.outline ink), ("body", body.outline ink)]
  | .eval _ value => .node (ink.paint .magenta "Expression") [("", value.outline ink)]
  | .skip _ => .node (ink.paint .magenta "Empty") []

def outlineOpt (ink : Ink) (role : String) : Option Stmt → List (String × Outline)
  | none => []
  | some s => [(role, s.outline ink)]

def outlines (ink : Ink) : List Stmt → List (String × Outline)
  | [] => []
  | s :: ss => ("", s.outline ink) :: outlines ink ss

end

/-- The outline below a line that already stands at `indent`. -/
def describe (ink : Ink) (indent : String) (s : Stmt) : String :=
  (s.outline ink).render ink indent

end Stmt

def Param.render (ink : Ink) (param : Param) : String :=
  param.name.name ++ ": " ++ param.ty.render ink

def Function.outline (ink : Ink) (f : Function) : Outline :=
  let params := String.intercalate ", " (f.header.params.map (Param.render ink))
  .node
    (ink.paint .magenta "Function" ++ " " ++ ink.paint .blue f.header.name.name ++ "(" ++ params
      ++ ") -> " ++ f.header.returnType.render ink)
    [("", f.body.outline ink)]

def Function.describe (ink : Ink) (f : Function) : String :=
  (f.outline ink).render ink ""

def Module.describe (ink : Ink) (m : Module) : String :=
  String.join (m.functions.map (Function.describe ink))

end Rill
