import DocLocale.Source.Item
import DocLocale.Source.Parse

/-!
The constructs of the source grammar that contain one another. Each part of the grammar is written
over a function that parses any of them; tying the knot with a bound on the nesting gives the parser.
-/

set_option autoImplicit false
set_option relaxedAutoImplicit false

namespace DocLocale.Source

/-- A type and where it stands. -/
structure TypeSpan where
  type : TypeExpr
  lo : Nat
  hi : Nat

/-- What an expression can be used for besides its value. -/
inductive ExprForm
  | name (name : String)
  /-- A place that can be assigned to. -/
  | place
  /-- A list or object literal; it can be assigned to if all its parts can. -/
  | literal (assignable : Bool)
  /-- An assignment to the place on its left. -/
  | assignment
  /-- An operator applied to operands, which nothing can be assigned to. -/
  | operation
  /-- A function with an arrow, which takes no operators behind it. -/
  | arrow
  /-- A prefix operator without parentheses, which is no base of a power. -/
  | signed
  | other
  deriving DecidableEq, Repr

/-- An expression and where it stands. -/
structure Expr where
  lo : Nat
  hi : Nat
  form : ExprForm

/-- Whether an expression can stand to the left of an assignment. -/
def Expr.isAssignable (e : Expr) : Bool :=
  match e.form with
  | .name _ | .place => true
  | .literal ok => ok
  | _ => false

/-- Whether an expression can be a part of a literal that is assigned to. -/
def Expr.isAssignablePart (e : Expr) : Bool := e.isAssignable || e.form = .assignment

/-- A binding: a name, or a pattern that may be marked optional. -/
inductive Target
  | name (name : String)
  | pattern (isOptional : Bool)

/-- What follows the name of a class. -/
structure ClassTail where
  generics : List TypeParameter
  bases : List Reference
  interfaces : List Reference
  members : List Member

/-- The constructs that contain one another. -/
inductive Goal
  | type
  | assignment
  | leftHandSide
  | heritage
  | target (letAllowed : Bool)
  | classTail
  | statement (topLevel : Bool)

/-- What parsing a construct gives. -/
def Goal.Result : Goal → Type
  | .type => TypeSpan
  | .assignment => Expr
  | .leftHandSide => Expr
  | .heritage => Reference
  | .target _ => Target
  | .classTail => ClassTail
  | .statement _ => Item

/-- A parser for each construct. -/
abbrev Knot := (g : Goal) → Parse g.Result

namespace Knot

variable (k : Knot)

/-- A type. -/
def type : Parse TypeSpan := k .type

/-- An assignment expression. -/
def assignment : Parse Expr := k .assignment

/-- An expression that calls and members can be taken of. -/
def leftHandSide : Parse Expr := k .leftHandSide

/-- An entry of a heritage clause. -/
def heritage : Parse Reference := k .heritage

/-- A binding name or pattern. -/
def target (letAllowed : Bool) : Parse Target := k (.target letAllowed)

/-- The rest of a class behind its name. -/
def classTail : Parse ClassTail := k .classTail

/-- A statement. -/
def statement (topLevel : Bool) : Parse Item := k (.statement topLevel)

end Knot

end DocLocale.Source
