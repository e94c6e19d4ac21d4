import ContainerRecipe.Script.Value

namespace ContainerRecipe.Script

mutual

inductive Expression where
  | constant (v : Value)
  | variable (name : String)
  | global (name : String)
  | directory
  | function (parameters : List String) (body : List Statement)
  | index (subject key : Expression)
  | concat (left right : Expression)
  | either (left right : Expression)
  | same (left right : Expression)
  | call (function : Expression) (arguments : List Expression)
  | method (subject : Expression) (name : String) (arguments : List Expression)
  | table (items : List Expression) (fields : List (String × Expression))

inductive Statement where
  | assign (name : String) (value : Expression)
  | evaluate (value : Expression)
  | giveBack (value : Expression)
  | store (subject key value : Expression)
  | attempt (body : List Statement)
  | branch (condition : Expression) (whenTrue whenFalse : List Statement)

end

abbrev Program := List Statement

namespace Expression

def nil : Expression := .constant .nil

def text (s : String) : Expression := .constant (.text s)

def recipe (name : String) : Expression := .index (.global "recipe") (text name)

end Expression

mutual

-- How many levels an expression is nested. A variable is looked up by its name, which is a level of its own;
-- operands stand in brackets, the right one a level deeper.
def Expression.nesting : Expression → Nat
  | .constant _ | .global _ | .directory => 1
  | .variable _ => 2
  | .function _ body => 1 + Program.nesting body
  | .index subject key => 1 + max subject.nesting key.nesting
  | .concat left right | .either left right | .same left right =>
    1 + max left.nesting (1 + right.nesting)
  | .call f arguments => max f.nesting (1 + Expression.nestingOfAll arguments)
  | .method subject _ arguments => 1 + max subject.nesting (Expression.nestingOfAll arguments)
  | .table items fields => 1 + max (Expression.nestingOfAll items) (Expression.nestingOfFields fields)

def Expression.nestingOfAll : List Expression → Nat
  | [] => 0
  | e :: rest => max e.nesting (Expression.nestingOfAll rest)

def Expression.nestingOfFields : List (String × Expression) → Nat
  | [] => 0
  | (_, e) :: rest => max e.nesting (Expression.nestingOfFields rest)

def Statement.nesting : Statement → Nat
  | .assign _ e => 1 + e.nesting
  | .evaluate e | .giveBack e => 2 + e.nesting
  | .store subject key e => 1 + max subject.nesting (max key.nesting e.nesting)
  | .attempt body => 5 + Program.nesting body
  | .branch condition whenTrue whenFalse =>
    1 + max condition.nesting (max (Program.nesting whenTrue) (Program.nesting whenFalse))

def Program.nesting : List Statement → Nat
  | [] => 0
  | statement :: rest => max statement.nesting (Program.nesting rest)

end

end ContainerRecipe.Script
