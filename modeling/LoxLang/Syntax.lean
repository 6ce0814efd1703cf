import LoxLang.Token

/-!
# Syntax trees

Expressions and statements. The nodes that name a binding carry a number of their own, by which the
static analysis tells the evaluator how far out the binding lies.
-/

namespace LoxLang

/-- The number of a node that names a binding. -/
abbrev NodeId := Nat

inductive Literal
  | number (value : Numeral)
  | string (contents : String)
  | bool (value : Bool)
  | nil

mutual

inductive Expr
  | literal (value : Literal)
  | grouping (inner : Expr)
  | unary (operator : Token) (right : Expr)
  /-- An infix operator, the comma included. -/
  | binary (left : Expr) (operator : Token) (right : Expr)
  /-- `and` or `or`. -/
  | logical (left : Expr) (operator : Token) (right : Expr)
  | ternary (condition : Expr) (question : Token) (thenBranch elseBranch : Expr)
  | variable (id : NodeId) (name : Token)
  | assign (id : NodeId) (name : Token) (value : Expr)
  /-- A call, with its closing parenthesis. -/
  | call (callee : Expr) (paren : Token) (arguments : List Expr)
  | get (object : Expr) (name : Token)
  | set (object : Expr) (name : Token) (value : Expr)
  | this (id : NodeId) (keyword : Token)
  | super (id : NodeId) (keyword : Token) (method : Token)
  | arrow (decl : ArrowDecl)

inductive Stmt
  | expression (value : Expr)
  | print (value : Expr)
  | println (value : Expr)
  | var (name : Token) (initializer : Option Expr)
  | const (name : Token) (initializer : Expr)
  | block (body : List Stmt)
  | ifElse (condition : Expr) (thenBranch : Stmt) (elseBranch : Option Stmt)
  | while (condition : Expr) (body : Stmt)
  /-- The update runs after the body, also where the body is cut short by `continue`. -/
  | for (initializer : Option Stmt) (condition update : Option Expr) (body : Stmt)
  | break (keyword : Token)
  | continue (keyword : Token)
  | assert (keyword : Token) (condition : Expr) (message : Option Expr)
  | function (decl : FunctionDecl)
  | return (keyword : Token) (value : Option Expr)
  | class (decl : ClassDecl)

/-- Parameters and body of an anonymous function, with its `=>`. A body that is an expression is
kept as a `return` of it. -/
structure ArrowDecl where
  arrow : Token
  params : List Token
  body : List Stmt

/-- A function, method, static method or getter. -/
structure FunctionDecl where
  name : Token
  params : List Token
  body : List Stmt

structure ClassDecl where
  name : Token
  /-- The expression behind `<`. -/
  base : Option Expr
  methods : List FunctionDecl
  statics : List FunctionDecl
  getters : List FunctionDecl

end

instance : Inhabited Expr := ⟨.literal .nil⟩

instance : Inhabited FunctionDecl := ⟨⟨default, [], []⟩⟩

instance : Inhabited ClassDecl := ⟨⟨default, none, [], [], []⟩⟩

end LoxLang
