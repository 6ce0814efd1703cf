import LoxLang.Syntax

/-!
# Kinds of scopes

What a scope is opened for. The static analysis and the running program open scopes for the same
constructs, in the same order, and each scope is labelled with the construct itself.
-/

namespace LoxLang

inductive ScopeKind
  | globals
  | block (body : List Stmt := [])
  /-- The clauses of a `for`; its body is a block inside. -/
  | clauses (initializer : Option Stmt) (condition update : Option Expr) (body : Stmt)
  /-- The parameters of a function and, with them, the names of its body. -/
  | parameters (params : List Token) (body : List Stmt)
  /-- The object that a method of a class works on: `this` and, in a derived class, `super`. -/
  | receiver (decl : ClassDecl)

end LoxLang
