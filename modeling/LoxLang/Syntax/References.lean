import LoxLang.Syntax

/-!
# References

The nodes of a tree that name a binding, in the order of a walk that visits a node before its parts.
-/

namespace LoxLang

inductive ReferenceKind
  | variable
  | assign
  | this
  | super
  deriving DecidableEq, Repr

def ReferenceKind.name : ReferenceKind → String
  | .variable => "variable"
  | .assign => "assign"
  | .this => "this"
  | .super => "super"

/-- A node that names a binding, with the token of the name. -/
structure Reference where
  kind : ReferenceKind
  id : NodeId
  token : Token

mutual

def Expr.references : Expr → List Reference
  | .literal _ => []
  | .grouping inner => inner.references
  | .unary _ right => right.references
  | .binary left _ right => left.references ++ right.references
  | .logical left _ right => left.references ++ right.references
  | .ternary condition _ thenBranch elseBranch =>
    condition.references ++ thenBranch.references ++ elseBranch.references
  | .variable id name => [⟨.variable, id, name⟩]
  | .assign id name value => ⟨.assign, id, name⟩ :: value.references
  | .call callee _ arguments => callee.references ++ referencesOfEach arguments
  | .get object _ => object.references
  | .set object _ value => object.references ++ value.references
  | .this id keyword => [⟨.this, id, keyword⟩]
  | .super id keyword _ => [⟨.super, id, keyword⟩]
  | .arrow decl => decl.references

def ArrowDecl.references : ArrowDecl → List Reference
  | ⟨_, _, body⟩ => referencesOfBody body

def referencesOfEach : List Expr → List Reference
  | [] => []
  | e :: es => e.references ++ referencesOfEach es

def referencesOfOptional : Option Expr → List Reference
  | none => []
  | some e => e.references

def Stmt.references : Stmt → List Reference
  | .expression value => value.references
  | .print value => value.references
  | .println value => value.references
  | .var _ initializer => referencesOfOptional initializer
  | .const _ initializer => initializer.references
  | .block body => referencesOfBody body
  | .ifElse condition thenBranch elseBranch =>
    condition.references ++ thenBranch.references ++ referencesOfBranch elseBranch
  | .while condition body => condition.references ++ body.references
  | .for initializer condition update body =>
    referencesOfBranch initializer ++ referencesOfOptional condition ++
      referencesOfOptional update ++ body.references
  | .break _ => []
  | .continue _ => []
  | .assert _ condition message => condition.references ++ referencesOfOptional message
  | .function decl => decl.references
  | .return _ value => referencesOfOptional value
  | .class decl => decl.references

def referencesOfBranch : Option Stmt → List Reference
  | none => []
  | some s => s.references

def referencesOfBody : List Stmt → List Reference
  | [] => []
  | s :: ss => s.references ++ referencesOfBody ss

def FunctionDecl.references : FunctionDecl → List Reference
  | ⟨_, _, body⟩ => referencesOfBody body

def referencesOfFunctions : List FunctionDecl → List Reference
  | [] => []
  | d :: ds => d.references ++ referencesOfFunctions ds

def ClassDecl.references : ClassDecl → List Reference
  | ⟨_, base, methods, statics, getters⟩ =>
    referencesOfOptional base ++ referencesOfFunctions methods ++
      referencesOfFunctions statics ++ referencesOfFunctions getters

end

end LoxLang
