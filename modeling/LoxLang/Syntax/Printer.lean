import LoxLang.Syntax

/-!
# Printing trees

Trees in a parenthesised prefix form, such as `(+ 1 (group 2))`.
-/

namespace LoxLang

def Literal.render : Literal → String
  | .number value => value.display
  | .string contents => "\"" ++ contents ++ "\""
  | .bool value => if value then "true" else "false"
  | .nil => "nil"

/-- Parameter names with blanks between them. -/
def printParams (params : List Token) : String :=
  " ".intercalate (params.map Token.lexeme)

mutual

def Expr.render : Expr → String
  | .literal value => value.render
  | .grouping inner => "(group " ++ inner.render ++ ")"
  | .unary operator right => "(" ++ operator.lexeme ++ " " ++ right.render ++ ")"
  | .binary left operator right =>
    "(" ++ operator.lexeme ++ " " ++ left.render ++ " " ++ right.render ++ ")"
  | .logical left operator right =>
    "(" ++ operator.lexeme ++ " " ++ left.render ++ " " ++ right.render ++ ")"
  | .ternary condition _ thenBranch elseBranch =>
    "(?: " ++ condition.render ++ " " ++ thenBranch.render ++ " " ++ elseBranch.render ++ ")"
  | .variable _ name => name.lexeme
  | .assign _ name value => "(= " ++ name.lexeme ++ " " ++ value.render ++ ")"
  | .call callee _ arguments => "(call " ++ callee.render ++ printEach arguments ++ ")"
  | .get object name => "(. " ++ object.render ++ " " ++ name.lexeme ++ ")"
  | .set object name value =>
    "(.= " ++ object.render ++ " " ++ name.lexeme ++ " " ++ value.render ++ ")"
  | .this _ _ => "this"
  | .super _ _ method => "(super " ++ method.lexeme ++ ")"
  | .arrow decl => decl.render

def ArrowDecl.render : ArrowDecl → String
  | ⟨_, params, body⟩ => "(=> (" ++ printParams params ++ ") " ++ printBlock body ++ ")"

/-- Each expression with a blank before it. -/
def printEach : List Expr → String
  | [] => ""
  | e :: es => " " ++ e.render ++ printEach es

def Stmt.render : Stmt → String
  | .expression value => "(; " ++ value.render ++ ")"
  | .print value => "(print " ++ value.render ++ ")"
  | .println value => "(println " ++ value.render ++ ")"
  | .var name initializer => "(var " ++ name.lexeme ++ printOptional initializer ++ ")"
  | .const name initializer => "(const " ++ name.lexeme ++ " " ++ initializer.render ++ ")"
  | .block body => printBlock body
  | .ifElse condition thenBranch elseBranch =>
    "(if " ++ condition.render ++ " " ++ thenBranch.render ++ printElse elseBranch ++ ")"
  | .while condition body => "(while " ++ condition.render ++ " " ++ body.render ++ ")"
  | .for initializer condition update body =>
    "(for " ++ printInitializer initializer ++ " " ++ printClause condition ++ " " ++
      printClause update ++ " " ++ body.render ++ ")"
  | .break _ => "(break)"
  | .continue _ => "(continue)"
  | .assert _ condition message =>
    "(assert " ++ condition.render ++ printOptional message ++ ")"
  | .function decl => decl.render "fun"
  | .return _ value => "(return" ++ printOptional value ++ ")"
  | .class decl => decl.render

/-- An expression with a blank before it, if there is one. -/
def printOptional : Option Expr → String
  | none => ""
  | some e => " " ++ e.render

/-- A clause of a loop; an underscore stands for a missing one. -/
def printClause : Option Expr → String
  | none => "_"
  | some e => e.render

def printInitializer : Option Stmt → String
  | none => "_"
  | some s => s.render

def printElse : Option Stmt → String
  | none => ""
  | some s => " " ++ s.render

def printBlock (body : List Stmt) : String :=
  "\x7b" ++ printStatements body ++ " \x7d"

/-- Each statement with a blank before it. -/
def printStatements : List Stmt → String
  | [] => ""
  | s :: ss => " " ++ s.render ++ printStatements ss

/-- A function under the word for its role. -/
def FunctionDecl.render (role : String) : FunctionDecl → String
  | ⟨name, params, body⟩ =>
    "(" ++ role ++ " " ++ name.lexeme ++ " (" ++ printParams params ++ ") " ++
      printBlock body ++ ")"

/-- Each function with a blank before it. -/
def printFunctions (role : String) : List FunctionDecl → String
  | [] => ""
  | d :: ds => " " ++ d.render role ++ printFunctions role ds

def ClassDecl.render : ClassDecl → String
  | ⟨name, base, methods, statics, getters⟩ =>
    "(class " ++ name.lexeme ++ printBase base ++ printFunctions "method" methods ++
      printFunctions "static" statics ++ printFunctions "getter" getters ++ ")"

def printBase : Option Expr → String
  | none => ""
  | some e => " < " ++ e.render

end

end LoxLang
