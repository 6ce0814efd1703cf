import LoxLang.Binding.Fault
import LoxLang.Proofs.Token.Spelling
import LoxLang.Syntax.References

/-!
# Regular trees

What the grammar guarantees about a tree beyond its type: a branch is not itself a declaration, the
base of a class is a name, getters have no parameters, what is declared is not spelled like a
keyword, and nodes that name bindings have numbers of their own. The last has one exception: a property that is assigned to by way of its old value has
its object twice in the tree.
-/

namespace LoxLang

/-- No node of the one list has the number of a node of the other. -/
def Apart (left right : List Reference) : Prop :=
  ∀ l ∈ left, ∀ r ∈ right, l.id ≠ r.id

namespace Apart

variable {a b c : List Reference}

theorem symm (h : Apart a b) : Apart b a :=
  fun r hr l hl heq => h l hl r hr heq.symm

@[simp] theorem nil_left : Apart [] b := fun _ h => nomatch h

@[simp] theorem append_left : Apart (a ++ b) c ↔ Apart a c ∧ Apart b c := by
  simp only [Apart, List.mem_append]
  exact ⟨fun h => ⟨fun l hl => h l (.inl hl), fun l hl => h l (.inr hl)⟩,
    fun h l hl => hl.elim (h.1 l) (h.2 l)⟩

@[simp] theorem append_right : Apart a (b ++ c) ↔ Apart a b ∧ Apart a c := by
  simp only [Apart, List.mem_append]
  exact ⟨fun h => ⟨fun l hl r hr => h l hl r (.inl hr), fun l hl r hr => h l hl r (.inr hr)⟩,
    fun h l hl r hr => hr.elim (h.1 l hl r) (h.2 l hl r)⟩

end Apart

/-- The name that a statement itself declares in the scope it stands in. -/
def Stmt.declaration? : Stmt → Option (Token × DeclarationKind)
  | .var name _ => some (name, .variable)
  | .const name _ => some (name, .constant)
  | .function decl => some (decl.name, .function)
  | .class decl => some (decl.name, .class)
  | _ => none

/-- An assignment to a property by way of its old value: the object is read twice. -/
def UsesOldProperty (object : Expr) (name : Token) (value : Expr) : Prop :=
  ∃ operator right, value = .binary (.get object name) operator right

mutual

def Expr.Regular : Expr → Prop
  | .literal _ | .variable .. => True
  | .this _ keyword => keyword.lexeme = Keyword.this.text
  | .super _ keyword _ => keyword.lexeme = Keyword.super.text
  | .grouping inner => inner.Regular
  | .unary _ right => right.Regular
  | .binary left _ right =>
    left.Regular ∧ right.Regular ∧ Apart left.references right.references
  | .logical left _ right =>
    left.Regular ∧ right.Regular ∧ Apart left.references right.references
  | .ternary condition _ thenBranch elseBranch =>
    condition.Regular ∧ thenBranch.Regular ∧ elseBranch.Regular ∧
      Apart condition.references thenBranch.references ∧
      Apart (condition.references ++ thenBranch.references) elseBranch.references
  | .assign id name value => value.Regular ∧ Apart value.references [⟨.assign, id, name⟩]
  | .call callee _ arguments =>
    callee.Regular ∧ RegularEach arguments ∧
      Apart callee.references (referencesOfEach arguments)
  | .get object _ => object.Regular
  | .set object name value =>
    object.Regular ∧ value.Regular ∧
      (Apart object.references value.references ∨ UsesOldProperty object name value)
  | .arrow decl => decl.Regular

def ArrowDecl.Regular : ArrowDecl → Prop
  | ⟨_, params, body⟩ => RegularBody body ∧ ∀ p ∈ params, p.IsName

def RegularEach : List Expr → Prop
  | [] => True
  | e :: es => e.Regular ∧ RegularEach es ∧ Apart e.references (referencesOfEach es)

def RegularOptional : Option Expr → Prop
  | none => True
  | some e => e.Regular

def Stmt.Regular : Stmt → Prop
  | .expression value | .print value | .println value => value.Regular
  | .var name initializer => RegularOptional initializer ∧ name.IsName
  | .const name initializer => initializer.Regular ∧ name.IsName
  | .block body => RegularBody body
  | .ifElse condition thenBranch elseBranch =>
    condition.Regular ∧ thenBranch.Regular ∧ RegularBranch elseBranch ∧
      thenBranch.declaration? = none ∧ (∀ s ∈ elseBranch, s.declaration? = none) ∧
      Apart condition.references thenBranch.references ∧
      Apart (condition.references ++ thenBranch.references) (referencesOfBranch elseBranch)
  | .while condition body =>
    condition.Regular ∧ body.Regular ∧ body.declaration? = none ∧
      Apart condition.references body.references
  | .for initializer condition update body =>
    RegularBranch initializer ∧ RegularOptional condition ∧ RegularOptional update ∧
      body.Regular ∧ body.declaration? = none ∧
      Apart (referencesOfBranch initializer) (referencesOfOptional condition) ∧
      Apart (referencesOfBranch initializer ++ referencesOfOptional condition)
        (referencesOfOptional update) ∧
      Apart (referencesOfBranch initializer ++ referencesOfOptional condition ++
        referencesOfOptional update) body.references
  | .break _ | .continue _ => True
  | .assert _ condition message =>
    condition.Regular ∧ RegularOptional message ∧
      Apart condition.references (referencesOfOptional message)
  | .function decl => decl.Regular
  | .return _ value => RegularOptional value
  | .class decl => decl.Regular

def RegularBranch : Option Stmt → Prop
  | none => True
  | some s => s.Regular

def RegularBody : List Stmt → Prop
  | [] => True
  | s :: ss => s.Regular ∧ RegularBody ss ∧ Apart s.references (referencesOfBody ss)

def FunctionDecl.Regular : FunctionDecl → Prop
  | ⟨name, params, body⟩ => RegularBody body ∧ name.IsName ∧ ∀ p ∈ params, p.IsName

def RegularFunctions : List FunctionDecl → Prop
  | [] => True
  | d :: ds => d.Regular ∧ RegularFunctions ds ∧ Apart d.references (referencesOfFunctions ds)

def ClassDecl.Regular : ClassDecl → Prop
  | ⟨name, base, methods, statics, getters⟩ =>
    (∀ e ∈ base, ∃ id name, e = .variable id name) ∧ (∀ d ∈ getters, d.params = []) ∧
      RegularFunctions methods ∧ RegularFunctions statics ∧ RegularFunctions getters ∧
      Apart (referencesOfOptional base) (referencesOfFunctions methods) ∧
      Apart (referencesOfOptional base ++ referencesOfFunctions methods)
        (referencesOfFunctions statics) ∧
      Apart (referencesOfOptional base ++ referencesOfFunctions methods ++
        referencesOfFunctions statics) (referencesOfFunctions getters) ∧ name.IsName

end

end LoxLang
