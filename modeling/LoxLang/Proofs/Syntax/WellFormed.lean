import LoxLang.Grammar.Level
import LoxLang.Grammar.Cursor
import LoxLang.Machine.Operator

/-!
# Well-formed trees

What the grammar guarantees about the form of a tree: jumps stand inside loops of the same function,
operators are those that an evaluation knows, the body of a `for` is a block, the base of a class is
a name, getters have no parameters, and no list of parameters or arguments is too long.
-/

namespace LoxLang

namespace TokenKind

/-- The operators of a unary node that an evaluation knows. -/
def appliesToOne (kind : TokenKind) : Bool :=
  (UnaryOperator.ofKind? kind).isSome

/-- The operators of a binary node that an evaluation knows, the comma included. -/
def appliesToTwo (kind : TokenKind) : Bool :=
  kind.isSymbol .comma || (BinaryOperator.ofKind? kind).isSome

/-- The operators of a logical node. -/
def isLogical (kind : TokenKind) : Bool :=
  kind.isKeyword .or || kind.isKeyword .and

end TokenKind

mutual

def Expr.WellFormed : Expr → Prop
  | .literal _ | .variable .. | .this .. | .super .. => True
  | .grouping inner => inner.WellFormed
  | .unary operator right => operator.kind.appliesToOne ∧ right.WellFormed
  | .binary left operator right =>
    operator.kind.appliesToTwo ∧ left.WellFormed ∧ right.WellFormed
  | .logical left operator right => operator.kind.isLogical ∧ left.WellFormed ∧ right.WellFormed
  | .ternary condition _ thenBranch elseBranch =>
    condition.WellFormed ∧ thenBranch.WellFormed ∧ elseBranch.WellFormed
  | .assign _ _ value => value.WellFormed
  | .call callee _ arguments =>
    callee.WellFormed ∧ arguments.length ≤ maxArguments ∧ WellFormedEach arguments
  | .get object _ => object.WellFormed
  | .set object _ value => object.WellFormed ∧ value.WellFormed
  | .arrow decl => decl.WellFormed

def ArrowDecl.WellFormed : ArrowDecl → Prop
  | ⟨_, params, body⟩ => params.length ≤ maxArguments ∧ WellFormedBody body false

def WellFormedEach : List Expr → Prop
  | [] => True
  | e :: es => e.WellFormed ∧ WellFormedEach es

def WellFormedOptional : Option Expr → Prop
  | none => True
  | some e => e.WellFormed

/-- A statement is well formed inside a loop of the same function, or outside of one. -/
def Stmt.WellFormed : Stmt → Bool → Prop
  | .expression value, _ | .print value, _ | .println value, _ => value.WellFormed
  | .var _ initializer, _ => WellFormedOptional initializer
  | .const _ initializer, _ => initializer.WellFormed
  | .block body, inLoop => WellFormedBody body inLoop
  | .ifElse condition thenBranch elseBranch, inLoop =>
    condition.WellFormed ∧ thenBranch.WellFormed inLoop ∧ WellFormedBranch elseBranch inLoop
  | .while condition body, _ => condition.WellFormed ∧ body.WellFormed true
  | .for initializer condition update body, _ =>
    WellFormedBranch initializer false ∧ WellFormedOptional condition ∧
      WellFormedOptional update ∧ (∃ ss, body = .block ss) ∧ body.WellFormed true
  | .break _, inLoop | .continue _, inLoop => inLoop
  | .assert _ condition message, _ => condition.WellFormed ∧ WellFormedOptional message
  | .function decl, _ => decl.WellFormed
  | .return _ value, _ => WellFormedOptional value
  | .class decl, _ => decl.WellFormed

def WellFormedBranch : Option Stmt → Bool → Prop
  | none, _ => True
  | some s, inLoop => s.WellFormed inLoop

def WellFormedBody : List Stmt → Bool → Prop
  | [], _ => True
  | s :: ss, inLoop => s.WellFormed inLoop ∧ WellFormedBody ss inLoop

/-- Inside a function, loops around it do not count. -/
def FunctionDecl.WellFormed : FunctionDecl → Prop
  | ⟨_, params, body⟩ => params.length ≤ maxArguments ∧ WellFormedBody body false

def WellFormedFunctions : List FunctionDecl → Prop
  | [] => True
  | d :: ds => d.WellFormed ∧ WellFormedFunctions ds

def ClassDecl.WellFormed : ClassDecl → Prop
  | ⟨_, base, methods, statics, getters⟩ =>
    (∀ e ∈ base, ∃ id name, e = .variable id name) ∧ (∀ d ∈ getters, d.params = []) ∧
      WellFormedFunctions methods ∧ WellFormedFunctions statics ∧ WellFormedFunctions getters

end

theorem wellFormedFunctions_iff {ds : List FunctionDecl} :
    WellFormedFunctions ds ↔ ∀ d ∈ ds, d.WellFormed := by
  induction ds with
  | nil => exact ⟨fun _ _ h => (nomatch h), fun _ => trivial⟩
  | cons d ds ih => rw [WellFormedFunctions, ih, List.forall_mem_cons]

theorem ArrowDecl.WellFormed.body {d : ArrowDecl} (h : d.WellFormed) :
    WellFormedBody d.body false := by
  obtain ⟨_, _, _⟩ := d
  exact h.2

theorem FunctionDecl.WellFormed.body {d : FunctionDecl} (h : d.WellFormed) :
    WellFormedBody d.body false := by
  obtain ⟨_, _, _⟩ := d
  exact h.2

/-! ## Operators -/

namespace Level

variable {level : Level} {kind : TokenKind}

/-- The operators of a level make the kind of node that knows them. -/
theorem wellFormed_join {left right : Expr} {operator : Token} (hl : left.WellFormed)
    (hr : right.WellFormed) (hlevel : level.isInfix operator.kind) :
    (level.join left operator right).WellFormed := by
  unfold isInfix at hlevel
  split at hlevel <;> rename_i hkind
  all_goals first
    | exact ⟨by rw [hkind]; rfl, hl, hr⟩
    | cases hlevel

end Level

theorem TokenKind.appliesToOne_of_isUnaryOperator {kind : TokenKind} (h : kind.isUnaryOperator) :
    kind.appliesToOne := by
  unfold isUnaryOperator at h
  split at h
  all_goals first
    | rfl
    | cases h

/-- The operator that an assignment applies is one of two operands. -/
theorem TokenKind.appliesToTwo_of_appliedOperator? {kind : TokenKind} {operator : Symbol}
    (h : kind.appliedOperator? = some operator) : (TokenKind.symbol operator).appliesToTwo := by
  unfold appliedOperator? at h
  split at h <;> cases h <;> rfl

end LoxLang
