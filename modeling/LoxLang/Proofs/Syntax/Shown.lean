import LoxLang.Proofs.Syntax.Alike
import LoxLang.Proofs.Syntax.Forms
import LoxLang.Syntax.Printer

/-!
# What a text shows of a tree

Two things are printed like a name: a literal that is too large for a float, as `inf`, and a
condition or update that a `for` leaves out, as `_`. With these names put in (`Stmt.shown`) a tree
has the text it had (`Stmt.render_shown`), and trees that are then alike have one text
(`Stmt.Alike.render_eq`).
-/

namespace LoxLang

/-- A variable that is printed like something else. -/
def Expr.ofName (name : String) : Expr :=
  .variable 0 (.ofName name 1)

def Literal.shown : Literal → Expr
  | .number value => if value.isInfinite then .ofName "inf" else .literal (.number value)
  | value => .literal value

mutual

/-- The tree with names in place of what is printed like them. -/
def Expr.shown : Expr → Expr
  | .literal value => value.shown
  | .grouping inner => .grouping inner.shown
  | .unary operator right => .unary operator right.shown
  | .binary left operator right => .binary left.shown operator right.shown
  | .logical left operator right => .logical left.shown operator right.shown
  | .ternary condition question thenBranch elseBranch =>
    .ternary condition.shown question thenBranch.shown elseBranch.shown
  | .variable id name => .variable id name
  | .assign id name value => .assign id name value.shown
  | .call callee paren arguments => .call callee.shown paren (shownEach arguments)
  | .get object name => .get object.shown name
  | .set object name value => .set object.shown name value.shown
  | .this id keyword => .this id keyword
  | .super id keyword method => .super id keyword method
  | .arrow decl => .arrow decl.shown

def ArrowDecl.shown : ArrowDecl → ArrowDecl
  | ⟨arrow, params, body⟩ => ⟨arrow, params, shownBody body⟩

def shownEach : List Expr → List Expr
  | [] => []
  | e :: es => e.shown :: shownEach es

def shownOptional : Option Expr → Option Expr
  | none => none
  | some e => some e.shown

def Stmt.shown : Stmt → Stmt
  | .expression value => .expression value.shown
  | .print value => .print value.shown
  | .println value => .println value.shown
  | .var name initializer => .var name (shownOptional initializer)
  | .const name initializer => .const name initializer.shown
  | .block body => .block (shownBody body)
  | .ifElse condition thenBranch elseBranch =>
    .ifElse condition.shown thenBranch.shown (shownBranch elseBranch)
  | .while condition body => .while condition.shown body.shown
  | .for initializer condition update body =>
    .for (shownBranch initializer) (some (shownClause condition)) (some (shownClause update))
      body.shown
  | .break keyword => .break keyword
  | .continue keyword => .continue keyword
  | .assert keyword condition message => .assert keyword condition.shown (shownOptional message)
  | .function decl => .function decl.shown
  | .return keyword value => .return keyword (shownOptional value)
  | .class decl => .class decl.shown

/-- A condition or update that is left out is printed as `_`. -/
def shownClause : Option Expr → Expr
  | none => .ofName "_"
  | some e => e.shown

def shownBranch : Option Stmt → Option Stmt
  | none => none
  | some s => some s.shown

def shownBody : List Stmt → List Stmt
  | [] => []
  | s :: ss => s.shown :: shownBody ss

def FunctionDecl.shown : FunctionDecl → FunctionDecl
  | ⟨name, params, body⟩ => ⟨name, params, shownBody body⟩

def shownFunctions : List FunctionDecl → List FunctionDecl
  | [] => []
  | d :: ds => d.shown :: shownFunctions ds

def ClassDecl.shown : ClassDecl → ClassDecl
  | ⟨name, base, methods, statics, getters⟩ =>
    ⟨name, shownOptional base, shownFunctions methods, shownFunctions statics,
      shownFunctions getters⟩

end

/-! ## The text stays -/

theorem Expr.render_ofName (name : String) : (ofName name).render = name := by
  rw [ofName, render, Token.ofName]

theorem Literal.render_shown (value : Literal) : value.shown.render = value.render := by
  cases value with
  | number value =>
    rw [shown]
    split
    · next hinfinite =>
      cases value with
      | int n => cases hinfinite
      | float x =>
        rw [Numeral.isInfinite] at hinfinite
        split at hinfinite
        · next negative hform =>
          have hsign : ¬negative = true := by simpa using hinfinite
          rw [Literal.render, Numeral.display, Number.FloatFormat.write, hform]
          dsimp only
          rw [if_neg hsign, Expr.render_ofName]
          rfl
        · cases hinfinite
    · rw [Expr.render]
  | string | bool | nil => exact Expr.render.eq_1 _

mutual

theorem Expr.render_shown : (e : Expr) → e.shown.render = e.render
  | .literal value => by
    rw [Expr.shown, value.render_shown, Expr.render]
  | .grouping inner => by
    simp only [Expr.shown, Expr.render, inner.render_shown]
  | .unary operator right => by
    simp only [Expr.shown, Expr.render, right.render_shown]
  | .binary left operator right => by
    simp only [Expr.shown, Expr.render, left.render_shown, right.render_shown]
  | .logical left operator right => by
    simp only [Expr.shown, Expr.render, left.render_shown, right.render_shown]
  | .ternary condition question thenBranch elseBranch => by
    simp only [Expr.shown, Expr.render, condition.render_shown, thenBranch.render_shown,
      elseBranch.render_shown]
  | .variable id name => by
    rw [Expr.shown]
  | .assign id name value => by
    simp only [Expr.shown, Expr.render, value.render_shown]
  | .call callee paren arguments => by
    simp only [Expr.shown, Expr.render, callee.render_shown, printEach_shown arguments]
  | .get object name => by
    simp only [Expr.shown, Expr.render, object.render_shown]
  | .set object name value => by
    simp only [Expr.shown, Expr.render, object.render_shown, value.render_shown]
  | .this id keyword => by
    rw [Expr.shown]
  | .super id keyword method => by
    rw [Expr.shown]
  | .arrow decl => by
    simp only [Expr.shown, Expr.render, decl.render_shown]

theorem ArrowDecl.render_shown : (d : ArrowDecl) → d.shown.render = d.render
  | ⟨arrow, params, body⟩ => by
    simp only [ArrowDecl.shown, ArrowDecl.render, printBlock, printStatements_shown body]

theorem printEach_shown : (es : List Expr) → printEach (shownEach es) = printEach es
  | [] => by
    rw [shownEach]
  | e :: es => by
    simp only [shownEach, printEach, e.render_shown, printEach_shown es]

theorem printOptional_shown : (e : Option Expr) → printOptional (shownOptional e) = printOptional e
  | none => by
    rw [shownOptional]
  | some e => by
    simp only [shownOptional, printOptional, e.render_shown]

theorem Stmt.render_shown : (s : Stmt) → s.shown.render = s.render
  | .expression value => by
    simp only [Stmt.shown, Stmt.render, value.render_shown]
  | .print value => by
    simp only [Stmt.shown, Stmt.render, value.render_shown]
  | .println value => by
    simp only [Stmt.shown, Stmt.render, value.render_shown]
  | .var name initializer => by
    simp only [Stmt.shown, Stmt.render, printOptional_shown initializer]
  | .const name initializer => by
    simp only [Stmt.shown, Stmt.render, initializer.render_shown]
  | .block body => by
    simp only [Stmt.shown, Stmt.render, printBlock, printStatements_shown body]
  | .ifElse condition thenBranch elseBranch => by
    simp only [Stmt.shown, Stmt.render, condition.render_shown, thenBranch.render_shown,
      printElse_shown elseBranch]
  | .while condition body => by
    simp only [Stmt.shown, Stmt.render, condition.render_shown, body.render_shown]
  | .for initializer condition update body => by
    simp only [Stmt.shown, Stmt.render, printInitializer_shown initializer,
      printClause_shown condition, printClause_shown update, body.render_shown]
  | .break keyword => by
    rw [Stmt.shown]
  | .continue keyword => by
    rw [Stmt.shown]
  | .assert keyword condition message => by
    simp only [Stmt.shown, Stmt.render, condition.render_shown, printOptional_shown message]
  | .function decl => by
    simp only [Stmt.shown, Stmt.render, decl.render_shown]
  | .return keyword value => by
    simp only [Stmt.shown, Stmt.render, printOptional_shown value]
  | .class decl => by
    simp only [Stmt.shown, Stmt.render, decl.render_shown]

theorem printClause_shown : (e : Option Expr) → printClause (some (shownClause e)) = printClause e
  | none => by
    simp only [shownClause, printClause, Expr.render_ofName]
  | some e => by
    simp only [shownClause, printClause, e.render_shown]

theorem printInitializer_shown :
    (s : Option Stmt) → printInitializer (shownBranch s) = printInitializer s
  | none => by
    rw [shownBranch]
  | some s => by
    simp only [shownBranch, printInitializer, s.render_shown]

theorem printElse_shown : (s : Option Stmt) → printElse (shownBranch s) = printElse s
  | none => by
    rw [shownBranch]
  | some s => by
    simp only [shownBranch, printElse, s.render_shown]

theorem printStatements_shown :
    (ss : List Stmt) → printStatements (shownBody ss) = printStatements ss
  | [] => by
    rw [shownBody]
  | s :: ss => by
    simp only [shownBody, printStatements, s.render_shown, printStatements_shown ss]

theorem FunctionDecl.render_shown {role : String} :
    (d : FunctionDecl) → d.shown.render role = d.render role
  | ⟨name, params, body⟩ => by
    simp only [FunctionDecl.shown, FunctionDecl.render, printBlock, printStatements_shown body]

theorem printFunctions_shown {role : String} :
    (ds : List FunctionDecl) → printFunctions role (shownFunctions ds) = printFunctions role ds
  | [] => by
    rw [shownFunctions]
  | d :: ds => by
    simp only [shownFunctions, printFunctions, d.render_shown, printFunctions_shown ds]

theorem ClassDecl.render_shown : (d : ClassDecl) → d.shown.render = d.render
  | ⟨name, base, methods, statics, getters⟩ => by
    simp only [ClassDecl.shown, ClassDecl.render, printBase_shown base,
      printFunctions_shown methods, printFunctions_shown statics, printFunctions_shown getters]

theorem printBase_shown : (e : Option Expr) → printBase (shownOptional e) = printBase e
  | none => by
    rw [shownOptional]
  | some e => by
    simp only [shownOptional, printBase, e.render_shown]

end

/-- Every statement of a program keeps its text. -/
theorem texts_shown (ss : List Stmt) : (shownBody ss).map Stmt.render = ss.map Stmt.render := by
  induction ss with
  | nil => rfl
  | cons s ss ih => rw [shownBody, List.map_cons, s.render_shown, ih, List.map_cons]

/-! ## Trees alike have one text -/

variable {l : Likeness}

theorem printParams_eq {params params' : List Token} (h : List.Forall₂ l.token params params') :
    printParams params = printParams params' := by
  have hlexemes : params.map Token.lexeme = params'.map Token.lexeme := by
    induction h with
    | nil => rfl
    | cons ht _ ih => rw [List.map_cons, List.map_cons, l.lexeme ht, ih]
  rw [printParams, hlexemes, printParams]

mutual

theorem Expr.Alike.render_eq {e e' : Expr} : Expr.Alike l e e' → e.render = e'.render
  | .literal value => rfl
  | .grouping h => by
    simp only [Expr.render, h.render_eq]
  | .unary ho hr => by
    simp only [Expr.render, l.lexeme ho, hr.render_eq]
  | .binary hl ho hr => by
    simp only [Expr.render, hl.render_eq, l.lexeme ho, hr.render_eq]
  | .logical hl ho hr => by
    simp only [Expr.render, hl.render_eq, l.lexeme ho, hr.render_eq]
  | .ternary hc _ ht he => by
    simp only [Expr.render, hc.render_eq, ht.render_eq, he.render_eq]
  | .variable _ hname => by
    simp only [Expr.render, l.lexeme hname]
  | .assign _ hname hv => by
    simp only [Expr.render, l.lexeme hname, hv.render_eq]
  | .call hc _ ha => by
    simp only [Expr.render, hc.render_eq, ha.render_eq]
  | .get ho hname => by
    simp only [Expr.render, ho.render_eq, l.lexeme hname]
  | .set ho hname hv => by
    simp only [Expr.render, ho.render_eq, l.lexeme hname, hv.render_eq]
  | .this _ _ => by
    simp only [Expr.render]
  | .super _ _ hm => by
    simp only [Expr.render, l.lexeme hm]
  | .arrow h => by
    simp only [Expr.render, h.render_eq]

theorem ArrowDecl.Alike.render_eq {d d' : ArrowDecl} : ArrowDecl.Alike l d d' → d.render = d'.render
  | .mk _ hp hb => by
    simp only [ArrowDecl.render, printParams_eq hp, printBlock, hb.render_eq]

theorem AlikeEach.render_eq {es es' : List Expr} : AlikeEach l es es' → printEach es = printEach es'
  | .nil => rfl
  | .cons h hes => by
    simp only [printEach, h.render_eq, hes.render_eq]

theorem AlikeOptional.render_eq {e e' : Option Expr} : AlikeOptional l e e' →
    printOptional e = printOptional e' ∧ printClause e = printClause e' ∧ printBase e = printBase e'
  | .none => ⟨rfl, rfl, rfl⟩
  | .some h => by
    simp only [printOptional, printClause, printBase, h.render_eq, and_self]

theorem Stmt.Alike.render_eq {s s' : Stmt} : Stmt.Alike l s s' → s.render = s'.render
  | .expression h => by
    simp only [Stmt.render, h.render_eq]
  | .print h => by
    simp only [Stmt.render, h.render_eq]
  | .println h => by
    simp only [Stmt.render, h.render_eq]
  | .var hname hi => by
    simp only [Stmt.render, l.lexeme hname, hi.render_eq.1]
  | .const hname hi => by
    simp only [Stmt.render, l.lexeme hname, hi.render_eq]
  | .block h => by
    simp only [Stmt.render, printBlock, h.render_eq]
  | .ifElse hc ht he => by
    simp only [Stmt.render, hc.render_eq, ht.render_eq, he.render_eq.1]
  | .while hc hb => by
    simp only [Stmt.render, hc.render_eq, hb.render_eq]
  | .for hi hc hu hb => by
    simp only [Stmt.render, hi.render_eq.2, hc.render_eq.2.1, hu.render_eq.2.1, hb.render_eq]
  | .break _ => by
    simp only [Stmt.render]
  | .continue _ => by
    simp only [Stmt.render]
  | .assert _ hc hm => by
    simp only [Stmt.render, hc.render_eq, hm.render_eq.1]
  | .function h => by
    simp only [Stmt.render, h.render_eq]
  | .return _ hv => by
    simp only [Stmt.render, hv.render_eq.1]
  | .class h => by
    simp only [Stmt.render, h.render_eq]

theorem AlikeBranch.render_eq {s s' : Option Stmt} : AlikeBranch l s s' →
    printElse s = printElse s' ∧ printInitializer s = printInitializer s'
  | .none => ⟨rfl, rfl⟩
  | .some h => by
    simp only [printElse, printInitializer, h.render_eq, and_self]

theorem AlikeBody.render_eq {ss ss' : List Stmt} :
    AlikeBody l ss ss' → printStatements ss = printStatements ss'
  | .nil => rfl
  | .cons h hss => by
    simp only [printStatements, h.render_eq, hss.render_eq]

theorem FunctionDecl.Alike.render_eq {d d' : FunctionDecl} {role : String} :
    FunctionDecl.Alike l d d' → d.render role = d'.render role
  | .mk hname hp hb => by
    simp only [FunctionDecl.render, l.lexeme hname, printParams_eq hp, printBlock, hb.render_eq]

theorem AlikeFunctions.render_eq {ds ds' : List FunctionDecl} {role : String} :
    AlikeFunctions l ds ds' → printFunctions role ds = printFunctions role ds'
  | .nil => rfl
  | .cons h hds => by
    simp only [printFunctions, h.render_eq, hds.render_eq]

theorem ClassDecl.Alike.render_eq {d d' : ClassDecl} : ClassDecl.Alike l d d' → d.render = d'.render
  | .mk hname hb hm hs hg => by
    simp only [ClassDecl.render, l.lexeme hname, hb.render_eq.2.2, hm.render_eq, hs.render_eq,
      hg.render_eq]

end

theorem AlikeBody.texts_eq {ss ss' : List Stmt} (h : AlikeBody l ss ss') :
    ss.map Stmt.render = ss'.map Stmt.render := by
  induction ss generalizing ss' with
  | nil =>
    cases h
    rfl
  | cons s ss ih =>
    obtain - | ⟨hs, hss⟩ := h
    rw [List.map_cons, List.map_cons, hs.render_eq, ih hss]

end LoxLang
