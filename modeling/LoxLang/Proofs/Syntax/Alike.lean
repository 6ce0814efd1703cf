import Mathlib.Data.List.Forall2
import LoxLang.Syntax.References

/-!
# Trees alike

Two trees are alike if they differ only in the numbers of their nodes and in their tokens, and these
correspond one for one (`Likeness`, `Expr.Alike`, `Stmt.Alike`).
-/

namespace LoxLang

/-- How the numbers of nodes and the tokens of two programs correspond. Tokens that correspond are
of one kind and one spelling. Not every token need correspond to itself, but the end that is seen
where there are no tokens does. Where tokens correspond, so do those that are put in their place;
these are never identifiers. -/
structure Likeness where
  node : NodeId → NodeId → Prop
  token : Token → Token → Prop
  kind : ∀ {t t'}, token t t' → t.kind = t'.kind
  lexeme : ∀ {t t'}, token t t' → t.lexeme = t'.lexeme
  synthetic : ∀ {t t'} (kind : TokenKind) (lexeme : String), kind.isIdentifier = false →
    token t t' → token (.synthetic kind lexeme t) (.synthetic kind lexeme t')
  ended : token ⟨.eof, "", 1, ⟨0, 0⟩⟩ ⟨.eof, "", 1, ⟨0, 0⟩⟩

namespace Likeness

/-- Nodes correspond in some way, and tokens are the same. -/
def ofNodes (node : NodeId → NodeId → Prop) : Likeness where
  node
  token := Eq
  kind h := h ▸ rfl
  lexeme h := h ▸ rfl
  synthetic _ _ _ h := h ▸ rfl
  ended := rfl

/-- Nodes correspond in some way, and tokens may stand in different places. -/
def placeless (node : NodeId → NodeId → Prop) : Likeness where
  node
  token t t' := t.kind = t'.kind ∧ t.lexeme = t'.lexeme
  kind h := h.1
  lexeme h := h.2
  synthetic _ _ _ _ := ⟨rfl, rfl⟩
  ended := ⟨rfl, rfl⟩

end Likeness

mutual

inductive Expr.Alike (l : Likeness) : Expr → Expr → Prop
  | literal (value) : Expr.Alike l (.literal value) (.literal value)
  | grouping {inner inner'} (h : Expr.Alike l inner inner') :
    Expr.Alike l (.grouping inner) (.grouping inner')
  | unary {operator operator' right right'} (ho : l.token operator operator')
    (hr : Expr.Alike l right right') :
    Expr.Alike l (.unary operator right) (.unary operator' right')
  | binary {left left' operator operator' right right'} (hl : Expr.Alike l left left')
    (ho : l.token operator operator') (hr : Expr.Alike l right right') :
    Expr.Alike l (.binary left operator right) (.binary left' operator' right')
  | logical {left left' operator operator' right right'} (hl : Expr.Alike l left left')
    (ho : l.token operator operator') (hr : Expr.Alike l right right') :
    Expr.Alike l (.logical left operator right) (.logical left' operator' right')
  | ternary {condition condition' question question' thenBranch thenBranch' elseBranch elseBranch'}
    (hc : Expr.Alike l condition condition') (hq : l.token question question')
    (ht : Expr.Alike l thenBranch thenBranch') (he : Expr.Alike l elseBranch elseBranch') :
    Expr.Alike l (.ternary condition question thenBranch elseBranch)
      (.ternary condition' question' thenBranch' elseBranch')
  | «variable» {id id' name name'} (hid : l.node id id') (hname : l.token name name') :
    Expr.Alike l (.variable id name) (.variable id' name')
  | assign {id id' name name' value value'} (hid : l.node id id') (hname : l.token name name')
    (hv : Expr.Alike l value value') :
    Expr.Alike l (.assign id name value) (.assign id' name' value')
  | call {callee callee' paren paren' arguments arguments'} (hc : Expr.Alike l callee callee')
    (hp : l.token paren paren') (ha : AlikeEach l arguments arguments') :
    Expr.Alike l (.call callee paren arguments) (.call callee' paren' arguments')
  | get {object object' name name'} (ho : Expr.Alike l object object')
    (hname : l.token name name') :
    Expr.Alike l (.get object name) (.get object' name')
  | set {object object' name name' value value'} (ho : Expr.Alike l object object')
    (hname : l.token name name') (hv : Expr.Alike l value value') :
    Expr.Alike l (.set object name value) (.set object' name' value')
  | this {id id' keyword keyword'} (hid : l.node id id') (hk : l.token keyword keyword') :
    Expr.Alike l (.this id keyword) (.this id' keyword')
  | super {id id' keyword keyword' method method'} (hid : l.node id id')
    (hk : l.token keyword keyword') (hm : l.token method method') :
    Expr.Alike l (.super id keyword method) (.super id' keyword' method')
  | arrow {decl decl'} (h : ArrowDecl.Alike l decl decl') :
    Expr.Alike l (.arrow decl) (.arrow decl')

inductive ArrowDecl.Alike (l : Likeness) : ArrowDecl → ArrowDecl → Prop
  | mk {arrow arrow' params params' body body'} (ha : l.token arrow arrow')
    (hp : List.Forall₂ l.token params params') (hb : AlikeBody l body body') :
    ArrowDecl.Alike l ⟨arrow, params, body⟩ ⟨arrow', params', body'⟩

inductive AlikeEach (l : Likeness) : List Expr → List Expr → Prop
  | nil : AlikeEach l [] []
  | cons {e e' es es'} (h : Expr.Alike l e e') (hes : AlikeEach l es es') :
    AlikeEach l (e :: es) (e' :: es')

inductive AlikeOptional (l : Likeness) : Option Expr → Option Expr → Prop
  | none : AlikeOptional l none none
  | some {e e'} (h : Expr.Alike l e e') : AlikeOptional l (some e) (some e')

inductive Stmt.Alike (l : Likeness) : Stmt → Stmt → Prop
  | expression {value value'} (h : Expr.Alike l value value') :
    Stmt.Alike l (.expression value) (.expression value')
  | print {value value'} (h : Expr.Alike l value value') :
    Stmt.Alike l (.print value) (.print value')
  | println {value value'} (h : Expr.Alike l value value') :
    Stmt.Alike l (.println value) (.println value')
  | var {name name' initializer initializer'} (hname : l.token name name')
    (hi : AlikeOptional l initializer initializer') :
    Stmt.Alike l (.var name initializer) (.var name' initializer')
  | const {name name' initializer initializer'} (hname : l.token name name')
    (hi : Expr.Alike l initializer initializer') :
    Stmt.Alike l (.const name initializer) (.const name' initializer')
  | block {body body'} (h : AlikeBody l body body') : Stmt.Alike l (.block body) (.block body')
  | ifElse {condition condition' thenBranch thenBranch' elseBranch elseBranch'}
    (hc : Expr.Alike l condition condition') (ht : Stmt.Alike l thenBranch thenBranch')
    (he : AlikeBranch l elseBranch elseBranch') :
    Stmt.Alike l (.ifElse condition thenBranch elseBranch)
      (.ifElse condition' thenBranch' elseBranch')
  | while {condition condition' body body'} (hc : Expr.Alike l condition condition')
    (hb : Stmt.Alike l body body') : Stmt.Alike l (.while condition body) (.while condition' body')
  | for {initializer initializer' condition condition' update update' body body'}
    (hi : AlikeBranch l initializer initializer') (hc : AlikeOptional l condition condition')
    (hu : AlikeOptional l update update') (hb : Stmt.Alike l body body') :
    Stmt.Alike l (.for initializer condition update body)
      (.for initializer' condition' update' body')
  | break {keyword keyword'} (h : l.token keyword keyword') :
    Stmt.Alike l (.break keyword) (.break keyword')
  | continue {keyword keyword'} (h : l.token keyword keyword') :
    Stmt.Alike l (.continue keyword) (.continue keyword')
  | assert {keyword keyword' condition condition' message message'}
    (hk : l.token keyword keyword') (hc : Expr.Alike l condition condition')
    (hm : AlikeOptional l message message') :
    Stmt.Alike l (.assert keyword condition message) (.assert keyword' condition' message')
  | function {decl decl'} (h : FunctionDecl.Alike l decl decl') :
    Stmt.Alike l (.function decl) (.function decl')
  | return {keyword keyword' value value'} (hk : l.token keyword keyword')
    (hv : AlikeOptional l value value') :
    Stmt.Alike l (.return keyword value) (.return keyword' value')
  | «class» {decl decl'} (h : ClassDecl.Alike l decl decl') :
    Stmt.Alike l (.class decl) (.class decl')

inductive AlikeBranch (l : Likeness) : Option Stmt → Option Stmt → Prop
  | none : AlikeBranch l none none
  | some {s s'} (h : Stmt.Alike l s s') : AlikeBranch l (some s) (some s')

inductive AlikeBody (l : Likeness) : List Stmt → List Stmt → Prop
  | nil : AlikeBody l [] []
  | cons {s s' ss ss'} (h : Stmt.Alike l s s') (hss : AlikeBody l ss ss') :
    AlikeBody l (s :: ss) (s' :: ss')

inductive FunctionDecl.Alike (l : Likeness) : FunctionDecl → FunctionDecl → Prop
  | mk {name name' params params' body body'} (hname : l.token name name')
    (hp : List.Forall₂ l.token params params') (hb : AlikeBody l body body') :
    FunctionDecl.Alike l ⟨name, params, body⟩ ⟨name', params', body'⟩

inductive AlikeFunctions (l : Likeness) : List FunctionDecl → List FunctionDecl → Prop
  | nil : AlikeFunctions l [] []
  | cons {d d' ds ds'} (h : FunctionDecl.Alike l d d') (hds : AlikeFunctions l ds ds') :
    AlikeFunctions l (d :: ds) (d' :: ds')

inductive ClassDecl.Alike (l : Likeness) : ClassDecl → ClassDecl → Prop
  | mk {name name' base base' methods methods' statics statics' getters getters'}
    (hname : l.token name name') (hb : AlikeOptional l base base')
    (hm : AlikeFunctions l methods methods') (hs : AlikeFunctions l statics statics')
    (hg : AlikeFunctions l getters getters') :
    ClassDecl.Alike l ⟨name, base, methods, statics, getters⟩
      ⟨name', base', methods', statics', getters'⟩

end

variable {l l' : Likeness}

theorem AlikeOptional.of_rel {e e' : Option Expr} (h : Option.Rel (Expr.Alike l) e e') :
    AlikeOptional l e e' := by
  cases h with
  | none => exact .none
  | some h => exact .some h

theorem AlikeBranch.of_rel {s s' : Option Stmt} (h : Option.Rel (Stmt.Alike l) s s') :
    AlikeBranch l s s' := by
  cases h with
  | none => exact .none
  | some h => exact .some h

theorem FunctionDecl.Alike.name {d d' : FunctionDecl} (h : FunctionDecl.Alike l d d') :
    l.token d.name d'.name := by
  cases h
  assumption

theorem FunctionDecl.Alike.params {d d' : FunctionDecl} (h : FunctionDecl.Alike l d d') :
    List.Forall₂ l.token d.params d'.params := by
  cases h
  assumption

theorem ArrowDecl.Alike.params {d d' : ArrowDecl} (h : ArrowDecl.Alike l d d') :
    List.Forall₂ l.token d.params d'.params := by
  cases h
  assumption

theorem FunctionDecl.Alike.body {d d' : FunctionDecl} (h : FunctionDecl.Alike l d d') :
    AlikeBody l d.body d'.body := by
  cases h
  assumption

theorem ArrowDecl.Alike.body {d d' : ArrowDecl} (h : ArrowDecl.Alike l d d') :
    AlikeBody l d.body d'.body := by
  cases h
  assumption

/-! ## Another correspondence -/

/-- Tokens that correspond in one way also correspond in another, and so do the nodes of some
references. -/
structure Likeness.Carries (l l' : Likeness) (references : List Reference) : Prop where
  token : ∀ t t', l.token t t' → l'.token t t'
  node : ∀ r ∈ references, ∀ id', l.node r.id id' → l'.node r.id id'

namespace Likeness.Carries

variable {r : Reference} {rs rs' : List Reference}

theorem left (h : l.Carries l' (rs ++ rs')) : l.Carries l' rs :=
  ⟨h.token, fun r hr => h.node r (List.mem_append_left _ hr)⟩

theorem right (h : l.Carries l' (rs ++ rs')) : l.Carries l' rs' :=
  ⟨h.token, fun r hr => h.node r (List.mem_append_right _ hr)⟩

theorem head (h : l.Carries l' (r :: rs)) {id' : NodeId} (hid : l.node r.id id') :
    l'.node r.id id' := h.node r (List.mem_cons_self ..) id' hid

theorem tail (h : l.Carries l' (r :: rs)) : l.Carries l' rs :=
  ⟨h.token, fun r' hr => h.node r' (List.mem_cons_of_mem _ hr)⟩

end Likeness.Carries

/-- Whatever corresponds in one way also corresponds in another. -/
structure Likeness.Refines (l l' : Likeness) : Prop where
  token : ∀ t t', l.token t t' → l'.token t t'
  node : ∀ id id', l.node id id' → l'.node id id'

theorem Likeness.Refines.carries (h : l.Refines l') (rs : List Reference) : l.Carries l' rs :=
  ⟨h.token, fun r _ id' => h.node r.id id'⟩

mutual

theorem Expr.Alike.imp {e e' : Expr} :
    Expr.Alike l e e' → l.Carries l' e.references → Expr.Alike l' e e'
  | .literal value, _ => .literal value
  | .grouping h, hn => .grouping (h.imp hn)
  | .unary ho hr, hn => .unary (hn.token _ _ ho) (hr.imp hn)
  | .binary hl ho hr, hn => .binary (hl.imp hn.left) (hn.token _ _ ho) (hr.imp hn.right)
  | .logical hl ho hr, hn => .logical (hl.imp hn.left) (hn.token _ _ ho) (hr.imp hn.right)
  | .ternary hc hq ht he, hn =>
    .ternary (hc.imp hn.left.left) (hn.token _ _ hq) (ht.imp hn.left.right) (he.imp hn.right)
  | .variable hid hname, hn => .variable (hn.head hid) (hn.token _ _ hname)
  | .assign hid hname hv, hn => .assign (hn.head hid) (hn.token _ _ hname) (hv.imp hn.tail)
  | .call hc hp ha, hn => .call (hc.imp hn.left) (hn.token _ _ hp) (ha.imp hn.right)
  | .get ho hname, hn => .get (ho.imp hn) (hn.token _ _ hname)
  | .set ho hname hv, hn => .set (ho.imp hn.left) (hn.token _ _ hname) (hv.imp hn.right)
  | .this hid hk, hn => .this (hn.head hid) (hn.token _ _ hk)
  | .super hid hk hm, hn => .super (hn.head hid) (hn.token _ _ hk) (hn.token _ _ hm)
  | .arrow h, hn => .arrow (h.imp hn)

theorem ArrowDecl.Alike.imp {d d' : ArrowDecl} :
    ArrowDecl.Alike l d d' → l.Carries l' d.references → ArrowDecl.Alike l' d d'
  | .mk ha hp hb, hn => .mk (hn.token _ _ ha) (hp.imp hn.token) (hb.imp hn)

theorem AlikeEach.imp {es es' : List Expr} :
    AlikeEach l es es' → l.Carries l' (referencesOfEach es) → AlikeEach l' es es'
  | .nil, _ => .nil
  | .cons h hes, hn => .cons (h.imp hn.left) (hes.imp hn.right)

theorem AlikeOptional.imp {e e' : Option Expr} :
    AlikeOptional l e e' → l.Carries l' (referencesOfOptional e) → AlikeOptional l' e e'
  | .none, _ => .none
  | .some h, hn => .some (h.imp hn)

theorem Stmt.Alike.imp {s s' : Stmt} :
    Stmt.Alike l s s' → l.Carries l' s.references → Stmt.Alike l' s s'
  | .expression h, hn => .expression (h.imp hn)
  | .print h, hn => .print (h.imp hn)
  | .println h, hn => .println (h.imp hn)
  | .var hname hi, hn => .var (hn.token _ _ hname) (hi.imp hn)
  | .const hname hi, hn => .const (hn.token _ _ hname) (hi.imp hn)
  | .block h, hn => .block (h.imp hn)
  | .ifElse hc ht he, hn =>
    .ifElse (hc.imp hn.left.left) (ht.imp hn.left.right) (he.imp hn.right)
  | .while hc hb, hn => .while (hc.imp hn.left) (hb.imp hn.right)
  | .for hi hc hu hb, hn => .for (hi.imp hn.left.left.left) (hc.imp hn.left.left.right)
    (hu.imp hn.left.right) (hb.imp hn.right)
  | .break h, hn => .break (hn.token _ _ h)
  | .continue h, hn => .continue (hn.token _ _ h)
  | .assert hk hc hm, hn => .assert (hn.token _ _ hk) (hc.imp hn.left) (hm.imp hn.right)
  | .function h, hn => .function (h.imp hn)
  | .return hk hv, hn => .return (hn.token _ _ hk) (hv.imp hn)
  | .class h, hn => .class (h.imp hn)

theorem AlikeBranch.imp {s s' : Option Stmt} :
    AlikeBranch l s s' → l.Carries l' (referencesOfBranch s) → AlikeBranch l' s s'
  | .none, _ => .none
  | .some h, hn => .some (h.imp hn)

theorem AlikeBody.imp {ss ss' : List Stmt} :
    AlikeBody l ss ss' → l.Carries l' (referencesOfBody ss) → AlikeBody l' ss ss'
  | .nil, _ => .nil
  | .cons h hss, hn => .cons (h.imp hn.left) (hss.imp hn.right)

theorem FunctionDecl.Alike.imp {d d' : FunctionDecl} :
    FunctionDecl.Alike l d d' → l.Carries l' d.references → FunctionDecl.Alike l' d d'
  | .mk hname hp hb, hn => .mk (hn.token _ _ hname) (hp.imp hn.token) (hb.imp hn)

theorem AlikeFunctions.imp {ds ds' : List FunctionDecl} :
    AlikeFunctions l ds ds' → l.Carries l' (referencesOfFunctions ds) → AlikeFunctions l' ds ds'
  | .nil, _ => .nil
  | .cons h hds, hn => .cons (h.imp hn.left) (hds.imp hn.right)

theorem ClassDecl.Alike.imp {d d' : ClassDecl} :
    ClassDecl.Alike l d d' → l.Carries l' d.references → ClassDecl.Alike l' d d'
  | .mk hname hb hm hs hg, hn => .mk (hn.token _ _ hname) (hb.imp hn.left.left.left)
    (hm.imp hn.left.left.right) (hs.imp hn.left.right) (hg.imp hn.right)

end

/-! ## One correspondence after another -/

/-- Two correspondences, one after the other, make up a third. -/
structure Likeness.Composes (l l' l'' : Likeness) : Prop where
  token : ∀ {t t' t''}, l.token t t' → l'.token t' t'' → l''.token t t''
  node : ∀ {id id' id''}, l.node id id' → l'.node id' id'' → l''.node id id''

variable {l'' : Likeness}

theorem Likeness.Composes.tokens (hl : l.Composes l' l'') {ts ts' ts'' : List Token}
    (h : List.Forall₂ l.token ts ts') (h' : List.Forall₂ l'.token ts' ts'') :
    List.Forall₂ l''.token ts ts'' := by
  induction h generalizing ts'' with
  | nil =>
    cases h'
    exact .nil
  | cons ht _ ih =>
    cases h' with
    | cons ht' hts' => exact .cons (hl.token ht ht') (ih hts')

mutual

theorem Expr.Alike.trans {e e' e'' : Expr} (hl : l.Composes l' l'') :
    Expr.Alike l e e' → Expr.Alike l' e' e'' → Expr.Alike l'' e e''
  | .literal value, .literal _ => .literal value
  | .grouping h, .grouping h' => .grouping (h.trans hl h')
  | .unary ho hr, .unary ho' hr' => .unary (hl.token ho ho') (hr.trans hl hr')
  | .binary hleft ho hr, .binary hleft' ho' hr' =>
    .binary (hleft.trans hl hleft') (hl.token ho ho') (hr.trans hl hr')
  | .logical hleft ho hr, .logical hleft' ho' hr' =>
    .logical (hleft.trans hl hleft') (hl.token ho ho') (hr.trans hl hr')
  | .ternary hc hq ht he, .ternary hc' hq' ht' he' =>
    .ternary (hc.trans hl hc') (hl.token hq hq') (ht.trans hl ht') (he.trans hl he')
  | .variable hid hname, .variable hid' hname' =>
    .variable (hl.node hid hid') (hl.token hname hname')
  | .assign hid hname hv, .assign hid' hname' hv' =>
    .assign (hl.node hid hid') (hl.token hname hname') (hv.trans hl hv')
  | .call hc hp ha, .call hc' hp' ha' =>
    .call (hc.trans hl hc') (hl.token hp hp') (ha.trans hl ha')
  | .get ho hname, .get ho' hname' => .get (ho.trans hl ho') (hl.token hname hname')
  | .set ho hname hv, .set ho' hname' hv' =>
    .set (ho.trans hl ho') (hl.token hname hname') (hv.trans hl hv')
  | .this hid hk, .this hid' hk' => .this (hl.node hid hid') (hl.token hk hk')
  | .super hid hk hm, .super hid' hk' hm' =>
    .super (hl.node hid hid') (hl.token hk hk') (hl.token hm hm')
  | .arrow h, .arrow h' => .arrow (h.trans hl h')

theorem ArrowDecl.Alike.trans {d d' d'' : ArrowDecl} (hl : l.Composes l' l'') :
    ArrowDecl.Alike l d d' → ArrowDecl.Alike l' d' d'' → ArrowDecl.Alike l'' d d''
  | .mk ha hp hb, .mk ha' hp' hb' =>
    .mk (hl.token ha ha') (hl.tokens hp hp') (hb.trans hl hb')

theorem AlikeEach.trans {es es' es'' : List Expr} (hl : l.Composes l' l'') :
    AlikeEach l es es' → AlikeEach l' es' es'' → AlikeEach l'' es es''
  | .nil, .nil => .nil
  | .cons h hes, .cons h' hes' => .cons (h.trans hl h') (hes.trans hl hes')

theorem AlikeOptional.trans {e e' e'' : Option Expr} (hl : l.Composes l' l'') :
    AlikeOptional l e e' → AlikeOptional l' e' e'' → AlikeOptional l'' e e''
  | .none, .none => .none
  | .some h, .some h' => .some (h.trans hl h')

theorem Stmt.Alike.trans {s s' s'' : Stmt} (hl : l.Composes l' l'') :
    Stmt.Alike l s s' → Stmt.Alike l' s' s'' → Stmt.Alike l'' s s''
  | .expression h, .expression h' => .expression (h.trans hl h')
  | .print h, .print h' => .print (h.trans hl h')
  | .println h, .println h' => .println (h.trans hl h')
  | .var hname hi, .var hname' hi' => .var (hl.token hname hname') (hi.trans hl hi')
  | .const hname hi, .const hname' hi' => .const (hl.token hname hname') (hi.trans hl hi')
  | .block h, .block h' => .block (h.trans hl h')
  | .ifElse hc ht he, .ifElse hc' ht' he' =>
    .ifElse (hc.trans hl hc') (ht.trans hl ht') (he.trans hl he')
  | .while hc hb, .while hc' hb' => .while (hc.trans hl hc') (hb.trans hl hb')
  | .for hi hc hu hb, .for hi' hc' hu' hb' =>
    .for (hi.trans hl hi') (hc.trans hl hc') (hu.trans hl hu') (hb.trans hl hb')
  | .break h, .break h' => .break (hl.token h h')
  | .continue h, .continue h' => .continue (hl.token h h')
  | .assert hk hc hm, .assert hk' hc' hm' =>
    .assert (hl.token hk hk') (hc.trans hl hc') (hm.trans hl hm')
  | .function h, .function h' => .function (h.trans hl h')
  | .return hk hv, .return hk' hv' => .return (hl.token hk hk') (hv.trans hl hv')
  | .class h, .class h' => .class (h.trans hl h')

theorem AlikeBranch.trans {s s' s'' : Option Stmt} (hl : l.Composes l' l'') :
    AlikeBranch l s s' → AlikeBranch l' s' s'' → AlikeBranch l'' s s''
  | .none, .none => .none
  | .some h, .some h' => .some (h.trans hl h')

theorem AlikeBody.trans {ss ss' ss'' : List Stmt} (hl : l.Composes l' l'') :
    AlikeBody l ss ss' → AlikeBody l' ss' ss'' → AlikeBody l'' ss ss''
  | .nil, .nil => .nil
  | .cons h hss, .cons h' hss' => .cons (h.trans hl h') (hss.trans hl hss')

theorem FunctionDecl.Alike.trans {d d' d'' : FunctionDecl} (hl : l.Composes l' l'') :
    FunctionDecl.Alike l d d' → FunctionDecl.Alike l' d' d'' → FunctionDecl.Alike l'' d d''
  | .mk hname hp hb, .mk hname' hp' hb' =>
    .mk (hl.token hname hname') (hl.tokens hp hp') (hb.trans hl hb')

theorem AlikeFunctions.trans {ds ds' ds'' : List FunctionDecl} (hl : l.Composes l' l'') :
    AlikeFunctions l ds ds' → AlikeFunctions l' ds' ds'' → AlikeFunctions l'' ds ds''
  | .nil, .nil => .nil
  | .cons h hds, .cons h' hds' => .cons (h.trans hl h') (hds.trans hl hds')

theorem ClassDecl.Alike.trans {d d' d'' : ClassDecl} (hl : l.Composes l' l'') :
    ClassDecl.Alike l d d' → ClassDecl.Alike l' d' d'' → ClassDecl.Alike l'' d d''
  | .mk hname hb hm hs hg, .mk hname' hb' hm' hs' hg' =>
    .mk (hl.token hname hname') (hb.trans hl hb') (hm.trans hl hm') (hs.trans hl hs')
      (hg.trans hl hg')

end

end LoxLang
