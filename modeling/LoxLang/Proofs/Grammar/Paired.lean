import LoxLang.Proofs.Grammar.Pairing

/-!
# Rules side by side

Every rule goes the same way on tokens that correspond (`rulesPair`), whatever the bounds on its
depth.
-/

namespace LoxLang.Parse

variable {α β : Type} {p : Pairing} {least least' n : Nat} {R R' : Prop} {act act' : Parse α}
  {Q Q' : α → α → Prop} {k k' : α → Parse β} {S : β → β → Prop} {s s' : ParseState}

/-! ## Forms without parts of their own -/

/-- What two parses find when they look further ahead. The first may find something that reaches
into its tail. -/
inductive Finds (p : Pairing) (Q : α → α → Prop) :
    Option (α × List Token) → Option (α × List Token) → Prop
  | nothing : Finds p Q none none
  | both {a a' rest rest'} (alike : Q a a') (ahead : Ahead p rest rest') :
    Finds p Q (some (a, rest)) (some (a', rest'))
  | past {a rest} (short : rest.length < p.tail.length) : Finds p Q (some (a, rest)) none

theorem length_of_nameList? {tokens after : List Token} {names : List Token}
    (h : nameList? tokens = some (names, after)) : after.length + 2 ≤ tokens.length := by
  unfold nameList? at h
  split at h
  · next name separator rest =>
    split at h
    · split at h
      · obtain ⟨⟨names', after'⟩, hrest, heq⟩ := Option.map_eq_some_iff.mp h
        cases heq
        exact Nat.add_le_add_right (nameList_of_nameList? hrest).remains.length_le 2
      · split at h
        · cases h
          exact Nat.le_refl _
        · cases h
    · cases h
  · cases h

theorem kind_of_isEof {t : Token} (h : t.kind.isEof = true) : t.kind = .eof := by
  cases hkind : t.kind <;> rw [hkind] at h <;> first | rfl | cases h

/-- Names do not go on behind the end of the source. -/
theorem nameList?_of_ends {tokens : List Token} (h : ∀ t ∈ tokens.head?, t.kind.isEof = true) :
    nameList? tokens = none := by
  unfold nameList?
  split
  · next t u us =>
    rw [kind_of_isEof (h t rfl)]
    rfl
  · rfl

theorem nameList?_of_ends_behind {t : Token} {tokens : List Token}
    (h : ∀ t ∈ tokens.head?, t.kind.isEof = true) : nameList? (t :: tokens) = none := by
  unfold nameList?
  split
  · next t' u us heq =>
    cases heq
    have heof := kind_of_isEof (h u rfl)
    rw [if_neg (c := u.kind.isSymbol .comma = true) (by rw [heof]; nofun),
      if_neg (c := u.kind.isSymbol .rightParen = true) (by rw [heof]; nofun), ite_self]
  · rfl

theorem finds_nameList? {rest rest' : List Token} (h : Ahead p rest rest') :
    Finds p (List.Forall₂ p.token) (nameList? rest) (nameList? rest') := by
  obtain ⟨ts, ts', rfl, rfl, htokens⟩ := h
  -- Near the tail only the first parse may find something.
  have hpast {rest : List Token} (hlength : rest.length < p.tail.length + 2) :
      Finds p (List.Forall₂ p.token) (nameList? rest) none := by
    cases hrun : nameList? rest with
    | none => exact .nothing
    | some found =>
      have := length_of_nameList? (show nameList? rest = some (found.1, found.2) from hrun)
      exact .past (by omega)
  induction ts using nameList?.induct generalizing ts' with
  | case5 ts hshort =>
    cases htokens with
    | nil =>
      rw [List.nil_append, List.nil_append, nameList?_of_ends p.ends]
      exact hpast (by omega)
    | cons ht hus =>
      cases hus with
      | nil =>
        rw [List.cons_append, List.cons_append, List.nil_append, List.nil_append,
          nameList?_of_ends_behind p.ends]
        exact hpast (by simp)
      | cons => exact absurd rfl (hshort _ _ _)
  | case1 t u us hname hcomma ih =>
    obtain _ | ⟨ht, _ | @⟨_, _, _, us', hu, hus⟩⟩ := htokens
    simp only [List.cons_append, nameList?]
    rw [if_pos hname, if_pos hcomma, if_pos (p.kind ht ▸ hname), if_pos (p.kind hu ▸ hcomma)]
    have hfound := ih us' hus
    generalize nameList? (us ++ p.tail) = found, nameList? (us' ++ p.tail') = found' at hfound ⊢
    cases hfound with
    | nothing => exact .nothing
    | both alike ahead => exact .both (.cons ht alike) ahead
    | past short => exact .past short
  | case2 t u us hname hcomma hclosed =>
    obtain _ | ⟨ht, _ | ⟨hu, hus⟩⟩ := htokens
    simp only [List.cons_append, nameList?]
    rw [if_pos hname, if_neg hcomma, if_pos hclosed, if_pos (p.kind ht ▸ hname),
      if_neg (p.kind hu ▸ hcomma), if_pos (p.kind hu ▸ hclosed)]
    exact .both (.cons ht .nil) ⟨us, _, rfl, rfl, hus⟩
  | case3 t u us hname hcomma hclosed =>
    obtain _ | ⟨ht, _ | ⟨hu, hus⟩⟩ := htokens
    simp only [List.cons_append, nameList?]
    rw [if_pos hname, if_neg hcomma, if_neg hclosed, if_pos (p.kind ht ▸ hname),
      if_neg (p.kind hu ▸ hcomma), if_neg (p.kind hu ▸ hclosed)]
    exact .nothing
  | case4 t u us hname =>
    obtain _ | ⟨ht, _ | ⟨hu, hus⟩⟩ := htokens
    simp only [List.cons_append, nameList?]
    rw [if_neg hname, if_neg (p.kind ht ▸ hname)]
    exact .nothing

/-- The parameters of an arrow behind its opening parenthesis. -/
def parameterNames? : List Token → Option (List Token × List Token)
  | t :: rest => if t.kind.isSymbol .rightParen then some ([], rest) else nameList? (t :: rest)
  | [] => none

/-- An `=>` behind the parameters. -/
def arrowBehind? (params : List Token) : List Token → Option ((List Token × Token) × List Token)
  | t :: rest => if t.kind.isSymbol .arrow then some ((params, t), rest) else none
  | [] => none

theorem arrowHead?_eq (tokens : List Token) :
    ((arrowHead? tokens).map fun head => ((head.1, head.2.1), head.2.2)) =
      (parameterNames? tokens).bind fun found => arrowBehind? found.1 found.2 := by
  have hnames : arrowHead? tokens = (parameterNames? tokens).bind fun found =>
      (arrowBehind? found.1 found.2).map fun head => (head.1.1, head.1.2, head.2) := by
    unfold arrowHead? parameterNames?
    cases tokens with
    | nil => rfl
    | cons t rest =>
      refine congrArg (Option.bind _) (funext fun ⟨params, behind⟩ => ?_)
      unfold arrowBehind?
      cases behind with
      | nil => rfl
      | cons u after =>
        dsimp only
        split <;> rfl
  rw [hnames, Option.map_bind]
  congr 1
  funext found
  rw [Function.comp, Option.map_map]
  exact Option.map_id'

/-- Only the first parse has anything behind its part. -/
theorem Finds.of_short {found : Option (α × List Token)}
    (h : ∀ head ∈ found, head.2.length < p.tail.length) : Finds p Q found none := by
  cases found with
  | none => exact .nothing
  | some head => exact .past (h head rfl)

theorem length_of_parameterNames? {tokens : List Token} {found : List Token × List Token}
    (h : parameterNames? tokens = some found) : found.2.length < tokens.length := by
  cases tokens with
  | nil => cases h
  | cons t rest =>
    rw [parameterNames?] at h
    split at h
    · cases h
      exact Nat.lt_succ_self _
    · have := length_of_nameList? (show nameList? (t :: rest) = some (found.1, found.2) from h)
      omega

theorem length_of_arrowBehind? {params tokens : List Token}
    {head : (List Token × Token) × List Token} (h : arrowBehind? params tokens = some head) :
    head.2.length < tokens.length := by
  cases tokens with
  | nil => cases h
  | cons t rest =>
    rw [arrowBehind?] at h
    split at h
    · cases h
      exact Nat.lt_succ_self _
    · cases h

theorem finds_parameterNames? {rest rest' : List Token} (h : Ahead p rest rest') :
    Finds p (List.Forall₂ p.token) (parameterNames? rest) (parameterNames? rest') := by
  have hnames := finds_nameList? h
  obtain ⟨ts, ts', rfl, rfl, htokens⟩ := h
  cases htokens with
  | nil =>
    have hnone : parameterNames? p.tail' = none := by
      have hnameList := nameList?_of_ends p.ends
      cases htail : p.tail' with
      | nil => rfl
      | cons t rest =>
        rw [htail] at hnameList
        rw [parameterNames?, hnameList, if_neg]
        rw [kind_of_isEof (p.ends t (by rw [htail]; rfl))]
        nofun
    rw [List.nil_append, List.nil_append, hnone]
    exact .of_short fun _ => length_of_parameterNames?
  | cons ht hus =>
    rw [List.cons_append, List.cons_append] at hnames ⊢
    rw [parameterNames?, parameterNames?, ← p.kind ht]
    split
    · exact .both .nil ⟨_, _, rfl, rfl, hus⟩
    · exact hnames

theorem finds_arrowBehind? {params params' rest rest' : List Token}
    (hparams : List.Forall₂ p.token params params') (h : Ahead p rest rest') :
    Finds p (fun head head' => List.Forall₂ p.token head.1 head'.1 ∧ p.token head.2 head'.2)
      (arrowBehind? params rest) (arrowBehind? params' rest') := by
  obtain ⟨ts, ts', rfl, rfl, htokens⟩ := h
  cases htokens with
  | nil =>
    have hnone : arrowBehind? params' p.tail' = none := by
      cases htail : p.tail' with
      | nil => rfl
      | cons t rest =>
        exact if_neg (by rw [kind_of_isEof (p.ends t (by rw [htail]; rfl))]; nofun)
    rw [List.nil_append, List.nil_append, hnone]
    exact .of_short fun _ => length_of_arrowBehind?
  | cons ht hus =>
    simp only [List.cons_append, arrowBehind?]
    rw [← p.kind ht]
    split
    · exact .both ⟨hparams, ht⟩ ⟨_, _, rfl, rfl, hus⟩
    · exact .nothing

theorem finds_arrowHead? {rest rest' : List Token} (h : Ahead p rest rest') :
    Finds p (fun head head' => List.Forall₂ p.token head.1 head'.1 ∧ p.token head.2 head'.2)
      ((arrowHead? rest).map fun head => ((head.1, head.2.1), head.2.2))
      ((arrowHead? rest').map fun head => ((head.1, head.2.1), head.2.2)) := by
  rw [arrowHead?_eq, arrowHead?_eq]
  have hnames := finds_parameterNames? h
  generalize parameterNames? rest = found, parameterNames? rest' = found' at hnames ⊢
  cases hnames with
  | nothing => exact .nothing
  | both alike ahead => exact finds_arrowBehind? alike ahead
  | past short =>
    exact .of_short fun _ hhead => Nat.lt_trans (length_of_arrowBehind? hhead) short

/-! ## Rules without parts of their own -/

theorem arrowHead_of_none (h : arrowHead? s.rest = none) : arrowHead s = .ok none s := by
  rw [arrowHead, bind_get, h]
  rfl

theorem arrowHead_of_some {params after : List Token} {arrow : Token}
    (h : arrowHead? s.rest = some (params, arrow, after)) :
    arrowHead s = .ok (some (params, arrow)) { s with last := some arrow, rest := after } := by
  rw [arrowHead, bind_get, h]
  rfl

theorem arrowHead_moves : Moves 0 arrowHead :=
  .of_takes (fun _ => True) (fun _ => arrowHead_takes.imp id fun _ _ hle _ => hle)
    Yields.arrowHead

namespace Pairs

/-- A step that depends on whether the head of an arrow is found. -/
theorem heading {k k' : Option (List Token × Token) → Parse β}
    (hsome : ∀ params params' arrow arrow', Pairs p 0
      (R ∧ List.Forall₂ p.token params params' ∧ p.token arrow arrow')
      (k (some (params, arrow))) (k' (some (params', arrow'))) S)
    (hnone : Pairs p 0 R (k none) (k' none) S) :
    Pairs p 0 R (arrowHead >>= k) (arrowHead >>= k') S where
  moves := arrowHead_moves.bind fun
    | some (params, arrow) => (hsome params params arrow arrow).moves
    | none => hnone.moves
  tallies hR s s' hs := by
    have hfound := finds_arrowHead? hs.ahead
    cases hhead : arrowHead? s.rest with
    | none =>
      rw [hhead] at hfound
      rw [bind_of_ok (arrowHead_of_none hhead)]
      cases hhead' : arrowHead? s'.rest with
      | none =>
        rw [bind_of_ok (arrowHead_of_none hhead')]
        exact hnone.tallies hR s s' hs
      | some head' =>
        rw [hhead'] at hfound
        cases hfound
    | some head =>
      obtain ⟨params, arrow, after⟩ := head
      rw [hhead] at hfound
      rw [bind_of_ok (arrowHead_of_some hhead)]
      cases hhead' : arrowHead? s'.rest with
      | none =>
        rw [hhead'] at hfound
        obtain _ | _ | hshort := hfound
        have hpast : Past p { s with last := some arrow, rest := after } :=
          ⟨Pairing.lenient_of_tail hshort, .inl hshort⟩
        exact .excused (hpast.excused (hsome params params arrow arrow).moves)
      | some head' =>
        obtain ⟨params', arrow', after'⟩ := head'
        rw [hhead'] at hfound
        rw [bind_of_ok (arrowHead_of_some hhead')]
        obtain _ | ⟨halike, hahead⟩ | _ := hfound
        exact (hsome _ _ _ _).tallies ⟨hR, halike⟩ _ _ (hs.moved halike.2 hahead)

end Pairs

theorem someParameters_moves (fuel count : Nat) : Moves 0 (someParameters fuel count) :=
  .of_takes _ (fun rest => (someParameters_takes fuel count rest).imp id fun _ _ hle _ => hle)
    (someParameters_yields fuel count).keeps

theorem someParameters_pairs (fuel fuel' count : Nat) :
    Pairs p 0 True (someParameters fuel count) (someParameters fuel' count)
      (List.Forall₂ p.token) := by
  induction fuel generalizing fuel' count with
  | zero => exact .outOfFuel
  | succ fuel ih =>
    cases fuel' with
    | zero => exact .outOfFuel' (someParameters_moves _ _)
    | succ fuel' =>
      refine Pairs.limit.bind fun _ _ => Pairs.expectName.bind fun name name' =>
        Pairs.accept.bind fun more more' => .ite (fun h => h.2 ▸ Iff.rfl) ?_
          (.pure fun h => .cons h.1.2 .nil)
      exact ((ih fuel' (count + 1)).given fun _ => trivial).bind fun others others' =>
        .pure fun h => .cons h.1.1.2 h.2

theorem leaf?_pairs {t t' : Token} (h : p.token t t') :
    Option.Rel (fun leaf leaf' => Pairs p 0 True leaf leaf' (Expr.Alike p.toLikeness))
      (leaf? t) (leaf? t') := by
  unfold leaf?
  rw [← p.kind h]
  cases t.kind with
  | keyword word =>
    cases word
    case this => exact .some (Pairs.freshId.bind fun _ _ => .pure fun hid => .this hid.2 h)
    case super =>
      exact .some (Pairs.expectSymbol.bind fun _ _ => Pairs.expectName.bind fun _ _ =>
        Pairs.freshId.bind fun _ _ => .pure fun hid => .super hid.2 h hid.1.2)
    all_goals first
      | exact .none
      | exact .some (.pure fun _ => .literal _)
  | identifier => exact .some (Pairs.freshId.bind fun _ _ => .pure fun hid => .variable hid.2 h)
  | number value => exact .some (.pure fun _ => .literal _)
  | string contents => exact .some (.pure fun _ => .literal _)
  | symbol => exact .none
  | unknown => exact .none
  | eof => exact .none

theorem alike_assignedValue {equals equals' : Token} {old old' value value' : Expr}
    (hequals : p.token equals equals') (hold : Expr.Alike p.toLikeness old old')
    (hvalue : Expr.Alike p.toLikeness value value') :
    Expr.Alike p.toLikeness (assignedValue equals old value)
      (assignedValue equals' old' value') := by
  rw [assignedValue, assignedValue, ← p.kind hequals]
  split
  · exact .binary hold (p.synthetic _ _ rfl hequals) hvalue
  · exact hvalue

theorem assignTo_pairs {target target' value value' : Expr} {equals equals' : Token} :
    Pairs p 0 (Expr.Alike p.toLikeness target target' ∧ p.token equals equals' ∧
        Expr.Alike p.toLikeness value value')
      (assignTo target equals value) (assignTo target' equals' value')
      (Expr.Alike p.toLikeness) where
  moves := .of_takes (fun _ => True)
    (fun rest => (assignTo_takes rest).imp id fun _ _ hle _ => hle) assignTo_yields.keeps
  tallies h := by
    obtain ⟨htarget, hequals, hvalue⟩ := h
    have hother {other other' : Expr} (halike : Expr.Alike p.toLikeness other other') :
        Pairs p 0 True (do noteAt .invalidTarget equals; return other)
          (do noteAt .invalidTarget equals'; return other') (Expr.Alike p.toLikeness) :=
      (Pairs.noteAt fun _ => hequals).bind fun _ _ => .pure fun _ => halike
    unfold assignTo
    cases htarget with
    | «variable» hid hname =>
      have hassign := (Pairs.freshId (p := p) (R := True)).bind fun old old' =>
        Pairs.freshId.bind fun id id' => .pure fun h => Expr.Alike.assign h.2 hname
          (alike_assignedValue hequals (.variable h.1.2 hname) hvalue)
      exact hassign.tallies trivial
    | get hobject hname =>
      have hset : Pairs p 0 True (pure _) (pure _) (Expr.Alike p.toLikeness) :=
        .pure fun _ => .set hobject hname
          (alike_assignedValue hequals (.get hobject hname) hvalue)
      exact hset.tallies trivial
    | _ => exact (hother (by constructor <;> assumption)).tallies trivial

theorem jump_pairs {node : Token → Stmt} {inLoop : Bool} {keyword keyword' : Token}
    (h : p.token keyword keyword')
    (hnode : Stmt.Alike p.toLikeness (node keyword) (node keyword')) :
    Pairs p 0 R (jump node inLoop keyword) (jump node inLoop keyword')
      (Stmt.Alike p.toLikeness) := by
  rw [jump, jump, p.lexeme h]
  exact .ite (fun _ => Iff.rfl) (Pairs.expectSymbol.bind fun _ _ => .pure fun _ => hnode)
    (.failAt fun _ => h)

/-! ## The rules -/

/-- Members of two classes that are alike. -/
structure Members.Alike (l : Likeness) (ms ms' : Members) : Prop where
  methods : AlikeFunctions l ms.methods ms'.methods
  statics : AlikeFunctions l ms.statics ms'.statics
  getters : AlikeFunctions l ms.getters ms'.getters

/-- How the rules go together. -/
structure RulesPair (p : Pairing) (fuel fuel' : Nat) : Prop where
  exprAt : ∀ {R} level,
    Pairs p 1 R (exprAt fuel level) (exprAt fuel' level) (Expr.Alike p.toLikeness)
  operands : ∀ {R : Prop} level {left left'}, (R → Expr.Alike p.toLikeness left left') →
    Pairs p 0 R (operands fuel level left) (operands fuel' level left') (Expr.Alike p.toLikeness)
  postfixes : ∀ {R : Prop} {callee callee'}, (R → Expr.Alike p.toLikeness callee callee') →
    Pairs p 0 R (postfixes fuel callee) (postfixes fuel' callee') (Expr.Alike p.toLikeness)
  someArguments : ∀ {R} count, Pairs p 1 R (someArguments fuel count) (someArguments fuel' count)
    (AlikeEach p.toLikeness)
  primary : ∀ {R}, Pairs p 1 R (primary fuel) (primary fuel') (Expr.Alike p.toLikeness)
  parenthesised : ∀ {R},
    Pairs p 0 R (parenthesised fuel) (parenthesised fuel') (Expr.Alike p.toLikeness)
  arrowBody : ∀ {R : Prop} {arrow arrow'}, (R → p.token arrow arrow') →
    Pairs p 0 R (arrowBody fuel arrow) (arrowBody fuel' arrow') (AlikeBody p.toLikeness)
  statement : ∀ {R} inLoop, Pairs p 1 R (statement fuel inLoop) (statement fuel' inLoop)
    (Stmt.Alike p.toLikeness)
  expressionStatement : ∀ {R}, Pairs p 1 R (expressionStatement fuel) (expressionStatement fuel')
    (Stmt.Alike p.toLikeness)
  forStatement : ∀ {R},
    Pairs p 1 R (forStatement fuel) (forStatement fuel') (Stmt.Alike p.toLikeness)
  blockBody : ∀ {R} inLoop, Pairs p 1 R (blockBody fuel inLoop) (blockBody fuel' inLoop)
    (AlikeBody p.toLikeness)
  declaration : ∀ {R} inLoop, Pairs p 1 R (declaration fuel inLoop) (declaration fuel' inLoop)
    (Stmt.Alike p.toLikeness)
  varDeclaration : ∀ {R},
    Pairs p 1 R (varDeclaration fuel) (varDeclaration fuel') (Stmt.Alike p.toLikeness)
  function : ∀ {R} role, Pairs p 2 R (function fuel role) (function fuel' role)
    (FunctionDecl.Alike p.toLikeness)
  classDeclaration : ∀ {R},
    Pairs p 1 R (classDeclaration fuel) (classDeclaration fuel') (Stmt.Alike p.toLikeness)
  members : ∀ {R}, Pairs p 0 R (members fuel) (members fuel') (Members.Alike p.toLikeness)

namespace RulesPair

variable {fuel fuel' : Nat}

theorem zero : RulesPair p 0 fuel' where
  exprAt level := by
    cases level
    all_goals exact .outOfFuel
  operands _ _ _ _ := .outOfFuel
  postfixes _ := .outOfFuel
  someArguments _ := .outOfFuel
  primary := .outOfFuel
  parenthesised := .outOfFuel
  arrowBody _ := .outOfFuel
  statement _ := .outOfFuel
  expressionStatement := .outOfFuel
  forStatement := .outOfFuel
  blockBody _ := .outOfFuel
  declaration _ := .outOfFuel
  varDeclaration := .outOfFuel
  function _ := .outOfFuel
  classDeclaration := .outOfFuel
  members := .outOfFuel

/-- A second parse with no depth left. -/
theorem zero' (h : RulesPair p fuel fuel') : RulesPair p fuel 0 where
  exprAt level := by
    rw [Parse.exprAt.eq_def 0]
    exact .outOfFuel' (h.exprAt (R := True) level).moves
  operands level left _ _ :=
    .outOfFuel' (h.operands level (nofun : False → Expr.Alike p.toLikeness left left)).moves
  postfixes {_ callee _} _ :=
    .outOfFuel' (h.postfixes (nofun : False → Expr.Alike p.toLikeness callee callee)).moves
  someArguments count := .outOfFuel' (h.someArguments (R := True) count).moves
  primary := .outOfFuel' (h.primary (R := True)).moves
  parenthesised := .outOfFuel' (h.parenthesised (R := True)).moves
  arrowBody {_ arrow _} _ :=
    .outOfFuel' (h.arrowBody (nofun : False → p.token arrow arrow)).moves
  statement inLoop := .outOfFuel' (h.statement (R := True) inLoop).moves
  expressionStatement := .outOfFuel' (h.expressionStatement (R := True)).moves
  forStatement := .outOfFuel' (h.forStatement (R := True)).moves
  blockBody inLoop := .outOfFuel' (h.blockBody (R := True) inLoop).moves
  declaration inLoop := .outOfFuel' (h.declaration (R := True) inLoop).moves
  varDeclaration := .outOfFuel' (h.varDeclaration (R := True)).moves
  function role := .outOfFuel' (h.function (R := True) role).moves
  classDeclaration := .outOfFuel' (h.classDeclaration (R := True)).moves
  members := .outOfFuel' (h.members (R := True)).moves

theorem exprAt_succ (h : RulesPair p fuel fuel') (level : Level) :
    Pairs p 1 R (Parse.exprAt (fuel + 1) level) (Parse.exprAt (fuel' + 1) level)
      (Expr.Alike p.toLikeness) := by
  have hlevel (level : Level) : Pairs p 1 R
      (do let left ← Parse.exprAt fuel level.tighter; Parse.operands fuel level left)
      (do let left ← Parse.exprAt fuel' level.tighter; Parse.operands fuel' level left)
      (Expr.Alike p.toLikeness) :=
    (h.exprAt level.tighter).andThen fun _ _ => h.operands level And.right
  rw [Parse.exprAt.eq_def, Parse.exprAt.eq_def (fuel' + 1)]
  cases level
  case assignment =>
    refine (h.exprAt .ternary).andThen fun target target' => .accepting (Nat.zero_le _)
      (fun equals equals' => ?_) (.pure And.right)
    exact (h.exprAt .assignment).bind fun value value' =>
      assignTo_pairs.given fun hparts => ⟨hparts.1.1.2, hparts.1.2, hparts.2⟩
  case ternary =>
    refine (h.exprAt .or).andThen fun condition condition' => .accepting (Nat.zero_le _)
      (fun question question' => ?_) (.pure And.right)
    exact (h.exprAt .comma).bind fun thenBranch thenBranch' => Pairs.expectSymbol.bind fun _ _ =>
      (h.exprAt .ternary).bind fun elseBranch elseBranch' => .pure fun hparts =>
        .ternary hparts.1.1.1.1.2 hparts.1.1.1.2 hparts.1.1.2 hparts.2
  case unary =>
    refine .accepting (Nat.le_refl _) (fun operator operator' => ?_) (h.exprAt .call)
    exact (h.exprAt .unary).bind fun right right' => .pure fun hparts =>
      .unary hparts.1.2 hparts.2
  case call => exact (h.exprAt .primary).andThen fun callee callee' => h.postfixes And.right
  case primary => exact h.primary
  all_goals exact hlevel _

theorem alike_join (level : Level) {left left' right right' : Expr} {operator operator' : Token}
    (hleft : Expr.Alike p.toLikeness left left') (hoperator : p.token operator operator')
    (hright : Expr.Alike p.toLikeness right right') : Expr.Alike p.toLikeness
      (level.join left operator right) (level.join left' operator' right') := by
  cases level
  case or | and => exact .logical hleft hoperator hright
  all_goals exact .binary hleft hoperator hright

theorem operands_succ (h : RulesPair p fuel fuel') (level : Level) {left left' : Expr}
    (hleft : R → Expr.Alike p.toLikeness left left') :
    Pairs p 0 R (Parse.operands (fuel + 1) level left) (Parse.operands (fuel' + 1) level left')
      (Expr.Alike p.toLikeness) := by
  rw [Parse.operands, Parse.operands]
  refine .accepting (Nat.zero_le _) (fun operator operator' => ?_) (.pure hleft)
  exact (h.exprAt level.tighter).bind fun right right' => h.operands level fun hparts =>
    alike_join level (hleft hparts.1.1) hparts.1.2 hparts.2

theorem postfixes_succ (h : RulesPair p fuel fuel') {callee callee' : Expr}
    (hcallee : R → Expr.Alike p.toLikeness callee callee') :
    Pairs p 0 R (Parse.postfixes (fuel + 1) callee) (Parse.postfixes (fuel' + 1) callee')
      (Expr.Alike p.toLikeness) := by
  rw [Parse.postfixes, Parse.postfixes]
  refine .accepting (Nat.zero_le _) (fun t t' => ?_) (.pure hcallee)
  have hcall {R' : Prop} (es es' : List Expr) (hR : R' → R)
      (hes : R' → AlikeEach p.toLikeness es es') : Pairs p 1 R'
        (do let paren ← expect (·.isSymbol .rightParen) "')' after arguments"
            Parse.postfixes fuel (.call callee paren es))
        (do let paren ← expect (·.isSymbol .rightParen) "')' after arguments"
            Parse.postfixes fuel' (.call callee' paren es'))
        (Expr.Alike p.toLikeness) :=
    Pairs.expect.andThen fun paren paren' => h.postfixes fun hparts =>
      .call (hcallee (hR hparts.1)) hparts.2 (hes hparts.1)
  refine .ite (fun hparts => p.kind hparts.2 ▸ Iff.rfl)
    (.any (.lookahead (n := 0) fun closed => ?_)) ?_
  · refine .ite (fun _ => Iff.rfl) (hcall [] [] And.left fun _ => .nil) ?_
    exact (h.someArguments 0).bind fun es es' => hcall es es' (fun hparts => hparts.1.1) And.right
  · exact Pairs.expectName.bind fun name name' => h.postfixes fun hparts =>
      .get (hcallee hparts.1.1) hparts.2

theorem someArguments_succ (h : RulesPair p fuel fuel') (count : Nat) :
    Pairs p 1 R (Parse.someArguments (fuel + 1) count) (Parse.someArguments (fuel' + 1) count)
      (AlikeEach p.toLikeness) := by
  rw [Parse.someArguments, Parse.someArguments]
  refine Pairs.limit.bind fun _ _ => (h.exprAt .assignment).andThen fun argument argument' =>
    Pairs.acceptSymbol.bind fun more more' => .ite (fun hparts => hparts.2 ▸ Iff.rfl) ?_
      (.pure fun hparts => .cons hparts.1.2 .nil)
  exact (h.someArguments (count + 1)).bind fun others others' => .pure fun hparts =>
    .cons hparts.1.1.2 hparts.2

theorem primary_succ (h : RulesPair p fuel fuel') :
    Pairs p 1 R (Parse.primary (fuel + 1)) (Parse.primary (fuel' + 1))
      (Expr.Alike p.toLikeness) := by
  have hmoves : Moves 1 (Parse.primary (fuel + 1)) :=
    .of_takes _ (rulesTake (fuel + 1)).primary (rulesForm (fuel + 1)).primary.keeps
  rw [Parse.primary] at hmoves
  rw [Parse.primary, Parse.primary]
  refine .peeking hmoves fun s s' _ hnext => ?_
  generalize s.next? = next, s'.next? = next' at hnext
  cases hnext with
  | none => exact .failHere
  | @some t t' ht =>
    have hleaf := leaf?_pairs ht
    dsimp only
    generalize leaf? t = leaf, leaf? t' = leaf' at hleaf
    cases hleaf with
    | some hleaf => exact Pairs.advance.bind fun _ _ => hleaf.given fun _ => trivial
    | none =>
      dsimp only
      rw [← p.kind ht]
      refine .ite (fun _ => Iff.rfl) (Pairs.advance.bind fun _ _ => h.parenthesised) ?_
      cases Level.ofStrayOperator? t.kind with
      | none => exact .failHere
      | some level =>
        exact Pairs.advance.bind fun _ _ => (h.exprAt level).discard.bind fun _ _ =>
          .failAt fun _ => ht

theorem parenthesised_succ (h : RulesPair p fuel fuel') :
    Pairs p 0 R (Parse.parenthesised (fuel + 1)) (Parse.parenthesised (fuel' + 1))
      (Expr.Alike p.toLikeness) := by
  rw [Parse.parenthesised, Parse.parenthesised]
  refine .heading (fun params params' arrow arrow' => ?_) ?_
  · have hbody : Pairs p 0 (R ∧ List.Forall₂ p.token params params' ∧ p.token arrow arrow')
        (do return Expr.arrow ⟨arrow, params, ← Parse.arrowBody fuel arrow⟩)
        (do return Expr.arrow ⟨arrow', params', ← Parse.arrowBody fuel' arrow'⟩)
        (Expr.Alike p.toLikeness) :=
      (h.arrowBody fun hparts => hparts.2.2).bind fun body body' => .pure fun hparts =>
        .arrow (.mk hparts.1.2.2 hparts.1.2.1 hparts.2)
    refine .ite (fun hparts => hparts.2.1.length_eq ▸ Iff.rfl) ?_ hbody
    exact (Pairs.noteAt fun hparts => hparts.2.2).bind fun _ _ => hbody.given And.left
  · exact (h.exprAt .comma).bind fun inner inner' => Pairs.expectSymbol.bind fun _ _ =>
      .pure fun hparts => .grouping hparts.1.2

theorem arrowBody_succ (h : RulesPair p fuel fuel') {arrow arrow' : Token}
    (harrow : R → p.token arrow arrow') :
    Pairs p 0 R (Parse.arrowBody (fuel + 1) arrow) (Parse.arrowBody (fuel' + 1) arrow')
      (AlikeBody p.toLikeness) := by
  rw [Parse.arrowBody, Parse.arrowBody]
  refine Pairs.acceptSymbol.bind fun braced braced' => .ite (fun hparts => hparts.2 ▸ Iff.rfl)
    (h.blockBody false).any ?_
  exact (h.exprAt .assignment).bind fun value value' => .pure fun hparts =>
    .cons (.return (p.synthetic _ _ rfl (harrow hparts.1.1)) (.some hparts.2)) .nil

theorem expressionStatement_succ (h : RulesPair p fuel fuel') :
    Pairs p 1 R (Parse.expressionStatement (fuel + 1)) (Parse.expressionStatement (fuel' + 1))
      (Stmt.Alike p.toLikeness) := by
  rw [Parse.expressionStatement, Parse.expressionStatement]
  exact (h.exprAt .comma).andThen fun value value' => Pairs.expectSymbol.bind fun _ _ =>
    .pure fun hparts => .expression hparts.1.2

theorem statement_succ (h : RulesPair p fuel fuel') (inLoop : Bool) :
    Pairs p 1 R (Parse.statement (fuel + 1) inLoop) (Parse.statement (fuel' + 1) inLoop)
      (Stmt.Alike p.toLikeness) := by
  have hmoves : Moves 1 (Parse.statement (fuel + 1) inLoop) :=
    .of_takes _ ((rulesTake (fuel + 1)).statement inLoop)
      ((rulesForm (fuel + 1)).statement inLoop).keeps
  have hprint (node : Expr → Stmt) (hnode : ∀ {value value' : Expr},
      Expr.Alike p.toLikeness value value' → Stmt.Alike p.toLikeness (node value) (node value')) :
      Pairs p 0 True
        (do let value ← Parse.exprAt fuel .comma
            expectSymbol .semicolon "';' after value"
            return node value)
        (do let value ← Parse.exprAt fuel' .comma
            expectSymbol .semicolon "';' after value"
            return node value)
        (Stmt.Alike p.toLikeness) :=
    (h.exprAt .comma).bind fun value value' => Pairs.expectSymbol.bind fun _ _ =>
      .pure fun hparts => hnode hparts.1.2
  rw [Parse.statement] at hmoves
  rw [Parse.statement, Parse.statement]
  refine .peeking hmoves fun s s' _ hnext => ?_
  generalize s.next? = next, s'.next? = next' at hnext
  cases hnext with
  | none => exact h.expressionStatement.any
  | @some t t' ht =>
    dsimp only
    rw [← p.kind ht]
    generalize t.kind = kind
    split
    · exact Pairs.advance.bind fun _ _ => h.forStatement.any
    · refine Pairs.advance.bind fun _ _ => (h.exprAt .comma).bind fun condition condition' =>
        (h.statement inLoop).bind fun thenBranch thenBranch' => Pairs.accept.bind fun more more' =>
          .ite (fun hparts => hparts.2 ▸ Iff.rfl) ?_
            (.pure fun hparts => .ifElse hparts.1.1.2 hparts.1.2 .none)
      exact (h.statement inLoop).bind fun elseBranch elseBranch' => .pure fun hparts =>
        .ifElse hparts.1.1.1.2 hparts.1.1.2 (.some hparts.2)
    · exact Pairs.advance.bind fun _ _ => (h.exprAt .comma).bind fun condition condition' =>
        (h.statement true).bind fun body body' => .pure fun hparts => .while hparts.1.2 hparts.2
    · exact Pairs.advance.bind fun _ _ => .any (.readUntil (n := 0) (h.exprAt .comma)
        fun value value' => Pairs.expectSymbol.andThen fun _ _ => .pure fun hparts =>
          .return ht (.of_rel hparts.1.2))
    · exact Pairs.advance.bind fun _ _ => jump_pairs ht (.break ht)
    · exact Pairs.advance.bind fun _ _ => jump_pairs ht (.continue ht)
    · exact Pairs.advance.bind fun _ _ => (h.exprAt .assignment).bind fun condition condition' =>
        (Pairs.acceptSymbol.readIf (h.exprAt .comma)).bind fun message message' =>
          Pairs.expectSymbol.bind fun _ _ => .pure fun hparts =>
            .assert ht hparts.1.1.2 (.of_rel hparts.1.2)
    · exact Pairs.advance.bind fun _ _ => (h.blockBody inLoop).bind fun body body' =>
        .pure fun hparts => .block hparts.2
    · exact Pairs.advance.bind fun _ _ => (hprint .print .print).given fun _ => trivial
    · exact Pairs.advance.bind fun _ _ => (hprint .println .println).given fun _ => trivial
    · exact h.expressionStatement.any

theorem forStatement_succ (h : RulesPair p fuel fuel') :
    Pairs p 1 R (Parse.forStatement (fuel + 1)) (Parse.forStatement (fuel' + 1))
      (Stmt.Alike p.toLikeness) := by
  rw [Parse.forStatement, Parse.forStatement]
  have hinitializer {R : Prop} : Pairs p 0 R
      (readUnless (acceptSymbol .semicolon) do
        if ← accept (·.isKeyword .var) then Parse.varDeclaration fuel
        else Parse.expressionStatement fuel)
      (readUnless (acceptSymbol .semicolon) do
        if ← accept (·.isKeyword .var) then Parse.varDeclaration fuel'
        else Parse.expressionStatement fuel')
      (Option.Rel (Stmt.Alike p.toLikeness)) :=
    Pairs.acceptSymbol.readUnless (Pairs.accept.bind fun _ _ =>
      .ite (fun hparts => hparts.2 ▸ Iff.rfl) h.varDeclaration h.expressionStatement)
  have hcondition {R : Prop} : Pairs p 0 R
      (readUnless (acceptSymbol .semicolon) do
        let condition ← Parse.exprAt fuel .comma
        expectSymbol .semicolon "';' after loop condition"
        return condition)
      (readUnless (acceptSymbol .semicolon) do
        let condition ← Parse.exprAt fuel' .comma
        expectSymbol .semicolon "';' after loop condition"
        return condition)
      (Option.Rel (Expr.Alike p.toLikeness)) :=
    Pairs.acceptSymbol.readUnless ((h.exprAt .comma).bind fun _ _ =>
      Pairs.expectSymbol.bind fun _ _ => .pure fun hparts => hparts.1.2)
  refine hinitializer.bind fun initializer initializer' => hcondition.bind
    fun condition condition' => .readUntil (n := 0) (h.exprAt .comma) fun update update' => ?_
  exact Pairs.expectSymbol.andThen fun _ _ => (h.blockBody true).any.bind fun body body' =>
    .pure fun hparts => .for (.of_rel hparts.1.1.1.1.2) (.of_rel hparts.1.1.1.2)
      (.of_rel hparts.1.1.2) (.block hparts.2)

theorem blockBody_succ (h : RulesPair p fuel fuel') (inLoop : Bool) :
    Pairs p 1 R (Parse.blockBody (fuel + 1) inLoop) (Parse.blockBody (fuel' + 1) inLoop)
      (AlikeBody p.toLikeness) := by
  rw [Parse.blockBody, Parse.blockBody]
  refine .closing (n := 0) (Nat.le_refl _) ?_ ?_
  · exact Pairs.expectSymbol.andThen fun _ _ => .pure fun _ => .nil
  · exact (h.declaration inLoop).andThen fun first first' => (h.blockBody inLoop).any.bind
      fun others others' => .pure fun hparts => .cons hparts.1.2 hparts.2

theorem varDeclaration_succ (h : RulesPair p fuel fuel') :
    Pairs p 1 R (Parse.varDeclaration (fuel + 1)) (Parse.varDeclaration (fuel' + 1))
      (Stmt.Alike p.toLikeness) := by
  rw [Parse.varDeclaration, Parse.varDeclaration]
  exact Pairs.expectName.andThen fun name name' =>
    (Pairs.acceptSymbol.readIf (h.exprAt .comma)).bind fun initializer initializer' =>
      Pairs.expectSymbol.bind fun _ _ => .pure fun hparts =>
        .var hparts.1.1.2 (.of_rel hparts.1.2)

theorem function_succ (h : RulesPair p fuel fuel') (role : String) :
    Pairs p 2 R (Parse.function (fuel + 1) role) (Parse.function (fuel' + 1) role)
      (FunctionDecl.Alike p.toLikeness) := by
  rw [Parse.function, Parse.function]
  refine Pairs.expectName.andThen fun name name' => Pairs.expectSymbol.andThen fun _ _ => .any
    (.lookahead_bind (n := 0) (fun _ => .ite (fun _ => Iff.rfl) (.pure fun _ => .nil)
      ((someParameters_pairs fuel fuel' 0).given fun _ => trivial)) fun params params' => ?_)
  exact Pairs.expectSymbol.andThen fun _ _ => Pairs.expectSymbol.bind fun _ _ =>
    (h.blockBody false).bind fun body body' => .pure fun hparts =>
      .mk hparts.1.1.1.1.1.2 hparts.1.1.1.2 hparts.2

theorem declaration_succ (h : RulesPair p fuel fuel') (inLoop : Bool) :
    Pairs p 1 R (Parse.declaration (fuel + 1) inLoop) (Parse.declaration (fuel' + 1) inLoop)
      (Stmt.Alike p.toLikeness) := by
  have hmoves : Moves 1 (Parse.declaration (fuel + 1) inLoop) :=
    .of_takes _ ((rulesTake (fuel + 1)).declaration inLoop)
      ((rulesForm (fuel + 1)).declaration inLoop).keeps
  rw [Parse.declaration] at hmoves
  rw [Parse.declaration, Parse.declaration]
  refine .choosing hmoves fun kind => ?_
  split
  · exact Pairs.advance.bind fun _ _ => h.classDeclaration.any
  · exact Pairs.advance.bind fun _ _ => (h.function "function").bind fun decl decl' =>
      .pure fun hparts => .function hparts.2
  · exact Pairs.advance.bind fun _ _ => h.varDeclaration.any
  · exact Pairs.advance.bind fun _ _ => Pairs.expectName.bind fun name name' =>
      Pairs.expectSymbol.bind fun _ _ => (h.exprAt .comma).bind fun initializer initializer' =>
        Pairs.expectSymbol.bind fun _ _ => .pure fun hparts =>
          .const hparts.1.1.1.2 hparts.1.2
  · exact (h.statement inLoop).any

theorem classDeclaration_succ (h : RulesPair p fuel fuel') :
    Pairs p 1 R (Parse.classDeclaration (fuel + 1)) (Parse.classDeclaration (fuel' + 1))
      (Stmt.Alike p.toLikeness) := by
  rw [Parse.classDeclaration, Parse.classDeclaration]
  have hbase {R : Prop} : Pairs p 0 R
      (do let base ← expectName "base class name after '<'"
          return Expr.variable (← freshId) base)
      (do let base ← expectName "base class name after '<'"
          return Expr.variable (← freshId) base)
      (Expr.Alike p.toLikeness) :=
    Pairs.expectName.bind fun base base' => Pairs.freshId.bind fun id id' =>
      .pure fun hparts => .variable hparts.2 hparts.1.2
  exact Pairs.expectName.andThen fun name name' =>
    (Pairs.acceptSymbol.readIf hbase).bind fun base base' => Pairs.expectSymbol.bind fun _ _ =>
      h.members.bind fun ms ms' => Pairs.expectSymbol.bind fun _ _ => .pure fun hparts =>
        .class (.mk hparts.1.1.1.1.2 (.of_rel hparts.1.1.1.2) hparts.1.2.methods
          hparts.1.2.statics hparts.1.2.getters)

theorem members_succ (h : RulesPair p fuel fuel') :
    Pairs p 0 R (Parse.members (fuel + 1)) (Parse.members (fuel' + 1))
      (Members.Alike p.toLikeness) := by
  rw [Parse.members, Parse.members]
  refine .closing (n := 1) (Nat.zero_le _) (.pure fun _ => ⟨.nil, .nil, .nil⟩)
    (Pairs.accept.bind fun isStatic isStatic' => .ite (fun hparts => hparts.2 ▸ Iff.rfl) ?_
      (.second (n := 0) ?_ ?_))
  · exact (h.function "static method").bindFirst fun decl decl' => h.members.bind
      fun others others' => .pure fun hparts =>
        ⟨hparts.2.methods, .cons hparts.1.2 hparts.2.statics, hparts.2.getters⟩
  · exact Pairs.expectName.andThen fun name name' => Pairs.expectSymbol.andThen fun _ _ =>
      (h.blockBody false).any.bind fun body body' => h.members.bind fun others others' =>
        .pure fun hparts => ⟨hparts.2.methods, hparts.2.statics,
          .cons (.mk hparts.1.1.1.2 .nil hparts.1.2) hparts.2.getters⟩
  · exact (h.function "method").bindFirst fun decl decl' => h.members.bind fun others others' =>
      .pure fun hparts => ⟨.cons hparts.1.2 hparts.2.methods, hparts.2.statics, hparts.2.getters⟩

theorem succ (h : RulesPair p fuel fuel') : RulesPair p (fuel + 1) (fuel' + 1) where
  exprAt := h.exprAt_succ
  operands := h.operands_succ
  postfixes := h.postfixes_succ
  someArguments := h.someArguments_succ
  primary := h.primary_succ
  parenthesised := h.parenthesised_succ
  arrowBody := h.arrowBody_succ
  statement := h.statement_succ
  expressionStatement := h.expressionStatement_succ
  forStatement := h.forStatement_succ
  blockBody := h.blockBody_succ
  declaration := h.declaration_succ
  varDeclaration := h.varDeclaration_succ
  function := h.function_succ
  classDeclaration := h.classDeclaration_succ
  members := h.members_succ

theorem refl (p : Pairing) (fuel : Nat) : RulesPair p fuel fuel := by
  induction fuel with
  | zero => exact .zero
  | succ fuel ih => exact ih.succ

end RulesPair

/-- Rules go together also if their bounds are different. -/
theorem rulesPair (p : Pairing) (fuel fuel' : Nat) : RulesPair p fuel fuel' := by
  induction fuel generalizing fuel' with
  | zero => exact .zero
  | succ fuel ih =>
    cases fuel' with
    | zero => exact (RulesPair.refl p (fuel + 1)).zero'
    | succ fuel' => exact (ih fuel').succ

/-! ## Parses of corresponding tokens -/

/-- Two parses that go on from two states to the end. -/
def Pairing.exact (l : Likeness) (s s' : ParseState) : Pairing :=
  { l with
    tail := []
    tail' := []
    errors := s.errors
    errors' := s'.errors
    failed := s.failed
    failed' := s'.failed
    lenient := false
    whole := fun _ => ⟨rfl, rfl⟩
    ends := nofun }

theorem Beside.exact {l : Likeness} (hrest : List.Forall₂ l.token s.rest s'.rest)
    (hlast : Option.Rel l.token s.last s'.last)
    (hnumbers : ∀ m, l.node (s.nextId + m) (s'.nextId + m)) : Beside (.exact l s s') s s' where
  ahead := ⟨s.rest, s'.rest, (List.append_nil _).symm, (List.append_nil _).symm, hrest⟩
  last _ := hlast
  numbers := hnumbers
  noted := ⟨[], [], (List.append_nil _).symm, (List.append_nil _).symm, .nil,
    (Bool.or_false _).symm, (Bool.or_false _).symm⟩

/-- How two parses of corresponding tokens end, if neither bound is reached. -/
inductive Ends (l : Likeness) (s s' : ParseState) (Q : α → α → Prop) :
    EStateM.Result ParseStop ParseState α → EStateM.Result ParseStop ParseState α → Prop
  | ok {a a' after after'} (beside : Beside (.exact l s s') after after') (alike : Q a a') :
    Ends l s s' Q (.ok a after) (.ok a' after')
  | error {error error' after after'} (beside : Beside (.exact l s s') after after')
    (alike : error.Alike l error') :
    Ends l s s' Q (.error (.error error) after) (.error (.error error') after')
  | stuck {after result'} : Ends l s s' Q (.error .outOfFuel after) result'
  | stuck' {result after'} : Ends l s s' Q result (.error .outOfFuel after')

theorem Pairs.ends {l : Likeness} (h : Pairs (.exact l s s') n True act act' Q)
    (hs : Beside (.exact l s s') s s') : Ends l s s' Q (act s) (act' s') := by
  have htally := h.tallies trivial s s' hs
  generalize act s = result, act' s' = result' at htally
  cases htally with
  | ok beside alike => exact .ok beside alike
  | error beside alike => exact .error beside alike
  | stuck => exact .stuck
  | stuck' => exact .stuck'
  | excused excused =>
    cases result with
    | ok a after => cases excused.1
    | error stop after => cases (show false = true from excused)

end LoxLang.Parse
