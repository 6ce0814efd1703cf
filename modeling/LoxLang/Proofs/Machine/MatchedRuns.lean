import LoxLang.Proofs.Machine.MatchedSteps
import LoxLang.Proofs.Machine.Rounds

/-!
# Runs on stores that match

Code that names nothing in the scopes outside of it runs alike wherever the things that it can reach
match: it depends on nothing else and changes nothing else. There is one lemma for each
function of the evaluation, and `runsMatched` puts them together.
-/

namespace LoxLang

/-! ## Scopes and frames -/

section Scopes

theorem Rib.length_onHead (change : Rib → Rib) (ribs : List Rib) :
    (onHead change ribs).length = ribs.length := by
  cases ribs <;> rfl

theorem Stmt.length_grow (s : Stmt) (ribs : List Rib) : (s.grow ribs).length = ribs.length := by
  rw [Stmt.grow]
  rcases s.declaration? with _ | ⟨name, kind⟩
  · rfl
  · exact Rib.length_onHead _ _

theorem length_growBranch (s : Option Stmt) (ribs : List Rib) :
    (growBranch s ribs).length = ribs.length := by
  cases s with
  | none => rfl
  | some s => exact s.length_grow ribs

variable (region : Region)

namespace Region

theorem inside_grow (s : Stmt) (ribs : List Rib) :
    region.inside (s.grow ribs) = region.inside ribs :=
  congrArg (· - region.outside) (s.length_grow ribs)

theorem inside_growBranch (s : Option Stmt) (ribs : List Rib) :
    region.inside (growBranch s ribs) = region.inside ribs :=
  congrArg (· - region.outside) (length_growBranch s ribs)

theorem inside_beginning (name : Token) (kind : DeclarationKind) (ribs : List Rib) :
    region.inside (beginning name kind ribs) = region.inside ribs :=
  congrArg (· - region.outside) (Rib.length_onHead _ ribs)

theorem inside_cons (rib : Rib) (ribs : List Rib) :
    region.inside (rib :: ribs) - 1 = region.inside ribs := by
  unfold inside
  rw [List.length_cons]
  omega

end Region

/-- One scope more is one frame more. -/
theorem Matching.Deep.cons {region : Region} {p : Matching} {ribs : List Rib} {o o' : FrameId}
    (h : p.Deep (region.inside ribs + 1) o o') (rib : Rib) :
    p.Deep (region.inside (rib :: ribs)) o o' :=
  h.le (by have := region.inside_cons rib ribs; omega)

end Scopes

/-! ## Functions and classes -/

namespace Matched

variable {region : Region} {p : Matching} {here here' : FrameId} {lookup lookup' : Lookup}
  {ribs : List Rib}

theorem parameterFrame {args args' : List Value} (h : List.Forall₂ (Value.Matches p) args args')
    {n : Nat} {outer outer' : FrameId} (houter : p.Around n outer outer') (params : List Token)
    (body : List Stmt) : Frame.Matches p n (Eval.parameterFrame params body args outer)
      (Eval.parameterFrame params body args' outer') := by
  refine ⟨?_, _, _, rfl, rfl, houter⟩
  have hnames {names names' : NameMap Slot} (hnames : names.Alike (Slot.Matches p) names') :
      NameMap.Alike (Slot.Matches p)
        ((params.zip args).foldl (fun names entry =>
          names.insert entry.1.lexeme ⟨some entry.2, false⟩) names)
        ((params.zip args').foldl (fun names entry =>
          names.insert entry.1.lexeme ⟨some entry.2, false⟩) names') := by
    induction h generalizing params names names' with
    | nil =>
      rw [List.zip_nil_right]
      exact hnames
    | cons harg _ ih =>
      cases params with
      | nil => exact hnames
      | cons param params => exact ih params (hnames.insert _ ⟨.some harg, rfl⟩)
  exact hnames .empty

theorem declareFunction {decl : FunctionDecl}
    (hfits : FunctionFits region decl.params decl.body ((Stmt.function decl).grow ribs))
    (hdeep : p.Deep (region.inside ribs) here here') :
    Matched region p here here' (Eval.declareFunction decl) (Eval.declareFunction decl)
      fun _ => Eq := by
  have hplace : p.Around (region.inside ((Stmt.function decl).grow ribs)) here here' := by
    rw [region.inside_grow]
    exact hdeep.around
  refine get.bind fun q m m' hext hm => .bind
    (P := fun q id id' => q.pairs (.function id) (.function id')) (.updateStore ?_) ?_
  · intro q' s s' hext' hs
    rw [hm.here, hm.here']
    exact hs.addFunction
      ⟨rfl, rfl, ⟨_, hfits, hplace.mono (hext'.trans hext)⟩, fun _ h => by cases h⟩
  · intro q' id id' hext' hpair
    exact declare ((hext'.trans hext).pairs hdeep.pair) _ (.some (.callable (.function hpair))) true

theorem closures {decls : List FunctionDecl} (hfits : FunctionsFit region decls ribs)
    (haround : p.Around (region.inside ribs - 1) here here') (hasInitializer : Bool) :
    (Eval.closures here decls hasInitializer).Alike (Closure.Matches region p 1)
      (Eval.closures here' decls hasInitializer) := by
  refine .ofList (List.forall₂_map_left_iff.mpr (List.forall₂_map_right_iff.mpr
    (List.forall₂_same.mpr fun decl hdecl =>
      ⟨rfl, rfl, rfl, ⟨ribs, hfits decl hdecl, haround⟩, ?_⟩)))
  exact fun h => by cases h

theorem addStatics {decls : List FunctionDecl} (hfits : FunctionsFit region decls ribs)
    (haround : p.Around (region.inside ribs) here here') {s s' : Store}
    (hs : s.Matches region p s') :
    Together region p s s' (fun q => NameMap.Alike fun f f' => q.pairs (.function f) (.function f'))
      (Eval.addStatics here decls s) (Eval.addStatics here' decls s') := by
  have hfold {q : Matching} {s s' : Store} {statics statics' : NameMap FunctionId}
      (hext : q.Extends p) (hs : s.Matches region q s')
      (hstatics : statics.Alike (fun f f' => q.pairs (.function f) (.function f')) statics') :
      Together region q s s'
        (fun q => NameMap.Alike fun f f' => q.pairs (.function f) (.function f'))
        (decls.foldl (fun state decl =>
          (state.1.insert decl.name.lexeme (state.2.addFunction ⟨decl, here, false⟩).1,
            (state.2.addFunction ⟨decl, here, false⟩).2)) (statics, s))
        (decls.foldl (fun state decl =>
          (state.1.insert decl.name.lexeme (state.2.addFunction ⟨decl, here', false⟩).1,
            (state.2.addFunction ⟨decl, here', false⟩).2)) (statics', s')) := by
    induction decls generalizing q s s' statics statics' with
    | nil => exact ⟨q, .refl q s s', hs, hstatics⟩
    | cons decl decls ih =>
      have hplace : q.Around (region.inside ribs) here here' := haround.mono hext
      have hclosure : Closure.Matches region q 0 ⟨decl, here, false⟩ ⟨decl, here', false⟩ :=
        ⟨rfl, rfl, ⟨ribs, hfits decl List.mem_cons_self, hplace⟩, fun _ h => by cases h⟩
      obtain ⟨q', hmoves, hadded, hpair⟩ := hs.addFunction hclosure
      have hrest : FunctionsFit region decls ribs := fun d hd => hfits d (List.mem_cons_of_mem _ hd)
      have hinserted := (hstatics.imp fun _ _ => hmoves.larger.pairs).insert decl.name.lexeme hpair
      exact (ih hrest (hmoves.larger.trans hext) hadded hinserted).after hmoves
  exact hfold .refl hs .empty

theorem declareClass {decl : ClassDecl} (hfits : ClassFits region decl ribs)
    (hdeep : p.Deep (region.inside ribs) here here') {base base' : Option ClassId}
    (hbase : Option.Rel (fun b b' => p.pairs (.class b) (.class b')) base base') :
    Matched region p here here' (Eval.declareClass decl base) (Eval.declareClass decl base')
      fun _ => Eq := by
  have hmembers : p.Around
      (region.inside (receiverRib decl :: (Stmt.class decl).grow ribs) - 1) here here' := by
    rw [region.inside_cons, region.inside_grow]
    exact hdeep.around
  have hstatics : p.Around (region.inside ((Stmt.class decl).grow ribs)) here here' := by
    rw [region.inside_grow]
    exact hdeep.around
  refine get.bind fun q m m' hext hm => .bind
    (P := fun q id id' => q.pairs (.class id) (.class id')) (.updateStore ?_) ?_
  · intro q' s s' hext' hs
    have hall := hext'.trans hext
    rw [hm.here, hm.here']
    obtain ⟨q'', hmoves, hadded, hnames⟩ := addStatics hfits.statics (hstatics.mono hall) hs
    have hlast := hmoves.larger.trans hall
    refine Together.after (hadded.addClass ?_) hmoves
    refine ⟨rfl, ?_, ?_, ?_, hnames, .empty⟩
    · exact rel_imp (fun _ _ => hlast.pairs) hbase
    · exact closures (fun d hd => (hfits.methods d hd).toFunctionFits) (hmembers.mono hlast) true
    · exact closures (fun d hd => (hfits.getters d hd).toFunctionFits) (hmembers.mono hlast) false
  · intro q' id id' hext' hpair
    exact declare ((hext'.trans hext).pairs hdeep.pair) _ (.some (.callable (.class hpair))) true

theorem asBaseClass (decl : ClassDecl) (base : Expr) {v v' : Value} (hv : v.Matches p v') :
    Matched region p here here' (Eval.asBaseClass decl base v) (Eval.asBaseClass decl base v')
      fun q id id' => q.pairs (.class id) (.class id') := by
  refine (inspect fun q s s' hext hs => hs.asClass? (hv.mono hext)).bind
    fun q found found' _ hfound => ?_
  cases hfound with
  | none => exact .fail _ _
  | some hpair => exact .pure fun _ hext => hext.pairs hpair

theorem instanceAttribute? {id id' : InstanceId} (h : p.pairs (.instance id) (.instance id'))
    (name : String) :
    Matched region p here here' (Eval.instanceAttribute? id name)
      (Eval.instanceAttribute? id' name) fun q => Option.Rel (Attribute.Matches region q) :=
  updateStore fun _ _ _ hext hs => hs.attribute? (hext.pairs h) name

/-- The text of a value is the same. -/
theorem displayed {v v' : Value} (hv : v.Matches p v') (change : String → String) :
    Matched region p here here' (Eval.inspect fun s => change (s.display v))
      (Eval.inspect fun s => change (s.display v')) fun _ => Eq :=
  inspect fun _ _ _ hext hs => congrArg change (hs.display_eq (hv.mono hext))

theorem checkCall {callee callee' : Value} (h : callee.Matches p callee') (paren : Token)
    (given : Nat) :
    Matched region p here here' (Eval.checkCall callee paren given)
      (Eval.checkCall callee' paren given) Callable.Matches := by
  unfold Eval.checkCall
  cases h with
  | callable hc =>
    refine (inspect (P := fun _ => Eq) fun _ _ _ hext hs => hs.arity_eq (hc.mono hext)).andThen
      fun q expected hext => .ite Iff.rfl (.pure fun q' hext' => hc.mono (hext'.trans hext)) ?_
    exact (inspect (P := fun _ => Eq) fun _ _ _ hext' hs =>
      hs.displayCallable_eq (hc.mono (hext'.trans hext))).andThen fun _ _ _ => .fail _ _
  | nil => exact (displayed .nil id).andThen fun _ _ _ => .fail _ _
  | bool b => exact (displayed (.bool b) id).andThen fun _ _ _ => .fail _ _
  | int n => exact (displayed (.int n) id).andThen fun _ _ _ => .fail _ _
  | float x => exact (displayed (.float x) id).andThen fun _ _ _ => .fail _ _
  | str text => exact (displayed (.str text) id).andThen fun _ _ _ => .fail _ _
  | «instance» hpair => exact (displayed (.instance hpair) id).andThen fun _ _ _ => .fail _ _

theorem initializedObject {c c' : Closure} (hc : c.Matches region p 0 c')
    (hinitializer : c.isInitializer = true) :
    Matched region p here here' (Eval.initializedObject c) (Eval.initializedObject c')
      Value.Matches :=
  .ask fun q m m' hext hm => by
    have hdeep : q.Deep 0 c.frame c'.frame :=
      ⟨hext.pairs (hc.receiver rfl hinitializer), Nat.zero_le _⟩
    rw [← hc.decl]
    exact hm.store.getAt hdeep (Nat.le_refl _) _

end Matched

/-! ## Evaluation -/

/-- How code is evaluated on stores that match with one bound on the depth. -/
structure RunsMatched (region : Region) (lookup lookup' : Lookup) (fuel : Nat) : Prop where
  evaluate : ∀ {e ribs p here here'}, e.Fits region ribs →
    p.Around (region.inside ribs) here here' →
    Matched region p here here' (Eval.evaluate fuel lookup e) (Eval.evaluate fuel lookup' e)
      Value.Matches
  evaluateEach : ∀ {es ribs p here here'}, EachFits region es ribs →
    p.Around (region.inside ribs) here here' →
    Matched region p here here' (Eval.evaluateEach fuel lookup es)
      (Eval.evaluateEach fuel lookup' es) fun q => List.Forall₂ (Value.Matches q)
  attributeValue : ∀ {found found' p here here'} name, found.Matches region p found' →
    Matched region p here here' (Eval.attributeValue fuel lookup found name)
      (Eval.attributeValue fuel lookup' found' name) Value.Matches
  invoke : ∀ {callee callee' args args' p here here'} paren, callee.Matches p callee' →
    List.Forall₂ (Value.Matches p) args args' →
    Matched region p here here' (Eval.invoke fuel lookup callee paren args)
      (Eval.invoke fuel lookup' callee' paren args') Value.Matches
  construct : ∀ {object object' args args' p here here'} paren,
    p.pairs (.instance object) (.instance object') → List.Forall₂ (Value.Matches p) args args' →
    Matched region p here here' (Eval.construct fuel lookup object args paren)
      (Eval.construct fuel lookup' object' args' paren) fun _ => Eq
  callFunction : ∀ {c c' args args' p here here'} place, c.Matches region p 0 c' →
    List.Forall₂ (Value.Matches p) args args' →
    Matched region p here here' (Eval.callFunction fuel lookup c args place)
      (Eval.callFunction fuel lookup' c' args' place) Value.Matches
  callBody : ∀ {outer outer' params body args args' ribs p here here'} place,
    FunctionFits region params body ribs → p.Around (region.inside ribs) outer outer' →
    List.Forall₂ (Value.Matches p) args args' →
    Matched region p here here' (Eval.callBody fuel lookup outer params body args place)
      (Eval.callBody fuel lookup' outer' params body args' place) Signal.Matches
  execute : ∀ {s ribs p here here'}, s.Fits region ribs → p.Deep (region.inside ribs) here here' →
    Matched region p here here' (Eval.execute fuel lookup s) (Eval.execute fuel lookup' s)
      Signal.Matches
  executeEach : ∀ {ss ribs p here here'}, BodyFits region ss ribs →
    p.Deep (region.inside ribs) here here' →
    Matched region p here here' (Eval.executeEach fuel lookup ss)
      (Eval.executeEach fuel lookup' ss) Signal.Matches
  whileLoop : ∀ {condition body ribs p here here'}, condition.Fits region ribs →
    body.Fits region ribs → p.Deep (region.inside ribs) here here' →
    Matched region p here here' (Eval.whileLoop fuel lookup condition body)
      (Eval.whileLoop fuel lookup' condition body) Signal.Matches
  forLoop : ∀ {condition update body ribs p here here'}, OptionalFits region condition ribs →
    OptionalFits region update ribs → body.Fits region ribs →
    p.Deep (region.inside ribs) here here' →
    Matched region p here here' (Eval.forLoop fuel lookup condition update body)
      (Eval.forLoop fuel lookup' condition update body) Signal.Matches

namespace RunsMatched

open Matched

variable {region : Region} {lookup lookup' : Lookup} {fuel : Nat} {ribs : List Rib} {p : Matching}
  {here here' : FrameId}

theorem zero : RunsMatched region lookup lookup' 0 where
  evaluate _ _ := by rw [Eval.evaluate, Eval.evaluate]; exact .outOfFuel
  evaluateEach _ _ := by rw [Eval.evaluateEach, Eval.evaluateEach]; exact .outOfFuel
  attributeValue _ _ := by rw [Eval.attributeValue, Eval.attributeValue]; exact .outOfFuel
  invoke _ _ _ := by rw [Eval.invoke, Eval.invoke]; exact .outOfFuel
  construct _ _ _ := by rw [Eval.construct, Eval.construct]; exact .outOfFuel
  callFunction _ _ _ := by rw [Eval.callFunction, Eval.callFunction]; exact .outOfFuel
  callBody _ _ _ _ := by rw [Eval.callBody, Eval.callBody]; exact .outOfFuel
  execute _ _ := by rw [Eval.execute, Eval.execute]; exact .outOfFuel
  executeEach _ _ := by rw [Eval.executeEach, Eval.executeEach]; exact .outOfFuel
  whileLoop _ _ _ := by rw [Eval.whileLoop, Eval.whileLoop]; exact .outOfFuel
  forLoop _ _ _ _ := by rw [Eval.forLoop, Eval.forLoop]; exact .outOfFuel

/-! ### Expressions -/

theorem evaluate_get (ih : RunsMatched region lookup lookup' fuel) {object : Expr} {name : Token}
    (hfits : (Expr.get object name).Fits region ribs)
    (haround : p.Around (region.inside ribs) here here') :
    Matched region p here here' (Eval.evaluate (fuel + 1) lookup (.get object name))
      (Eval.evaluate (fuel + 1) lookup' (.get object name)) Value.Matches := by
  have hobject : object.Fits region ribs := hfits
  rw [Eval.evaluate, Eval.evaluate]
  refine (ih.evaluate hobject haround).bind fun q v v' hext hv => ?_
  cases hv with
  | «instance» hpair =>
    refine (instanceAttribute? hpair name.lexeme).bind fun q' found found' hext' hfound => ?_
    cases hfound with
    | some hattribute => exact ih.attributeValue name hattribute
    | none =>
      exact (inspect (P := fun _ => Eq) fun _ _ _ hext'' hs =>
        hs.instanceClassName_eq ((hext''.trans hext').pairs hpair)).andThen fun _ _ _ => .fail _ _
  | callable hc =>
    cases hc with
    | «class» hpair =>
      refine (inspect fun _ _ _ hext' hs =>
        hs.classAttribute? (hext'.pairs hpair) name.lexeme).bind
        fun q' found found' hext' hfound => ?_
      cases hfound with
      | some hv => exact .pure fun _ hext'' => hv.mono hext''
      | none =>
        exact (inspect (P := fun _ => Eq) fun _ _ _ hext'' hs =>
          hs.className_eq ((hext''.trans hext').pairs hpair)).andThen fun _ _ _ => .fail _ _
    | function | arrow => exact .fail _ _
  | nil | bool | int | float | str => exact .fail _ _

theorem evaluate_set (ih : RunsMatched region lookup lookup' fuel) {object value : Expr}
    {name : Token} (hfits : (Expr.set object name value).Fits region ribs)
    (haround : p.Around (region.inside ribs) here here') :
    Matched region p here here' (Eval.evaluate (fuel + 1) lookup (.set object name value))
      (Eval.evaluate (fuel + 1) lookup' (.set object name value)) Value.Matches := by
  obtain ⟨ho, hv⟩ := hfits.set
  rw [Eval.evaluate, Eval.evaluate]
  refine (ih.evaluate ho haround).bind fun q object object' hext hobject => ?_
  cases hobject with
  | «instance» hpair =>
    refine (ih.evaluate hv (haround.mono hext)).bind fun q' v v' hext' hv => ?_
    exact (changeStore fun _ _ _ hext'' hs => hs.setInstanceField
      ((hext''.trans hext').pairs hpair) name.lexeme (hv.mono hext'')).andThen
        fun _ _ hext'' => .pure fun _ hlast => hv.mono (hlast.trans hext'')
  | callable hc =>
    cases hc with
    | «class» hpair =>
      refine (ih.evaluate hv (haround.mono hext)).bind fun q' v v' hext' hv => ?_
      exact (changeStore fun _ _ _ hext'' hs => hs.setClassField
        ((hext''.trans hext').pairs hpair) name.lexeme (hv.mono hext'')).andThen
          fun _ _ hext'' => .pure fun _ hlast => hv.mono (hlast.trans hext'')
    | function | arrow => exact .fail _ _
  | nil | bool | int | float | str => exact .fail _ _

theorem evaluate_super (ih : RunsMatched region lookup lookup' fuel)
    (hlookup : Enclosed region lookup lookup') {id : NodeId} {keyword method : Token}
    (hfits : (Expr.super id keyword method).Fits region ribs)
    (haround : p.Around (region.inside ribs) here here') :
    Matched region p here here' (Eval.evaluate (fuel + 1) lookup (.super id keyword method))
      (Eval.evaluate (fuel + 1) lookup' (.super id keyword method)) Value.Matches := by
  rw [Eval.evaluate, Eval.evaluate]
  refine (readName hlookup (hfits.node fun _ _ => rfl) haround).bind fun q v v' hext hv => ?_
  cases hv with
  | «instance» hpair =>
    refine (instanceAttribute? hpair method.lexeme).bind fun q' found found' hext' hfound => ?_
    cases hfound with
    | some hattribute => exact ih.attributeValue method hattribute
    | none =>
      exact (inspect (P := fun _ => Eq) fun _ _ _ hext'' hs =>
        hs.instanceClassName_eq ((hext''.trans hext').pairs hpair)).andThen fun _ _ _ => .fail _ _
  | nil | bool | int | float | str | callable => exact .fail _ _

theorem evaluate_succ (ih : RunsMatched region lookup lookup' fuel)
    (hlookup : Enclosed region lookup lookup') {e : Expr} (hfits : e.Fits region ribs)
    (haround : p.Around (region.inside ribs) here here') :
    Matched region p here here' (Eval.evaluate (fuel + 1) lookup e)
      (Eval.evaluate (fuel + 1) lookup' e) Value.Matches := by
  cases e with
  | literal value =>
    rw [Eval.evaluate, Eval.evaluate]
    exact .pure fun _ _ => .of_scalar (Eval.scalar_literalValue value)
  | grouping inner =>
    rw [Eval.evaluate, Eval.evaluate]
    exact ih.evaluate hfits haround
  | unary operator right =>
    have hright : right.Fits region ribs := hfits
    rw [Eval.evaluate, Eval.evaluate]
    refine (ih.evaluate hright haround).bind fun q v v' hext hv => ?_
    cases UnaryOperator.ofKind? operator.kind with
    | none => exact .fail _ _
    | some op =>
      dsimp only
      rw [hv.applyUnary_eq]
      exact .computed fun _ => Value.scalar_applyUnary
  | binary left operator right =>
    obtain ⟨hl, hr⟩ := hfits.binary
    rw [Eval.evaluate, Eval.evaluate]
    refine (ih.evaluate hl haround).bind fun q v v' hext hv =>
      (ih.evaluate hr (haround.mono hext)).bind fun q' w w' hext' hw =>
        .ite Iff.rfl (.pure fun _ hext'' => hw.mono hext'') ?_
    rw [(hv.mono hext').applyBinary_eq hw]
    exact .computed fun _ => Value.scalar_applyBinary
  | logical left operator right =>
    obtain ⟨hl, hr⟩ := hfits.logical
    rw [Eval.evaluate, Eval.evaluate]
    refine (ih.evaluate hl haround).bind fun q v v' hext hv =>
      .ite ?_ (.pure fun _ hext' => hv.mono hext') (ih.evaluate hr (haround.mono hext))
    rw [Eval.decides, Eval.decides, hv.isTruthy_eq]
  | ternary condition question thenBranch elseBranch =>
    obtain ⟨hc, ht, he⟩ := hfits.ternary
    rw [Eval.evaluate, Eval.evaluate]
    exact (ih.evaluate hc haround).bind fun q v v' hext hv =>
      .ite (hv.isTruthy_eq ▸ Iff.rfl) (ih.evaluate ht (haround.mono hext))
        (ih.evaluate he (haround.mono hext))
  | «variable» id name =>
    rw [Eval.evaluate, Eval.evaluate]
    exact readName hlookup (hfits.node fun _ _ => rfl) haround
  | assign id name value =>
    obtain ⟨hv, hnode⟩ := hfits.assign
    rw [Eval.evaluate, Eval.evaluate]
    exact (ih.evaluate hv haround).bind fun q v v' hext hv =>
      (writeName hlookup hnode (haround.mono hext) hv).andThen fun _ _ hext' =>
        .pure fun _ hext'' => hv.mono (hext''.trans hext')
  | call callee paren arguments =>
    obtain ⟨hc, hargs⟩ := hfits.call
    rw [Eval.evaluate, Eval.evaluate]
    exact (ih.evaluate hc haround).bind fun q v v' hext hv =>
      (ih.evaluateEach hargs (haround.mono hext)).bind fun q' args args' hext' hargs =>
        ih.invoke paren (hv.mono hext') hargs
  | get object name => exact ih.evaluate_get hfits haround
  | set object name value => exact ih.evaluate_set hfits haround
  | this id keyword =>
    rw [Eval.evaluate, Eval.evaluate]
    exact readName hlookup (hfits.node fun _ _ => rfl) haround
  | super id keyword method => exact ih.evaluate_super hlookup hfits haround
  | arrow decl =>
    rw [Eval.evaluate, Eval.evaluate]
    refine get.bind fun q m m' hext hm => .bind
      (P := fun q id id' => q.pairs (.arrow id) (.arrow id')) (.updateStore ?_) ?_
    · intro q' s s' hext' hs
      rw [hm.here, hm.here']
      exact hs.addArrow ⟨rfl, ribs, hfits.arrow, haround.mono (hext'.trans hext)⟩
    · exact fun q' id id' _ hpair => .pure fun _ hext' => .callable (.arrow (hext'.pairs hpair))

theorem evaluateEach_succ (ih : RunsMatched region lookup lookup' fuel) {es : List Expr}
    (hfits : EachFits region es ribs) (haround : p.Around (region.inside ribs) here here') :
    Matched region p here here' (Eval.evaluateEach (fuel + 1) lookup es)
      (Eval.evaluateEach (fuel + 1) lookup' es) fun q => List.Forall₂ (Value.Matches q) := by
  cases es with rw [Eval.evaluateEach, Eval.evaluateEach]
  | nil => exact .pure fun _ _ => .nil
  | cons e es =>
    obtain ⟨he, hes⟩ := hfits.cons
    exact (ih.evaluate he haround).bind fun q v v' hext hv =>
      (ih.evaluateEach hes (haround.mono hext)).bind fun q' vs vs' hext' hvs =>
        .pure fun _ hext'' => .cons (hv.mono (hext''.trans hext'))
          (hvs.imp fun _ _ hw => hw.mono hext'')

/-! ### Calls -/

theorem attributeValue_succ (ih : RunsMatched region lookup lookup' fuel) {found found' : Attribute}
    (name : Token) (h : found.Matches region p found') :
    Matched region p here here' (Eval.attributeValue (fuel + 1) lookup found name)
      (Eval.attributeValue (fuel + 1) lookup' found' name) Value.Matches := by
  cases h with rw [Eval.attributeValue, Eval.attributeValue]
  | value hv => exact .pure fun _ hext => hv.mono hext
  | getter hc => exact ih.callFunction name hc .nil

theorem invoke_succ (ih : RunsMatched region lookup lookup' fuel) {callee callee' : Value}
    {args args' : List Value} (paren : Token) (h : callee.Matches p callee')
    (hargs : List.Forall₂ (Value.Matches p) args args') :
    Matched region p here here' (Eval.invoke (fuel + 1) lookup callee paren args)
      (Eval.invoke (fuel + 1) lookup' callee' paren args') Value.Matches := by
  have hmono {q : Matching} (hext : q.Extends p) : List.Forall₂ (Value.Matches q) args args' :=
    hargs.imp fun _ _ hv => hv.mono hext
  rw [Eval.invoke, Eval.invoke, hargs.length_eq]
  refine (checkCall h paren args'.length).bind fun q c c' hext hc => ?_
  cases hc with
  | function hpair =>
    refine (inspect fun _ _ _ hext' hs => hs.function? (hext'.pairs hpair)).bind
      fun q' found found' hext' hfound => ?_
    cases hfound with
    | none => exact .pure fun _ _ => .nil
    | some hc => exact ih.callFunction paren hc (hmono (hext'.trans hext))
  | arrow hpair =>
    refine (inspect fun _ _ _ hext' hs => hs.arrow? (hext'.pairs hpair)).bind
      fun q' found found' hext' hfound => ?_
    cases hfound with
    | none => exact .pure fun _ _ => .nil
    | @some c c' hc =>
      obtain ⟨decl, frame⟩ := c
      obtain ⟨decl', frame'⟩ := c'
      obtain ⟨rfl, ribs, hfits, haround⟩ := hc
      exact (ih.callBody paren hfits haround (hmono (hext'.trans hext))).bind
        fun _ _ _ _ hsignal => .pure fun _ hext'' => hsignal.callValue.mono hext''
  | «class» hpair =>
    refine (inspect fun _ _ _ hext' hs => hs.class? (hext'.pairs hpair)).bind
      fun q' found found' hext' hfound => ?_
    cases hfound with
    | none => exact .pure fun _ _ => .nil
    | some _ =>
      refine Matched.bind (.updateStore fun _ _ _ hext'' hs =>
        hs.instantiate ((hext''.trans hext').pairs hpair))
        fun q'' object object' hext'' hobject => ?_
      exact (ih.construct paren hobject (hmono (hext''.trans (hext'.trans hext)))).andThen
        fun _ _ hlast => .pure fun _ hend => .instance ((hend.trans hlast).pairs hobject)

theorem construct_succ (ih : RunsMatched region lookup lookup' fuel) {object object' : InstanceId}
    {args args' : List Value} (paren : Token)
    (hobject : p.pairs (.instance object) (.instance object'))
    (hargs : List.Forall₂ (Value.Matches p) args args') :
    Matched region p here here' (Eval.construct (fuel + 1) lookup object args paren)
      (Eval.construct (fuel + 1) lookup' object' args' paren) fun _ => Eq := by
  rw [Eval.construct, Eval.construct]
  refine (inspect fun _ _ _ hext hs => hs.initializer? (hext.pairs hobject)).bind
    fun q found found' hext hfound => ?_
  cases hfound with
  | none => exact .pure fun _ _ => rfl
  | some hfound =>
    obtain ⟨hportion, hc⟩ := hfound
    refine Matched.bind (.updateStore fun _ _ _ hext' hs =>
      hs.bind (hc.mono hext') (hext'.pairs hportion)) fun q' bound bound' hext' hbound => ?_
    exact (ih.callFunction paren hbound
      (hargs.imp fun _ _ hv => hv.mono (hext'.trans hext))).discard

theorem callFunction_succ (ih : RunsMatched region lookup lookup' fuel) {c c' : Closure}
    {args args' : List Value} (place : Token) (hc : c.Matches region p 0 c')
    (hargs : List.Forall₂ (Value.Matches p) args args') :
    Matched region p here here' (Eval.callFunction (fuel + 1) lookup c args place)
      (Eval.callFunction (fuel + 1) lookup' c' args' place) Value.Matches := by
  obtain ⟨ribs, hfits, haround⟩ := hc.place
  rw [Eval.callFunction, Eval.callFunction, ← hc.decl]
  refine (ih.callBody place hfits haround hargs).bind fun q signal signal' hext hsignal => ?_
  rw [← hc.isInitializer]
  split
  · next hinitializer => exact initializedObject (hc.mono hext) hinitializer
  · exact .pure fun _ hext' => hsignal.callValue.mono hext'

theorem callBody_succ (ih : RunsMatched region lookup lookup' fuel) {outer outer' : FrameId}
    {params : List Token} {body : List Stmt} {args args' : List Value} (place : Token)
    (hfits : FunctionFits region params body ribs)
    (haround : p.Around (region.inside ribs) outer outer')
    (hargs : List.Forall₂ (Value.Matches p) args args') :
    Matched region p here here' (Eval.callBody (fuel + 1) lookup outer params body args place)
      (Eval.callBody (fuel + 1) lookup' outer' params body args' place) Signal.Matches := by
  rw [Eval.callBody, Eval.callBody]
  refine Matched.bind (.updateStore fun _ _ _ hext hs => hs.addFrame <|
    parameterFrame (hargs.imp fun _ _ hv => hv.mono hext) (haround.mono hext) params body)
    fun q frame frame' hext hdeep => ?_
  exact ((ih.executeEach hfits.body (hdeep.cons _)).within).counted place

/-! ### Statements -/

theorem execute_block (ih : RunsMatched region lookup lookup' fuel) {body : List Stmt}
    (hfits : (Stmt.block body).Fits region ribs) (hdeep : p.Deep (region.inside ribs) here here') :
    Matched region p here here' (Eval.execute (fuel + 1) lookup (.block body))
      (Eval.execute (fuel + 1) lookup' (.block body)) Signal.Matches := by
  rw [Eval.execute, Eval.execute]
  exact (openFrame hdeep.around _).bind fun q frame frame' hext hinner =>
    (ih.executeEach hfits.block (hinner.cons _)).within

theorem execute_ifElse (ih : RunsMatched region lookup lookup' fuel) {condition : Expr}
    {thenBranch : Stmt} {elseBranch : Option Stmt}
    (hfits : (Stmt.ifElse condition thenBranch elseBranch).Fits region ribs)
    (hdeep : p.Deep (region.inside ribs) here here') :
    Matched region p here here'
      (Eval.execute (fuel + 1) lookup (.ifElse condition thenBranch elseBranch))
      (Eval.execute (fuel + 1) lookup' (.ifElse condition thenBranch elseBranch))
      Signal.Matches := by
  obtain ⟨hc, ⟨ht, -⟩, he⟩ := hfits.ifElse
  cases elseBranch with rw [Eval.execute, Eval.execute]
  | none =>
    exact (ih.evaluate hc hdeep.around).bind fun q v v' hext hv => .ite (hv.isTruthy_eq ▸ Iff.rfl)
      (ih.execute ht (hdeep.mono hext)) (.pure fun _ _ => .completed)
  | some elseBranch =>
    exact (ih.evaluate hc hdeep.around).bind fun q v v' hext hv => .ite (hv.isTruthy_eq ▸ Iff.rfl)
      (ih.execute ht (hdeep.mono hext)) (ih.execute (he elseBranch rfl).1 (hdeep.mono hext))

theorem execute_for (ih : RunsMatched region lookup lookup' fuel) {initializer : Option Stmt}
    {condition update : Option Expr} {body : Stmt}
    (hfits : (Stmt.for initializer condition update body).Fits region ribs)
    (hdeep : p.Deep (region.inside ribs) here here') :
    Matched region p here here'
      (Eval.execute (fuel + 1) lookup (.for initializer condition update body))
      (Eval.execute (fuel + 1) lookup' (.for initializer condition update body))
      Signal.Matches := by
  obtain ⟨hi, hc, hu, hb, -⟩ := hfits.for
  rw [Eval.execute, Eval.execute]
  refine (openFrame hdeep.around _).bind fun q frame frame' hext hinner => .within ?_
  have hopened := hinner.cons (.bare (.clauses initializer condition update body))
  have hloop (q' : Matching) (hext' : q'.Extends q) : Matched region q' frame frame'
      (Eval.forLoop fuel lookup condition update body)
      (Eval.forLoop fuel lookup' condition update body) Signal.Matches := by
    refine ih.forLoop hc hu hb ?_
    rw [region.inside_growBranch]
    exact hopened.mono hext'
  cases initializer with
  | none => exact hloop q .refl
  | some initializer =>
    have hinitializer : initializer.Fits region _ := hi
    exact (ih.execute hinitializer hopened).discard.andThen fun q' _ hext' => hloop q' hext'

theorem execute_assert (ih : RunsMatched region lookup lookup' fuel) {keyword : Token}
    {condition : Expr} {message : Option Expr}
    (hfits : (Stmt.assert keyword condition message).Fits region ribs)
    (haround : p.Around (region.inside ribs) here here') :
    Matched region p here here'
      (Eval.execute (fuel + 1) lookup (.assert keyword condition message))
      (Eval.execute (fuel + 1) lookup' (.assert keyword condition message)) Signal.Matches := by
  obtain ⟨hc, hm⟩ := hfits.assert
  rw [Eval.execute, Eval.execute]
  refine (ih.evaluate hc haround).bind fun q v v' hext hv =>
    .ite (hv.isTruthy_eq ▸ Iff.rfl) (.pure fun _ _ => .completed) ?_
  cases message with
  | none => exact .fail _ _
  | some message =>
    have hmessage : message.Fits region ribs := hm
    exact (ih.evaluate hmessage (haround.mono hext)).bind fun q' w w' _ hw =>
      (displayed hw id).andThen fun _ _ _ => .fail _ _

/-- The base of a class is a name, which is evaluated with any bound but none at all. -/
theorem evaluate_variable (hlookup : Enclosed region lookup lookup') {id : NodeId} {name : Token}
    (hnode : NodeFits region id name ribs) (haround : p.Around (region.inside ribs) here here') :
    Matched region p here here' (Eval.evaluate fuel lookup (.variable id name))
      (Eval.evaluate fuel lookup' (.variable id name)) Value.Matches := by
  cases fuel with
  | zero =>
    rw [Eval.evaluate, Eval.evaluate]
    exact .outOfFuel
  | succ fuel =>
    rw [Eval.evaluate, Eval.evaluate]
    exact readName hlookup hnode haround

theorem execute_class (hlookup : Enclosed region lookup lookup') {decl : ClassDecl}
    (hfits : (Stmt.class decl).Fits region ribs) (hdeep : p.Deep (region.inside ribs) here here') :
    Matched region p here here' (Eval.execute (fuel + 1) lookup (.class decl))
      (Eval.execute (fuel + 1) lookup' (.class decl)) Signal.Matches := by
  have hdeclare {q : Matching} (hext : q.Extends p) {base base' : Option ClassId}
      (hbase : Option.Rel (fun b b' => q.pairs (.class b) (.class b')) base base') :
      Matched region q here here' (Eval.declareClass decl base >>= fun _ => pure Signal.completed)
        (Eval.declareClass decl base' >>= fun _ => pure Signal.completed) Signal.Matches :=
    (declareClass hfits.class (hdeep.mono hext) hbase).andThen fun _ _ _ =>
      .pure fun _ _ => .completed
  rw [Eval.execute, Eval.execute]
  cases hbase : decl.base with
  | none => exact hdeclare .refl .none
  | some base =>
    obtain ⟨id, name, rfl, hnode⟩ := hfits.class.base base hbase
    simp only [map_eq_pure_bind, bind_assoc]
    exact (evaluate_variable hlookup hnode hdeep.around).bind fun q v v' hext hv =>
      (asBaseClass decl _ hv).bind fun q' b b' hext' hpair =>
        hdeclare (hext'.trans hext) (.some hpair)

theorem execute_succ (ih : RunsMatched region lookup lookup' fuel)
    (hlookup : Enclosed region lookup lookup') {s : Stmt} (hfits : s.Fits region ribs)
    (hdeep : p.Deep (region.inside ribs) here here') :
    Matched region p here here' (Eval.execute (fuel + 1) lookup s)
      (Eval.execute (fuel + 1) lookup' s) Signal.Matches := by
  have haround := hdeep.around
  cases s with
  | expression value =>
    have hvalue : value.Fits region ribs := hfits
    rw [Eval.execute, Eval.execute]
    exact (ih.evaluate hvalue haround).discard.andThen fun _ _ _ => .pure fun _ _ => .completed
  | print value =>
    have hvalue : value.Fits region ribs := hfits
    rw [Eval.execute, Eval.execute]
    exact (ih.evaluate hvalue haround).bind fun q v v' _ hv => (displayed hv id).andThen
      fun q text _ => (write text).andThen fun _ _ _ => .pure fun _ _ => .completed
  | println value =>
    have hvalue : value.Fits region ribs := hfits
    rw [Eval.execute, Eval.execute]
    exact (ih.evaluate hvalue haround).bind fun q v v' _ hv => (displayed hv (· ++ "\n")).andThen
      fun q text _ => (write text).andThen fun _ _ _ => .pure fun _ _ => .completed
  | var name initializer =>
    cases initializer with
    | none =>
      rw [Eval.execute, Eval.execute]
      exact (declare hdeep.pair _ .none false).andThen fun _ _ _ => .pure fun _ _ => .completed
    | some initializer =>
      have hinside : p.Around (region.inside (beginning name .variable ribs)) here here' := by
        rw [region.inside_beginning]
        exact haround
      rw [Eval.execute, Eval.execute]
      exact (ih.evaluate hfits.var hinside).bind fun q v v' hext hv =>
        (declare (hext.pairs hdeep.pair) _ (.some hv) false).andThen fun _ _ _ =>
          .pure fun _ _ => .completed
  | const name initializer =>
    have hinside : p.Around (region.inside (beginning name .constant ribs)) here here' := by
      rw [region.inside_beginning]
      exact haround
    rw [Eval.execute, Eval.execute]
    exact (ih.evaluate hfits.const hinside).bind fun q v v' hext hv =>
      (declare (hext.pairs hdeep.pair) _ (.some hv) true).andThen fun _ _ _ =>
        .pure fun _ _ => .completed
  | block body => exact ih.execute_block hfits hdeep
  | ifElse condition thenBranch elseBranch => exact ih.execute_ifElse hfits hdeep
  | «while» condition body =>
    obtain ⟨hc, hb, -⟩ := hfits.while
    rw [Eval.execute, Eval.execute]
    exact ih.whileLoop hc hb hdeep
  | «for» initializer condition update body => exact ih.execute_for hfits hdeep
  | «break» keyword =>
    rw [Eval.execute, Eval.execute]
    exact .pure fun _ _ => .broke
  | «continue» keyword =>
    rw [Eval.execute, Eval.execute]
    exact .pure fun _ _ => .continued
  | assert keyword condition message => exact ih.execute_assert hfits haround
  | function decl =>
    rw [Eval.execute, Eval.execute]
    exact (declareFunction hfits.function hdeep).andThen fun _ _ _ => .pure fun _ _ => .completed
  | «return» keyword value =>
    cases value with rw [Eval.execute, Eval.execute]
    | none => exact .pure fun _ _ => .returned .nil
    | some value =>
      exact (ih.evaluate hfits.return haround).bind fun q v v' _ hv =>
        .pure fun _ hext => .returned (hv.mono hext)
  | «class» decl => exact execute_class hlookup hfits hdeep

theorem executeEach_succ (ih : RunsMatched region lookup lookup' fuel) {ss : List Stmt}
    (hfits : BodyFits region ss ribs) (hdeep : p.Deep (region.inside ribs) here here') :
    Matched region p here here' (Eval.executeEach (fuel + 1) lookup ss)
      (Eval.executeEach (fuel + 1) lookup' ss) Signal.Matches := by
  cases ss with rw [Eval.executeEach, Eval.executeEach]
  | nil => exact .pure fun _ _ => .completed
  | cons s ss =>
    obtain ⟨hs, hss⟩ := hfits.cons
    refine (ih.execute hs hdeep).bind fun q signal signal' hext hsignal => ?_
    cases hsignal with
    | completed =>
      refine ih.executeEach hss ?_
      rw [region.inside_grow]
      exact hdeep.mono hext
    | broke => exact .pure fun _ _ => .broke
    | continued => exact .pure fun _ _ => .continued
    | returned hv => exact .pure fun _ hext' => .returned (hv.mono hext')

theorem whileLoop_succ (ih : RunsMatched region lookup lookup' fuel) {condition : Expr}
    {body : Stmt} (hc : condition.Fits region ribs) (hb : body.Fits region ribs)
    (hdeep : p.Deep (region.inside ribs) here here') :
    Matched region p here here' (Eval.whileLoop (fuel + 1) lookup condition body)
      (Eval.whileLoop (fuel + 1) lookup' condition body) Signal.Matches := by
  rw [Eval.whileLoop, Eval.whileLoop]
  refine (ih.evaluate hc hdeep.around).bind fun q v v' hext hv =>
    .ite (hv.isTruthy_eq ▸ Iff.rfl) ?_ (.pure fun _ _ => .completed)
  refine (ih.execute hb (hdeep.mono hext)).bind fun q' signal signal' hext' hsignal => ?_
  cases hsignal with
  | broke => exact .pure fun _ _ => .completed
  | returned hv => exact .pure fun _ hext'' => .returned (hv.mono hext'')
  | completed | continued => exact ih.whileLoop hc hb (hdeep.mono (hext'.trans hext))

theorem goesOn (ih : RunsMatched region lookup lookup' fuel) {condition : Option Expr}
    (hc : OptionalFits region condition ribs) (hdeep : p.Deep (region.inside ribs) here here') :
    Matched region p here here' (Eval.goesOn fuel lookup condition)
      (Eval.goesOn fuel lookup' condition) fun _ => Eq := by
  cases condition with
  | none => exact .pure fun _ _ => rfl
  | some condition =>
    have hcondition : condition.Fits region ribs := hc
    exact (ih.evaluate hcondition hdeep.around).map (fun _ _ _ hv => hv.isTruthy_eq) fun _ heq => heq

theorem step (ih : RunsMatched region lookup lookup' fuel) {update : Option Expr}
    (hu : OptionalFits region update ribs) (hdeep : p.Deep (region.inside ribs) here here') :
    Matched region p here here' (Eval.step fuel lookup update) (Eval.step fuel lookup' update)
      fun _ => Eq := by
  cases update with
  | none => exact .pure fun _ _ => rfl
  | some update =>
    have hupdate : update.Fits region ribs := hu
    exact (ih.evaluate hupdate hdeep.around).discard

theorem forLoop_succ (ih : RunsMatched region lookup lookup' fuel) {condition update : Option Expr}
    {body : Stmt} (hc : OptionalFits region condition ribs) (hu : OptionalFits region update ribs)
    (hb : body.Fits region ribs) (hdeep : p.Deep (region.inside ribs) here here') :
    Matched region p here here' (Eval.forLoop (fuel + 1) lookup condition update body)
      (Eval.forLoop (fuel + 1) lookup' condition update body) Signal.Matches := by
  rw [Eval.forLoop_eq, Eval.forLoop_eq]
  refine (ih.goesOn hc hdeep).andThen fun q goesOn hext => .ite Iff.rfl ?_ (.pure fun _ _ => .completed)
  refine (ih.execute hb (hdeep.mono hext)).bind fun q' signal signal' hext' hsignal => ?_
  have hround := hdeep.mono (hext'.trans hext)
  cases hsignal with
  | broke => exact .pure fun _ _ => .completed
  | returned hv => exact .pure fun _ hext'' => .returned (hv.mono hext'')
  | completed | continued =>
    exact (ih.step hu hround).andThen fun _ _ hext'' => ih.forLoop hc hu hb (hround.mono hext'')

end RunsMatched

/-- Enclosed code runs alike on stores that match, however deep its evaluation goes. -/
theorem runsMatched {region : Region} {lookup lookup' : Lookup}
    (hlookup : Enclosed region lookup lookup') (fuel : Nat) :
    RunsMatched region lookup lookup' fuel := by
  induction fuel with
  | zero => exact .zero
  | succ fuel ih =>
    exact
      { evaluate := ih.evaluate_succ hlookup
        evaluateEach := ih.evaluateEach_succ
        attributeValue := ih.attributeValue_succ
        invoke := ih.invoke_succ
        construct := ih.construct_succ
        callFunction := ih.callFunction_succ
        callBody := ih.callBody_succ
        execute := ih.execute_succ hlookup
        executeEach := ih.executeEach_succ
        whileLoop := ih.whileLoop_succ
        forLoop := ih.forLoop_succ }

end LoxLang
