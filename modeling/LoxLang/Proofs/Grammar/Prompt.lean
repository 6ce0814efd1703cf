import LoxLang.Proofs.Grammar.RoundTrip
import LoxLang.Proofs.Grammar.Rounds
import LoxLang.Proofs.Grammar.Verdict

/-!
# Parsing at a prompt

A parse at a prompt gives what a parse of a script gives, where that one goes well
(`Parse.program_interactive`). Beyond that it takes a single expression with no semicolon behind it
(`Parse.program_of_accepted`). Where both attempts at a declaration fail, the second one leaves no
trace: only numbers are used up (`Tape.interactiveDeclaration_refused`).
-/

namespace LoxLang

namespace Parse

variable {fuel count : Nat} {s : ParseState} {tokens : List Token}

/-! ## Scripts -/

/-- Without a fault no declaration is tried again. -/
theorem declarations_interactive
    (hfailed : (declarations (item false fuel) count s).2.1.failed = false)
    (hfinished : (declarations (item false fuel) count s).2.2 = true) :
    declarations (item true fuel) count s = declarations (item false fuel) count s := by
  induction count generalizing s with
  | zero => rfl
  | succ count ih =>
    unfold declarations at hfailed hfinished ⊢
    split
    · rfl
    · next hnot =>
      rw [if_neg hnot] at hfailed hfinished
      cases hrun : item false fuel s with
      | ok stmt after =>
        have hagain : item true fuel s = .ok stmt after := (Attempted.declared hrun).eq
        rw [hrun] at hfailed hfinished
        rw [hagain]
        dsimp only
        rw [ih hfailed hfinished]
      | error stop after =>
        rw [hrun] at hfailed hfinished
        cases stop with
        | error error =>
          -- A fault that is noted is never taken back, so it would show at the end.
          have hnoted := (declarations_wellFormed (item_yields false fuel) count
            (after.note error).synchronize).1 (ParseState.failed_synchronize _)
          cases hnoted.symm.trans hfailed
        | outOfFuel => cases hfinished

/-- A script that is accepted is read the same way at a prompt. -/
theorem program_interactive {firstId : NodeId} {statements : List Stmt}
    (h : (program false firstId tokens).statements = some statements) :
    program true firstId tokens = program false firstId tokens := by
  have hfinished := program_finished false firstId tokens
  unfold program at h hfinished ⊢
  dsimp only at h hfinished ⊢
  split at h
  · cases h
  · next hfailed =>
    rw [hfinished, Bool.not_true, Bool.or_false, Bool.not_eq_true] at hfailed
    rw [declarations_interactive hfailed hfinished]

/-! ## Single expressions -/

/-- The tokens form one expression, which is accepted with nothing behind it. -/
def Accepted (tokens : List Token) (e : Expr) : Prop :=
  ∃ fuel firstId after,
    exprAt fuel .comma { last := none, rest := tokens, nextId := firstId } = .ok e after ∧
      after.errors = [] ∧ after.atEnd = true

/-- A state where a parse of the tokens may begin. -/
structure AtStart (tokens : List Token) (s : ParseState) : Prop where
  rest : s.rest = tokens
  last : s.last = none
  errors : s.errors = []
  failed : s.failed = false

theorem Accepted.not_bars {e : Expr} (h : Accepted tokens e) (hs : s.rest = tokens) :
    ¬Bars s := by
  obtain ⟨fuel, firstId, after, hrun, -⟩ := h
  refine fun hbars => exprAt_of_bars (fun t ht => hbars t ?_) _ _ _ _ hrun
  rw [ParseState.next?, hs]
  exact ht

theorem Accepted.atEnd {e : Expr} (h : Accepted tokens e) (hs : s.rest = tokens) :
    s.atEnd = false := by
  rw [ParseState.atEnd, Option.isNone_eq_false_iff, Option.isSome_iff_ne_none]
  exact fun hnone => h.not_bars hs fun t ht => by cases hnone.symm.trans ht

/-- The expression is read again, whatever the numbers and with any bound that is large enough. -/
theorem Accepted.exprAt {e : Expr} (h : Accepted tokens e) (hs : AtStart tokens s)
    (hfuel : 20 * tokens.length + 13 ≤ fuel) : ∃ e' after,
    Parse.exprAt fuel .comma s = .ok e' after ∧ e'.Alike anyhow e ∧ after.next? = none ∧
      after.errors = [] ∧ after.failed = false := by
  obtain ⟨fuel', firstId, after, hrun, herrors, hatEnd⟩ := h
  have hbeside : Beside _ s { last := none, rest := tokens, nextId := firstId } :=
    beside_anyhow hs.rest.symm hs.last.symm
  have hends := ((rulesPair _ fuel fuel').exprAt .comma).ends hbeside
  have htakes := (rulesTake fuel).expression .comma id _ hs.rest trivial
  rw [hrun] at hends
  generalize Parse.exprAt fuel .comma s = result at hends htakes
  cases hends with
  | stuck => exact absurd hfuel (htakes.2 rfl)
  | @ok e' _ mid _ beside alike =>
    -- Neither parse notes a fault that the other does not.
    obtain ⟨found, found', hnoted⟩ := beside.noted
    have hnone : found' = [] := by
      have hfound := hnoted.errors'
      rw [herrors] at hfound
      exact (List.append_eq_nil_iff.mp hfound.symm).2
    have hnothing : found = [] := by
      have halike := hnoted.alike
      rw [hnone] at halike
      exact List.forall₂_nil_right_iff.mp halike
    refine ⟨e', mid, rfl, alike, ?_, ?_, ?_⟩
    · rw [ParseState.atEnd, Option.isNone_iff_eq_none] at hatEnd
      cases beside.view with
      | token _ next' => cases hatEnd.symm.trans next'
      | done next _ => exact next
      | edge lenient => cases lenient
    · rw [hnoted.errors, hnothing]
      exact (List.append_nil _).trans hs.errors
    · rw [hnoted.failed, hnothing]
      exact (Bool.or_false _).trans hs.failed

/-- The first attempt misses the semicolon. -/
theorem Accepted.declaration {e : Expr} (h : Accepted tokens e) (hs : AtStart tokens s)
    (hfuel : 20 * tokens.length + 16 ≤ fuel) : ∃ error failed,
    Parse.declaration fuel false s = .error (.error error) failed ∧ failed.failed = false := by
  obtain ⟨fuel, rfl⟩ := Nat.exists_eq_add_of_le' (show 3 ≤ fuel by omega)
  obtain ⟨e', mid, hrun, -, hnext, -, hfailed⟩ :=
    h.exprAt hs (show 20 * tokens.length + 13 ≤ fuel by omega)
  obtain ⟨error, hmissed⟩ : ∃ error,
      expect (·.isSymbol .semicolon) "';' after expression" mid = .error (.error error) mid := by
    rw [expect, bind_of_ok (accept?_of_none hnext)]
    exact ⟨_, rfl⟩
  refine ⟨error, mid, ?_, hfailed⟩
  rw [(bars_or_expression s false).resolve_left (h.not_bars hs.rest) (fuel + 1),
    expressionStatement, bind_of_ok hrun]
  exact bind_of_error (bind_of_error hmissed)

/-- The second attempt takes the expression as it is. -/
theorem Accepted.interactiveDeclaration {e : Expr} (h : Accepted tokens e) (hs : AtStart tokens s)
    (hfuel : 20 * tokens.length + 16 ≤ fuel) : ∃ e' after,
    Parse.interactiveDeclaration fuel s = .ok (.println e') after ∧ e'.Alike anyhow e ∧
      after.next? = none ∧ after.errors = [] ∧ after.failed = false := by
  obtain ⟨error, failed, hfirst, hfailed⟩ := h.declaration hs hfuel
  obtain ⟨e', after, hrun, halike, hnext, herrors, hclean⟩ :=
    h.exprAt (s := again s failed) ⟨hs.rest, hs.last, hs.errors, hfailed⟩
      (show 20 * tokens.length + 13 ≤ fuel by omega)
  have hsecond : expressionAgain fuel (again s failed) = .ok (.println e') after := by
    rw [expressionAgain, bind_of_ok hrun, Functor.discard, Functor.mapConst]
    exact bind_of_ok (bind_of_ok (bind_of_ok (accept?_of_none hnext)))
  exact ⟨e', after, (Attempted.printed hfirst hsecond).eq, halike, hnext, herrors, hclean⟩

/-- A single expression with no semicolon behind it is printed. -/
theorem program_of_accepted {firstId : NodeId} {e : Expr} (h : Accepted tokens e) : ∃ e',
    (program true firstId tokens).statements = some [.println e'] ∧
      (program true firstId tokens).errors = [] ∧ e'.Alike anyhow e := by
  obtain ⟨e', after, hrun, halike, hnext, herrors, hfailed⟩ :=
    h.interactiveDeclaration (s := { last := none, rest := tokens, nextId := firstId })
      ⟨rfl, rfl, rfl, rfl⟩
      (show 20 * tokens.length + 16 ≤ depthBound tokens by rw [depthBound]; omega)
  have hmore := h.atEnd (s := { last := none, rest := tokens, nextId := firstId }) rfl
  have hend : after.atEnd = true := by rw [ParseState.atEnd, hnext]; rfl
  have hprogram : declarations (item true (depthBound tokens)) tokens.length
      { last := none, rest := tokens, nextId := firstId } = ([.println e'], after, true) := by
    cases tokens with
    | nil => cases hmore
    | cons t rest =>
      have hitem : item true (depthBound (t :: rest))
          { last := none, rest := t :: rest, nextId := firstId } = .ok (.println e') after := hrun
      rw [List.length_cons, declarations, hmore, if_neg Bool.false_ne_true, hitem]
      dsimp only
      rw [declarations_of_atEnd hend]
  refine ⟨e', ?_, ?_, halike⟩
  · rw [program, hprogram]
    dsimp only
    rw [hfailed]
    rfl
  · rw [program, hprogram]
    exact herrors

/-- The rendering of an expression is accepted as it is. -/
theorem accepted_tokens {e : Expr} (h : e.StandsAt .comma) {last : Token}
    (hlast : last.kind = .eof) : ∃ e', Accepted (e.tokens ++ [last]) e' ∧ e.Same e' := by
  let start : ParseState := { last := none, rest := e.tokens ++ [last] }
  have hcloses : Closes .comma [last] := .of_none (by rw [hlast]; rfl) (by rw [hlast]; rfl)
  have hread := h.readable.whole (depthBound start.rest) [last] hcloses start rfl
  have htakes := (rulesTake (depthBound start.rest)).expression .comma id start rfl
  cases hrun : exprAt (depthBound start.rest) .comma start with
  | error stop after =>
    have hstuck := (hread.error trivial hrun).2
    exact absurd (by rw [depthBound]; omega) ((htakes.error trivial hrun).2 hstuck)
  | ok e' after =>
    obtain ⟨⟨herrors, -⟩, hrest, hsame⟩ := hread.ok trivial hrun
    refine ⟨e', ⟨_, _, after, hrun, herrors, ?_⟩, hsame⟩
    rw [ParseState.atEnd, ParseState.next?_of_rest hrest, hlast]
    rfl

end Parse

namespace Tape

/-! ## Two failed attempts -/

/-- Both attempts at a declaration fail. -/
structure Refused (tokens : List Token) (p : Tape) (error : GrammarError) (failed after : Tape) :
    Prop where
  first : declaration tokens (Parse.depthBound tokens) p = .error (.error error) failed
  second : ∃ other, expressionAgain tokens (Parse.depthBound tokens) (rewound p failed) =
    .error (.error other) after

variable {tokens : List Token} {p failed after : Tape} {error : GrammarError}
  {old : List GrammarError}

theorem Tracks.sits_of_error {α : Type} {depth : Nat} {act : Parse α} {read : Read α}
    (h : Tracks tokens depth old act read) (hp : p.Sits tokens depth old)
    (hrun : read p = .error (.error error) failed) : failed.Sits tokens depth old := by
  have hagree := h p hp
  generalize act (p.view tokens) = result at hagree
  rw [hrun] at hagree
  cases hagree with
  | error sits => exact sits

/-- Each attempt begins with the faults noted before, and takes none of them back. -/
theorem Refused.sits (h : Refused tokens p error failed after) (hend : Ended tokens)
    (hp : p.Sits tokens 0 old) : failed.Sits tokens 0 p.errors ∧ after.Sits tokens 0 p.errors := by
  obtain ⟨other, hsecond⟩ := h.second
  have hfailed := (rulesTrack hend (Parse.depthBound tokens)).declaration.sits_of_error
    ⟨hp.inside, hp.depth, List.prefix_refl _⟩ h.first
  have hrewound : Sits tokens 0 p.errors (rewound p failed) :=
    ⟨hp.inside, rfl, ⟨[], (List.append_nil _).trans (errors_rewound hfailed.noted).symm⟩⟩
  exact ⟨hfailed, (Tracks.expressionAgain hend _).sits_of_error hrewound hsecond⟩

/-- All but the numbers is as the first attempt left it. -/
theorem interactiveDeclaration_refused (h : Refused tokens p error failed after)
    (hend : Ended tokens) (hp : p.Sits tokens 0 old) :
    interactiveDeclaration tokens (Parse.depthBound tokens) p =
      .error (.error error) { failed with nextId := after.nextId } := by
  obtain ⟨hfailed, hafter⟩ := h.sits hend hp
  obtain ⟨other, hsecond⟩ := h.second
  have hrestored : restored p failed after = { failed with nextId := after.nextId } := by
    have herrors := errors_restored hfailed.noted hafter.noted
    replace herrors : _ ++ _ = failed.errors := herrors
    rw [restored, herrors, hafter.depth.trans hfailed.depth.symm]
  rw [interactiveDeclaration, h.first]
  dsimp only
  rw [hsecond, ← hrestored]

/-- The round ends as that of a script does. -/
theorem round_refused (h : Refused tokens p error failed after) (hend : Ended tokens)
    (hp : p.Sits tokens 0 old) (hmore : ∀ t ∈ tokens[p.position]?, t.kind.isEof = false) :
    ∃ place,
      round tokens false (Parse.depthBound tokens) p = .ok none (failed.left error place) ∧
      round tokens true (Parse.depthBound tokens) p =
        .ok none { failed.left error place with nextId := after.nextId } := by
  have hitem : item tokens false (Parse.depthBound tokens) p = .error (.error error) failed :=
    h.first
  obtain ⟨_, _, hrun, -⟩ | ⟨_, _, hrun, -, hfailed, hle⟩ :=
    item_at hend false hp (Nat.le_refl _)
  · cases hitem.symm.trans hrun
  cases hitem.symm.trans hrun
  have hbehind (hatEnd : (failed.view tokens).atEnd = true) : 0 < failed.position :=
    Nat.zero_lt_of_lt (lt_of_atEnd (hp.atEnd_of_more hmore) hle hatEnd)
  obtain ⟨place, hround, -, hresumes, -⟩ := round_of_error hend hitem hfailed hbehind
  have hitem' : item tokens true (Parse.depthBound tokens) p =
      .error (.error error) { failed with nextId := after.nextId } :=
    interactiveDeclaration_refused h hend hp
  obtain ⟨place', hround', -, hresumes', -⟩ := round_of_error hend hitem'
    ⟨hfailed.inside, hfailed.depth, hfailed.noted⟩ hbehind
  -- Both rounds leave the point where the first attempt failed, and this fixes the place.
  have hplace : place' = place :=
    Resumes.unique (p := failed) ⟨hresumes'.ended, hresumes'.skipped⟩ hresumes
  exact ⟨place, hround, hplace ▸ hround'⟩

/-- What a script gives, a prompt gives too. A single expression that is accepted with no semicolon
behind it is printed. Where a declaration and the second attempt at it both fail, the cursor and the
faults are as the declaration alone leaves them, and the round ends as it does for a script. -/
theorem prompt_extends_script {tokens : List Token} (hend : Ended tokens) (firstId : NodeId) :
    (∀ statements, (Parse.program false firstId tokens).statements = some statements →
      Parse.program true firstId tokens = Parse.program false firstId tokens) ∧
    (∀ e, Parse.Accepted tokens e → ∃ e',
      (Parse.program true firstId tokens).statements = some [.println e'] ∧
        (Parse.program true firstId tokens).errors = [] ∧ e'.Alike Parse.anyhow e) ∧
    program tokens true firstId = some (Parse.program true firstId tokens) ∧
    ∀ {p error failed after}, Head tokens true firstId p →
      (∀ t ∈ tokens[p.position]?, t.kind.isEof = false) →
      Refused tokens p error failed after →
        item tokens true (Parse.depthBound tokens) p =
          .error (.error error) { failed with nextId := after.nextId } ∧
        ∃ place,
          round tokens false (Parse.depthBound tokens) p = .ok none (failed.left error place) ∧
          round tokens true (Parse.depthBound tokens) p =
            .ok none { failed.left error place with nextId := after.nextId } :=
  ⟨fun _ => Parse.program_interactive, fun _ => Parse.program_of_accepted,
    program_eq hend true firstId, fun hhead hmore hrefused =>
      ⟨interactiveDeclaration_refused hrefused hend (hhead.sits hend),
        round_refused hrefused hend (hhead.sits hend) hmore⟩⟩

/-- `nil;` is read as in a script, `nil` is printed, and `)` is refused twice. -/
theorem prompt_extends_script_at_nil_and_paren :
    let null : Token := ⟨.keyword .nil, "nil", 1, ⟨0, 3⟩⟩
    let paren : Token := ⟨.symbol .rightParen, ")", 1, ⟨0, 1⟩⟩
    let eof : Token := ⟨.eof, "", 1, ⟨4, 4⟩⟩
    let script := [null, ⟨.symbol .semicolon, ";", 1, ⟨3, 4⟩⟩, eof]
    (Parse.program false 0 script).statements = some [.expression (.literal .nil)] ∧
      Parse.program true 0 script = Parse.program false 0 script ∧
      Parse.Accepted [null, eof] (.literal .nil) ∧
      (∃ e', (Parse.program true 0 [null, eof]).statements = some [.println e'] ∧
        (Parse.program true 0 [null, eof]).errors = [] ∧
        e'.Alike Parse.anyhow (.literal .nil)) ∧
      Refused [paren, eof] {} ⟨.expected "expression", paren⟩ {} {} ∧
      item [paren, eof] true (Parse.depthBound [paren, eof]) {} =
        .error (.error ⟨.expected "expression", paren⟩) {} := by
  intro null paren eof script
  have hscript : (Parse.program false 0 script).statements = some [.expression (.literal .nil)] :=
    rfl
  have haccepted : Parse.Accepted [null, eof] (.literal .nil) := ⟨14, 0, _, rfl, rfl, rfl⟩
  have hrefused : Refused [paren, eof] {} ⟨.expected "expression", paren⟩ {} {} :=
    ⟨rfl, _, rfl⟩
  refine ⟨hscript, (prompt_extends_script ⟨script.dropLast, eof, rfl, rfl⟩ 0).1 _ hscript,
    haccepted, (prompt_extends_script ⟨[null], eof, rfl, rfl⟩ 0).2.1 _ haccepted, hrefused, ?_⟩
  refine ((prompt_extends_script ⟨[paren], eof, rfl, rfl⟩ 0).2.2.2 .start ?_ hrefused).1
  intro t ht
  cases ht
  rfl

end Tape

end LoxLang
