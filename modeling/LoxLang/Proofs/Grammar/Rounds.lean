import LoxLang.Proofs.Grammar.Tracking

/-!
# Rounds of a parse with a cursor

A round of the loop over the declarations reads one declaration or leaves one that failed. At a
prompt the second attempt begins where the first one did, and what the first one left is put back
if both fail (`Tape.Tracks.item`). To leave a failed declaration one token is skipped, and then all
up to the first boundary (`Tape.synchronize_at`). Each round moves the cursor on, and none stops
for any other reason than the end (`Tape.round_at`).
-/

namespace LoxLang

namespace Tape

variable {tokens : List Token} {depth fuel : Nat} {old : List GrammarError} {p q : Tape}

/-! ## Two attempts -/

theorem Tracks.expressionAgain (hend : Ended tokens) (fuel : Nat) :
    Tracks tokens depth old (Parse.expressionAgain fuel) (Tape.expressionAgain tokens fuel) :=
  ((rulesTrack hend fuel).exprAt .comma).bind fun _ =>
    (Tracks.acceptSymbol hend _).discard.bind fun _ => .pure _

/-- The second attempt begins with the faults noted before the first one. -/
theorem errors_rewound (h : p.errors <+: q.errors) : (rewound p q).errors = p.errors :=
  (List.prefix_iff_eq_take.mp h).symm

theorem view_rewound (h : p.errors <+: q.errors) :
    (rewound p q).view tokens = Parse.again (p.view tokens) (q.view tokens) := by
  have herrors := errors_rewound h
  unfold view Parse.again
  rw [herrors]
  rfl

/-- What the first attempt noted is put back behind the faults noted before. -/
theorem errors_restored {after : Tape} (h : p.errors <+: q.errors)
    (hafter : p.errors <+: after.errors) : (restored p q after).errors = q.errors := by
  obtain ⟨found, hfound⟩ := h
  obtain ⟨found', hfound'⟩ := hafter
  show after.errors.take p.errors.length ++ q.errors.drop p.errors.length = q.errors
  rw [← hfound, ← hfound', List.take_left, List.drop_left]

theorem view_restored {after : Tape} (h : p.errors <+: q.errors)
    (hafter : p.errors <+: after.errors) : (restored p q after).view tokens =
      { q.view tokens with nextId := after.nextId } := by
  have herrors := errors_restored h hafter
  unfold view
  rw [herrors]
  rfl

theorem Tracks.interactiveDeclaration (hend : Ended tokens) (fuel : Nat) :
    Tracks tokens 0 old (Parse.interactiveDeclaration fuel)
      (Tape.interactiveDeclaration tokens fuel) := by
  intro p hp
  have hfirst := (rulesTrack hend fuel).declaration p ⟨hp.inside, hp.depth, List.prefix_refl _⟩
  unfold Tape.interactiveDeclaration
  generalize hrun : Parse.declaration fuel (decide (0 < 0)) (p.view tokens) = result,
    declaration tokens fuel p = result' at hfirst
  cases hfirst with
  | ok sits =>
    rw [(Parse.Attempted.declared hrun).eq]
    exact .ok ⟨sits.inside, sits.depth, hp.noted.trans sits.noted⟩
  | outOfFuel =>
    rw [(Parse.Attempted.stuck hrun).eq]
    exact .outOfFuel
  | @error error q sits =>
    -- The faults noted before are a front part of those noted now, so they are cut off by number.
    have hsecond := Tracks.expressionAgain hend fuel (rewound p q)
      ⟨hp.inside, rfl, ⟨[], (List.append_nil _).trans (errors_rewound sits.noted).symm⟩⟩
    rw [view_rewound sits.noted] at hsecond
    dsimp only
    generalize hagain : Parse.expressionAgain fuel (Parse.again (p.view tokens) (q.view tokens)) =
      result, Tape.expressionAgain tokens fuel (rewound p q) = result' at hsecond
    cases hsecond with
    | ok sits' =>
      rw [(Parse.Attempted.printed hrun hagain).eq]
      exact .ok ⟨sits'.inside, sits'.depth, hp.noted.trans sits'.noted⟩
    | outOfFuel =>
      rw [(Parse.Attempted.stuckAgain hrun hagain).eq]
      exact .outOfFuel
    | @error other after sits' =>
      have hview : (restored p q after).view tokens = _ := view_restored sits.noted sits'.noted
      rw [(Parse.Attempted.refused hrun hagain).eq]
      show Agree tokens 0 old (.error _ { q.view tokens with nextId := after.nextId }) _
      rw [← hview]
      refine .error ⟨sits.inside, sits'.depth, ?_⟩
      rw [errors_restored sits.noted sits'.noted]
      exact hp.noted.trans sits.noted

theorem Tracks.item (hend : Ended tokens) (interactive : Bool) (fuel : Nat) :
    Tracks tokens 0 old (Parse.item interactive fuel) (Tape.item tokens interactive fuel) :=
  .ite (fun _ => interactiveDeclaration hend fuel) fun _ => (rulesTrack hend fuel).declaration

/-! ## Leaving a failed declaration -/

/-- A place where parsing may go on: the end, a token that begins a statement, or one behind a
semicolon. -/
def Boundary (tokens : List Token) (place : Nat) : Prop :=
  (∃ t, tokens[place]? = some t ∧ (t.kind.isEof = true ∨ t.kind.beginsStatement = true)) ∨
    ∃ t, before? tokens place = some t ∧ t.kind.isSymbol .semicolon = true

instance (tokens : List Token) (place : Nat) : Decidable (Boundary tokens place) :=
  inferInstanceAs (Decidable
    ((∃ t ∈ tokens[place]?, t.kind.isEof = true ∨ t.kind.beginsStatement = true) ∨
      ∃ t ∈ before? tokens place, t.kind.isSymbol .semicolon = true))

/-- The nearest boundary from a place on. -/
structure NearestBoundary (tokens : List Token) (start place : Nat) : Prop where
  le : start ≤ place
  boundary : Boundary tokens place
  least : ∀ other, start ≤ other → other < place → ¬Boundary tokens other

theorem NearestBoundary.here {start : Nat} (h : Boundary tokens start) :
    NearestBoundary tokens start start :=
  ⟨Nat.le_refl _, h, fun _ hle hlt => absurd hlt (Nat.not_lt.mpr hle)⟩

theorem NearestBoundary.further {start place : Nat} (h : NearestBoundary tokens (start + 1) place)
    (hnot : ¬Boundary tokens start) : NearestBoundary tokens start place where
  le := Nat.le_of_succ_le h.le
  boundary := h.boundary
  least other hle hlt := (Nat.eq_or_lt_of_le hle).elim (fun heq => heq ▸ hnot)
    fun hlater => h.least other hlater hlt

theorem NearestBoundary.unique {start place place' : Nat} (h : NearestBoundary tokens start place)
    (h' : NearestBoundary tokens start place') : place = place' := by
  rcases Nat.lt_trichotomy place place' with hlt | heq | hlt
  · exact absurd h.boundary (h'.least place h.le hlt)
  · exact heq
  · exact absurd h'.boundary (h.least place' h'.le hlt)

/-- Tokens are skipped to the nearest boundary. -/
theorem skip_at (hend : Ended tokens) (hp : p.Sits tokens depth old) (hbehind : 0 < p.position)
    (hfuel : tokens.length < p.position + fuel) : ∃ place,
    skip tokens fuel p = .ok () { p with position := place } ∧
      NearestBoundary tokens p.position place ∧
      Sits tokens depth old { p with position := place } ∧
      ParseState.skipTokens (before? tokens p.position) (tokens.drop p.position) =
        (before? tokens place, tokens.drop place) := by
  induction fuel generalizing p with
  | zero => exact absurd hp.inside (Nat.not_lt.mpr (Nat.le_of_lt hfuel))
  | succ fuel ih =>
    obtain ⟨t, ht⟩ := hp.exists_token
    obtain ⟨u, hlast, hprevious⟩ := hp.exists_previous hbehind
    have hrest := rest_view ht
    replace hrest : tokens.drop p.position = _ := hrest
    rw [skip, bind_of_ok (atEnd_at ht), hrest, hlast, ParseState.skipTokens, Option.any_some]
    cases heof : t.kind.isEof with
    | true =>
      exact ⟨p.position, rfl, .here (.inl ⟨t, ht, .inl heof⟩), hp, by rw [hrest, hlast]; rfl⟩
    | false =>
      rw [if_neg Bool.false_ne_true, if_neg Bool.false_ne_true, bind_of_ok hprevious]
      cases hsemicolon : u.kind.isSymbol .semicolon with
      | true =>
        exact ⟨p.position, rfl, .here (.inr ⟨u, hlast, hsemicolon⟩), hp, by rw [hrest, hlast]; rfl⟩
      | false =>
        rw [if_neg Bool.false_ne_true, if_neg Bool.false_ne_true, bind_of_ok (peek_at ht)]
        cases hbegins : t.kind.beginsStatement with
        | true =>
          exact ⟨p.position, rfl, .here (.inl ⟨t, ht, .inr hbegins⟩), hp, by rw [hrest, hlast]; rfl⟩
        | false =>
          have hnext := next?_of_kind ht heof
          obtain ⟨place, hrun, hnearest, hsits, hskip⟩ := ih (hp.advance hend hnext)
            (Nat.succ_pos _) (show tokens.length < p.position + 1 + fuel by omega)
          rw [if_neg Bool.false_ne_true, if_neg Bool.false_ne_true,
            bind_of_ok (discard_advance_at hp hnext)]
          replace hskip : ParseState.skipTokens (before? tokens (p.position + 1))
            (tokens.drop (p.position + 1)) = _ := hskip
          have hnot : ¬Boundary tokens p.position := by
            rintro (⟨t', ht', hkind⟩ | ⟨u', hu', hkind⟩)
            · cases ht.symm.trans ht'
              rw [heof, hbegins] at hkind
              exact hkind.elim Bool.false_ne_true Bool.false_ne_true
            · cases hlast.symm.trans hu'
              exact Bool.false_ne_true (hsemicolon.symm.trans hkind)
          refine ⟨place, hrun, hnearest.further hnot, hsits, ?_⟩
          rw [← hskip]
          show _ = ParseState.skipTokens tokens[p.position]? _
          rw [ht]

/-- Where a parse goes on that leaves a declaration which failed at a point: at the nearest boundary
behind the token there, or at the end. -/
structure Resumes (tokens : List Token) (p : Tape) (place : Nat) : Prop where
  ended : (p.view tokens).atEnd = true → place = p.position
  skipped : (p.view tokens).atEnd = false → NearestBoundary tokens (p.position + 1) place

theorem Resumes.unique {place place' : Nat} (h : Resumes tokens p place)
    (h' : Resumes tokens p place') : place = place' := by
  cases hatEnd : (p.view tokens).atEnd with
  | true => exact (h.ended hatEnd).trans (h'.ended hatEnd).symm
  | false => exact (h.skipped hatEnd).unique (h'.skipped hatEnd)

/-- At the end there is nothing to skip. -/
theorem synchronize_at_end (hp : p.Sits tokens depth old) (hnext : (p.view tokens).next? = none)
    (hbehind : 0 < p.position) :
    synchronize tokens p = .ok () p ∧ p.view tokens = (p.view tokens).synchronize := by
  obtain ⟨t, ht, heof⟩ := hp.exists_eof hnext
  obtain ⟨u, -, hprevious⟩ := hp.exists_previous hbehind
  constructor
  · have hstay : advance tokens p = .ok u p := by
      rw [advance, bind_of_ok (atEnd_at ht), heof]
      exact hprevious
    have hdiscard : discard (advance tokens) p = .ok () p := by
      rw [Functor.discard, Functor.mapConst]
      exact bind_of_ok hstay
    rw [synchronize, bind_of_ok hdiscard, skip, bind_of_ok (atEnd_at ht), heof]
    rfl
  · have hadvance : (p.view tokens).advance = p.view tokens := by rw [ParseState.advance, hnext]
    rw [ParseState.synchronize, hadvance]
    dsimp only
    rw [rest_view ht, ParseState.skipTokens, heof, if_pos rfl]
    exact congrArg (fun rest => { p.view tokens with rest := rest }) (rest_view ht)

/-- A failed declaration is left without leaving the list, also where it failed at the end. -/
theorem synchronize_at (hend : Ended tokens) (hp : p.Sits tokens depth old)
    (hbehind : (p.view tokens).atEnd = true → 0 < p.position) : ∃ place,
    synchronize tokens p = .ok () { p with position := place } ∧
      Sits tokens depth old { p with position := place } ∧ Resumes tokens p place ∧
      view tokens { p with position := place } = (p.view tokens).synchronize := by
  cases hnext : (p.view tokens).next? with
  | some t =>
    have hmore : (p.view tokens).atEnd = false := by rw [ParseState.atEnd, hnext]; rfl
    obtain ⟨place, hrun, hnearest, hsits, hskip⟩ := skip_at hend (hp.advance hend hnext)
      (Nat.succ_pos _) (show tokens.length < p.position + 1 + (tokens.length + 1) by omega)
    refine ⟨place, ?_, hsits,
      ⟨fun hatEnd => absurd (hmore.symm.trans hatEnd) Bool.false_ne_true, fun _ => hnearest⟩, ?_⟩
    · rw [synchronize, bind_of_ok (discard_advance_at hp hnext), hrun]
    · replace hskip : ParseState.skipTokens
        (view tokens { p with position := p.position + 1 }).last
        (view tokens { p with position := p.position + 1 }).rest = _ := hskip
      rw [ParseState.synchronize, ← view_advance hp hnext]
      dsimp only
      rw [hskip]
      rfl
  | none =>
    have hatEnd : (p.view tokens).atEnd = true := by rw [ParseState.atEnd, hnext]; rfl
    obtain ⟨hrun, hview⟩ := synchronize_at_end hp hnext (hbehind hatEnd)
    exact ⟨p.position, hrun, hp,
      ⟨fun _ => rfl, fun hmore => absurd (hmore.symm.trans hatEnd) Bool.false_ne_true⟩,
      hview⟩

/-! ## Rounds -/

/-- A declaration moves the cursor on; one that fails does not move it back. -/
theorem item_at (hend : Ended tokens) (interactive : Bool) (hp : p.Sits tokens 0 old)
    (hfuel : Parse.depthBound tokens ≤ fuel) :
    (∃ stmt q, item tokens interactive fuel p = .ok stmt q ∧
        Parse.item interactive fuel (p.view tokens) = .ok stmt (q.view tokens) ∧
        q.Sits tokens 0 old ∧ p.position < q.position) ∨
      ∃ error q, item tokens interactive fuel p = .error (.error error) q ∧
        Parse.item interactive fuel (p.view tokens) = .error (.error error) (q.view tokens) ∧
        q.Sits tokens 0 old ∧ p.position ≤ q.position := by
  have htracks := Tracks.item hend interactive fuel p hp
  have htakes := Parse.item_takes interactive fuel _ (p.view tokens) rfl trivial
  have hinside := hp.inside
  generalize Parse.item interactive fuel (p.view tokens) = result, item tokens interactive fuel p =
    result' at htracks htakes ⊢
  cases htracks with
  | @ok stmt q sits =>
    have hlength := htakes.2
    replace hlength : (tokens.drop q.position).length < (tokens.drop p.position).length := hlength
    rw [List.length_drop, List.length_drop] at hlength
    exact .inl ⟨stmt, q, rfl, rfl, sits, by omega⟩
  | @error error q sits =>
    have hlength := htakes.1.length_le
    replace hlength : (tokens.drop q.position).length ≤ (tokens.drop p.position).length := hlength
    rw [List.length_drop, List.length_drop] at hlength
    have hinside' := sits.inside
    exact .inr ⟨error, q, rfl, rfl, sits, by omega⟩
  | outOfFuel =>
    -- The bound is large enough for the tokens that remain.
    refine absurd ?_ (htakes.2 rfl)
    have hrest : (p.view tokens).rest.length ≤ tokens.length := by
      show (tokens.drop p.position).length ≤ tokens.length
      rw [List.length_drop]
      omega
    rw [Parse.depthBound] at hfuel
    omega

/-- The state behind a round whose declaration failed. -/
def left (failed : Tape) (error : GrammarError) (place : Nat) : Tape :=
  { failed with
    position := place
    loopDepth := 0
    errors := failed.errors ++ [error]
    failed := true }

/-- A round whose declaration fails notes the fault and goes on from another place. -/
theorem round_of_error (hend : Ended tokens) {interactive : Bool} {error : GrammarError}
    (hitem : item tokens interactive fuel p = .error (.error error) q)
    (hq : q.Sits tokens 0 old) (hbehind : (q.view tokens).atEnd = true → 0 < q.position) :
    ∃ place, round tokens interactive fuel p = .ok none (q.left error place) ∧
      (q.left error place).Sits tokens 0 old ∧ Resumes tokens q place ∧
      (q.left error place).view tokens = ((q.view tokens).note error).synchronize := by
  have hnoted : Sits tokens 0 old
      { q with loopDepth := 0, errors := q.errors ++ [error], failed := true } :=
    ⟨hq.inside, rfl, hq.noted.trans (List.prefix_append ..)⟩
  obtain ⟨place, hrun, hsits, hresumes, hview⟩ := synchronize_at hend hnoted hbehind
  refine ⟨place, ?_, hsits, ⟨hresumes.ended, hresumes.skipped⟩, hview⟩
  rw [round, hitem]
  exact bind_of_ok hrun

/-- A cursor at the end has moved, if it was not there before. -/
theorem lt_of_atEnd (hnot : (p.view tokens).atEnd = false) (hle : p.position ≤ q.position)
    (hatEnd : (q.view tokens).atEnd = true) : p.position < q.position := by
  refine Nat.lt_of_le_of_ne hle fun heq => ?_
  have hsame : (q.view tokens).atEnd = (p.view tokens).atEnd := by
    unfold ParseState.atEnd ParseState.next? view
    rw [heq]
  cases (hsame.symm.trans hatEnd).symm.trans hnot

/-- A round moves the cursor on, whether its declaration goes well or not. -/
theorem round_at (hend : Ended tokens) (interactive : Bool) (hp : p.Sits tokens 0 old)
    (hnot : (p.view tokens).atEnd = false) (hfuel : Parse.depthBound tokens ≤ fuel) :
    ∃ result q, round tokens interactive fuel p = .ok result q ∧ q.Sits tokens 0 old ∧
      p.position < q.position ∧
      ((∃ stmt, result = some stmt ∧
          Parse.item interactive fuel (p.view tokens) = .ok stmt (q.view tokens)) ∨
        result = none ∧ ∃ error failed,
          Parse.item interactive fuel (p.view tokens) = .error (.error error) failed ∧
            q.view tokens = (failed.note error).synchronize) := by
  rcases item_at hend interactive hp hfuel with
    ⟨stmt, q, hitem, hparse, hq, hlt⟩ | ⟨error, failed, hitem, hparse, hfailed, hle⟩
  · refine ⟨some stmt, q, ?_, hq, hlt, .inl ⟨stmt, rfl, hparse⟩⟩
    rw [round, hitem]
  · have hmoved := lt_of_atEnd hnot hle
    obtain ⟨place, hrun, hsits, hresumes, hview⟩ := round_of_error hend hitem hfailed
      fun hatEnd => Nat.zero_lt_of_lt (hmoved hatEnd)
    refine ⟨none, _, hrun, hsits, ?_, .inr ⟨rfl, error, _, hparse, hview⟩⟩
    show p.position < place
    cases hatEnd : (failed.view tokens).atEnd with
    | true => exact (hresumes.ended hatEnd).symm ▸ hmoved hatEnd
    | false => exact Nat.lt_of_le_of_lt hle (hresumes.skipped hatEnd).le

/-! ## Heads of rounds -/

/-- The cursor where a round of the loop begins, from the start of a parse on. -/
inductive Head (tokens : List Token) (interactive : Bool) (firstId : NodeId) : Tape → Prop
  | start : Head tokens interactive firstId { nextId := firstId }
  | next {p q result} (head : Head tokens interactive firstId p)
    (more : ∀ t ∈ tokens[p.position]?, t.kind.isEof = false)
    (read : round tokens interactive (Parse.depthBound tokens) p = .ok result q) :
    Head tokens interactive firstId q

theorem sits_start (hend : Ended tokens) (firstId : NodeId) :
    Sits tokens 0 [] { nextId := firstId } := by
  obtain ⟨front, eof, rfl, -⟩ := hend
  exact ⟨by simp, rfl, List.prefix_refl _⟩

theorem Sits.atEnd_of_more (hp : p.Sits tokens depth old)
    (hmore : ∀ t ∈ tokens[p.position]?, t.kind.isEof = false) : (p.view tokens).atEnd = false := by
  obtain ⟨t, ht⟩ := hp.exists_token
  rw [ParseState.atEnd, next?_of_kind ht (hmore t ht)]
  rfl

variable {interactive : Bool} {firstId : NodeId}

theorem Head.sits (hend : Ended tokens) (h : Head tokens interactive firstId p) :
    p.Sits tokens 0 [] := by
  induction h with
  | start => exact sits_start hend firstId
  | next _ hmore hround ih =>
    obtain ⟨_, _, hrun, hq, -⟩ :=
      round_at hend interactive ih (ih.atEnd_of_more hmore) (Nat.le_refl _)
    cases hround.symm.trans hrun
    exact hq

/-! ## Programs -/

theorem Sits.atEnd_eq (hp : p.Sits tokens depth old) :
    atEnd tokens p = .ok (p.view tokens).atEnd p := by
  obtain ⟨t, ht⟩ := hp.exists_token
  rw [atEnd_at ht, ParseState.atEnd, next?_view ht]
  cases t.kind.isEof <;> rfl

/-- The loop over the declarations comes to the end token, with the statements that a parse without
a cursor gives. -/
theorem rounds_at (hend : Ended tokens) (interactive : Bool) (hp : p.Sits tokens 0 old)
    (hfuel : Parse.depthBound tokens ≤ fuel) {count : Nat}
    (hcount : tokens.length ≤ p.position + count) : ∃ statements q,
    rounds tokens interactive fuel count p = .ok statements q ∧
      Parse.declarations (Parse.item interactive fuel) count (p.view tokens) =
        (statements, q.view tokens, true) := by
  -- Each round moves the cursor on, so there are never more rounds than tokens.
  induction count generalizing p with
  | zero => exact absurd hp.inside (Nat.not_lt.mpr hcount)
  | succ count ih =>
    rw [rounds, bind_of_ok hp.atEnd_eq, Parse.declarations]
    cases hatEnd : (p.view tokens).atEnd with
    | true => exact ⟨[], p, rfl, rfl⟩
    | false =>
      obtain ⟨result, q, hround, hq, hlt, hreads⟩ := round_at hend interactive hp hatEnd hfuel
      obtain ⟨statements, final, hrounds, hrest⟩ := ih hq (by omega)
      rw [if_neg Bool.false_ne_true, if_neg Bool.false_ne_true, bind_of_ok hround]
      rcases hreads with ⟨stmt, rfl, hparse⟩ | ⟨rfl, error, failed, hparse, hview⟩
      · refine ⟨stmt :: statements, final, bind_of_ok hrounds, ?_⟩
        rw [hparse]
        dsimp only
        rw [hrest]
      · refine ⟨statements, final, hrounds, ?_⟩
        rw [hparse]
        dsimp only
        rw [← hview, hrest]

/-- A parse with a cursor gives what a parse without one gives: it never looks outside of the list,
and never reaches its bounds. -/
theorem program_eq (hend : Ended tokens) (interactive : Bool) (firstId : NodeId) :
    program tokens interactive firstId = some (Parse.program interactive firstId tokens) := by
  obtain ⟨statements, final, hrounds, hparse⟩ := rounds_at hend interactive
    (sits_start hend firstId) (Nat.le_refl (Parse.depthBound tokens))
    (show tokens.length ≤ 0 + tokens.length by omega)
  replace hparse : Parse.declarations (Parse.item interactive (Parse.depthBound tokens))
    tokens.length { last := none, rest := tokens, nextId := firstId } = _ := hparse
  rw [program, hrounds, Parse.program, hparse]
  simp [view]

end Tape

end LoxLang
