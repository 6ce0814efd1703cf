import LoxLang.Proofs.Session.History
import LoxLang.Proofs.Session.Parallel

/-!
# What diagnostics show

A diagnostic has a text for every source but those in which an end of its span lies inside a
character (`Diagnostic.render?_eq_none`), and for a token of the source it shows the token. The token
of every diagnostic on record comes from a source that the session has been given, whatever passes
and functions it went through (`Session.Alike.feedAll`): a text that is wrong or missing is that of a
token from an earlier source (`excerpts_feed`).
-/

namespace LoxLang

/-! ## Excerpts -/

theorem Text.splitAtByte?_add {n k : Nat} {cs front back piece behind : List Char}
    (hfront : splitAtByte? n cs = some (front, back))
    (hpiece : splitAtByte? k back = some (piece, behind)) :
    splitAtByte? (n + k) cs = some (front ++ piece, behind) := by
  obtain ⟨rfl, rfl⟩ := append_of_splitAtByte? hfront
  obtain ⟨rfl, rfl⟩ := append_of_splitAtByte? hpiece
  rw [← byteLength_append, ← List.append_assoc]
  exact splitAtByte?_byteLength _ _

namespace Diagnostic

/-- There is an excerpt just if the span marks out a piece of the text. -/
theorem isSome_excerpt? {cs : List Char} {span : Span} (hspan : span.start ≤ span.stop)
    (line : Nat) : (excerpt? cs span line).isSome = (span.cut? cs).isSome := by
  unfold excerpt? Span.cut?
  rw [if_neg (Nat.not_lt.mpr hspan)]
  cases hfront : Text.splitAtByte? span.start cs with
  | none => rfl
  | some parts =>
    obtain ⟨front, back⟩ := parts
    dsimp only [Option.bind_some]
    cases hpiece : Text.splitAtByte? (span.stop - span.start) back with
    | none =>
      rw [Option.map_none]
      cases Text.splitAtByte? span.stop cs with
      | none => rfl
      | some => simp only [hpiece, Option.isSome_none]
    | some inner =>
      obtain ⟨piece, behind⟩ := inner
      have hstop := Text.splitAtByte?_add hfront hpiece
      rw [Nat.add_sub_cancel' hspan] at hstop
      rw [hstop]
      dsimp only
      rw [hpiece]
      rfl

/-- A diagnostic has no text just if its span lies in the source and has an end inside a character. -/
theorem render?_eq_none {d : Diagnostic} {source : String} :
    d.render? source = none ↔ ∃ t, d.token = some t ∧ t.span.start < t.span.stop ∧
      t.span.stop ≤ source.utf8ByteSize ∧ t.span.cut? source.toList = none := by
  unfold render?
  cases d.token with
  | none => simp
  | some t =>
    dsimp only
    simp only [Option.some.injEq, exists_eq_left']
    split
    · next hout =>
      refine ⟨fun h => (nomatch h), fun h => ?_⟩
      obtain ⟨hstart, hstop, -⟩ := h
      omega
    · next hin =>
      have hstart : t.span.start < t.span.stop := by omega
      have hexcerpt : (excerpt? source.toList t.span t.line).isSome =
          (t.span.cut? source.toList).isSome := isSome_excerpt? (Nat.le_of_lt hstart) t.line
      rw [Option.map_eq_none_iff, ← Option.not_isSome_iff_eq_none, hexcerpt,
        Option.not_isSome_iff_eq_none]
      exact ⟨fun h => ⟨hstart, by omega, h⟩, fun h => h.2.2⟩

end Diagnostic

/-! ## Where tokens come from -/

namespace Token

/-- A token of a source, or one that stands for a malformed piece of it. -/
def ScannedFrom (source : String) (t : Token) : Prop :=
  ∃ item ∈ Scanned.ofSource source, item.located = t

/-- A token of a source, or one that is put in the place of a token of it. -/
structure From (source : String) (t : Token) : Prop where
  place : ∃ place, ScannedFrom source place ∧ (t = place ∨ t = .synthetic t.kind t.lexeme place)

variable {source : String} {t : Token}

theorem ScannedFrom.cut? (h : t.ScannedFrom source) :
    t.span.cut? source.toList = some t.lexeme.toList := by
  obtain ⟨item, hitem, rfl⟩ := h
  exact (Scanned.lies_ofSource hitem).lexeme

theorem ScannedFrom.from (h : t.ScannedFrom source) : t.From source := ⟨t, h, .inl rfl⟩

theorem From.synthetic (h : t.From source) (kind : TokenKind) (lexeme : String) :
    (Token.synthetic kind lexeme t).From source := by
  obtain ⟨place, hplace, rfl | heq⟩ := h
  · exact ⟨t, hplace, .inr rfl⟩
  · refine ⟨place, hplace, .inr ?_⟩
    rw [heq]
    rfl

end Token

/-- The diagnostic has a text for the source. What it shows of the source there is the token that
was scanned in this place. -/
structure Diagnostic.ShowsIn (d : Diagnostic) (source : String) : Prop where
  safe : (d.render? source).isSome = true
  faithful : ∀ t, d.token = some t → t.span.start < t.span.stop →
    t.span.stop ≤ source.utf8ByteSize →
      ∃ place, Token.ScannedFrom source place ∧
        t.span.cut? source.toList = some place.lexeme.toList ∧
        (t = place ∨ t = .synthetic t.kind t.lexeme place)

theorem Diagnostic.ShowsIn.of_from {d : Diagnostic} {source : String}
    (h : ∀ t, d.token = some t → t.span.start < t.span.stop → t.From source) :
    d.ShowsIn source := by
  have hfaithful : ∀ t, d.token = some t → t.span.start < t.span.stop →
      ∃ place, Token.ScannedFrom source place ∧
        t.span.cut? source.toList = some place.lexeme.toList ∧
        (t = place ∨ t = .synthetic t.kind t.lexeme place) := by
    intro t ht hspan
    obtain ⟨place, hplace, heq⟩ := h t ht hspan
    have hsame : t.span = place.span := by
      rcases heq with heq | heq
      · rw [heq]
      · rw [heq]
        rfl
    exact ⟨place, hplace, hsame ▸ hplace.cut?, heq⟩
  refine ⟨?_, fun t ht hspan _ => hfaithful t ht hspan⟩
  by_contra hnone
  rw [Option.not_isSome_iff_eq_none, render?_eq_none] at hnone
  obtain ⟨t, ht, hspan, -, hcut⟩ := hnone
  obtain ⟨place, -, hsome, -⟩ := hfaithful t ht hspan
  cases hcut.symm.trans hsome

/-! ## Sessions -/

/-- The source that an input gives to be run. -/
def Input.source? : Input → Option String
  | .program source | .line source => some source
  | .outside _ _ => none

/-- Nodes correspond to themselves, and so do tokens that come from given sources. -/
def Likeness.ofSources (sources : List String) : Likeness where
  node := Eq
  token t t' := t = t' ∧ (t.span.stop = 0 ∨ ∃ source ∈ sources, t.From source)
  kind h := h.1 ▸ rfl
  lexeme h := h.1 ▸ rfl
  synthetic kind lexeme _ h := by
    obtain ⟨rfl, hstop | ⟨source, hsource, hfrom⟩⟩ := h
    · exact ⟨rfl, .inl hstop⟩
    · exact ⟨rfl, .inr ⟨source, hsource, hfrom.synthetic kind lexeme⟩⟩
  ended := ⟨rfl, .inl rfl⟩

theorem Likeness.exact_ofSources (sources : List String) : (ofSources sources).Exact := fun _ _ h => h.1

theorem Likeness.oneToOne_ofSources (sources : List String) : (ofSources sources).OneToOne := by
  rintro i _ i' _ rfl rfl
  exact Iff.rfl

namespace Session

variable {l : Likeness} {s : Session} {sources : List String}

theorem knows_ofSources {source : String} (h : source ∈ sources) : Knows (.ofSources sources) source :=
  fun item hitem => ⟨rfl, .inr ⟨source, h, Token.ScannedFrom.from ⟨item, hitem, rfl⟩⟩⟩

/-- Nothing that a session begins with has been read. -/
theorem Alike.start (hnodes : ∀ id, l.node id id) (honly : ∀ id id', l.node id id' → id = id')
    (bound : Nat) (settings : Settings) (host : Host) (sink : Sink) :
    Alike l (startWithin bound settings host sink) (startWithin bound settings host sink) where
  settings := rfl
  bound := rfl
  resolver := by
    have hnames (names : List String) :
        (NameMap.ofList (names.map fun name => (name, StaticBinding.provided .function))).Alike
          (StaticBinding.Alike l)
          (.ofList (names.map fun name => (name, StaticBinding.provided .function))) :=
      .ofList (List.forall₂_same.mpr fun entry hentry => by
        obtain ⟨name, -, rfl⟩ := List.mem_map.mp hentry
        exact ⟨rfl, .provided .function⟩)
    exact ⟨.cons (hnames _) .nil, rfl⟩
  distances := fun id id' hid => honly id id' hid ▸ rfl
  machine := .start standardNatives host sink
  log := .empty settings.maxErrors
  numbers := fun _ => hnodes _

/-- What is known of the tokens in a session stays so behind an input. -/
theorem Alike.feed (h : s.Alike (.ofSources sources) s) {input : Input}
    (hinput : ∀ source ∈ input.source?, source ∈ sources) :
    (s.feed input).Alike (.ofSources sources) (s.feed input) := by
  have hexact := Likeness.exact_ofSources sources
  cases input with
  | program source =>
    exact (h.execute hexact (Likeness.oneToOne_ofSources sources) (knows_ofSources (hinput source rfl))
      false).session
  | line source =>
    exact (Alike.execute hexact (Likeness.oneToOne_ofSources sources) (h.relog h.log.reset)
      (knows_ofSources (hinput source rfl)) true).session
  | outside host sink => exact { h with machine := { h.machine with host := rfl, sink := rfl } }

theorem Alike.feedAll (h : s.Alike (.ofSources sources) s) {inputs : List Input}
    (hinputs : ∀ input ∈ inputs, ∀ source ∈ input.source?, source ∈ sources) :
    (s.feedAll inputs).Alike (.ofSources sources) (s.feedAll inputs) := by
  induction inputs generalizing s with
  | nil => exact h
  | cons input rest ih =>
    exact ih (h.feed (hinputs input List.mem_cons_self)) fun later hlater =>
      hinputs later (List.mem_cons_of_mem _ hlater)

end Session

/-- Behind any inputs, every diagnostic on record has a text for the source that was run last, and
shows the token there that it is about, unless its token comes from an earlier source. -/
theorem excerpts_feed (bound : Nat) (settings : Settings) (host : Host) (sink : Sink)
    (inputs : List Input) (input : Input) (source : String) (hsource : input.source? = some source) :
    let s := (Session.startWithin bound settings host sink).feedAll inputs
    ∀ d ∈ (s.feed input).log.recorded, d.ShowsIn source ∨
      ∃ earlier ∈ inputs, ∃ text, earlier.source? = some text ∧
        ∃ t, d.token = some t ∧ t.From text := by
  intro s d hd
  let sources := source :: inputs.filterMap Input.source?
  have hstart : Session.Alike (.ofSources sources) (.startWithin bound settings host sink)
      (.startWithin bound settings host sink) := .start (fun _ => rfl) (fun _ _ h => h) _ _ _ _
  have hs : s.Alike (.ofSources sources) s := hstart.feedAll fun earlier hearlier text htext =>
    List.mem_cons_of_mem _ (List.mem_filterMap.mpr ⟨earlier, hearlier, htext⟩)
  have hafter : (s.feed input).Alike (.ofSources sources) (s.feed input) := hs.feed fun text htext => by
    cases hsource.symm.trans htext
    exact List.mem_cons_self
  by_contra hnone
  rw [not_or] at hnone
  refine hnone.1 (.of_from fun t ht hspan => ?_)
  rcases (hafter.log.tokens d hd t ht).2 with hstop | ⟨text, htext, hfrom⟩
  · omega
  · rcases List.mem_cons.mp htext with rfl | htext
    · exact hfrom
    · obtain ⟨earlier, hearlier, hgiven⟩ := List.mem_filterMap.mp htext
      exact absurd ⟨earlier, hearlier, text, hgiven, t, ht, hfrom⟩ hnone.2

/-- A function of an earlier line stops at an operator whose span has an end inside a character of
the line that calls it, so that there is no text for that line. -/
theorem excerpts_feed_of_earlier_line :
    ∃ d ∈ (((Session.startWithin 30 {} ⟨(0.0 : Float), []⟩ {}).feedAll
        [.line "fun f() \x7b return nil + 1; \x7d"]).feed (.line "f(); // éééééééééééé")).log.recorded,
      d.render? "f(); // éééééééééééé" = none ∧
        ∃ t, d.token = some t ∧ t.From "fun f() \x7b return nil + 1; \x7d" := by
  have hsome : ((((Session.startWithin 30 {} ⟨(0.0 : Float), []⟩ {}).feedAll
      [.line "fun f() \x7b return nil + 1; \x7d"]).feed
        (.line "f(); // éééééééééééé")).log.recorded.any fun d =>
      (d.render? "f(); // éééééééééééé").isNone) = true := by decide +kernel
  obtain ⟨d, hd, hnone⟩ := List.any_eq_true.mp hsome
  have hrender := Option.isNone_iff_eq_none.mp hnone
  rcases excerpts_feed 30 {} ⟨(0.0 : Float), []⟩ {} [.line "fun f() \x7b return nil + 1; \x7d"]
    (.line "f(); // éééééééééééé") "f(); // éééééééééééé" rfl d hd with hshows | hearlier
  · have hsafe := hshows.safe
    rw [hrender] at hsafe
    cases hsafe
  · obtain ⟨input, hinput, text, htext, hfrom⟩ := hearlier
    cases List.mem_singleton.mp hinput
    cases htext
    exact ⟨d, hd, hrender, hfrom⟩

end LoxLang
