import LoxLang.Proofs.Token.Reading
import Mathlib.Data.List.Pairwise

/-!
# Tokens tile their source

Scanning lays a source out as tokens, malformed pieces and gaps, one behind the other. `Tiles` says
so step by step; `Tiling` says what follows for byte offsets: spans are in order and on character
boundaries, lexemes and lines are those of the text at the span, and no byte is left unexplained.
-/

namespace LoxLang

/-- The piece of a text that a span marks out. There is none if the span runs backward or past the
end of the text, or if an end of it lies within a character. -/
def Span.cut? (span : Span) (cs : List Char) : Option (List Char) :=
  if span.stop < span.start then none
  else (Text.splitAtByte? span.start cs).bind fun (_, back) =>
    (Text.splitAtByte? (span.stop - span.start) back).map Prod.fst

theorem Span.cut?_eq {start stop : Nat} {front piece behind : List Char}
    (hstart : start = Text.byteLength front) (hstop : stop = start + Text.byteLength piece) :
    Span.cut? ⟨start, stop⟩ (front ++ (piece ++ behind)) = some piece := by
  subst hstop hstart
  simp [cut?, Text.splitAtByte?_byteLength]

/-- The length of a text is that of its encoding. -/
theorem Text.byteLength_toList (source : String) :
    byteLength source.toList = source.utf8ByteSize := by
  have hencode (cs : List Char) : byteLength cs = cs.utf8Encode.size := by
    induction cs with
    | nil => rfl
    | cons c cs ih =>
      rw [List.utf8Encode_cons, ByteArray.size_append, ← ih, List.utf8Encode_singleton,
        List.size_toByteArray, String.length_utf8EncodeChar, byteLength]
  rw [hencode]
  simp

theorem Text.byteLength_pos {cs : List Char} (h : cs ≠ []) : 0 < byteLength cs := by
  cases cs with
  | nil => exact absurd rfl h
  | cons c cs => exact Nat.add_pos_left c.utf8Size_pos _

@[simp] theorem Text.lineFeeds_append (front back : List Char) :
    lineFeeds (front ++ back) = lineFeeds front + lineFeeds back :=
  List.count_append ..

/-- The token that a piece of text makes behind the text before it. -/
def Token.behind (before piece : List Char) (kind : TokenKind) : Token :=
  ⟨kind, String.ofList piece, 1 + Text.lineFeeds (before ++ piece),
    ⟨Text.byteLength before, Text.byteLength before + Text.byteLength piece⟩⟩

namespace Scanned

/-- The token of an item; that of a fault covers the malformed piece. -/
def located : Scanned → Token
  | token t => t
  | fault _ t => t

/-- How far scanning has come with an item: to the end of a token; with a fault, to the first line
feed or brace at or after the end of the malformed piece, or to the end of the text. -/
def reach (cs : List Char) : Scanned → Nat
  | token t => t.span.stop
  | fault _ t => t.span.stop + Text.byteLength
    ((((Text.splitAtByte? t.span.stop cs).map Prod.snd).getD []).takeWhile
      fun c => !isResumePoint c)

/-- What a byte of a text belongs to: a token, what a fault makes scanning pass over, or white space
or a comment apart from all these. -/
inductive Accounted (cs : List Char) (items : List Scanned) (offset : Nat) : Prop
  | item (item : Scanned) (mem : item ∈ items) (start : item.located.span.start ≤ offset)
    (stop : offset < item.reach cs)
  | gap (before piece behind : List Char) (text : cs = before ++ (piece ++ behind))
    (gap : Lexeme.Gap piece behind) (start : Text.byteLength before ≤ offset)
    (stop : offset < Text.byteLength before + Text.byteLength piece)
    (apart : ∀ item ∈ items, item.reach cs ≤ Text.byteLength before ∨
      Text.byteLength before + Text.byteLength piece ≤ item.located.span.start)

/-- How the items of a source lie in it. -/
structure Tiling (source : String) (items : List Scanned) : Prop where
  ordered : items.Pairwise fun a b => a.located.span.stop ≤ b.located.span.start
  lexeme : ∀ item ∈ items, item.located.span.cut? source.toList = some item.located.lexeme.toList
  line : ∀ item ∈ items, ∃ before behind,
    Text.splitAtByte? item.located.span.stop source.toList = some (before, behind) ∧
      item.located.line = 1 + Text.lineFeeds before
  accounted : ∀ offset < source.utf8ByteSize, Accounted source.toList items offset
  ended : ∃ front, items = front ++ [token ⟨.eof, "", 1 + Text.lineFeeds source.toList,
      ⟨source.utf8ByteSize, source.utf8ByteSize⟩⟩] ∧
    ∀ item ∈ front, item.located.kind.isEof = false ∧
      item.located.span.start < item.located.span.stop
  /-- The text between the quotes of a string. -/
  contents : ∀ t contents, token t ∈ items → t.kind = .string contents →
    Span.cut? ⟨t.span.start + 1, t.span.stop - 1⟩ source.toList = some contents.toList
  /-- The digits behind a base marker. -/
  digits : ∀ item ∈ items, ∀ base marker digits, Base.ofMarker? marker = some base →
    item.located.lexeme.toList = '0' :: marker :: digits →
    Span.cut? ⟨item.located.span.start + 2, item.located.span.stop⟩ source.toList = some digits

/-! ## Step by step -/

/-- Behind a text that has been scanned, another one is laid out as gaps and items. -/
inductive Tiles : List Char → List Char → List Scanned → Prop
  | done (before : List Char) : Tiles before [] [token (.behind before [] .eof)]
  | gap {before piece text : List Char} {items : List Scanned} (hgap : Lexeme.Gap piece text)
    (rest : Tiles (before ++ piece) text items) : Tiles before (piece ++ text) items
  | token {before piece text : List Char} {kind : TokenKind} {items : List Scanned}
    (hpiece : piece ≠ []) (hkind : kind.isEof = false)
    (hcontents : ∀ contents, kind = .string contents → piece = '"' :: (contents.toList ++ ['"']))
    (rest : Tiles (before ++ piece) text items) :
    Tiles before (piece ++ text) (token (.behind before piece kind) :: items)
  | fault {before piece passed text : List Char} {items : List Scanned} (cause : LexicalFault)
    (hpiece : piece ≠ []) (hpassed : ∀ c ∈ passed, isResumePoint c = false)
    (hresume : ∀ c ∈ text.head?, isResumePoint c = true)
    (rest : Tiles (before ++ piece ++ passed) text items) :
    Tiles before (piece ++ (passed ++ text)) (fault cause (.behind before piece .unknown) :: items)

theorem lineFeeds_of_passed {passed : List Char} (h : ∀ c ∈ passed, isResumePoint c = false) :
    Text.lineFeeds passed = 0 := by
  refine List.count_eq_zero.mpr fun hmem => ?_
  have hfalse := h '\n' hmem
  cases hfalse

/-- With a piece for each character the scanner comes to the end of the text. -/
theorem tiles_ofChars (fuel : Nat) (before text : List Char) (hfuel : text.length ≤ fuel) :
    Tiles before text
      (ofChars fuel (Text.byteLength before) (1 + Text.lineFeeds before) text) := by
  induction fuel generalizing before text with
  | zero =>
    obtain rfl : text = [] := List.length_eq_zero_iff.mp (Nat.le_zero.mp hfuel)
    have hdone := Tiles.done before
    simpa [Token.behind, ofChars, Text.byteLength] using hdone
  | succ fuel ih =>
    cases text with
    | nil =>
      have hdone := Tiles.done before
      simpa [Token.behind, ofChars, Text.byteLength] using hdone
    | cons c cs =>
      have hparts := Lexeme.parts_read c cs
      have hshape := Lexeme.shape_read c cs
      rw [ofChars]
      generalize Lexeme.read c cs = lexeme at hparts hshape
      have hshorter : lexeme.rest.length ≤ fuel :=
        Nat.le_of_lt_succ (Nat.lt_of_lt_of_le hparts.length_rest_lt hfuel)
      obtain ⟨htext, hpiece⟩ := hparts
      obtain ⟨kind, taken, rest⟩ := lexeme
      dsimp only at htext hpiece hshorter ⊢
      have hrest := ih (before ++ taken) rest hshorter
      rw [← htext]
      cases kind with
      | skipped =>
        refine .gap (hshape.skipped rfl) ?_
        simpa only [Text.byteLength_append, Text.lineFeeds_append, Nat.add_assoc] using hrest
      | token kind =>
        have htoken := Tiles.token hpiece (hshape.isEof rfl)
          (fun contents hkind => hshape.contents (congrArg LexemeKind.token hkind)) hrest
        simpa only [Token.behind, Text.byteLength_append, Text.lineFeeds_append, Nat.add_assoc]
          using htoken
      | malformed cause =>
        have hpassed : ∀ c ∈ rest.takeWhile (fun c => !isResumePoint c),
            isResumePoint c = false := fun c hc => by
          simpa using List.all_eq_true.mp List.all_takeWhile _ hc
        have hresume : ∀ c ∈ (rest.dropWhile fun c => !isResumePoint c).head?,
            isResumePoint c = true := fun c hc => by
          have hhead := List.head?_dropWhile_not (fun c => !isResumePoint c) rest
          rw [show (rest.dropWhile fun c => !isResumePoint c).head? = some c from hc] at hhead
          simpa using hhead
        have hbehind := ih (before ++ taken ++ rest.takeWhile fun c => !isResumePoint c)
          (rest.dropWhile fun c => !isResumePoint c)
          (Nat.le_trans (List.dropWhile_suffix _).length_le hshorter)
        have hfault := Tiles.fault cause hpiece hpassed hresume hbehind
        rw [List.takeWhile_append_dropWhile] at hfault
        simpa only [Token.behind, Text.byteLength_append, Text.lineFeeds_append, Nat.add_assoc,
          lineFeeds_of_passed hpassed, Nat.add_zero] using hfault

/-! ## Offsets -/

/-- An item lies in a text, at or behind an offset. -/
inductive Lies (cs : List Char) (low : Nat) (item : Scanned) : Prop
  | intro (front piece behind : List Char) (text : cs = front ++ (piece ++ behind))
    (low : low ≤ Text.byteLength front)
    (located : item.located = .behind front piece item.located.kind)
    (contents : ∀ contents, item.located.kind = .string contents →
      piece = '"' :: (contents.toList ++ ['"']))

namespace Lies

variable {cs : List Char} {low : Nat} {item : Scanned}

theorem mono {low' : Nat} (h : Lies cs low item) (hlow : low' ≤ low) : Lies cs low' item := by
  obtain ⟨front, piece, behind, htext, hfront, hlocated, hcontents⟩ := h
  exact ⟨front, piece, behind, htext, Nat.le_trans hlow hfront, hlocated, hcontents⟩

theorem start (h : Lies cs low item) : low ≤ item.located.span.start := by
  obtain ⟨front, piece, behind, -, hfront, hlocated, -⟩ := h
  rw [hlocated]
  exact hfront

theorem lexeme (h : Lies cs low item) :
    item.located.span.cut? cs = some item.located.lexeme.toList := by
  obtain ⟨front, piece, behind, htext, -, hlocated, -⟩ := h
  rw [hlocated, htext, Token.behind]
  simpa using Span.cut?_eq rfl rfl

theorem line (h : Lies cs low item) : ∃ before behind,
    Text.splitAtByte? item.located.span.stop cs = some (before, behind) ∧
      item.located.line = 1 + Text.lineFeeds before := by
  obtain ⟨front, piece, behind, htext, -, hlocated, -⟩ := h
  refine ⟨front ++ piece, behind, ?_, by rw [hlocated]; rfl⟩
  rw [hlocated, htext, ← List.append_assoc]
  simpa [Token.behind] using Text.splitAtByte?_byteLength (front ++ piece) behind

/-- A piece at the end of an item but for a few characters. -/
theorem cut?_inside (h : Lies cs low item) (lead trail : List Char) {piece : List Char}
    (hlexeme : item.located.lexeme.toList = lead ++ (piece ++ trail)) :
    Span.cut? ⟨item.located.span.start + Text.byteLength lead,
      item.located.span.stop - Text.byteLength trail⟩ cs = some piece := by
  obtain ⟨front, whole, behind, htext, -, hlocated, -⟩ := h
  rw [hlocated] at hlexeme ⊢
  obtain rfl : whole = lead ++ (piece ++ trail) := by simpa [Token.behind] using hlexeme
  have hassoc : cs = (front ++ lead) ++ (piece ++ (trail ++ behind)) := by
    rw [htext]
    simp only [List.append_assoc]
  rw [hassoc]
  refine Span.cut?_eq (Text.byteLength_append ..).symm ?_
  simp only [Token.behind, Text.byteLength_append]
  omega

theorem contents (h : Lies cs low item) {contents : String}
    (hkind : item.located.kind = .string contents) :
    Span.cut? ⟨item.located.span.start + 1, item.located.span.stop - 1⟩ cs =
      some contents.toList := by
  have hlexeme : item.located.lexeme.toList = ['"'] ++ (contents.toList ++ ['"']) := by
    obtain ⟨front, piece, behind, -, -, hlocated, hcontents⟩ := h
    rw [hlocated, Token.behind, String.toList_ofList, hcontents contents hkind]
    rfl
  have hcut := h.cut?_inside ['"'] ['"'] hlexeme
  have hquote : Text.byteLength ['"'] = 1 := rfl
  rwa [hquote] at hcut

theorem digits (h : Lies cs low item) {base : Base} {marker : Char} {digits : List Char}
    (hmarker : Base.ofMarker? marker = some base)
    (hlexeme : item.located.lexeme.toList = '0' :: marker :: digits) :
    Span.cut? ⟨item.located.span.start + 2, item.located.span.stop⟩ cs = some digits := by
  have hcut := h.cut?_inside ['0', marker] []
    (hlexeme.trans (by rw [List.append_nil]; rfl))
  have hlead : Text.byteLength ['0', marker] = 2 := by
    unfold Base.ofMarker? at hmarker
    split at hmarker
    all_goals first | rfl | cases hmarker
  rwa [hlead] at hcut

end Lies

theorem takeWhile_of_passed {passed text : List Char}
    (hpassed : ∀ c ∈ passed, isResumePoint c = false)
    (hresume : ∀ c ∈ text.head?, isResumePoint c = true) :
    (passed ++ text).takeWhile (fun c => !isResumePoint c) = passed := by
  rw [List.takeWhile_append_of_pos fun c hc => by simp [hpassed c hc]]
  cases text with
  | nil => simp
  | cons c text => simp [hresume c rfl]

theorem reach_fault (cause : LexicalFault) (before piece : List Char) {passed text : List Char}
    (hpassed : ∀ c ∈ passed, isResumePoint c = false)
    (hresume : ∀ c ∈ text.head?, isResumePoint c = true) :
    reach (before ++ (piece ++ (passed ++ text)))
      (fault cause (.behind before piece .unknown)) =
        Text.byteLength (before ++ piece ++ passed) := by
  have hsplit := Text.splitAtByte?_byteLength (before ++ piece) (passed ++ text)
  rw [Text.byteLength_append, List.append_assoc] at hsplit
  simp only [reach, Token.behind, hsplit, Option.map_some, Option.getD_some,
    takeWhile_of_passed hpassed hresume, Text.byteLength_append]

namespace Tiles

variable {before text : List Char} {items : List Scanned}

theorem lies (h : Tiles before text items) {item : Scanned} (hmem : item ∈ items) :
    Lies (before ++ text) (Text.byteLength before) item := by
  induction h with
  | done before =>
    obtain rfl := List.mem_singleton.mp hmem
    exact ⟨before, [], [], rfl, Nat.le_refl _, rfl, nofun⟩
  | gap hgap _ ih =>
    rw [← List.append_assoc]
    exact (ih hmem).mono (by rw [Text.byteLength_append]; exact Nat.le_add_right ..)
  | @token before piece text kind items _ _ hcontents _ ih =>
    rcases List.mem_cons.mp hmem with rfl | hmem
    · exact ⟨before, piece, text, rfl, Nat.le_refl _, rfl, hcontents⟩
    · rw [← List.append_assoc]
      exact (ih hmem).mono (by rw [Text.byteLength_append]; exact Nat.le_add_right ..)
  | @fault before piece passed text items cause _ _ _ _ ih =>
    rcases List.mem_cons.mp hmem with rfl | hmem
    · exact ⟨before, piece, passed ++ text, rfl, Nat.le_refl _, rfl, nofun⟩
    · rw [← List.append_assoc, ← List.append_assoc]
      refine (ih hmem).mono ?_
      simp only [Text.byteLength_append, Nat.add_assoc]
      exact Nat.le_add_right ..

theorem ordered (h : Tiles before text items) :
    items.Pairwise fun a b => a.located.span.stop ≤ b.located.span.start := by
  induction h with
  | done => exact List.pairwise_singleton ..
  | gap _ _ ih => exact ih
  | token _ _ _ rest ih =>
    refine List.pairwise_cons.mpr ⟨fun item hmem => ?_, ih⟩
    have hstart := (rest.lies hmem).start
    rwa [Text.byteLength_append] at hstart
  | fault _ _ _ _ rest ih =>
    refine List.pairwise_cons.mpr ⟨fun item hmem => ?_, ih⟩
    have hstart := (rest.lies hmem).start
    rw [Text.byteLength_append, Text.byteLength_append] at hstart
    exact Nat.le_trans (Nat.le_add_right ..) hstart

theorem ended (h : Tiles before text items) : ∃ front, items = front ++
      [.token ⟨.eof, "", 1 + Text.lineFeeds (before ++ text),
        ⟨Text.byteLength (before ++ text), Text.byteLength (before ++ text)⟩⟩] ∧
    ∀ item ∈ front, item.located.kind.isEof = false ∧
      item.located.span.start < item.located.span.stop := by
  induction h with
  | done before =>
    refine ⟨[], ?_, fun item hmem => absurd hmem List.not_mem_nil⟩
    simp [Token.behind, Text.byteLength]
  | gap _ _ ih =>
    rw [← List.append_assoc]
    exact ih
  | token hpiece hkind _ _ ih =>
    obtain ⟨front, hitems, hfront⟩ := ih
    rw [← List.append_assoc, hitems]
    refine ⟨_ :: front, rfl, fun item hmem => ?_⟩
    rcases List.mem_cons.mp hmem with rfl | hmem
    · exact ⟨hkind, Nat.lt_add_of_pos_right (Text.byteLength_pos hpiece)⟩
    · exact hfront item hmem
  | fault _ hpiece _ _ _ ih =>
    obtain ⟨front, hitems, hfront⟩ := ih
    rw [← List.append_assoc, ← List.append_assoc, hitems]
    refine ⟨_ :: front, rfl, fun item hmem => ?_⟩
    rcases List.mem_cons.mp hmem with rfl | hmem
    · exact ⟨rfl, Nat.lt_add_of_pos_right (Text.byteLength_pos hpiece)⟩
    · exact hfront item hmem

/-- The bytes from here on, when the items `past` have been passed. -/
theorem accounted (h : Tiles before text items) (past : List Scanned) {offset : Nat}
    (hpast : ∀ item ∈ past, item.reach (before ++ text) ≤ Text.byteLength before)
    (hlow : Text.byteLength before ≤ offset)
    (hhigh : offset < Text.byteLength (before ++ text)) :
    Accounted (before ++ text) (past ++ items) offset := by
  induction h generalizing past with
  | done before =>
    rw [List.append_nil] at hhigh
    exact absurd hhigh (Nat.not_lt.mpr hlow)
  | @gap before piece text items hgap rest ih =>
    by_cases hin : offset < Text.byteLength before + Text.byteLength piece
    · refine .gap before piece text rfl hgap hlow hin fun item hmem => ?_
      rcases List.mem_append.mp hmem with hmem | hmem
      · exact .inl (hpast item hmem)
      · have hstart := (rest.lies hmem).start
        rw [Text.byteLength_append] at hstart
        exact .inr hstart
    · rw [← List.append_assoc] at hpast hhigh ⊢
      refine ih _ (fun item hmem => ?_) ?_ hhigh
      · exact Nat.le_trans (hpast item hmem) (by simp)
      · rw [Text.byteLength_append]
        exact Nat.not_lt.mp hin
  | @token before piece text kind items hpiece hkind hcontents rest ih =>
    by_cases hin : offset < Text.byteLength before + Text.byteLength piece
    · exact .item _ (List.mem_append_right _ (List.mem_cons_self ..)) hlow hin
    · rw [← List.append_assoc] at hpast hhigh ⊢
      rw [List.append_cons]
      refine ih _ (fun item hmem => ?_) ?_ hhigh
      · rw [Text.byteLength_append]
        rcases List.mem_append.mp hmem with hmem | hmem
        · exact Nat.le_trans (hpast item hmem) (Nat.le_add_right ..)
        · obtain rfl := List.mem_singleton.mp hmem
          exact Nat.le_refl _
      · rw [Text.byteLength_append]
        exact Nat.not_lt.mp hin
  | @fault before piece passed text items cause hpiece hpassed hresume rest ih =>
    have hreach := reach_fault cause before piece hpassed hresume
    by_cases hin : offset < Text.byteLength (before ++ piece ++ passed)
    · exact .item _ (List.mem_append_right _ (List.mem_cons_self ..)) hlow (hreach ▸ hin)
    · rw [← List.append_assoc, ← List.append_assoc] at hpast hhigh hreach ⊢
      rw [List.append_cons]
      refine ih _ (fun item hmem => ?_) (Nat.not_lt.mp hin) hhigh
      rcases List.mem_append.mp hmem with hmem | hmem
      · exact Nat.le_trans (hpast item hmem) (by simp only [Text.byteLength_append]; omega)
      · obtain rfl := List.mem_singleton.mp hmem
        exact Nat.le_of_eq hreach

end Tiles

theorem tiles_ofSource (source : String) : Tiles [] source.toList (ofSource source) :=
  tiles_ofChars _ [] _ (Nat.le_refl _)

theorem lies_ofSource {source : String} {item : Scanned} (hmem : item ∈ ofSource source) :
    Lies source.toList 0 item := (tiles_ofSource source).lies hmem

/-- Different tokens of a source begin in different places, unless one is its end. -/
theorem eq_of_start {source : String} {t t' : Token} (ht : token t ∈ ofSource source)
    (ht' : token t' ∈ ofSource source) (hkind : t.kind.isEof = false) (hkind' : t'.kind.isEof = false)
    (hstart : t.span.start = t'.span.start) : t = t' := by
  obtain ⟨front, hitems, hfront⟩ := (tiles_ofSource source).ended
  have hmem {u : Token} (hu : token u ∈ ofSource source) (hkind : u.kind.isEof = false) :
      token u ∈ front := by
    rw [hitems] at hu
    rcases List.mem_append.mp hu with hu | hu
    · exact hu
    · cases List.mem_singleton.mp hu
      cases hkind
  have hordered := (tiles_ofSource source).ordered
  rw [hitems] at hordered
  have hplaces : front.Pairwise fun item other =>
      item.located.span.start ≠ other.located.span.start :=
    (List.pairwise_append.mp hordered).1.imp_of_mem fun hitem _ hle =>
      Nat.ne_of_lt (Nat.lt_of_lt_of_le (hfront _ hitem).2 hle)
  have hsymm : Std.Symm fun item other : Scanned =>
      item.located.span.start ≠ other.located.span.start := ⟨fun _ _ hne => hne.symm⟩
  by_contra hne
  exact hplaces.forall (hmem ht hkind) (hmem ht' hkind') (fun heq => hne (token.inj heq)) hstart

/-- The items that scanning finds tile the source. -/
theorem tiling_ofSource (source : String) : Tiling source (ofSource source) := by
  have htiles := tiles_ofSource source
  have hlies {item : Scanned} (hmem : item ∈ ofSource source) : Lies source.toList 0 item :=
    lies_ofSource hmem
  have hsize := Text.byteLength_toList source
  have hended := htiles.ended
  rw [List.nil_append, hsize] at hended
  exact {
    ordered := htiles.ordered
    lexeme := fun _ hmem => (hlies hmem).lexeme
    line := fun _ hmem => (hlies hmem).line
    accounted := fun _ hlt => htiles.accounted []
      (fun _ hmem => absurd hmem List.not_mem_nil) (Nat.zero_le _) (hsize ▸ hlt)
    ended := hended
    contents := fun _ _ hmem hkind => (hlies hmem).contents hkind
    digits := fun _ hmem _ _ _ hmarker hlexeme => (hlies hmem).digits hmarker hlexeme }

end Scanned

end LoxLang
