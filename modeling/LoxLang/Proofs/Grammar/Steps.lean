import LoxLang.Proofs.Conduct
import LoxLang.Proofs.Grammar.Attempt

/-!
# Steps on tokens

The laws of the steps that all rules of the grammar are made of, for steps that keep to a conduct: a
token that is taken if it is wanted, and something that is read only behind a mark or without one.
-/

namespace LoxLang

variable {c : Conduct ParseStop ParseState} {α : Type} {act : Parse α} {s : ParseState}

namespace Conduct.From

open Parse

/-- The next token is taken if it is wanted. -/
theorem accept? {wanted : TokenKind → Bool} {Q : Option Token → ParseState → Prop}
    (hnone : Q none s)
    (hsome : ∀ t, s.next? = some t → wanted t.kind = true →
      c.good s → c.keeps s s.advance ∧ Q (some t) s.advance) :
    c.From (Parse.accept? wanted) s Q := by
  refine .assuming fun hs => .get ?_
  cases hnext : s.next? with
  | none => exact .pure hnone
  | some t =>
    refine .ite (fun hwanted => ?_) fun _ => .pure hnone
    exact fun _ => hsome t hnext hwanted hs

theorem readUnless {absent : Parse Bool} {found : Bool → ParseState → Prop}
    {Q : Option α → ParseState → Prop} (habsent : c.From absent s found)
    (hread : ∀ t, c.keeps s t → found false t → c.From act t fun a => Q (some a))
    (hnone : ∀ t, c.keeps s t → found true t → Q none t) :
    c.From (Parse.readUnless absent act) s Q := by
  refine habsent.bind fun isAbsent t hkeeps _ hfound => ?_
  cases isAbsent with
  | true => exact .pure (hnone t hkeeps hfound)
  | false => exact (hread t hkeeps hfound).bind fun a u _ _ ha => .pure ha

theorem readIf {present : Parse Bool} {found : Bool → ParseState → Prop}
    {Q : Option α → ParseState → Prop} (hpresent : c.From present s found)
    (hread : ∀ t, c.keeps s t → found true t → c.From act t fun a => Q (some a))
    (hnone : ∀ t, c.keeps s t → found false t → Q none t) :
    c.From (Parse.readIf present act) s Q := by
  refine hpresent.bind fun isPresent t hkeeps _ hfound => ?_
  cases isPresent with
  | true => exact (hread t hkeeps hfound).bind fun a u _ _ ha => .pure ha
  | false => exact .pure (hnone t hkeeps hfound)

/-- A declaration at a prompt, and the second attempt at it where the first one fails. What is given
up in the end is the first attempt, but for the numbers that the second one has used. -/
theorem interactiveDeclaration {fuel : Nat} {Q : Stmt → ParseState → Prop}
    (hfirst : c.From (declaration fuel false) s Q)
    (hagain : ∀ failed, c.keeps s failed → c.keeps s (again s failed))
    (hsecond : ∀ failed, c.keeps s failed → c.From (expressionAgain fuel) (again s failed) Q)
    (hback : ∀ failed after, c.keeps s failed → c.keeps (again s failed) after →
      c.keeps s { failed with nextId := after.nextId }) :
    c.From (Parse.interactiveDeclaration fuel) s Q := by
  intro hs
  have hattempted := interactiveDeclaration_attempted fuel s
  generalize Parse.interactiveDeclaration fuel s = result at hattempted ⊢
  cases hattempted with
  | declared first => exact hfirst.ok hs first
  | stuck first => exact hfirst.error hs first
  | @printed _ failed _ _ first second =>
    have hfailed := (hfirst.error hs first).1
    have hretried := hagain failed hfailed
    obtain ⟨hkeeps, hQ⟩ := (hsecond failed hfailed).ok (c.stays hretried hs) second
    exact ⟨c.trans hretried hkeeps, hQ⟩
  | @stuckAgain _ failed _ first second =>
    have hfailed := (hfirst.error hs first).1
    have hretried := hagain failed hfailed
    obtain ⟨hkeeps, hstops⟩ := (hsecond failed hfailed).error (c.stays hretried hs) second
    exact ⟨c.trans hretried hkeeps, hstops⟩
  | @refused _ failed _ after first second =>
    obtain ⟨hfailed, hstops⟩ := hfirst.error hs first
    have hretried := hagain failed hfailed
    have hkeeps := ((hsecond failed hfailed).error (c.stays hretried hs) second).1
    exact ⟨hback failed after hfailed hkeeps, hstops⟩

end Conduct.From

namespace Conduct.Always

variable {P : α → Prop} {Q : Option α → Prop} {found : Bool → Prop}

theorem readUnless {absent : Parse Bool} (habsent : c.Always absent found) (h : c.Always act P)
    (hnone : Q none) (hsome : ∀ a, P a → Q (some a)) : c.Always (Parse.readUnless absent act) Q :=
  fun s => .readUnless (habsent s) (fun t _ _ => (h t).imp fun a _ _ => hsome a) fun _ _ _ => hnone

theorem readIf {present : Parse Bool} (hpresent : c.Always present found) (h : c.Always act P)
    (hnone : Q none) (hsome : ∀ a, P a → Q (some a)) : c.Always (Parse.readIf present act) Q :=
  fun s => .readIf (hpresent s) (fun t _ _ => (h t).imp fun a _ _ => hsome a) fun _ _ _ => hnone

end Conduct.Always

end LoxLang
