import WcashExplorer.Effects.Logic

/-! Two programs that get the same public answers, and any private ones. -/
namespace Effects

variable {S : Signature} {σ W α β γ δ : Type} {isPublic : S.Query → Bool} {R : α → β → Prop}

/-- The programs ask the same public questions in the same order, may each ask private ones in
between, and end in the same failure or in related results. -/
inductive Coupled (isPublic : S.Query → Bool) (R : α → β → Prop) : Prog S α → Prog S β → Prop
  | ret {a : α} {b : β} (h : R a b) : Coupled isPublic R (.ret a) (.ret b)
  | fail (e : S.Error) : Coupled isPublic R (.fail e) (.fail e)
  | ask {q : S.Query} {k : S.Answer q → Prog S α} {l : S.Answer q → Prog S β}
      (hq : isPublic q = true) (h : ∀ a, Coupled isPublic R (k a) (l a)) :
      Coupled isPublic R (.ask q k) (.ask q l)
  | left {q : S.Query} {k : S.Answer q → Prog S α} {p : Prog S β} (hq : isPublic q = false)
      (h : ∀ a, Coupled isPublic R (k a) p) : Coupled isPublic R (.ask q k) p
  | right {q : S.Query} {k : S.Answer q → Prog S β} {p : Prog S α} (hq : isPublic q = false)
      (h : ∀ a, Coupled isPublic R p (k a)) : Coupled isPublic R p (.ask q k)

namespace Coupled

theorem bind {T : γ → δ → Prop} {p : Prog S α} {q : Prog S β} {f : α → Prog S γ} {g : β → Prog S δ}
    (h : Coupled isPublic R p q) (hfg : ∀ a b, R a b → Coupled isPublic T (f a) (g b)) :
    Coupled isPublic T (p >>= f) (q >>= g) := by
  induction h with
  | ret h => exact hfg _ _ h
  | fail e => exact .fail e
  | ask hq _ ih => exact .ask hq ih
  | left hq _ ih => exact .left hq ih
  | right hq _ ih => exact .right hq ih

/-- A program with public questions only is coupled with itself. -/
theorem refl {p : Prog S α} (h : p.AsksOnly fun q => isPublic q = true) :
    Coupled isPublic Eq p p := by
  induction p with
  | ret a => exact .ret rfl
  | fail e => exact .fail e
  | ask q k ih => exact .ask h.1 fun a => ih a (h.2 a)
  | atomically t k ih => exact h.elim

theorem ofExcept {r : Except S.Error α} : Coupled isPublic Eq (Prog.ofExcept r) (.ofExcept r) := by
  cases r with
  | ok a => exact .ret rfl
  | error e => exact .fail e

end Coupled

/-- The program asks private questions only and does not fail; each result satisfies `P`. -/
def Prog.Private (isPublic : S.Query → Bool) (P : α → Prop) : Prog S α → Prop
  | .ret a => P a
  | .fail _ => False
  | .ask q k => isPublic q = false ∧ ∀ a, (k a).Private isPublic P
  | .atomically _ _ => False

section Private

variable {P : α → Prop} {Q : β → Prop}

theorem Prog.Private.bind {p : Prog S α} {f : α → Prog S β} (hp : p.Private isPublic P)
    (hf : ∀ a, P a → (f a).Private isPublic Q) : (p >>= f).Private isPublic Q := by
  induction p with
  | ret a => exact hf a hp
  | fail e => exact hp.elim
  | ask q k ih => exact ⟨hp.1, fun a => ih a (hp.2 a)⟩
  | atomically t k ih => exact hp.elim

/-- A handler that does not fail makes private questions private altogether. -/
theorem Prog.Private.handle {p : Prog S α} {h : S.Error → Prog S α}
    (hp : p.AsksOnly fun q => isPublic q = false) (hP : ∀ a, P a)
    (hh : ∀ e, (h e).Private isPublic P) : (p.handle h).Private isPublic P := by
  induction p with
  | ret a => exact hP a
  | fail e => exact hh e
  | ask q k ih => exact ⟨hp.1, fun a => ih a (hp.2 a)⟩
  | atomically t k ih => exact hp.elim

/-- Two private programs are coupled, whatever they ask. -/
theorem Prog.Private.coupled {p : Prog S α} {q : Prog S β} (hp : p.Private isPublic P)
    (hq : q.Private isPublic Q) : Coupled isPublic (fun a b => P a ∧ Q b) p q := by
  induction p with
  | ret a =>
    induction q with
    | ret b => exact .ret ⟨hp, hq⟩
    | fail e => exact hq.elim
    | ask r k ih => exact .right hq.1 fun b => ih b (hq.2 b)
    | atomically t k ih => exact hq.elim
  | fail e => exact hp.elim
  | ask r k ih => exact .left hp.1 fun a => ih a (hp.2 a)
  | atomically t k ih => exact hp.elim

end Private

/-- The public questions of a history, with their answers. -/
def publicPart (isPublic : S.Query → Bool) (tr : List (Event S W)) : List (Event S W) :=
  tr.filter fun
    | .asked q _ => isPublic q
    | .done _ _ _ => false

/-- The environments give the same answer to a public question after the same public history. -/
def AgreeOn (isPublic : S.Query → Bool) (E E' : Environment S W) : Prop :=
  ∀ tr tr', publicPart isPublic tr = publicPart isPublic tr' →
    ∀ q, isPublic q = true → E.answer tr q = E'.answer tr' q

theorem publicPart_append (tr tr' : List (Event S W)) :
    publicPart isPublic (tr ++ tr') = publicPart isPublic tr ++ publicPart isPublic tr' :=
  List.filter_append ..

theorem publicPart_private {tr : List (Event S W)} {q : S.Query} {a : S.Answer q}
    (hq : isPublic q = false) :
    publicPart isPublic (tr ++ [.asked q a]) = publicPart isPublic tr := by
  rw [publicPart_append]
  simp [publicPart, hq]

/-- Ends of coupled runs: the same failure, or related results. -/
def RelatedEnds (R : α → β → Prop) : Except S.Error α → Except S.Error β → Prop
  | .ok a, .ok b => R a b
  | .error e, .error e' => e = e'
  | _, _ => False

/-- Run against environments that agree in public, coupled programs end alike, with the same
public history and without a transaction. -/
theorem Coupled.runWith {E E' : Environment S W} {p : Prog S α} {p' : Prog S β}
    (h : Coupled isPublic R p p') (hE : AgreeOn isPublic E E') (exec exec' : Semantics S σ W)
    {tr tr' : List (Event S W)} (htr : publicPart isPublic tr = publicPart isPublic tr') (s s' : σ) :
    publicPart isPublic (p.runWith exec E tr s).1 =
        publicPart isPublic (p'.runWith exec' E' tr' s').1 ∧
      RelatedEnds R (p.runWith exec E tr s).2.1 (p'.runWith exec' E' tr' s').2.1 ∧
      (p.runWith exec E tr s).2.2 = s ∧ (p'.runWith exec' E' tr' s').2.2 = s' := by
  induction h generalizing tr tr' with
  | ret h => exact ⟨htr, h, rfl, rfl⟩
  | fail e => exact ⟨htr, rfl, rfl, rfl⟩
  | @ask q k l hq _ ih =>
    have hanswer := hE tr tr' htr q hq
    simp only [Prog.runWith, hanswer]
    refine ih _ ?_
    rw [publicPart_append, publicPart_append, htr]
  | @left q k p hq _ ih => exact ih _ ((publicPart_private hq).trans htr)
  | @right q k p hq _ ih => exact ih _ (htr.trans (publicPart_private hq).symm)

end Effects
