import WcashExplorer.Effects.Logic
import WcashExplorer.Effects.Yielding

/-! What a program issues and returns, from the answers it is given. -/
namespace Effects

variable {S : Signature} {σ W α β : Type}

namespace Prog

/-- Given answers of some kind only, every transaction of the program satisfies `Q` and every result
of it satisfies `R`. -/
def YieldsGiven (allow : (q : S.Query) → S.Answer q → Prop) (Q : S.Txn → Prop) :
    Prog S α → (α → Prop) → Prop
  | .ret a, R => R a
  | .fail _, _ => True
  | .ask q k, R => ∀ a, allow q a → (k a).YieldsGiven allow Q R
  | .atomically t k, R => Q t ∧ ∀ r, (k r).YieldsGiven allow Q R

variable {allow : (q : S.Query) → S.Answer q → Prop} {P : S.Query → Prop} {Q : S.Txn → Prop}
  {R : α → Prop}

theorem YieldsGiven.bind {p : Prog S α} {f : α → Prog S β} {R' : β → Prop}
    (hp : p.YieldsGiven allow Q R) (hf : ∀ a, R a → (f a).YieldsGiven allow Q R') :
    (p >>= f).YieldsGiven allow Q R' := by
  induction p with
  | ret a => exact hf a hp
  | fail e => exact trivial
  | ask q k ih => exact fun a ha => ih a (hp a ha)
  | atomically t k ih => exact ⟨hp.1, fun r => ih r (hp.2 r)⟩

theorem YieldsGiven.handle {p : Prog S α} {h : S.Error → Prog S α} (hp : p.YieldsGiven allow Q R)
    (hh : ∀ e, (h e).YieldsGiven allow Q R) : (p.handle h).YieldsGiven allow Q R := by
  induction p with
  | ret a => exact hp
  | fail e => exact hh e
  | ask q k ih => exact fun a ha => ih a (hp a ha)
  | atomically t k ih => exact ⟨hp.1, fun r => ih r (hp.2 r)⟩

theorem YieldsGiven.ofExcept {r : Except S.Error α} (h : ∀ a, r = .ok a → R a) :
    (Prog.ofExcept r).YieldsGiven allow Q R := by
  cases r with
  | ok a => exact h a rfl
  | error e => exact trivial

theorem YieldsGiven.txn {t : S.Txn} (ht : Q t) :
    (Prog.txn t).YieldsGiven allow Q fun _ => True :=
  ⟨ht, fun _ => YieldsGiven.ofExcept fun _ _ => trivial⟩

/-- A program that only asks issues nothing. -/
theorem AsksOnly.yieldsGiven {p : Prog S α} (h : p.AsksOnly P) :
    p.YieldsGiven allow Q fun _ => True := by
  induction p with
  | ret a => exact trivial
  | fail e => exact trivial
  | ask q k ih => exact fun a _ => ih a (h.2 a)
  | atomically t k ih => exact h.elim

variable {exec : Semantics S σ W} {p p' : Prog S α} {s s' : σ} {tr : List (Event S W)}

/-- The transactions of a run satisfy what the program yields from the answers in it. -/
theorem YieldsGiven.run (h : p.YieldsGiven allow Q R) (hr : Run exec (p, s) tr (p', s'))
    (hallow : ∀ q a, .asked q a ∈ tr → allow q a) : ∀ w t r, .done w t r ∈ tr → Q t := by
  generalize hc : (p, s) = c at hr
  generalize hd : (p', s') = d at hr
  induction hr generalizing p s with
  | refl c => simp
  | @step c d e ev tr hs hr ih =>
    subst hc
    obtain ⟨q, u⟩ := d
    have hlater : ∀ q a, .asked q a ∈ tr → allow q a := fun q a hmem =>
      hallow q a (List.mem_cons_of_mem _ hmem)
    intro w t r hmem
    cases hs with
    | ask a =>
      rcases List.mem_cons.mp hmem with he | hmem
      · cases he
      · exact ih (h a (hallow _ a List.mem_cons_self)) hlater rfl hd w t r hmem
    | commit hx =>
      rcases List.mem_cons.mp hmem with he | hmem
      · cases he
        exact h.1
      · exact ih (h.2 _) hlater rfl hd w t r hmem
    | rollback hx =>
      rcases List.mem_cons.mp hmem with he | hmem
      · cases he
        exact h.1
      · exact ih (h.2 _) hlater rfl hd w t r hmem

end Prog

end Effects
