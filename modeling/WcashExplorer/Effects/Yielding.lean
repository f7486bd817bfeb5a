import WcashExplorer.Effects.Program

/-! What a program issues and returns whatever it is answered. -/
namespace Effects

variable {S : Signature} {σ W α β : Type}

namespace Prog

/-- Every transaction of the program satisfies `Q` and every result of it satisfies `R`, for all
answers and all outcomes of its transactions. -/
def Yields (Q : S.Txn → Prop) : Prog S α → (α → Prop) → Prop
  | .ret a, R => R a
  | .fail _, _ => True
  | .ask _ k, R => ∀ a, (k a).Yields Q R
  | .atomically t k, R => Q t ∧ ∀ r, (k r).Yields Q R

variable {Q Q' : S.Txn → Prop} {R R' : α → Prop}

theorem Yields.bind {p : Prog S α} {f : α → Prog S β} {R' : β → Prop} (hp : p.Yields Q R)
    (hf : ∀ a, R a → (f a).Yields Q R') : (p >>= f).Yields Q R' := by
  induction p with
  | ret a => exact hf a hp
  | fail e => exact trivial
  | ask q k ih => exact fun a => ih a (hp a)
  | atomically t k ih => exact ⟨hp.1, fun r => ih r (hp.2 r)⟩

theorem Yields.handle {p : Prog S α} {h : S.Error → Prog S α} (hp : p.Yields Q R)
    (hh : ∀ e, (h e).Yields Q R) : (p.handle h).Yields Q R := by
  induction p with
  | ret a => exact hp
  | fail e => exact hh e
  | ask q k ih => exact fun a => ih a (hp a)
  | atomically t k ih => exact ⟨hp.1, fun r => ih r (hp.2 r)⟩

theorem Yields.ofExcept {r : Except S.Error α} (h : ∀ a, r = .ok a → R a) :
    (Prog.ofExcept r).Yields Q R := by
  cases r with
  | ok a => exact h a rfl
  | error e => exact trivial

theorem Yields.txn {t : S.Txn} {R : S.Result t → Prop} (ht : Q t) (h : ∀ r, R r) :
    (Prog.txn t).Yields Q R :=
  ⟨ht, fun _ => Yields.ofExcept fun a _ => h a⟩

variable {exec : Semantics S σ W} {p p' : Prog S α} {s s' : σ} {tr : List (Event S W)}

/-- In every run of the program only such transactions happen. -/
theorem Yields.run (h : p.Yields Q R) (hr : Run exec (p, s) tr (p', s')) :
    p'.Yields Q R ∧ ∀ w t r, .done w t r ∈ tr → Q t := by
  generalize hc : (p, s) = c at hr
  generalize hd : (p', s') = d at hr
  induction hr generalizing p s with
  | refl c =>
    cases hc
    cases hd
    exact ⟨h, by simp⟩
  | @step c d e ev tr hs hr ih =>
    subst hc
    obtain ⟨q, u⟩ := d
    cases hs with
    | ask a =>
      obtain ⟨hp', htr⟩ := ih (h a) rfl hd
      refine ⟨hp', fun w t r hmem => ?_⟩
      rcases List.mem_cons.mp hmem with he | hmem
      · cases he
      · exact htr w t r hmem
    | commit hx =>
      obtain ⟨hp', htr⟩ := ih (h.2 _) rfl hd
      refine ⟨hp', fun w t r hmem => ?_⟩
      rcases List.mem_cons.mp hmem with he | hmem
      · cases he
        exact h.1
      · exact htr w t r hmem
    | rollback hx =>
      obtain ⟨hp', htr⟩ := ih (h.2 _) rfl hd
      refine ⟨hp', fun w t r hmem => ?_⟩
      rcases List.mem_cons.mp hmem with he | hmem
      · cases he
        exact h.1
      · exact htr w t r hmem

end Prog

end Effects
