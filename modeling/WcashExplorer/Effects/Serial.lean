import Mathlib.Logic.Relation
import WcashExplorer.Effects.Interleaving

/-! Work done one piece at a time on a store that is also moved from outside. -/
namespace Effects

open Relation

variable {S : Signature} {σ W α ι : Type} {P : S.Txn → Prop} {exec : Semantics S σ W}

/-- The transactions of a kind do the same before a move of the store as after it. -/
def Commutes (exec : Semantics S σ W) (P : S.Txn → Prop) (f : σ → σ) : Prop :=
  ∀ w t s, P t → exec w t (f s) = (fun rs => (rs.1, f rs.2)) <$> exec w t s

section Move

variable {f : σ → σ} {p p' : Prog S α} {s s' : σ} {ev : Event S W} {tr : List (Event S W)}

theorem Step.move (hf : Commutes exec P f) (hp : p.Issues P)
    (h : Step exec (p, s) ev (p', s')) : Step exec (p, f s) ev (p', f s') := by
  cases h with
  | ask a => exact .ask a
  | commit hx =>
    refine .commit ?_
    rw [hf _ _ _ hp.1, hx]
    rfl
  | rollback hx =>
    refine .rollback ?_
    rw [hf _ _ _ hp.1, hx]
    rfl

/-- A run is moved along with its store. -/
theorem Run.move (hf : Commutes exec P f) (hp : p.Issues P)
    (h : Run exec (p, s) tr (p', s')) : Run exec (p, f s) tr (p', f s') := by
  generalize hc : (p, s) = c at h
  generalize hd : (p', s') = d at h
  induction h generalizing p s with
  | refl c =>
    cases hc
    cases hd
    exact .refl _
  | @step c d e ev tr hs hr ih =>
    subst hc
    obtain ⟨q, u⟩ := d
    exact .step (hs.move hf hp) (ih (hp.step hs) rfl hd)

/-- A run of two programs in sequence to a value is a run of the first to a value and one of the
second from there. -/
theorem Run.of_bind {β : Type} {p : Prog S α} {f : α → Prog S β} {b : β} {s s' : σ}
    {tr : List (Event S W)} (h : Run exec (p >>= f, s) tr (.ret b, s')) :
    ∃ a tr₁ tr₂ u, tr = tr₁ ++ tr₂ ∧ Run exec (p, s) tr₁ (.ret a, u) ∧
      Run exec (f a, u) tr₂ (.ret b, s') := by
  induction p generalizing s tr with
  | ret a => exact ⟨a, [], tr, s, rfl, .refl _, h⟩
  | fail e =>
    cases h with
    | step hs _ => cases hs
  | ask q k ih =>
    cases h with
    | step hs hr =>
      cases hs with
      | ask answer =>
        obtain ⟨a, tr₁, tr₂, u, rfl, hfirst, hrest⟩ := ih answer hr
        exact ⟨a, _ :: tr₁, tr₂, u, rfl, .step (.ask answer) hfirst, hrest⟩
  | atomically t k ih =>
    cases h with
    | step hs hr =>
      cases hs with
      | commit hx =>
        obtain ⟨a, tr₁, tr₂, u, rfl, hfirst, hrest⟩ := ih _ hr
        exact ⟨a, _ :: tr₁, tr₂, u, rfl, .step (.commit hx) hfirst, hrest⟩
      | rollback hx =>
        obtain ⟨a, tr₁, tr₂, u, rfl, hfirst, hrest⟩ := ih _ hr
        exact ⟨a, _ :: tr₁, tr₂, u, rfl, .step (.rollback hx) hfirst, hrest⟩

theorem Run.trans {c d e : Prog S α × σ} {tr' : List (Event S W)} (h : Run exec c tr d)
    (h' : Run exec d tr' e) : Run exec c (tr ++ tr') e := by
  induction h with
  | refl c => exact h'
  | step hs _ ih => exact .step hs (ih h')

/-- A run of the first of two programs is one of both in sequence. -/
theorem Run.bind {β : Type} {p p' : Prog S α} {s s' : σ} (f : α → Prog S β)
    (h : Run exec (p, s) tr (p', s')) : Run exec (p >>= f, s) tr (p' >>= f, s') := by
  generalize hc : (p, s) = c at h
  generalize hd : (p', s') = d at h
  induction h generalizing p s with
  | refl c =>
    cases hc
    cases hd
    exact .refl _
  | @step c d e ev tr hs hr ih =>
    subst hc
    obtain ⟨q, u⟩ := d
    refine .step ?_ (ih rfl hd)
    cases hs with
    | ask a => exact .ask a
    | commit hx => exact .commit hx
    | rollback hx => exact .rollback hx

theorem Run.andThen {β : Type} {p : Prog S α} {f : α → Prog S β} {a : α} {s u : σ}
    {c : Prog S β × σ} {tr' : List (Event S W)} (h : Run exec (p, s) tr (.ret a, u))
    (h' : Run exec (f a, u) tr' c) : Run exec (p >>= f, s) (tr ++ tr') c :=
  (h.bind f).trans h'

/-- A run of a program is one of the program under a handler. -/
theorem Run.handle {p p' : Prog S α} {s s' : σ} (f : S.Error → Prog S α)
    (h : Run exec (p, s) tr (p', s')) : Run exec (p.handle f, s) tr (p'.handle f, s') := by
  generalize hc : (p, s) = c at h
  generalize hd : (p', s') = d at h
  induction h generalizing p s with
  | refl c =>
    cases hc
    cases hd
    exact .refl _
  | @step c d e ev tr hs hr ih =>
    subst hc
    obtain ⟨q, u⟩ := d
    refine .step ?_ (ih rfl hd)
    cases hs with
    | ask a => exact .ask a
    | commit hx => exact .commit hx
    | rollback hx => exact .rollback hx

theorem Run.of_ret {a b : α} {s s' : σ} (h : Run exec (.ret a, s) tr (.ret b, s')) :
    tr = [] ∧ b = a ∧ s' = s := by
  cases h with
  | refl => exact ⟨rfl, rfl, rfl⟩
  | step hs _ => cases hs

/-- A transaction whose failure fails the program has been committed where the program ended. -/
theorem Run.of_txn {t : S.Txn} {r : S.Result t} {s s' : σ}
    {tr : List (Event S W)} (h : Run exec (Prog.txn t, s) tr (.ret r, s')) :
    ∃ w, tr = [.done w t (.ok r)] ∧ exec w t s = .ok (r, s') := by
  cases h with
  | step hs hr =>
    cases hs with
    | commit hx =>
      cases hr with
      | refl => exact ⟨_, rfl, hx⟩
      | step hs _ => cases hs
    | rollback hx =>
      cases hr with
      | step hs _ => cases hs

/-- What an environment answers is what a run against it has been answered. -/
theorem Prog.runWith_asked {env : Environment S W} {allow : ∀ q, S.Answer q → Prop}
    (henv : ∀ tr q, allow q (env.answer tr q)) {p : Prog S α} {tr : List (Event S W)} {s : σ}
    (htr : ∀ q a, .asked q a ∈ tr → allow q a) :
    ∀ q a, .asked q a ∈ (p.runWith exec env tr s).1 → allow q a := by
  induction p generalizing tr s with
  | ret a => exact htr
  | fail e => exact htr
  | ask q k ih =>
    refine ih _ ?_
    intro q' a' h
    rcases List.mem_append.mp h with h | h
    · exact htr q' a' h
    · cases List.mem_singleton.mp h
      exact henv tr q
  | atomically t k ih =>
    have hdone : ∀ w r, ∀ q a, .asked q a ∈ tr ++ [.done w t r] → allow q a := by
      intro w r q a h
      rcases List.mem_append.mp h with h | h
      · exact htr q a h
      · cases List.mem_singleton.mp h
    simp only [Prog.runWith]
    split
    · exact ih _ (hdone _ _)
    · exact ih _ (hdone _ _)

theorem Run.snoc {c d e : Prog S α × σ} (h : Run exec c tr d) (hs : Step exec d ev e) :
    Run exec c (tr ++ [ev]) e := by
  induction h with
  | refl c => exact .step hs (.refl _)
  | step hfirst _ ih => exact .step hfirst (ih hs)

/-- What every transaction of a kind preserves holds wherever a run stops. -/
theorem Run.invariant {I : σ → Prop} (hp : p.Issues P)
    (hI : ∀ w t r s s', P t → exec w t s = .ok (r, s') → I s → I s')
    (h : Run exec (p, s) tr (p', s')) (hs : I s) : I s' := by
  generalize hc : (p, s) = c at h
  generalize hd : (p', s') = d at h
  induction h generalizing p s with
  | refl c =>
    cases hc
    cases hd
    exact hs
  | @step c d e ev tr hstep hr ih =>
    subst hc
    obtain ⟨q, u⟩ := d
    refine ih (hp.step hstep) ?_ rfl hd
    cases hstep with
    | ask a => exact hs
    | commit hx => exact hI _ _ _ _ _ hp.1 hx hs
    | rollback hx => exact hs

end Move

section Next

/-- A program's next interaction with an environment, if it has one. -/
def Prog.next (exec : Semantics S σ W) (env : Environment S W) (past : List (Event S W)) :
    Prog S α → σ → Option (Event S W × Prog S α × σ)
  | .ret _, _ => none
  | .fail _, _ => none
  | .ask q k, s => some (.asked q (env.answer past q), k (env.answer past q), s)
  | .atomically t k, s =>
    match exec (env.clock past) t s with
    | .ok (r, s') => some (.done (env.clock past) t (.ok r), k (.ok r), s')
    | .error e => some (.done (env.clock past) t (.error e), k (.error e), s)

theorem Prog.next_step {env : Environment S W} {past : List (Event S W)} {p p' : Prog S α}
    {s s' : σ} {ev : Event S W} (h : p.next exec env past s = some (ev, p', s')) :
    Step exec (p, s) ev (p', s') := by
  cases p with
  | ret a => cases h
  | fail e => cases h
  | ask q k =>
    cases h
    exact .ask _
  | atomically t k =>
    simp only [Prog.next] at h
    split at h
    · rename_i hx
      cases h
      exact .commit hx
    · rename_i hx
      cases h
      exact .rollback hx

end Next

variable {work : ι → Prog S α} {entitled : ι → σ → Prop} {outside : (σ → σ) → Prop}

/-- One turn: one piece of work from where it may start to wherever it stops, or a move of the
store from outside. -/
inductive Turn (exec : Semantics S σ W) (work : ι → Prog S α) (entitled : ι → σ → Prop)
    (outside : (σ → σ) → Prop) : σ → σ → Prop
  | work {i : ι} {s s' : σ} {tr : List (Event S W)} {rest : Prog S α} (start : entitled i s)
      (run : Run exec (work i, s) tr (rest, s')) : Turn exec work entitled outside s s'
  | move {f : σ → σ} {s : σ} (h : outside f) : Turn exec work entitled outside s (f s)

/-- The second store is reached from the first one turn at a time. -/
abbrev Serial (exec : Semantics S σ W) (work : ι → Prog S α) (entitled : ι → σ → Prop)
    (outside : (σ → σ) → Prop) : σ → σ → Prop :=
  ReflTransGen (Turn exec work entitled outside)

/-- A piece of work is under way: the turns before it were taken one at a time, and the rest of
it is what a run from there has left. -/
def Underway (exec : Semantics S σ W) (work : ι → Prog S α) (entitled : ι → σ → Prop)
    (outside : (σ → σ) → Prop) (first : σ) (i : ι) (rest : Prog S α) (s : σ) : Prop :=
  ∃ start tr, Serial exec work entitled outside first start ∧ entitled i start ∧
    Run exec (work i, start) tr (rest, s)

namespace Underway

variable {first s s' : σ} {i : ι} {p p' : Prog S α} {ev : Event S W}

theorem begin (h : Serial exec work entitled outside first s) (hi : entitled i s) :
    Underway exec work entitled outside first i (work i) s := ⟨s, [], h, hi, .refl _⟩

theorem step (h : Underway exec work entitled outside first i p s)
    (hs : Step exec (p, s) ev (p', s')) :
    Underway exec work entitled outside first i p' s' := by
  obtain ⟨start, tr, hserial, hi, hrun⟩ := h
  exact ⟨start, tr ++ [ev], hserial, hi, hrun.snoc hs⟩

/-- A store with work under way is serial: the work may as well have stopped. -/
theorem serial (h : Underway exec work entitled outside first i p s) :
    Serial exec work entitled outside first s := by
  obtain ⟨start, tr, hserial, hi, hrun⟩ := h
  exact hserial.tail (.work hi hrun)

/-- A move that commutes with the work may as well have come before it. -/
theorem move {f : σ → σ} (h : Underway exec work entitled outside first i p s) (hf : outside f)
    (hcomm : Commutes exec P f) (hissues : (work i).Issues P)
    (hkeeps : ∀ s, entitled i s → entitled i (f s)) :
    Underway exec work entitled outside first i p (f s) := by
  obtain ⟨start, tr, hserial, hi, hrun⟩ := h
  exact ⟨f start, tr, hserial.tail (.move hf), hkeeps start hi, hrun.move hcomm hissues⟩

end Underway

/-- What every turn keeps holds of every serial store. -/
theorem Serial.invariant {I : σ → Prop} {first s : σ}
    (h : Serial exec work entitled outside first s)
    (hI : ∀ s s', Turn exec work entitled outside s s' → I s → I s') (hfirst : I first) : I s := by
  induction h with
  | refl => exact hfirst
  | tail _ hturn ih => exact hI _ _ hturn ih

end Effects
