import Mathlib.Logic.Function.Basic
import WcashExplorer.Effects.Logic

/-! Several programs on one store, their interactions interleaved in any order. -/
namespace Effects

variable {S : Signature} {σ W α β ι : Type} {P Q : S.Txn → Prop}

namespace Prog

/-- Every transaction the program can ever issue satisfies `P`. -/
def Issues (P : S.Txn → Prop) : Prog S α → Prop
  | .ret _ => True
  | .fail _ => True
  | .ask _ k => ∀ a, (k a).Issues P
  | .atomically t k => P t ∧ ∀ r, (k r).Issues P

theorem Issues.bind {p : Prog S α} {f : α → Prog S β} (hp : p.Issues P)
    (hf : ∀ a, (f a).Issues P) : (p >>= f).Issues P := by
  induction p with
  | ret a => exact hf a
  | fail e => exact trivial
  | ask q k ih => exact fun a => ih a (hp a)
  | atomically t k ih => exact ⟨hp.1, fun r => ih r (hp.2 r)⟩

theorem Issues.handle {p : Prog S α} {h : S.Error → Prog S α} (hp : p.Issues P)
    (hh : ∀ e, (h e).Issues P) : (p.handle h).Issues P := by
  induction p with
  | ret a => exact trivial
  | fail e => exact hh e
  | ask q k ih => exact fun a => ih a (hp a)
  | atomically t k ih => exact ⟨hp.1, fun r => ih r (hp.2 r)⟩

theorem Issues.ofExcept {r : Except S.Error α} : (Prog.ofExcept r).Issues P := by
  cases r <;> exact trivial

theorem Issues.txn {t : S.Txn} (h : P t) : (Prog.txn t).Issues P :=
  ⟨h, fun _ => Issues.ofExcept⟩

theorem Issues.mono {p : Prog S α} (hp : p.Issues P) (hPQ : ∀ t, P t → Q t) : p.Issues Q := by
  induction p with
  | ret a => exact trivial
  | fail e => exact trivial
  | ask q k ih => exact fun a => ih a (hp a)
  | atomically t k ih => exact ⟨hPQ t hp.1, fun r => ih r (hp.2 r)⟩

theorem AsksOnly.issues {R : S.Query → Prop} {p : Prog S α} (hp : p.AsksOnly R) : p.Issues P := by
  induction p with
  | ret a => exact trivial
  | fail e => exact trivial
  | ask q k ih => exact fun a => ih a (hp.2 a)
  | atomically t k ih => exact hp.elim

/-- One step leaves a program that issues no more than before. -/
theorem Issues.step {exec : Semantics S σ W} {p p' : Prog S α} {s s' : σ} {ev : Event S W}
    (hp : p.Issues P) (h : Step exec (p, s) ev (p', s')) : p'.Issues P := by
  cases h with
  | ask a => exact hp a
  | commit _ => exact hp.2 _
  | rollback _ => exact hp.2 _

end Prog

variable [DecidableEq ι]

/-- A run of several programs in which every interaction passes the guard in the state it finds.
It may stop anywhere, and a program may be left alone for good. -/
inductive Interleaved (exec : Semantics S σ W) (guard : σ → Event S W → Prop) :
    (ι → Prog S α) × σ → List (ι × Event S W) → (ι → Prog S α) × σ → Prop
  | refl (c : (ι → Prog S α) × σ) : Interleaved exec guard c [] c
  | step {ps : ι → Prog S α} {s s' : σ} {p : Prog S α} {i : ι} {ev : Event S W}
      {tr : List (ι × Event S W)} {d : (ι → Prog S α) × σ}
      (h : Step exec (ps i, s) ev (p, s')) (pass : guard s ev)
      (hr : Interleaved exec guard (Function.update ps i p, s') tr d) :
      Interleaved exec guard (ps, s) ((i, ev) :: tr) d

/-- What every guarded transaction of the programs preserves holds wherever the run stops. -/
theorem Interleaved.invariant {exec : Semantics S σ W} {guard : σ → Event S W → Prop} {I : σ → Prop}
    {ps ps' : ι → Prog S α} {s s' : σ} {tr : List (ι × Event S W)}
    (run : Interleaved exec guard (ps, s) tr (ps', s')) (hps : ∀ i, (ps i).Issues P)
    (hI : ∀ w t r s s', P t → guard s (.done w t (.ok r)) → exec w t s = .ok (r, s') → I s → I s')
    (hs : I s) : I s' := by
  generalize hc : (ps, s) = c at run
  generalize hd : (ps', s') = d at run
  induction run generalizing ps s with
  | refl c =>
    cases hc
    cases hd
    exact hs
  | @step qs u u' p i ev tr d h pass hr ih =>
    cases hc
    have hp := (hps i).step h
    refine ih ?_ ?_ rfl hd
    · intro j
      by_cases hj : j = i
      · subst hj
        rwa [Function.update_self]
      · rw [Function.update_of_ne hj]
        exact hps j
    · have hi := hps i
      generalize qs i = q at h hi
      cases h with
      | ask a => exact hs
      | rollback hx => exact hs
      | commit hx => exact hI _ _ _ _ _ hi.1 pass hx hs

/-- Lets programs interact in a scheduled order, each against its own environment. A turn whose
program has finished, or whose interaction the guard refuses, is skipped. -/
def interleave (exec : Semantics S σ W) (guard : σ → Event S W → Bool) (env : ι → Environment S W) :
    List ι → (ι → Prog S α) → (ι → List (Event S W)) → σ → (ι → Prog S α) × σ
  | [], ps, _, s => (ps, s)
  | i :: schedule, ps, past, s =>
    let move := fun ev p s' =>
      if guard s ev then interleave exec guard env schedule (Function.update ps i p)
        (Function.update past i (past i ++ [ev])) s'
      else interleave exec guard env schedule ps past s
    match ps i with
    | .ret _ => interleave exec guard env schedule ps past s
    | .fail _ => interleave exec guard env schedule ps past s
    | .ask q k =>
      let a := (env i).answer (past i) q
      move (.asked q a) (k a) s
    | .atomically t k =>
      let w := (env i).clock (past i)
      match exec w t s with
      | .ok (r, s') => move (.done w t (.ok r)) (k (.ok r)) s'
      | .error e => move (.done w t (.error e)) (k (.error e)) s

/-- Every schedule gives a run. -/
theorem interleave_interleaved (exec : Semantics S σ W) (guard : σ → Event S W → Bool)
    (env : ι → Environment S W) (schedule : List ι) (ps : ι → Prog S α)
    (past : ι → List (Event S W)) (s : σ) :
    ∃ tr, Interleaved exec (fun s ev => guard s ev = true) (ps, s) tr
      (interleave exec guard env schedule ps past s) := by
  induction schedule generalizing ps past s with
  | nil => exact ⟨[], .refl _⟩
  | cons i schedule ih =>
    have hskip := ih ps past s
    have hmove : ∀ ev p s', Step exec (ps i, s) ev (p, s') →
        ∃ tr, Interleaved exec (fun s ev => guard s ev = true) (ps, s) tr
          (if guard s ev then interleave exec guard env schedule (Function.update ps i p)
            (Function.update past i (past i ++ [ev])) s'
          else interleave exec guard env schedule ps past s) := by
      intro ev p s' hstep
      by_cases hg : guard s ev = true
      · obtain ⟨tr, htr⟩ := ih (Function.update ps i p) (Function.update past i (past i ++ [ev])) s'
        rw [if_pos hg]
        exact ⟨_, .step hstep hg htr⟩
      · rw [if_neg hg]
        exact hskip
    simp only [interleave]
    cases hp : ps i with
    | ret a => exact hskip
    | fail e => exact hskip
    | ask q k => exact hmove _ _ _ (hp ▸ Step.ask _)
    | atomically t k =>
      dsimp only
      cases hx : exec ((env i).clock (past i)) t s with
      | ok rs => exact hmove _ _ _ (hp ▸ Step.commit hx)
      | error e => exact hmove _ _ _ (hp ▸ Step.rollback hx)

end Effects
