import Mathlib.Data.List.Basic

/-! Programs that question an environment and issue atomic transactions on a shared store. -/
namespace Effects

/-- What a program may ask, which transactions it may issue, and how it may fail. -/
structure Signature where
  Query : Type
  Answer : Query → Type
  Txn : Type
  Result : Txn → Type
  Error : Type

/-- A program as the tree of its possible interactions. A transaction that is rolled back
hands its error to the program, which may still handle it. -/
inductive Prog (S : Signature) (α : Type) : Type
  | ret (a : α)
  | fail (e : S.Error)
  | ask (q : S.Query) (k : S.Answer q → Prog S α)
  | atomically (t : S.Txn) (k : Except S.Error (S.Result t) → Prog S α)

/-- One observable interaction; `w` is what the store read from outside (its clock). -/
inductive Event (S : Signature) (W : Type) : Type
  | asked (q : S.Query) (a : S.Answer q)
  | done (w : W) (t : S.Txn) (r : Except S.Error (S.Result t))

/-- What a transaction does to the store; a rolled-back one leaves it as it was. -/
abbrev Semantics (S : Signature) (σ W : Type) : Type :=
  W → (t : S.Txn) → σ → Except S.Error (S.Result t × σ)

variable {S : Signature} {σ W α β : Type}

namespace Prog

def bind : Prog S α → (α → Prog S β) → Prog S β
  | .ret a, f => f a
  | .fail e, _ => .fail e
  | .ask q k, f => .ask q fun a => bind (k a) f
  | .atomically t k, f => .atomically t fun r => bind (k r) f

/-- Runs the handler where the program fails. -/
def handle : Prog S α → (S.Error → Prog S α) → Prog S α
  | .ret a, _ => .ret a
  | .fail e, h => h e
  | .ask q k, h => .ask q fun a => handle (k a) h
  | .atomically t k, h => .atomically t fun r => handle (k r) h

instance : Monad (Prog S) where
  pure := .ret
  bind := bind

def ofExcept : Except S.Error α → Prog S α
  | .ok a => .ret a
  | .error e => .fail e

/-- Asks a question and continues with its answer. -/
def query (q : S.Query) : Prog S (S.Answer q) := .ask q .ret

/-- Issues a transaction whose failure fails the program. -/
def txn (t : S.Txn) : Prog S (S.Result t) := .atomically t ofExcept

@[simp] theorem pure_eq (a : α) : (pure a : Prog S α) = .ret a := rfl

@[simp] theorem ret_bind (a : α) (f : α → Prog S β) : (Prog.ret a >>= f) = f a := rfl

@[simp] theorem fail_bind (e : S.Error) (f : α → Prog S β) : (Prog.fail e >>= f) = .fail e := rfl

@[simp] theorem ask_bind (q : S.Query) (k : S.Answer q → Prog S α) (f : α → Prog S β) :
    (Prog.ask q k >>= f) = .ask q fun a => k a >>= f := rfl

@[simp] theorem atomically_bind (t : S.Txn) (k : Except S.Error (S.Result t) → Prog S α)
    (f : α → Prog S β) :
    (Prog.atomically t k >>= f) = .atomically t fun r => k r >>= f := rfl

@[simp] theorem ofExcept_ok (a : α) : (ofExcept (.ok a) : Prog S α) = .ret a := rfl

@[simp] theorem ofExcept_error (e : S.Error) : (ofExcept (.error e) : Prog S α) = .fail e := rfl

theorem bind_assoc {γ : Type} (p : Prog S α) (f : α → Prog S β) (g : β → Prog S γ) :
    (p >>= f) >>= g = p >>= fun a => f a >>= g := by
  induction p with
  | ret a => rfl
  | fail e => rfl
  | ask q k ih => exact congrArg (Prog.ask q) (funext ih)
  | atomically t k ih => exact congrArg (Prog.atomically t) (funext ih)

end Prog

/-- One interaction of a program with its environment and the store. -/
inductive Step (exec : Semantics S σ W) : Prog S α × σ → Event S W → Prog S α × σ → Prop
  | ask {q : S.Query} {k : S.Answer q → Prog S α} {s : σ} (a : S.Answer q) :
      Step exec (.ask q k, s) (.asked q a) (k a, s)
  | commit {t : S.Txn} {k : Except S.Error (S.Result t) → Prog S α} {s s' : σ} {w : W}
      {r : S.Result t} (h : exec w t s = .ok (r, s')) :
      Step exec (.atomically t k, s) (.done w t (.ok r)) (k (.ok r), s')
  | rollback {t : S.Txn} {k : Except S.Error (S.Result t) → Prog S α} {s : σ} {w : W}
      {e : S.Error} (h : exec w t s = .error e) :
      Step exec (.atomically t k, s) (.done w t (.error e)) (k (.error e), s)

/-- A finite run with its observations. It may stop anywhere, so every prefix is a run. -/
inductive Run (exec : Semantics S σ W) :
    Prog S α × σ → List (Event S W) → Prog S α × σ → Prop
  | refl (c : Prog S α × σ) : Run exec c [] c
  | step {c d e : Prog S α × σ} {ev : Event S W} {tr : List (Event S W)}
      (h : Step exec c ev d) (hr : Run exec d tr e) : Run exec c (ev :: tr) e

/-- An environment answers questions and sets the store's clock, knowing the whole past. -/
structure Environment (S : Signature) (W : Type) where
  answer : List (Event S W) → (q : S.Query) → S.Answer q
  clock : List (Event S W) → W

/-- Runs a program to its end against an environment. -/
def Prog.runWith (exec : Semantics S σ W) (env : Environment S W) :
    Prog S α → List (Event S W) → σ → List (Event S W) × Except S.Error α × σ
  | .ret a, tr, s => (tr, .ok a, s)
  | .fail e, tr, s => (tr, .error e, s)
  | .ask q k, tr, s =>
      let a := env.answer tr q
      (k a).runWith exec env (tr ++ [.asked q a]) s
  | .atomically t k, tr, s =>
      let w := env.clock tr
      match exec w t s with
      | .ok (r, s') => (k (.ok r)).runWith exec env (tr ++ [.done w t (.ok r)]) s'
      | .error e => (k (.error e)).runWith exec env (tr ++ [.done w t (.error e)]) s

/-- A sequence runs its parts one after the other. -/
theorem Prog.runWith_bind {exec : Semantics S σ W} {env : Environment S W} (p : Prog S α)
    (f : α → Prog S β) (tr : List (Event S W)) (s : σ) :
    (p >>= f).runWith exec env tr s = match p.runWith exec env tr s with
      | (tr', .ok a, s') => (f a).runWith exec env tr' s'
      | (tr', .error e, s') => (tr', .error e, s') := by
  induction p generalizing tr s with
  | ret a => rfl
  | fail e => rfl
  | ask q k ih => exact ih _ _ _
  | atomically t k ih =>
    simp only [atomically_bind, runWith]
    cases exec (env.clock tr) t s with
    | ok rs => exact ih _ _ _
    | error e => exact ih _ _ _

theorem Prog.runWith_txn (exec : Semantics S σ W) (env : Environment S W) (t : S.Txn)
    (tr : List (Event S W)) (s : σ) :
    (Prog.txn t).runWith exec env tr s = match exec (env.clock tr) t s with
      | .ok (r, s') => (tr ++ [.done (env.clock tr) t (.ok r)], .ok r, s')
      | .error e => (tr ++ [.done (env.clock tr) t (.error e)], .error e, s) := by
  simp only [txn, runWith]
  split <;> rfl

/-- Every program runs to its end, whatever the environment does. -/
theorem Prog.runWith_run (exec : Semantics S σ W) (env : Environment S W) (p : Prog S α)
    (tr : List (Event S W)) (s : σ) :
    ∃ tr', (p.runWith exec env tr s).1 = tr ++ tr' ∧
      Run exec (p, s) tr' (ofExcept (p.runWith exec env tr s).2.1, (p.runWith exec env tr s).2.2) := by
  induction p generalizing tr s with
  | ret a => exact ⟨[], by simp [runWith], .refl _⟩
  | fail e => exact ⟨[], by simp [runWith], .refl _⟩
  | ask q k ih =>
    obtain ⟨tr', htr, hrun⟩ := ih (env.answer tr q) (tr ++ [.asked q (env.answer tr q)]) s
    exact ⟨.asked q (env.answer tr q) :: tr', by simp [runWith, htr], .step (.ask _) hrun⟩
  | atomically t k ih =>
    cases hx : exec (env.clock tr) t s with
    | ok rs =>
      obtain ⟨r, s'⟩ := rs
      obtain ⟨tr', htr, hrun⟩ := ih (.ok r) (tr ++ [.done (env.clock tr) t (.ok r)]) s'
      refine ⟨.done (env.clock tr) t (.ok r) :: tr', by simp [runWith, hx, htr], ?_⟩
      simpa only [runWith, hx] using Run.step (.commit hx) hrun
    | error e =>
      obtain ⟨tr', htr, hrun⟩ := ih (.error e) (tr ++ [.done (env.clock tr) t (.error e)]) s
      refine ⟨.done (env.clock tr) t (.error e) :: tr', by simp [runWith, hx, htr], ?_⟩
      simpa only [runWith, hx] using Run.step (.rollback hx) hrun

end Effects
