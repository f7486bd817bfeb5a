import WcashExplorer.Effects.Program

/-! Weakest preconditions for effect programs: every allowed answer, every clock reading. -/
namespace Effects

/-- What a proof about a program may assume and has to check: the answers the environment
may give, and what must hold of the past and the store wherever a transaction is issued. -/
structure Contract (S : Signature) (σ W : Type) where
  exec : Semantics S σ W
  allow : (q : S.Query) → S.Answer q → Prop
  check : List (Event S W) → σ → S.Txn → Prop

variable {S : Signature} {σ W α β : Type}

/-- A statement about a run's observations, its outcome and the final store. -/
abbrev Post (S : Signature) (σ W α : Type) : Type :=
  List (Event S W) → Except S.Error α → σ → Prop

namespace Prog

/-- From past `tr` and store `s`, every transaction of the program passes the contract's check,
and every way the program can end satisfies `Q`. -/
def Ensures (C : Contract S σ W) : Prog S α → Post S σ W α → List (Event S W) → σ → Prop
  | .ret a, Q, tr, s => Q tr (.ok a) s
  | .fail e, Q, tr, s => Q tr (.error e) s
  | .ask q k, Q, tr, s => ∀ a, C.allow q a → (k a).Ensures C Q (tr ++ [.asked q a]) s
  | .atomically t k, Q, tr, s => C.check tr s t ∧ ∀ w,
      (∀ r s', C.exec w t s = .ok (r, s') →
        (k (.ok r)).Ensures C Q (tr ++ [.done w t (.ok r)]) s') ∧
      (∀ e, C.exec w t s = .error e →
        (k (.error e)).Ensures C Q (tr ++ [.done w t (.error e)]) s)

variable {C : Contract S σ W} {Q R : Post S σ W α} {tr : List (Event S W)} {s : σ}

theorem Ensures.mono {p : Prog S α} (h : p.Ensures C Q tr s)
    (hQ : ∀ tr o s, Q tr o s → R tr o s) : p.Ensures C R tr s := by
  induction p generalizing tr s with
  | ret a => exact hQ _ _ _ h
  | fail e => exact hQ _ _ _ h
  | ask q k ih => exact fun a ha => ih a (h a ha)
  | atomically t k ih =>
    exact ⟨h.1, fun w => ⟨fun r s' hx => ih _ ((h.2 w).1 r s' hx),
      fun e hx => ih _ ((h.2 w).2 e hx)⟩⟩

/-- The rule of sequencing. -/
theorem ensures_bind {p : Prog S α} {f : α → Prog S β} {Q : Post S σ W β} :
    (p >>= f).Ensures C Q tr s ↔
      p.Ensures C (fun tr o s => match o with
        | .ok a => (f a).Ensures C Q tr s
        | .error e => Q tr (.error e) s) tr s := by
  induction p generalizing tr s with
  | ret a => exact Iff.rfl
  | fail e => exact Iff.rfl
  | ask q k ih => simp only [ask_bind, Ensures, ih]
  | atomically t k ih => simp only [atomically_bind, Ensures, ih]

/-- The rule of handlers. -/
theorem ensures_handle {p : Prog S α} {h : S.Error → Prog S α} :
    (p.handle h).Ensures C Q tr s ↔
      p.Ensures C (fun tr o s => match o with
        | .ok a => Q tr (.ok a) s
        | .error e => (h e).Ensures C Q tr s) tr s := by
  induction p generalizing tr s with
  | ret a => exact Iff.rfl
  | fail e => exact Iff.rfl
  | ask q k ih => simp only [handle, Ensures, ih]
  | atomically t k ih => simp only [handle, Ensures, ih]

/-- A proved specification is used under a `bind` by this rule. -/
theorem Ensures.bind {p : Prog S α} {f : α → Prog S β} {Q : Post S σ W α} {R : Post S σ W β}
    (hp : p.Ensures C Q tr s) (hok : ∀ tr a s, Q tr (.ok a) s → (f a).Ensures C R tr s)
    (herr : ∀ tr e s, Q tr (.error e) s → R tr (.error e) s) : (p >>= f).Ensures C R tr s := by
  refine ensures_bind.mpr (hp.mono ?_)
  intro tr o s hQ
  cases o with
  | ok a => exact hok tr a s hQ
  | error e => exact herr tr e s hQ

/-- Two specifications of one program hold together. -/
theorem Ensures.and {p : Prog S α} (h : p.Ensures C Q tr s) (h' : p.Ensures C R tr s) :
    p.Ensures C (fun tr o s => Q tr o s ∧ R tr o s) tr s := by
  induction p generalizing tr s with
  | ret a => exact ⟨h, h'⟩
  | fail e => exact ⟨h, h'⟩
  | ask q k ih => exact fun a ha => ih a (h a ha) (h' a ha)
  | atomically t k ih =>
    refine ⟨h.1, fun w => ⟨?_, ?_⟩⟩
    · intro r s' hx
      exact ih _ ((h.2 w).1 r s' hx) ((h'.2 w).1 r s' hx)
    · intro e hx
      exact ih _ ((h.2 w).2 e hx) ((h'.2 w).2 e hx)

/-- A statement about successful ends only. -/
def onOk (Q : List (Event S W) → α → σ → Prop) : Post S σ W α :=
  fun tr o s => ∀ a, o = .ok a → Q tr a s

section OnOk

variable {P : List (Event S W) → α → σ → Prop} {R : List (Event S W) → β → σ → Prop}

theorem Ensures.ret_onOk {a : α} (h : P tr a s) : (Prog.ret a).Ensures C (onOk P) tr s := by
  rintro b ⟨⟩
  exact h

theorem Ensures.fail_onOk {e : S.Error} : (Prog.fail e).Ensures C (onOk P) tr s := nofun

theorem Ensures.ofExcept_onOk {r : Except S.Error α} (h : ∀ a, r = .ok a → P tr a s) :
    (Prog.ofExcept r).Ensures C (onOk P) tr s := by
  cases r with
  | ok a => exact Ensures.ret_onOk (h a rfl)
  | error e => exact Ensures.fail_onOk

/-- A result at hand is unwrapped where it is used. -/
theorem Ensures.ofExcept_bind_onOk {r : Except S.Error α} {f : α → Prog S β}
    (h : ∀ a, r = .ok a → (f a).Ensures C (onOk R) tr s) :
    (Prog.ofExcept r >>= f).Ensures C (onOk R) tr s := by
  cases r with
  | ok a => exact h a rfl
  | error e => exact Ensures.fail_onOk

theorem Ensures.bind_onOk {p : Prog S α} {f : α → Prog S β} (hp : p.Ensures C (onOk P) tr s)
    (hf : ∀ tr a s, P tr a s → (f a).Ensures C (onOk R) tr s) :
    (p >>= f).Ensures C (onOk R) tr s :=
  ensures_bind.mpr (hp.mono fun tr o s hQ => by
    cases o with
    | ok a => exact hf tr a s (hQ a rfl)
    | error e => exact nofun)

end OnOk

/-- The program ends well, with a result and a store that satisfy `P`. -/
def succeeds (P : α → σ → Prop) : Post S σ W α := fun _ o s => ∃ a, o = .ok a ∧ P a s

section Succeeds

variable {P : α → σ → Prop}

/-- What follows a program that ends well starts from its result. -/
theorem Ensures.bind_succeeds {p : Prog S α} {f : α → Prog S β} {R : Post S σ W β}
    (hp : p.Ensures C (succeeds P) tr s) (hf : ∀ tr a s, P a s → (f a).Ensures C R tr s) :
    (p >>= f).Ensures C R tr s := by
  refine hp.bind ?_ ?_
  · rintro tr a s ⟨b, hab, hb⟩
    obtain rfl := Except.ok.inj hab
    exact hf tr a s hb
  · rintro tr e s ⟨b, hb, -⟩
    cases hb

theorem Ensures.ofExcept_bind {r : Except S.Error α} {f : α → Prog S β} {R : Post S σ W β} {a : α}
    (h : r = .ok a) (hf : (f a).Ensures C R tr s) : (Prog.ofExcept r >>= f).Ensures C R tr s := by
  subst h
  exact hf

/-- A transaction that is accepted at every time ends well. -/
theorem Ensures.txn_succeeds {t : S.Txn} {P : S.Result t → σ → Prop} (hc : C.check tr s t)
    (h : ∀ w, ∃ r s', C.exec w t s = .ok (r, s') ∧ P r s') :
    (Prog.txn t).Ensures C (succeeds P) tr s := by
  refine ⟨hc, fun w => ?_⟩
  obtain ⟨r, s', hx, hP⟩ := h w
  constructor
  · intro r' s'' hx'
    obtain ⟨rfl, rfl⟩ := Prod.mk.inj (Except.ok.inj (hx.symm.trans hx'))
    exact ⟨r, rfl, hP⟩
  · intro e hx'
    cases hx.symm.trans hx'

end Succeeds

theorem Ensures.ofExcept {r : Except S.Error α} (h : Q tr r s) :
    (Prog.ofExcept r).Ensures C Q tr s := by
  cases r <;> exact h

theorem Ensures.txn {t : S.Txn} {Q : Post S σ W (S.Result t)} (hc : C.check tr s t)
    (hok : ∀ w r s', C.exec w t s = .ok (r, s') → Q (tr ++ [.done w t (.ok r)]) (.ok r) s')
    (herr : ∀ w e, C.exec w t s = .error e → Q (tr ++ [.done w t (.error e)]) (.error e) s) :
    (Prog.txn t).Ensures C Q tr s :=
  ⟨hc, fun w => ⟨hok w, herr w⟩⟩

/-- The program issues no transaction, and asks only questions of one kind. -/
def AsksOnly (P : S.Query → Prop) : Prog S α → Prop
  | .ret _ => True
  | .fail _ => True
  | .ask q k => P q ∧ ∀ a, (k a).AsksOnly P
  | .atomically _ _ => False

section AsksOnly

variable {P P' : S.Query → Prop}

theorem AsksOnly.mono {p : Prog S α} (h : p.AsksOnly P) (hP : ∀ q, P q → P' q) :
    p.AsksOnly P' := by
  induction p with
  | ret a => exact trivial
  | fail e => exact trivial
  | ask q k ih => exact ⟨hP q h.1, fun a => ih a (h.2 a)⟩
  | atomically t k ih => exact h

theorem AsksOnly.bind {p : Prog S α} {f : α → Prog S β} (hp : p.AsksOnly P)
    (hf : ∀ a, (f a).AsksOnly P) : (p >>= f).AsksOnly P := by
  induction p with
  | ret a => exact hf a
  | fail e => exact trivial
  | ask q k ih => exact ⟨hp.1, fun a => ih a (hp.2 a)⟩
  | atomically t k ih => exact hp

theorem AsksOnly.handle {p : Prog S α} {h : S.Error → Prog S α} (hp : p.AsksOnly P)
    (hh : ∀ e, (h e).AsksOnly P) : (p.handle h).AsksOnly P := by
  induction p with
  | ret a => exact trivial
  | fail e => exact hh e
  | ask q k ih => exact ⟨hp.1, fun a => ih a (hp.2 a)⟩
  | atomically t k ih => exact hp

theorem AsksOnly.ofExcept {r : Except S.Error α} : (Prog.ofExcept r).AsksOnly P := by
  cases r <;> exact trivial

/-- A program that only asks leaves the store alone and adds only its questions to the past. -/
theorem AsksOnly.ensures {p : Prog S α} (h : p.AsksOnly P) : p.Ensures C (fun tr' _ s' =>
    s' = s ∧ ∃ seg, tr' = tr ++ seg ∧ ∀ ev ∈ seg, ∃ q a, ev = .asked q a ∧ P q) tr s := by
  induction p generalizing tr with
  | ret a => exact ⟨rfl, [], by simp⟩
  | fail e => exact ⟨rfl, [], by simp⟩
  | ask q k ih =>
    intro a _
    refine (ih a (h.2 a)).mono ?_
    rintro tr' o s' ⟨rfl, seg, rfl, hseg⟩
    refine ⟨rfl, .asked q a :: seg, by simp, ?_⟩
    intro ev hev
    rcases List.mem_cons.mp hev with rfl | hev
    · exact ⟨q, a, rfl, h.1⟩
    · exact hseg ev hev
  | atomically t k ih => exact h.elim

end AsksOnly

end Prog

/-- The environment kept to the allowed answers. -/
def Event.Allowed (C : Contract S σ W) : Event S W → Prop
  | .asked q a => C.allow q a
  | .done _ _ _ => True

namespace Prog

variable {C : Contract S σ W} {Q : Post S σ W α} {p p' : Prog S α} {s s' : σ}
  {tr tr' : List (Event S W)}

/-- One step leaves a proved specification proved. -/
theorem Ensures.step {ev : Event S W} (h : p.Ensures C Q tr s) (ha : ev.Allowed C)
    (hs : Step C.exec (p, s) ev (p', s')) : p'.Ensures C Q (tr ++ [ev]) s' := by
  cases hs with
  | ask a => exact h a ha
  | commit hx => exact (h.2 _).1 _ _ hx
  | rollback hx => exact (h.2 _).2 _ hx

/-- So does any run. -/
theorem Ensures.run (h : p.Ensures C Q tr s) (ha : ∀ ev ∈ tr', ev.Allowed C)
    (hr : Run C.exec (p, s) tr' (p', s')) : p'.Ensures C Q (tr ++ tr') s' := by
  generalize hc : (p, s) = c at hr
  generalize hd : (p', s') = d at hr
  induction hr generalizing p s tr with
  | refl c =>
    cases hc
    cases hd
    simpa using h
  | @step c d e ev tr' hs hr ih =>
    subst hc
    obtain ⟨q, u⟩ := d
    have hq := ih (h.step (ha ev (by simp)) hs) (fun e he => ha e (by simp [he])) rfl hd
    simpa using hq

/-- Whatever each checked transaction of a run preserves holds wherever the run stops. -/
theorem Ensures.invariant {I : σ → Prop} (h : p.Ensures C Q tr s)
    (hI : ∀ pre w t r s s', pre ++ [.done w t (.ok r)] <+: tr ++ tr' → C.check pre s t → I s →
      C.exec w t s = .ok (r, s') → I s')
    (ha : ∀ ev ∈ tr', ev.Allowed C) (hr : Run C.exec (p, s) tr' (p', s')) (hs : I s) : I s' := by
  generalize hc : (p, s) = c at hr
  generalize hd : (p', s') = d at hr
  induction hr generalizing p s tr with
  | refl c =>
    cases hc
    cases hd
    exact hs
  | @step c d e ev tr' hst hr ih =>
    subst hc
    obtain ⟨q, u⟩ := d
    have hassoc : tr ++ ev :: tr' = tr ++ [ev] ++ tr' := by simp
    rw [hassoc] at hI
    refine ih (h.step (ha ev (by simp)) hst) hI (fun e he => ha e (by simp [he])) ?_ rfl hd
    cases hst with
    | ask a => exact hs
    | commit hx => exact hI _ _ _ _ _ _ (List.prefix_append _ _) h.1 hs hx
    | rollback hx => exact hs

/-- Running to the end against an environment that keeps to the allowed answers. -/
theorem Ensures.runWith {env : Environment S W} (h : p.Ensures C Q tr s)
    (ha : ∀ tr q, C.allow q (env.answer tr q)) :
    Q (p.runWith C.exec env tr s).1 (p.runWith C.exec env tr s).2.1
      (p.runWith C.exec env tr s).2.2 := by
  induction p generalizing tr s with
  | ret a => exact h
  | fail e => exact h
  | ask q k ih => exact ih _ (h _ (ha tr q))
  | atomically t k ih =>
    cases hx : C.exec (env.clock tr) t s with
    | ok rs =>
      obtain ⟨r, s'⟩ := rs
      simpa only [Prog.runWith, hx] using ih _ ((h.2 _).1 r s' hx)
    | error e => simpa only [Prog.runWith, hx] using ih _ ((h.2 _).2 e hx)

end Prog

/-- The contract that assumes of the answers just that one environment gives them. -/
def Environment.contract (env : Environment S W) (exec : Semantics S σ W) : Contract S σ W where
  exec
  allow := fun q a => ∃ tr, a = env.answer tr q
  check := fun _ _ _ => True

/-- What a program ensures under an environment's contract holds of its run against it. -/
theorem Prog.Ensures.against {env : Environment S W} {exec : Semantics S σ W} {p : Prog S α}
    {Q : Post S σ W α} {tr : List (Event S W)} {s : σ} (h : p.Ensures (env.contract exec) Q tr s) :
    Q (p.runWith exec env tr s).1 (p.runWith exec env tr s).2.1 (p.runWith exec env tr s).2.2 :=
  h.runWith fun tr _ => ⟨tr, rfl⟩

end Effects
