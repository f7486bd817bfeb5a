import WcashExplorer.Api.AddressActivity
import WcashExplorer.Api.AddressPage
import WcashExplorer.Api.AddressStats
import WcashExplorer.Api.SamePages

/-! What one chain pays and spends is the same, whatever else the store holds. -/
namespace WcashExplorer

open Relational

variable {networkId : Text} {network : NetworkProfile} {db db' : Db} {c : CanonicalRow}
  {xs : List CanonicalRow} {now : Timestamp} {y z : ChainOutput}

section Casts

variable {α β ρ σ : Type} {R : ρ → σ → Prop} {rows : List ρ} {rows' : List σ}

theorem bind_congr_eq {r r' : Result α} {k k' : α → Result β} (hr : r = r')
    (hk : ∀ a, k a = k' a) : r >>= k = r' >>= k' := by
  subst hr
  exact congrArg _ (funext hk)

/-- A cast fails for both selections or for none. -/
theorem castBigint_bind_eq {column : ρ → Int} {column' : σ → Int} {k : List ρ → Result β}
    {k' : List σ → Result β} (h : Similar R rows rows')
    (hcolumn : ∀ r s, R r s → column r = column' s) (hk : k rows = k' rows') :
    castBigint column rows >>= k = castBigint column' rows' >>= k' := by
  have hcolumns := h.perm_map hcolumn
  have hfits : (∀ r ∈ rows, InBigint (column r)) ↔ ∀ s ∈ rows', InBigint (column' s) := by
    rw [← List.forall_mem_map (f := column), ← List.forall_mem_map (f := column')]
    exact ⟨fun hall z hz => hall z (hcolumns.mem_iff.mpr hz),
      fun hall z hz => hall z (hcolumns.mem_iff.mp hz)⟩
  unfold castBigint
  by_cases hall : ∀ r ∈ rows, InBigint (column r)
  · rw [if_pos hall, if_pos (hfits.mp hall)]
    exact hk
  · rw [if_neg hall, if_neg (fun hall' => hall (hfits.mpr hall'))]
    rfl

end Casts

section Owned

/-- Two outputs look the same, and so do the transactions that make them. -/
structure SameOutput (db db' : Db) (y z : ChainOutput) : Prop where
  maker : SameView db db' y.maker z.maker
  output : y.output.anonymous = z.output.anonymous

namespace SameOutput

variable (h : SameOutput db db' y z)

include h

theorem outpoint : y.outpoint = z.outpoint := by
  rw [ChainOutput.outpoint, ChainOutput.outpoint, h.maker.stored.txid,
    (TransparentOutputRow.columns h.output).1]

theorem value : y.value = z.value := (TransparentOutputRow.columns h.output).2.1

theorem paid : y.output.address = z.output.address :=
  (TransparentOutputRow.columns h.output).2.2.1

end SameOutput

theorem prevout_eq {i j : TransparentInputRow} (h : i.anonymous = j.anonymous) :
    i.prevout = j.prevout := by
  obtain ⟨-, htxid, hindex, -⟩ := TransparentInputRow.columns h
  rw [TransparentInputRow.prevout, TransparentInputRow.prevout, htxid, hindex]

theorem SameChain.owned (h : SameChain networkId db db' xs) (address : Text) :
    Similar (SameOutput db db') (ownedOutputs db networkId address)
      (ownedOutputs db' networkId address) := by
  refine (h.outputs.mono fun y z hyz => (⟨hyz.1, hyz.2⟩ : SameOutput db db' y z)).filter ?_
  intro y z hyz
  rw [hyz.paid]

theorem SameChain.ownedSpends (h : SameChain networkId db db' xs) (address : Text) :
    Similar (fun s t => SameOutput db db' s.1 t.1 ∧ s.2.selector ∈ canonicalRows db networkId ∧
        s.2.selector = t.2.selector ∧ s.2.placement.txPosition = t.2.placement.txPosition)
      (WcashExplorer.ownedSpends db networkId address)
      (WcashExplorer.ownedSpends db' networkId address) := by
  refine ((h.owned address).join h.spends ?_).mono ?_
  · rintro y z i j hyz ⟨-, -, -, hinput⟩
    rw [prevout_eq hinput, hyz.outpoint]
  · rintro s t ⟨hyz, hmem, hselector, hposition, -⟩
    exact ⟨hyz, hmem, hselector, hposition⟩

theorem SameChain.eventKeys_perm (h : SameChain networkId db db' xs) (address : Text) :
    (eventKeys db networkId address).Perm (eventKeys db' networkId address) := by
  refine List.Perm.dedup (List.Perm.append ?_ ?_)
  · refine (h.owned address).perm_map fun y z hyz => ?_
    rw [eventKey, eventKey, hyz.maker.selector, hyz.maker.position, hyz.maker.blockTime]
  · refine Similar.perm ((h.ownedSpends address).filterMap ?_)
    rintro ⟨y, i⟩ ⟨z, j⟩ ⟨-, hc, hselector, hposition⟩
    obtain ⟨b, b', hb, hb', hshown⟩ := h.header hc
    have htime : b.shown.blockTime = b'.shown.blockTime := congrArg _ hshown
    dsimp only at hselector hposition hb ⊢
    rw [← hselector, hb, hb']
    change b.blockTime = b'.blockTime at htime
    simp only [Option.map_some, eventKey, hposition, htime]
    exact .some rfl

end Owned

section Balance

theorem sumWhere_same {p q : ChainOutput → Bool} {rows rows' : List ChainOutput}
    (h : Similar (SameOutput db db') rows rows') (hp : ∀ y z, SameOutput db db' y z → p y = q z) :
    sumWhere p rows = sumWhere q rows' :=
  (h.filter hp).sum_eq fun _ _ hyz => hyz.value

end Balance

section Activity

theorem SameView.activityKey {x y : ChainTransaction} (h : SameView db db' x y) :
    x.activityKey = y.activityKey := by
  have hcolumns := h.stored.columns
  simp only [TransactionInstanceRow.anonymous, TransactionInstanceRow.mk.injEq] at hcolumns
  simp only [ChainTransaction.activityKey, h.selector, h.position, h.blockTime, hcolumns]

theorem SameChain.ownedSpenders (h : SameChain networkId db db' xs) (address : Text) :
    Similar (fun s t => SameOutput db db' s.1 t.1 ∧ SameView db db' s.2.spender t.2.spender)
      (WcashExplorer.ownedSpenders db networkId address)
      (WcashExplorer.ownedSpenders db' networkId address) := by
  refine ((h.owned address).join h.inputs ?_).mono ?_
  · rintro y z i j hyz ⟨-, hinput⟩
    rw [prevout_eq hinput, hyz.outpoint]
  · rintro s t ⟨hyz, hspender, -⟩
    exact ⟨hyz, hspender⟩

end Activity

end WcashExplorer
