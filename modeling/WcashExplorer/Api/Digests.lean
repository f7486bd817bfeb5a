import WcashExplorer.Api.Summary
import WcashExplorer.Db.Instances

/-! Instance ids and digests: what they identify, and how the API labels them. -/
namespace WcashExplorer

open Effects Relational

variable {lib : AuxPowCrate} {start db : Db} {log : List DbCall} {P : Db → DbCall → Prop}

/-- Accepted transactions get one instance id exactly if they have one identity; the rows of the
older formats have no authorization digest, and the instance digest of a row is presented as one
only where every transaction that received the row carried it. -/
theorem instances_identified (hempty : NoBlocks start) (h : Calls lib P start log db)
    (hcollision : Set.InjOn lib.sha256 (hashInputs log)) :
    (∀ call ∈ log, ∀ b ∈ call.blocks, ∀ t ∈ b.block.tx, ∃ id, Received lib log db t id) ∧
    (∀ t t' id id', Received lib log db t id → Received lib log db t' id' →
      (id = id' ↔ SameIdentity t t')) ∧
    (∀ r ∈ db.transactionInstances.rows, r.version < 5 → r.authDigest = none) ∧
    ∀ (network : NetworkProfile) (x : ChainTransaction) (row : TransactionSummaryRow),
      x.stored ∈ db.transactionInstances.rows → transactionSummaryRow db x = .ok row →
      (TransactionSummary.fromRow network row).instanceDigestKind = .consensusAuthDigest →
      (∃ t, Received lib log db t x.stored.transactionInstanceId) ∧
      ∀ t, Received lib log db t x.stored.transactionInstanceId →
        t.authdigest = some (TransactionSummary.fromRow network row).instanceDigest := by
  have ha := h.accounted hempty
  refine ⟨fun call hcall b hb t ht => ha.received hcall hb ht, ?_, ?_, ?_⟩
  · intro t t' id id' hreceived hreceived'
    refine (ha.storedAs hreceived).id_eq_iff ha.sound.facts.instances ?_ (ha.storedAs hreceived')
    intro x x' hx hx' hold hold' hsame
    obtain ⟨call, hcall, b, hb, i, ht, -⟩ := hreceived
    obtain ⟨call', hcall', b', hb', i', ht', -⟩ := hreceived'
    have hinput : rawTxHashDomain ++ x ∈ hashInputs log :=
      ⟨call, hcall, b, hb, t, List.mem_of_getElem? ht, hold, x, hx, rfl⟩
    have hinput' : rawTxHashDomain ++ x' ∈ hashInputs log :=
      ⟨call', hcall', b', hb', t', List.mem_of_getElem? ht', hold', x', hx', rfl⟩
    exact List.append_cancel_left (hcollision hinput hinput' hsame)
  · intro r hr hversion
    obtain ⟨t, -, hidentified⟩ := ha.row_received hr
    exact (hidentified.legacy (hidentified.version ▸ hversion)).1
  · intro network x row hx hrow hkind
    simp only [transactionSummaryRow, Result.bind_eq_ok] at hrow
    obtain ⟨value, -, hrow⟩ := hrow
    cases hrow
    have hversion : 5 ≤ x.stored.version := by
      by_contra hold
      simp [TransactionSummary.fromRow, hold] at hkind
    obtain ⟨t, hreceived, -⟩ := ha.row_received hx
    exact ⟨⟨t, hreceived⟩, fun t ht => ha.received_identity ht hx hversion⟩

section Sample

/-- The txid of the sample transaction in a format with an authorization digest. -/
def sampleModern : RpcTransaction :=
  { sampleTransaction [sampleCoinbase] with version := 5, authdigest := some (sampleHash 'd') }

def sampleModernCommit : DbCall :=
  .commitBlock sampleNetwork (sampleIndexed 1 '1' (some '0') [sampleModern])

def sampleModernStore : Db :=
  stateAfter sampleCrate { now := 0 }
    (stateAfter sampleCrate { now := 0 } (initialDb sampleNetwork) sampleGenesisCommit)
    sampleModernCommit

/-- Two formats of one txid are stored apart. -/
theorem instances_identified_modern : ∃ id id',
    Received sampleCrate [sampleGenesisCommit, sampleModernCommit] sampleModernStore
      (sampleTransaction [sampleCoinbase]) id ∧
    Received sampleCrate [sampleGenesisCommit, sampleModernCommit] sampleModernStore
      sampleModern id' ∧ id ≠ id' := by
  have h₁ : Calls sampleCrate (fun _ _ => True) (initialDb sampleNetwork) [sampleGenesisCommit] _ :=
    (Calls.nil _).next (w := { now := 0 }) trivial (by decide +kernel)
  have hrun : Calls sampleCrate (fun _ _ => True) (initialDb sampleNetwork)
      [sampleGenesisCommit, sampleModernCommit] sampleModernStore :=
    h₁.next trivial (by decide +kernel)
  have hcollision : Set.InjOn sampleCrate.sha256
      (hashInputs [sampleGenesisCommit, sampleModernCommit]) := by
    have hold (x : Bytes) (hx : x ∈ hashInputs [sampleGenesisCommit, sampleModernCommit]) :
        x = rawTxHashDomain ++ [4] := by
      obtain ⟨call, hcall, b, hb, t, ht, hversion, bytes, hbytes, rfl⟩ := hx
      rcases List.mem_cons.mp hcall with rfl | hcall
      · obtain rfl := List.mem_singleton.mp hb
        obtain rfl := List.mem_singleton.mp ht
        have hprint : fingerprint (sampleTransaction [sampleCoinbase]) = .ok [4] := by decide +kernel
        rw [Except.ok.inj (hbytes.symm.trans hprint)]
      · obtain rfl := List.mem_singleton.mp hcall
        obtain rfl := List.mem_singleton.mp hb
        obtain rfl := List.mem_singleton.mp ht
        exact absurd hversion (by decide)
    intro x hx y hy _
    rw [hold x hx, hold y hy]
  obtain ⟨hreceived, hsame, -, -⟩ :=
    instances_identified ⟨⟨rfl, rfl, rfl, rfl, rfl⟩, rfl, rfl, rfl, rfl⟩ hrun hcollision
  obtain ⟨id, hid⟩ := hreceived sampleGenesisCommit (by simp) _ (List.mem_singleton.mpr rfl) _
    (List.mem_singleton.mpr rfl)
  obtain ⟨id', hid'⟩ := hreceived sampleModernCommit (by simp) _ (List.mem_singleton.mpr rfl) _
    (List.mem_singleton.mpr rfl)
  refine ⟨id, id', hid, hid', fun heq => ?_⟩
  obtain ⟨-, ⟨hmodern, -⟩ | ⟨-, hlegacy, -⟩⟩ := (hsame _ _ _ _ hid hid').mp heq
  · exact absurd hmodern (by decide)
  · exact absurd hlegacy (by decide)

end Sample

end WcashExplorer
