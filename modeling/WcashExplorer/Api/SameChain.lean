import WcashExplorer.Api.SameFacts
import WcashExplorer.Api.NetworkHistory
import WcashExplorer.Db.OneNode
import WcashExplorer.Indexer.Tip
import WcashExplorer.Relational.Similar

/-! Stores that hold one chain, whatever else they hold, select the same rows of it. -/
namespace WcashExplorer

open Relational

variable {lib : AuxPowCrate} {B : IndexedBlock → Prop} {networkId : Text} {db db' : Db}
  {c : CanonicalRow} {xs : List CanonicalRow} {b b' : BlockRow}

/-- Two stores hold one chain with the same facts of its blocks. -/
structure SameChain (networkId : Text) (db db' : Db) (xs : List CanonicalRow) : Prop where
  selected : Selected networkId db xs
  selected' : Selected networkId db' xs
  recorded : TipRecorded networkId db xs
  recorded' : TipRecorded networkId db' xs
  sound : StoreSound db
  sound' : StoreSound db'
  stored : SelectedStored db
  stored' : SelectedStored db'
  block : ∀ c ∈ canonicalRows db networkId, SameBlock db db' c
  pools : ∀ c ∈ canonicalRows db networkId, ∀ pool,
    db.valuePoolSnapshots.find? (c.blockHash, c.witnessHash, pool) =
      db'.valuePoolSnapshots.find? (c.blockHash, c.witnessHash, pool)

section Node

theorem StoredFrom.placements (h : StoredFrom lib B db) {i : IndexedBlock} {n : Text} {ids : List Nat}
    (hr : Recorded lib n db i ids) (hhash : i.block.hash = c.blockHash)
    (hwitness : witnessHash lib i = c.witnessHash) :
    ∃ txs, i.block.tx.mapM (transactionFacts lib) = .ok txs ∧
      (witnessPlacements db c).map (placedFacts db) = txs.mapIdx fun i f => (i, some f) := by
  obtain ⟨facts, hfacts, -, hreads⟩ := hr.readsBack h.sound.facts.placements
  obtain ⟨-, -, -, -, hstated⟩ := blockFacts_ok hfacts
  refine ⟨facts.transactions, hstated, ?_⟩
  rw [hhash, hwitness] at hreads
  rw [← hreads, readTransactions, ← h.ordered.stored]
  rfl

end Node

section Rows

/-- Two transactions look the same. -/
def SameView (db db' : Db) (x y : ChainTransaction) : Prop := x.view db = y.view db'

/-- Two stored transactions hold the same facts. -/
def SameStored (db db' : Db) (r s : TransactionInstanceRow) : Prop :=
  storedFacts db r = storedFacts db' s

variable {x y : ChainTransaction} {r s : TransactionInstanceRow}

namespace SameStored

theorem columns (h : SameStored db db' r s) : r.anonymous = s.anonymous :=
  congrArg TransactionFacts.columns h

theorem txid (h : SameStored db db' r s) : r.txid = s.txid := by
  have hcolumns := h.columns
  simp only [TransactionInstanceRow.anonymous, TransactionInstanceRow.mk.injEq] at hcolumns
  exact hcolumns.2.1

theorem isCoinbase (h : SameStored db db' r s) : r.isCoinbase = s.isCoinbase := by
  have hcolumns := h.columns
  simp only [TransactionInstanceRow.anonymous, TransactionInstanceRow.mk.injEq] at hcolumns
  exact hcolumns.2.2.2.2.2.2.2.2.2.2.1

theorem outputs (h : SameStored db db' r s) :
    Similar (fun o p => o.anonymous = p.anonymous) (instanceOutputs db r.transactionInstanceId)
      (instanceOutputs db' s.transactionInstanceId) := by
  refine .of_perm_map ((anonymous_outputs_perm db r).symm.trans ?_)
  have hfacts : storedFacts db r = storedFacts db' s := h
  rw [hfacts]
  exact anonymous_outputs_perm db' s

theorem inputs (h : SameStored db db' r s) :
    Similar (fun i j => i.anonymous = j.anonymous) (instanceInputs db r.transactionInstanceId)
      (instanceInputs db' s.transactionInstanceId) := by
  refine .of_perm_map ((anonymous_inputs_perm db r).symm.trans ?_)
  have hfacts : storedFacts db r = storedFacts db' s := h
  rw [hfacts]
  exact anonymous_inputs_perm db' s

end SameStored

namespace SameView

theorem selector (h : SameView db db' x y) : x.selector = y.selector :=
  congrArg TransactionView.selector h

theorem position (h : SameView db db' x y) : x.placement.txPosition = y.placement.txPosition :=
  congrArg TransactionView.position h

theorem stored (h : SameView db db' x y) : SameStored db db' x.stored y.stored :=
  congrArg TransactionView.facts h

theorem blockTime (h : SameView db db' x y) : x.block.blockTime = y.block.blockTime :=
  congrArg (fun v => v.block.blockTime) h

theorem order (h : SameView db db' x y) : x.order = y.order := by
  rw [ChainTransaction.order, ChainTransaction.order, h.selector, h.position]

end SameView

namespace SameChain

variable (h : SameChain networkId db db' xs)

include h

theorem rows_perm : (canonicalRows db networkId).Perm (canonicalRows db' networkId) :=
  h.selected.canonicalRows_perm.trans h.selected'.canonicalRows_perm.symm

theorem mem_rows :
    c ∈ canonicalRows db networkId ↔ c ∈ canonicalRows db' networkId :=
  h.rows_perm.mem_iff

theorem find?_eq (height : Nat) : db.canonicalChain.find? (networkId, height) =
    db'.canonicalChain.find? (networkId, height) :=
  (h.selected.represents height).trans (h.selected'.represents height).symm

/-- The canonical rows, each of them with itself. -/
theorem rows : Similar (fun c d => c ∈ canonicalRows db networkId ∧ c = d)
    (canonicalRows db networkId) (canonicalRows db' networkId) :=
  (Similar.of_perm h.rows_perm).with_mem.mono fun _ _ hcd => ⟨hcd.1, hcd.2.2⟩

/-- A canonical block is stored in both. -/
theorem header (hc : c ∈ canonicalRows db networkId) :
    ∃ b b', db.blocks.find? c.blockHash = some b ∧ db'.blocks.find? c.blockHash = some b' ∧
      b.shown = b'.shown := by
  obtain ⟨b, hb, -⟩ := h.selected.stored c (h.selected.mem_canonicalRows.mp hc)
  have hheader := (h.block c hc).header
  rw [hb] at hheader
  obtain ⟨b', hb', hshown⟩ := Option.map_eq_some_iff.mp hheader.symm
  exact ⟨b, b', hb, hb', hshown.symm⟩

theorem witnessed (hc : c ∈ canonicalRows db networkId) :
    ∃ w w', db.blockWitnesses.find? (c.blockHash, c.witnessHash) = some w ∧
      db'.blockWitnesses.find? (c.blockHash, c.witnessHash) = some w' := by
  obtain ⟨w, hw⟩ := Option.isSome_iff_exists.mp
    (h.sound.canonical c (mem_canonicalRows.mp hc).1)
  obtain ⟨w', hw'⟩ := Option.isSome_iff_exists.mp
    (h.sound'.canonical c (mem_canonicalRows.mp (h.mem_rows.mp hc)).1)
  exact ⟨w, w', hw, hw'⟩

theorem views : Similar (SameView db db') (chainTransactions db networkId)
    (chainTransactions db' networkId) := by
  refine h.rows.flatMap ?_
  rintro c _ ⟨hc, rfl⟩
  refine .of_perm_map ?_
  rw [(h.block c hc).selectedTransactions]

theorem storedTransactions : Similar (SameStored db db')
    ((chainTransactions db networkId).map ChainTransaction.stored)
    ((chainTransactions db' networkId).map ChainTransaction.stored) :=
  h.views.map fun _ _ hxy => hxy.stored

/-- The placements of a canonical block, with the instances they name. -/
theorem placements (hc : c ∈ canonicalRows db networkId) :
    Similar (fun r s => r.txPosition = s.txPosition ∧
      ∃ t t', instanceById db r.transactionInstanceId = some t ∧
        instanceById db' s.transactionInstanceId = some t' ∧ SameStored db db' t t')
      (witnessPlacements db c) (witnessPlacements db' c) := by
  have hplaced : Similar (fun r s => placedFacts db r = placedFacts db' s) (witnessPlacements db c)
      (witnessPlacements db' c) := by
    refine .of_perm_map ?_
    rw [(h.block c hc).placements]
  refine hplaced.with_mem.mono ?_
  rintro r s ⟨hr, -, hsame⟩
  obtain ⟨hposition, hread⟩ := Prod.mk.inj hsame
  refine ⟨hposition, ?_⟩
  have hsome := (h.sound.placements r (mem_witnessPlacements.mp hr).1).2
  rw [readInstance, Option.isSome_map] at hsome
  obtain ⟨t, ht⟩ := Option.isSome_iff_exists.mp hsome
  rw [readInstance, readInstance, ht] at hread
  obtain ⟨t', ht', hfacts⟩ := Option.map_eq_some_iff.mp hread.symm
  exact ⟨t, t', ht, ht', hfacts.symm⟩

theorem instances : Similar (SameStored db db') (placedInstances db networkId)
    (placedInstances db' networkId) := by
  refine h.rows.flatMap ?_
  rintro c _ ⟨hc, rfl⟩
  refine (h.placements hc).filterMap ?_
  rintro r s ⟨-, t, t', ht, ht', hsame⟩
  rw [ht, ht']
  exact .some hsame

theorem spends : Similar (fun y z => y.selector ∈ canonicalRows db networkId ∧
      y.selector = z.selector ∧ y.placement.txPosition = z.placement.txPosition ∧
      y.input.anonymous = z.input.anonymous)
    (placedInputs db networkId) (placedInputs db' networkId) := by
  refine h.rows.flatMap ?_
  rintro c _ ⟨hc, rfl⟩
  refine (h.placements hc).flatMap ?_
  rintro r s ⟨hposition, t, t', ht, ht', hsame⟩
  have hid : t.transactionInstanceId = r.transactionInstanceId := by
    simpa using List.find?_some ht
  have hid' : t'.transactionInstanceId = s.transactionInstanceId := by
    simpa using List.find?_some ht'
  rw [← hid, ← hid']
  refine hsame.inputs.map fun i j hij => ?_
  exact ⟨hc, rfl, hposition, hij⟩

theorem outputs : Similar (fun y z => SameView db db' y.maker z.maker ∧
      y.output.anonymous = z.output.anonymous)
    (chainOutputs db networkId) (chainOutputs db' networkId) := by
  refine h.views.flatMap fun x y hxy => ?_
  refine hxy.stored.outputs.map fun o p hop => ?_
  exact ⟨hxy, hop⟩

theorem inputs : Similar (fun y z => SameView db db' y.spender z.spender ∧
      y.input.anonymous = z.input.anonymous)
    (chainInputs db networkId) (chainInputs db' networkId) := by
  refine h.views.flatMap fun x y hxy => ?_
  refine hxy.stored.inputs.map fun i j hij => ?_
  exact ⟨hxy, hij⟩

theorem joined : Similar (fun x y => x.1 ∈ canonicalRows db networkId ∧
      x.1 = y.1 ∧ x.2.1.shown = y.2.1.shown)
    (chainBlocks db networkId) (chainBlocks db' networkId) := by
  refine h.rows.filterMap ?_
  rintro c _ ⟨hc, rfl⟩
  obtain ⟨b, b', hb, hb', hshown⟩ := h.header hc
  obtain ⟨w, w', hw, hw'⟩ := h.witnessed hc
  rw [hb, hb', hw, hw']
  exact .some ⟨hc, rfl, hshown⟩

theorem tipRow_eq : tipRow db networkId = tipRow db' networkId :=
  h.selected.tipRow_eq.trans h.selected'.tipRow_eq.symm

theorem confirmations_eq (hc : c ∈ canonicalRows db networkId) :
    chainConfirmations db c = chainConfirmations db' c := by
  rw [chainConfirmations, chainConfirmations,
    (mem_canonicalRows.mp hc).2, h.tipRow_eq]

theorem previousSupply_eq (hc : c ∈ canonicalRows db networkId) :
    previousSupply db c = previousSupply db' c := by
  rw [previousSupply, previousSupply,
    (mem_canonicalRows.mp hc).2]
  cases c.height with
  | zero => rfl
  | succ below =>
    simp only [h.find?_eq below]
    cases hfound : db'.canonicalChain.find? (networkId, below) with
    | none => rfl
    | some p =>
      have hp : p ∈ canonicalRows db networkId := h.mem_rows.mpr
        (mem_canonicalRows.mpr ⟨Table.mem_of_find? hfound,
          congrArg Prod.fst (Table.key_of_find? hfound)⟩)
      obtain ⟨b, b', hb, hb', hshown⟩ := h.header hp
      have hsupply : b.shown.chainSupplyZat = b'.shown.chainSupplyZat := congrArg _ hshown
      change db.blocks.find? p.blockHash >>= _ = db'.blocks.find? p.blockHash >>= _
      rw [hb, hb']
      exact hsupply

/-- The recorded tip is the chain's in both. -/
theorem stateRow {network : NetworkProfile} (hn : network.id = networkId) :
    ∃ s s', chainStateRow db network = .ok s ∧ chainStateRow db' network = .ok s' ∧
      s.indexedHeight = s'.indexedHeight ∧ s.indexedHash = s'.indexedHash := by
  obtain ⟨s, hs, hheight, hhash⟩ := h.recorded
  obtain ⟨s', hs', hheight', hhash'⟩ := h.recorded'
  refine ⟨s, s', ?_, ?_, hheight.trans hheight'.symm, hhash.trans hhash'.symm⟩
  · rw [chainStateRow, hn, hs]
  · rw [chainStateRow, hn, hs']

end SameChain

end Rows

end WcashExplorer
