import WcashExplorer.Api.BlockView
import WcashExplorer.Api.Canonical

/-! What is shown of a block depends on its facts, not on the ids they are stored under. -/
namespace WcashExplorer

open Relational

variable {db db' : Db} {c : CanonicalRow} {x y : ChainTransaction} {network : NetworkProfile}
  {r s : TransactionInstanceRow} {b b' : BlockRow} {w w' : BlockWitnessRow}

section Facts

/-- The columns of a block that are shown. -/
def BlockRow.shown (b : BlockRow) : BlockRow := { b with firstSeenAt := 0, rawRpc := .null }

/-- What is shown of a canonical transaction. -/
structure TransactionView where
  selector : CanonicalRow
  block : BlockRow
  position : Nat
  facts : TransactionFacts

def ChainTransaction.view (db : Db) (x : ChainTransaction) : TransactionView where
  selector := x.selector
  block := x.block.shown
  position := x.placement.txPosition
  facts := storedFacts db x.stored

/-- A position and the facts stored for it. -/
def placedFacts (db : Db) (r : BlockTransactionRow) : Nat × Option TransactionFacts :=
  (r.txPosition, readInstance db r.transactionInstanceId)

/-- Two stores hold the same facts of a selected block. -/
structure SameBlock (db db' : Db) (c : CanonicalRow) : Prop where
  header : (db.blocks.find? c.blockHash).map BlockRow.shown =
    (db'.blocks.find? c.blockHash).map BlockRow.shown
  placements : (witnessPlacements db c).map (placedFacts db) =
    (witnessPlacements db' c).map (placedFacts db')

/-- The transactions of a selected row, from the facts of its block. -/
def viewsOf (c : CanonicalRow) (header : Option BlockRow)
    (placements : List (Nat × Option TransactionFacts)) : List TransactionView :=
  match header with
  | some b => placements.filterMap fun p => p.2.map fun facts => ⟨c, b, p.1, facts⟩
  | none => []

theorem map_view_selectedTransactions : (selectedTransactions db c).map (ChainTransaction.view db) =
    viewsOf c ((db.blocks.find? c.blockHash).map BlockRow.shown)
      ((witnessPlacements db c).map (placedFacts db)) := by
  unfold selectedTransactions viewsOf
  cases db.blocks.find? c.blockHash with
  | none => rfl
  | some b =>
    simp only [Option.map_some]
    rw [List.map_filterMap, List.filterMap_map]
    refine List.filterMap_congr fun r _ => ?_
    simp only [Function.comp_apply, placedFacts, readInstance, instanceById, Option.map_map]
    rfl

theorem SameBlock.selectedTransactions (h : SameBlock db db' c) :
    (selectedTransactions db c).map (ChainTransaction.view db) =
      (WcashExplorer.selectedTransactions db' c).map (ChainTransaction.view db') := by
  rw [map_view_selectedTransactions, map_view_selectedTransactions, h.header, h.placements]

end Facts

section Pools

variable {collation : LinearOrder Text} {hash witness : Text}

/-- Lookups determine which pools a witness has. -/
theorem pools_perm (h : ∀ pool, db.valuePoolSnapshots.find? (hash, witness, pool) =
    db'.valuePoolSnapshots.find? (hash, witness, pool)) :
    (db.valuePoolSnapshots.rows.filter fun p =>
        p.blockHash = hash && p.witnessHash = witness).Perm
      (db'.valuePoolSnapshots.rows.filter fun p =>
        p.blockHash = hash && p.witnessHash = witness) := by
  refine Table.filter_perm fun r hr => ?_
  simp only [Bool.and_eq_true, decide_eq_true_eq] at hr
  rw [ValuePoolSnapshotRow.key, hr.1, hr.2]
  exact h r.poolId

theorem poolIds_nodup : ((db.valuePoolSnapshots.rows.filter fun p =>
    p.blockHash = hash && p.witnessHash = witness).map ValuePoolSnapshotRow.poolId).Nodup := by
  refine ((List.Nodup.of_map _ db.valuePoolSnapshots.nodup).filter _).map_on ?_
  intro r hr s hs hpool
  simp only [List.mem_filter, Bool.and_eq_true, decide_eq_true_eq] at hr hs
  refine List.inj_on_of_nodup_map db.valuePoolSnapshots.nodup hr.1 hs.1 ?_
  rw [ValuePoolSnapshotRow.key, ValuePoolSnapshotRow.key, hr.2.1, hr.2.2, hs.2.1, hs.2.2, hpool]

theorem witnessPools_eq (h : ∀ pool, db.valuePoolSnapshots.find? (hash, witness, pool) =
    db'.valuePoolSnapshots.find? (hash, witness, pool)) :
    witnessPools collation db hash witness = witnessPools collation db' hash witness := by
  let _ := collation
  exact orderBy_perm_eq (pools_perm h) poolIds_nodup

end Pools

section Instances

theorem TransparentInputRow.columns {i j : TransparentInputRow} (h : i.anonymous = j.anonymous) :
    i.inputIndex = j.inputIndex ∧ i.previousTxid = j.previousTxid ∧
      i.previousOutputIndex = j.previousOutputIndex ∧ i.coinbaseData = j.coinbaseData ∧
      i.sequence = j.sequence := by
  simp only [TransparentInputRow.anonymous, TransparentInputRow.mk.injEq] at h
  exact h.2

theorem TransparentOutputRow.columns {o p : TransparentOutputRow} (h : o.anonymous = p.anonymous) :
    o.outputIndex = p.outputIndex ∧ o.valueZat = p.valueZat ∧ o.address = p.address ∧
      o.scriptType = p.scriptType ∧ o.scriptHex = p.scriptHex := by
  simp only [TransparentOutputRow.anonymous, TransparentOutputRow.mk.injEq] at h
  exact h.2

theorem anonymous_inputs_perm (db : Db) (r : TransactionInstanceRow) : ((storedFacts db r).inputs).Perm
    ((instanceInputs db r.transactionInstanceId).map TransparentInputRow.anonymous) :=
  (List.perm_insertionSort _ _).map _

theorem anonymous_outputs_perm (db : Db) (r : TransactionInstanceRow) :
    ((storedFacts db r).outputs).Perm
      ((instanceOutputs db r.transactionInstanceId).map TransparentOutputRow.anonymous) :=
  (List.perm_insertionSort _ _).map _

/-- What does not read the id of an output is read off the facts. -/
theorem outputs_perm {α : Type} (f : TransparentOutputRow → α) (hf : ∀ o, f o.anonymous = f o)
    (db : Db) (r : TransactionInstanceRow) :
    ((instanceOutputs db r.transactionInstanceId).map f).Perm ((storedFacts db r).outputs.map f) := by
  have h := ((anonymous_outputs_perm db r).map f).symm
  rw [List.map_map] at h
  simpa only [Function.comp_def, hf] using h

theorem publicOutputZat_facts : publicOutputZat db r.transactionInstanceId =
    ((storedFacts db r).outputs.map TransparentOutputRow.valueZat).sum :=
  (outputs_perm TransparentOutputRow.valueZat (fun _ => rfl) db r).sum_eq

theorem outputCount_facts : (instanceOutputs db r.transactionInstanceId).length =
    (storedFacts db r).outputs.length := by
  have h := (anonymous_outputs_perm db r).length_eq
  rw [List.length_map] at h
  exact h.symm

theorem inputCount_facts : (db.transparentInputs.rows.filter fun i =>
    i.transactionInstanceId = r.transactionInstanceId).length = (storedFacts db r).inputs.length := by
  have h := (anonymous_inputs_perm db r).length_eq
  rw [List.length_map] at h
  exact h.symm

/-- Two transactions that look the same have the same summary. -/
theorem transactionSummary_congr (h : x.view db = y.view db') :
    (transactionSummaryRow db x).map (TransactionSummary.fromRow network) =
      (transactionSummaryRow db' y).map (TransactionSummary.fromRow network) := by
  obtain ⟨hselector, hblock, hposition, hfacts⟩ := TransactionView.mk.inj h
  have htime : x.block.shown.blockTime = y.block.shown.blockTime := congrArg _ hblock
  change x.block.blockTime = y.block.blockTime at htime
  have hcolumns : x.stored.anonymous = y.stored.anonymous :=
    congrArg TransactionFacts.columns hfacts
  have hplace : x.placement.txPosition = y.placement.txPosition := hposition
  simp only [TransactionInstanceRow.anonymous, TransactionInstanceRow.mk.injEq] at hcolumns
  simp only [transactionSummaryRow, publicOutputZat_facts, outputCount_facts, inputCount_facts,
    hfacts, htime, hcolumns, hselector, hplace]
  cases asBigint ((storedFacts db' y.stored).outputs.map TransparentOutputRow.valueZat).sum with
  | error error => rfl
  | ok value => rfl

end Instances

section Lists

variable {α β γ δ : Type}

/-- Two selections that look the same row by row, presented by two functions that agree on rows
that look the same. -/
theorem mapM_congr_view {v : α → γ} {v' : β → γ} {f : α → Result δ} {f' : β → Result δ}
    (hf : ∀ a b, v a = v' b → f a = f' b) {l : List α} {l' : List β}
    (h : l.map v = l'.map v') : l.mapM f = l'.mapM f' := by
  induction l generalizing l' with
  | nil =>
    obtain rfl : l' = [] := by simpa using h.symm
    rfl
  | cons a l ih =>
    cases l' with
    | nil => simp at h
    | cons b l' =>
      rw [List.map_cons, List.map_cons, List.cons.injEq] at h
      rw [List.mapM_cons, List.mapM_cons, hf a b h.1, ih h.2]

theorem map_mapM {g : δ → γ} {f : α → Result δ} (l : List α) :
    (l.mapM f).map (List.map g) = l.mapM fun a => (f a).map g := by
  induction l with
  | nil => rfl
  | cons a l ih =>
    rw [List.mapM_cons, List.mapM_cons, ← ih]
    cases f a with
    | error error => rfl
    | ok first => cases l.mapM f <;> rfl

end Lists

section Blocks

theorem max?_perm {α : Type} [LinearOrder α] {l l' : List α} (h : l.Perm l') : l.max? = l'.max? := by
  have hmax (m n : List α) (hmn : m.Perm n) (a : α) (ha : m.max? = some a) : n.max? = some a := by
    rw [List.max?_eq_some_iff] at ha ⊢
    exact ⟨hmn.mem_iff.mp ha.1, fun b hb => ha.2 b (hmn.mem_iff.mpr hb)⟩
  refine Option.ext fun a => ⟨hmax l l' h a, hmax l' l h.symm a⟩

/-- What a placement adds to the coinbase values. -/
def coinbaseOf (p : Nat × Option TransactionFacts) : List Int :=
  match p.2 with
  | some facts =>
    if facts.columns.isCoinbase then facts.outputs.map TransparentOutputRow.valueZat else []
  | none => []

theorem coinbaseValues_perm : (coinbaseValues db c).Perm
    (((witnessPlacements db c).map (placedFacts db)).flatMap coinbaseOf) := by
  rw [List.flatMap_map]
  refine List.Perm.flatMap_left _ fun r _ => ?_
  simp only [coinbaseOf, placedFacts, readInstance, instanceById]
  cases hstored : db.transactionInstances.rows.find? fun t =>
      t.transactionInstanceId = r.transactionInstanceId with
  | none => exact .refl _
  | some t =>
    simp only [Option.map_some]
    change (if t.isCoinbase = true then _ else _ : List Int).Perm
      (if t.isCoinbase = true then _ else _)
    split_ifs
    · exact outputs_perm TransparentOutputRow.valueZat (fun _ => rfl) db t
    · exact .refl _

theorem SameBlock.rewardZat (h : SameBlock db db' c) (hb : b.shown = b'.shown)
    (hprevious : previousSupply db c = previousSupply db' c) :
    rewardZat db c b = WcashExplorer.rewardZat db' c b' := by
  have hsupply : b.shown.chainSupplyZat = b'.shown.chainSupplyZat := congrArg _ hb
  change b.chainSupplyZat = b'.chainSupplyZat at hsupply
  have hcoinbase : (coinbaseValues db c).sum = (coinbaseValues db' c).sum := by
    rw [coinbaseValues_perm.sum_eq, coinbaseValues_perm.sum_eq, h.placements]
  rw [WcashExplorer.rewardZat, WcashExplorer.rewardZat, hsupply, hprevious, hcoinbase]

theorem SameBlock.blockTransactions (h : SameBlock db db' c) :
    (blockTransactions db c.blockHash c.witnessHash).map (ChainTransaction.view db) =
      (WcashExplorer.blockTransactions db' c.blockHash c.witnessHash).map
        (ChainTransaction.view db') := by
  have hheader := h.header
  unfold WcashExplorer.blockTransactions
  cases hb : db.blocks.find? c.blockHash with
  | none =>
    rw [hb] at hheader
    rw [Option.map_eq_none_iff.mp hheader.symm]
    rfl
  | some b =>
    rw [hb] at hheader
    obtain ⟨b', hb', hsame⟩ := Option.map_eq_some_iff.mp hheader.symm
    rw [hb']
    have hnetwork : b'.shown.networkId = b.shown.networkId := congrArg _ hsame
    have hheight : b'.shown.height = b.shown.height := congrArg _ hsame
    change b'.networkId = b.networkId at hnetwork
    change b'.height = b.height at hheight
    have hhash : b.blockHash = c.blockHash := Table.key_of_find? hb
    have hhash' : b'.blockHash = c.blockHash := Table.key_of_find? hb'
    simp only [hnetwork, hheight, hhash, hhash']
    exact SameBlock.selectedTransactions ⟨h.header, h.placements⟩

/-- The page of a block lists the same transactions. -/
theorem SameBlock.transactionRows (h : SameBlock db db' c) :
    transactionRowsForBlock network db c.blockHash c.witnessHash =
      transactionRowsForBlock network db' c.blockHash c.witnessHash := by
  have hviews := h.blockTransactions
  rw [transactionRowsForBlock, transactionRowsForBlock, transactionsForBlockQuery,
    transactionsForBlockQuery, map_mapM, map_mapM]
  refine mapM_congr_view (fun x y => transactionSummary_congr) ?_
  have horder (d : Db) : (orderBy (fun x : ChainTransaction => x.placement.txPosition)
      (WcashExplorer.blockTransactions d c.blockHash c.witnessHash)).map (ChainTransaction.view d) =
        orderBy TransactionView.position ((WcashExplorer.blockTransactions d c.blockHash
          c.witnessHash).map (ChainTransaction.view d)) := map_orderBy TransactionView.position _ _
  rw [horder, horder, hviews]

/-- A block's row apart from what the nodes observed of it. -/
theorem blockSummaryRow_congr (hb : b.shown = b'.shown) (hreward : rewardZat db c b = rewardZat db' c b')
    (hconfirmations : chainConfirmations db c = chainConfirmations db' c)
    (hexact : w.exactWitnessState = w'.exactWitnessState)
    (hvalidation : w.localValidationState = w'.localValidationState)
    (hlink : db.auxpowLinks.find? (c.blockHash, c.witnessHash) =
      db'.auxpowLinks.find? (c.blockHash, c.witnessHash))
    (hobservations : (canonicalObservations db c).Perm (canonicalObservations db' c)) :
    blockSummaryRow db c b w = blockSummaryRow db' c b' w' := by
  have hheight := max?_perm (hobservations.filterMap ParentObservationRow.parentHeight)
  have hparent := max?_perm (hobservations.filterMap ParentObservationRow.parentConfirmations)
  simp only [BlockRow.shown, BlockRow.mk.injEq] at hb
  simp only [blockSummaryRow, hreward, hconfirmations, hb, hexact, hvalidation, hlink, hheight,
    hparent]

/-- The hash a network selects at a height. -/
theorem blockDetailRow_eq : blockDetailRow db (c, b, w) =
    (blockSummaryRow db c b w).bind fun summary => (asBigint (c.height + 1)).map fun _ =>
      { summary
        previousBlockHash := b.previousBlockHash
        nextBlockHash := storedHash c.networkId db (c.height + 1)
        merkleRoot := b.merkleRoot
        blockCommitments := b.blockCommitments
        nonce := b.nonce } := by
  rw [blockDetailRow]
  refine bind_congr fun summary => ?_
  unfold asBigint
  split_ifs <;> rfl

end Blocks

end WcashExplorer
