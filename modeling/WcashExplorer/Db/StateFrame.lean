import WcashExplorer.Db.Isolation

/-! Blocks and selectors are written without a look at `chain_state`: the statements that start a
network may come before or after the methods that work on another one. -/
namespace WcashExplorer

open Effects Relational

variable {lib : AuxPowCrate} {networkId other blockHash witness : Text} {indexed : IndexedBlock}
  {db : Db} {g : Table ChainStateRow ChainStateRow.networkId → Table ChainStateRow ChainStateRow.networkId}

/-- The store with its state rows changed. -/
def Db.moveState (g : Table ChainStateRow ChainStateRow.networkId →
    Table ChainStateRow ChainStateRow.networkId) (db : Db) : Db :=
  { db with chainState := g db.chainState }

theorem insertBlockFacts_moveState : insertBlockFacts networkId indexed (db.moveState g) =
    Db.moveState g <$> insertBlockFacts networkId indexed db := by
  simp only [insertBlockFacts, map_bind]
  congr 1
  funext row
  congr 1
  funext _
  have htable : (db.moveState g).blocks = db.blocks := rfl
  rw [htable]
  split
  · rfl
  · simp only [map_bind]
    rfl

theorem insertWitness_moveState : insertWitness lib indexed (db.moveState g) =
    Db.moveState g <$> insertWitness lib indexed db := by
  simp only [insertWitness, map_bind]
  rfl

/-- The same for a step that also returns a value. -/
def stepMoveState {α : Type} (g : Table ChainStateRow ChainStateRow.networkId →
    Table ChainStateRow ChainStateRow.networkId) (step : α × Db) : α × Db :=
  (step.1, step.2.moveState g)

theorem insertInstance_moveState {t : RpcTransaction} :
    insertInstance lib t (db.moveState g) = stepMoveState g <$> insertInstance lib t db := by
  simp only [insertInstance, map_bind]
  congr 1
  funext row
  congr 1
  funext _
  have htable : (db.moveState g).transactionInstances = db.transactionInstances := rfl
  rw [htable]
  split
  · rfl
  · simp only [map_bind]
    rfl

theorem insertInputs_moveState {id position : Nat} {inputs : List RpcInput} :
    insertInputs id position inputs (db.moveState g) =
      stepMoveState g <$> insertInputs id position inputs db := by
  induction inputs generalizing position db with
  | nil => rfl
  | cons input rest ih =>
    simp only [insertInputs, map_bind]
    congr 1
    funext row
    congr 1
    funext _
    have hrest := @ih { db with transparentInputs := db.transparentInputs.insertNew row }
      (position + 1)
    exact (congrArg (fun r => r >>= _) hrest).trans (bind_map_left ..)

theorem insertOutputs_moveState {id : Nat} {outputs : List RpcOutput} :
    insertOutputs id outputs (db.moveState g) = stepMoveState g <$> insertOutputs id outputs db := by
  induction outputs generalizing db with
  | nil => rfl
  | cons output rest ih =>
    simp only [insertOutputs, map_bind]
    congr 1
    funext row
    congr 1
    funext _
    have hrest := @ih { db with transparentOutputs := db.transparentOutputs.insertNew row }
    exact (congrArg (fun r => r >>= _) hrest).trans (bind_map_left ..)

theorem insertTransaction_moveState {t : RpcTransaction} :
    insertTransaction lib t (db.moveState g) = stepMoveState g <$> insertTransaction lib t db := by
  simp only [insertTransaction, insertInstance_moveState, map_bind, bind_map_left]
  congr 1
  funext step
  rcases step with ⟨stored, db₁⟩
  simp only [stepMoveState, insertInputs_moveState, bind_map_left]
  congr 1
  funext step
  rcases step with ⟨inputs, db₂⟩
  congr 1
  funext _
  simp only [insertOutputs_moveState, bind_map_left]
  rfl

theorem insertBlockTransaction_moveState {row : BlockTransactionRow} :
    insertBlockTransaction row (db.moveState g) =
      Db.moveState g <$> insertBlockTransaction row db := by
  have htable : (db.moveState g).blockTransactions = db.blockTransactions := rfl
  unfold insertBlockTransaction
  rw [htable]
  split
  · rfl
  · simp only [map_bind]
    rfl

theorem insertBlockTransactions_moveState {position : Nat} {txs : List RpcTransaction} :
    insertBlockTransactions lib blockHash witness position txs (db.moveState g) =
      Db.moveState g <$> insertBlockTransactions lib blockHash witness position txs db := by
  induction txs generalizing position db with
  | nil => rfl
  | cons t rest ih =>
    simp only [insertBlockTransactions, insertTransaction_moveState, map_bind, bind_map_left]
    congr 1
    funext step
    rcases step with ⟨id, db₁⟩
    congr 1
    funext txPosition
    simp only [stepMoveState, insertBlockTransaction_moveState, bind_map_left]
    congr 1
    funext db₂
    have htable : (db₂.moveState g).blockTransactions = db₂.blockTransactions := rfl
    rw [htable]
    split
    · rfl
    · simp only [map_bind, ih]
      rfl

theorem insertValuePools_moveState {pools : List ValuePool} :
    insertValuePools blockHash witness pools (db.moveState g) =
      Db.moveState g <$> insertValuePools blockHash witness pools db := by
  induction pools generalizing db with
  | nil => rfl
  | cons pool rest ih =>
    simp only [insertValuePools, map_bind]
    congr 1
    funext _
    let row := valuePoolRow blockHash witness pool
    exact @ih { db with
      valuePoolSnapshots := db.valuePoolSnapshots.upsert row row.refreshedBy row.key_refreshedBy }

theorem insertObservations_moveState {observations : List ParentObservation} :
    insertObservations blockHash witness observations (db.moveState g) =
      Db.moveState g <$> insertObservations blockHash witness observations db := by
  induction observations generalizing db with
  | nil => rfl
  | cons observation rest ih =>
    simp only [insertObservations, map_bind]
    congr 1
    funext row
    congr 1
    funext _
    exact @ih { db with
      parentChainObservations :=
        db.parentChainObservations.upsert row row.refreshedBy row.key_refreshedBy }

theorem insertEvidence_moveState {fetchedAt : Timestamp} {aux : Option VerifiedAuxPow} :
    insertEvidence blockHash witness fetchedAt aux (db.moveState g) =
      Db.moveState g <$> insertEvidence blockHash witness fetchedAt aux db := by
  cases aux with
  | none => rfl
  | some aux =>
    simp only [insertEvidence, map_bind]
    congr 1
    funext row
    congr 1
    funext _
    exact @insertObservations_moveState _ _ { db with
      auxpowLinks := db.auxpowLinks.upsert row row.refreshedBy row.key_refreshedBy
      parentChainObservations := db.parentChainObservations.deleteWhere fun r =>
        r.blockHash = blockHash && r.witnessHash = witness } _ _

theorem insertBlock_moveState : insertBlock lib networkId indexed (db.moveState g) =
    Db.moveState g <$> insertBlock lib networkId indexed db := by
  simp only [insertBlock, insertBlockFacts_moveState, map_bind, bind_map_left]
  congr 1
  funext db₁
  simp only [insertWitness_moveState, bind_map_left]
  congr 1
  funext db₂
  simp only [insertBlockTransactions_moveState, bind_map_left]
  congr 1
  funext db₃
  simp only [insertValuePools_moveState, bind_map_left]
  congr 1
  funext db₄
  exact insertEvidence_moveState

theorem insertBlocks_moveState {blocks : List IndexedBlock} :
    insertBlocks lib networkId blocks (db.moveState g) =
      Db.moveState g <$> insertBlocks lib networkId blocks db := by
  induction blocks generalizing db with
  | nil => rfl
  | cons first rest ih =>
    simp only [insertBlocks, insertBlock_moveState, map_bind, bind_map_left, ih]

theorem insertCanonicalSelector_moveState :
    insertCanonicalSelector lib networkId indexed (db.moveState g) =
      Db.moveState g <$> insertCanonicalSelector lib networkId indexed db := by
  have htable : (db.moveState g).canonicalChain = db.canonicalChain := rfl
  simp only [insertCanonicalSelector, htable, map_bind]
  congr 1
  funext height
  split
  · rfl
  · simp only [map_bind]
    rfl

theorem insertSelectors_moveState {blocks : List IndexedBlock} :
    insertSelectors lib networkId blocks (db.moveState g) =
      Db.moveState g <$> insertSelectors lib networkId blocks db := by
  induction blocks generalizing db with
  | nil => rfl
  | cons first rest ih =>
    simp only [insertSelectors, insertCanonicalSelector_moveState, map_bind, bind_map_left, ih]

section Start

variable {now started : Timestamp}

/-- An update of other rows may come before or after an insertion. -/
theorem insertNew_updateWhere {ρ κ : Type} [DecidableEq κ] {key : ρ → κ} {t : Table ρ key} {r : ρ}
    {p : ρ → Bool} {f : ρ → ρ} {hf : ∀ r, key (f r) = key r} (hr : p r = false) :
    (t.insertNew r).updateWhere p f hf = (t.updateWhere p f hf).insertNew r := by
  refine Table.ext_rows ?_
  cases h : t.find? (key r) with
  | some s =>
    have hupdated : (t.updateWhere p f hf).find? (key r) = some (if p s then f s else s) := by
      rw [Table.find?_updateWhere, h, Option.map_some]
    rw [Table.insertNew_of_some h, Table.insertNew_of_some hupdated]
  | none =>
    have hupdated : (t.updateWhere p f hf).find? (key r) = none := by
      rw [Table.find?_updateWhere, h, Option.map_none]
    rw [Table.rows_updateWhere, Table.rows_insertNew_of_none h,
      Table.rows_insertNew_of_none hupdated, Table.rows_updateWhere]
    simp [hr]

theorem updateChainState_start {f : ChainStateRow → ChainStateRow}
    {hf : ∀ r, (f r).networkId = r.networkId} (hne : networkId ≠ other) :
    updateChainState networkId f hf (startChainState other started db) =
      startChainState other started (updateChainState networkId f hf db) := by
  simp only [updateChainState, startChainState]
  rw [insertNew_updateWhere]
  simp [Ne.symm hne]

theorem recordTip_start {height : Option Nat} {hash recorded : Option Text}
    (hne : networkId ≠ other) :
    recordTip networkId height hash recorded now (startChainState other started db) =
      startChainState other started (recordTip networkId height hash recorded now db) :=
  updateChainState_start hne

theorem startChainState_eq : startChainState other started =
    Db.moveState fun t => t.insertNew { networkId := other, updatedAt := started } := rfl

theorem insertBlock_start : insertBlock lib networkId indexed (startChainState other started db) =
    startChainState other started <$> insertBlock lib networkId indexed db := by
  rw [startChainState_eq]
  exact insertBlock_moveState

theorem insertBlocks_start {blocks : List IndexedBlock} :
    insertBlocks lib networkId blocks (startChainState other started db) =
      startChainState other started <$> insertBlocks lib networkId blocks db := by
  rw [startChainState_eq]
  exact insertBlocks_moveState

theorem insertSelectors_start {blocks : List IndexedBlock} :
    insertSelectors lib networkId blocks (startChainState other started db) =
      startChainState other started <$> insertSelectors lib networkId blocks db := by
  rw [startChainState_eq]
  exact insertSelectors_moveState

theorem selectCanonical_start (hne : networkId ≠ other) :
    selectCanonical lib networkId indexed now (startChainState other started db) =
      startChainState other started <$> selectCanonical lib networkId indexed now db := by
  have hinsert : insertCanonicalSelector lib networkId indexed (startChainState other started db) =
      startChainState other started <$> insertCanonicalSelector lib networkId indexed db := by
    rw [startChainState_eq]
    exact insertCanonicalSelector_moveState
  simp only [selectCanonical, hinsert, map_bind, bind_map_left]
  congr 1
  funext db₁
  congr 1
  funext height
  have htable : (startChainState other started db₁).canonicalChain = db₁.canonicalChain := rfl
  rw [htable]
  split
  · rfl
  · simp only [recordTip_start hne, map_bind]
    rfl

theorem commitBlock_start (hne : networkId ≠ other) :
    commitBlock lib networkId indexed now (startChainState other started db) =
      startChainState other started <$> commitBlock lib networkId indexed now db := by
  simp only [commitBlock, insertBlock_start, map_bind, bind_map_left, selectCanonical_start hne]

theorem tipUnchanged_start {oldTip : ChainTip} (hne : networkId ≠ other) :
    tipUnchanged networkId oldTip (startChainState other started db) =
      tipUnchanged networkId oldTip db := by
  unfold tipUnchanged
  rw [(startChainState_elsewhere (Ne.symm hne)).state]

theorem replaceCanonicalBranch_start {oldTip : ChainTip} {ancestor : Option (Nat × Text)}
    {replacement : List IndexedBlock} (hne : networkId ≠ other) :
    replaceCanonicalBranch lib networkId oldTip ancestor replacement now
        (startChainState other started db) =
      startChainState other started <$>
        replaceCanonicalBranch lib networkId oldTip ancestor replacement now db := by
  have hlog (eventId : Nat) (height : Option Nat) (hash : Option Text) (d : Db) :
      detach networkId height (insertReorgEvent eventId networkId oldTip height hash now
        (startChainState other started d)) = startChainState other started (detach networkId height
        (insertReorgEvent eventId networkId oldTip height hash now d)) := rfl
  simp only [replaceCanonicalBranch, tipUnchanged_start hne, insertBlocks_start, map_bind,
    bind_map_left]
  congr 1
  funext _
  congr 1
  funext _
  congr 1
  funext db₁
  congr 1
  funext ancestorHeight
  have hfresh : freshEventId (startChainState other started db₁) = freshEventId db₁ := rfl
  simp only [hfresh, hlog, insertSelectors_start, bind_map_left, recordTip_start hne]
  rfl

theorem reading_start {α : Type} {r : Result α} :
    reading (startChainState other started db) r =
      (fun rs => (rs.1, startChainState other started rs.2)) <$> reading db r := by
  cases r <;> rfl

theorem writing_start {r : Result Db} : writing (startChainState other started <$> r) =
    (fun rs => (rs.1, startChainState other started rs.2)) <$> writing r := by
  cases r <;> rfl

/-- Starting a network commutes with every method on another one. -/
theorem startChainState_commutes :
    Commutes (exec lib) (fun t => t.networkId ≠ other) (startChainState other started) := by
  intro w t db hne
  cases t with
  | canonicalTip n => exact reading_start
  | canonicalHash n height => exact reading_start
  | evidenceRefreshCandidate n depth => exact reading_start
  | commitBlock n indexed => exact (congrArg writing (commitBlock_start hne)).trans writing_start
  | refreshBlockEvidence n indexed =>
    exact (congrArg writing insertBlock_start).trans writing_start
  | replaceCanonicalBranch n oldTip ancestor blocks =>
    exact (congrArg writing (replaceCanonicalBranch_start hne)).trans writing_start
  | observeNodeTip n height hash =>
    have hn : n ≠ other := hne
    refine Eq.trans (congrArg writing ?_) writing_start
    simp only [observeNodeTip, map_bind]
    simp only [updateChainState_start hn]
    rfl
  | updateNodeTip n height hash status error =>
    have hn : n ≠ other := hne
    refine Eq.trans (congrArg writing ?_) writing_start
    simp only [updateNodeTip, map_bind]
    simp only [updateChainState_start hn]
    rfl
  | markIndexerError n error =>
    have hn : n ≠ other := hne
    refine Eq.trans (congrArg writing ?_) writing_start
    simp only [markIndexerError, map_bind]
    simp only [updateChainState_start hn]
    rfl

end Start

end WcashExplorer
