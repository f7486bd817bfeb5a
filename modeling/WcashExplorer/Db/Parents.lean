import WcashExplorer.Db.Transitions
import WcashExplorer.Relational.Image

/-! The store apart from what the parent nodes said and from the times of the clock. -/
namespace WcashExplorer

open Relational

def BlockRow.timeless (r : BlockRow) : BlockRow := { r with firstSeenAt := 0 }

theorem BlockRow.blockHash_timeless (r : BlockRow) : r.timeless.blockHash = r.blockHash := rfl

def BlockWitnessRow.timeless (r : BlockWitnessRow) : BlockWitnessRow := { r with indexedAt := 0 }

theorem BlockWitnessRow.key_timeless (r : BlockWitnessRow) : r.timeless.key = r.key := rfl

def AuxpowLinkRow.withoutParents (r : AuxpowLinkRow) : AuxpowLinkRow :=
  { r with parentLookupState := .notConfigured, parentSourcesAgree := false, verifiedAt := 0 }

theorem AuxpowLinkRow.key_withoutParents (r : AuxpowLinkRow) : r.withoutParents.key = r.key := rfl

def ChainStateRow.timeless (r : ChainStateRow) : ChainStateRow := { r with updatedAt := 0 }

theorem ChainStateRow.networkId_timeless (r : ChainStateRow) :
    r.timeless.networkId = r.networkId := rfl

def ReorgEventRow.timeless (r : ReorgEventRow) : ReorgEventRow :=
  { r with detectedAt := 0, completedAt := r.completedAt.map fun _ => 0 }

theorem ReorgEventRow.eventId_timeless (r : ReorgEventRow) : r.timeless.eventId = r.eventId := rfl

/-- The store without the parent observations, the two parent verdicts of each link, and the
clock times at which rows were written. -/
def Db.withoutParents (db : Db) : Db :=
  { db with
    blocks := db.blocks.image BlockRow.timeless BlockRow.blockHash_timeless
    blockWitnesses := db.blockWitnesses.image BlockWitnessRow.timeless BlockWitnessRow.key_timeless
    auxpowLinks := db.auxpowLinks.image AuxpowLinkRow.withoutParents
      AuxpowLinkRow.key_withoutParents
    parentChainObservations := .empty
    chainState := db.chainState.image ChainStateRow.timeless ChainStateRow.networkId_timeless
    reorgEvents := db.reorgEvents.image ReorgEventRow.timeless ReorgEventRow.eventId_timeless }

def VerifiedAuxPow.withoutParents (aux : VerifiedAuxPow) : VerifiedAuxPow :=
  { aux with
    parentObservations := []
    parentLookupState := .notConfigured
    parentSourcesAgree := false }

/-- The block as a verifier without parent nodes materializes it. -/
def IndexedBlock.withoutParents (indexed : IndexedBlock) : IndexedBlock :=
  { indexed with
    auxpow := indexed.auxpow.map VerifiedAuxPow.withoutParents
    fetchedAt := 0 }

/-- A parent's answer that fits the columns of `parent_chain_observations`. -/
def ParentBlock.storable (p : ParentBlock) : Bool :=
  p.height ≤ i64Max && nullOr timestampStorable (fromTimestamp p.time) && p.bits.storable &&
    (scalarText p.difficulty).storable

def ParentObservation.storable (o : ParentObservation) : Bool :=
  o.source.storable && nullOr ParentBlock.storable o.block

/-- The observations a materialized block carries. -/
def IndexedBlock.observations (indexed : IndexedBlock) : List ParentObservation :=
  indexed.auxpow.elim [] fun aux => aux.parentObservations

/-- All its observations fit their columns. -/
def IndexedBlock.Storable (indexed : IndexedBlock) : Prop :=
  ∀ o ∈ indexed.observations, o.storable = true

variable {lib : AuxPowCrate} {networkId blockHash witness : Text} {indexed : IndexedBlock}
  {db db' : Db} {now : Timestamp}

@[simp] theorem witnessHash_withoutParents :
    witnessHash lib indexed.withoutParents = witnessHash lib indexed := by
  unfold witnessHash IndexedBlock.withoutParents
  cases indexed.auxpow <;> rfl

theorem blockRow_withoutParents : blockRow networkId indexed.withoutParents =
    BlockRow.timeless <$> blockRow networkId indexed := by
  simp only [blockRow, IndexedBlock.withoutParents, map_bind]
  rfl

theorem insertBlockFacts_withoutParents :
    insertBlockFacts networkId indexed.withoutParents db.withoutParents =
      Db.withoutParents <$> insertBlockFacts networkId indexed db := by
  simp only [insertBlockFacts, blockRow_withoutParents, map_bind, bind_map_left]
  congr 1
  funext row
  congr 1
  funext _
  simp only [Db.withoutParents, ← Table.image_insertNew, Table.find?_image]
  have hblock : indexed.withoutParents.block = indexed.block := rfl
  rw [hblock]
  cases (db.blocks.insertNew row).find? indexed.block.hash with
  | none => rfl
  | some stored =>
    simp only [Option.map_some, map_bind]
    rfl

theorem blockWitnessRow_withoutParents : blockWitnessRow lib indexed.withoutParents =
    BlockWitnessRow.timeless <$> blockWitnessRow lib indexed := by
  unfold blockWitnessRow
  rw [witnessHash_withoutParents]
  unfold IndexedBlock.withoutParents
  cases indexed.auxpow with
  | none => rfl
  | some aux =>
    simp only [Option.map_some, map_bind]
    rfl

theorem insertWitness_withoutParents : insertWitness lib indexed.withoutParents db.withoutParents =
    Db.withoutParents <$> insertWitness lib indexed db := by
  simp only [insertWitness, blockWitnessRow_withoutParents, map_bind, bind_map_left]
  congr 1
  funext row
  congr 1
  funext _
  refine congrArg Except.ok ?_
  simp only [Db.withoutParents]
  congr 1
  exact Eq.symm (Table.image_upsert row fun _ => rfl)

/-- The same for a step that also returns a value. -/
def stepWithoutParents {α : Type} (step : α × Db) : α × Db := (step.1, step.2.withoutParents)

theorem insertInstance_withoutParents {t : RpcTransaction} :
    insertInstance lib t db.withoutParents = stepWithoutParents <$> insertInstance lib t db := by
  simp only [insertInstance, map_bind]
  congr 1
  funext row
  congr 1
  funext _
  have htable : db.withoutParents.transactionInstances = db.transactionInstances := rfl
  rw [htable]
  cases (db.transactionInstances.insertNew row).find? row.key with
  | none => rfl
  | some stored =>
    simp only [map_bind]
    rfl

theorem insertInputs_withoutParents {id position : Nat} {inputs : List RpcInput} :
    insertInputs id position inputs db.withoutParents =
      stepWithoutParents <$> insertInputs id position inputs db := by
  induction inputs generalizing position db with
  | nil => rfl
  | cons input rest ih =>
    simp only [insertInputs, map_bind]
    congr 1
    funext row
    congr 1
    funext _
    have hrest := @ih { db with transparentInputs := db.transparentInputs.insertNew row }
      (position + 1)
    exact (congrArg (fun r => r >>= _) hrest).trans (bind_map_left ..)

theorem insertOutputs_withoutParents {id : Nat} {outputs : List RpcOutput} :
    insertOutputs id outputs db.withoutParents =
      stepWithoutParents <$> insertOutputs id outputs db := by
  induction outputs generalizing db with
  | nil => rfl
  | cons output rest ih =>
    simp only [insertOutputs, map_bind]
    congr 1
    funext row
    congr 1
    funext _
    have hrest := @ih { db with transparentOutputs := db.transparentOutputs.insertNew row }
    exact (congrArg (fun r => r >>= _) hrest).trans (bind_map_left ..)

theorem insertTransaction_withoutParents {t : RpcTransaction} :
    insertTransaction lib t db.withoutParents = stepWithoutParents <$> insertTransaction lib t db := by
  simp only [insertTransaction, insertInstance_withoutParents, map_bind, bind_map_left]
  congr 1
  funext step
  rcases step with ⟨stored, db₁⟩
  simp only [stepWithoutParents, insertInputs_withoutParents, bind_map_left]
  congr 1
  funext step
  rcases step with ⟨inputs, db₂⟩
  congr 1
  funext _
  simp only [insertOutputs_withoutParents, bind_map_left]
  rfl

theorem insertBlockTransaction_withoutParents {row : BlockTransactionRow} :
    insertBlockTransaction row db.withoutParents =
      Db.withoutParents <$> insertBlockTransaction row db := by
  have htable : db.withoutParents.blockTransactions = db.blockTransactions := rfl
  unfold insertBlockTransaction
  rw [htable]
  cases db.blockTransactions.find? row.key with
  | some stored => rfl
  | none =>
    simp only [map_bind]
    rfl

theorem insertBlockTransactions_withoutParents {position : Nat} {txs : List RpcTransaction} :
    insertBlockTransactions lib blockHash witness position txs db.withoutParents =
      Db.withoutParents <$> insertBlockTransactions lib blockHash witness position txs db := by
  induction txs generalizing position db with
  | nil => rfl
  | cons t rest ih =>
    simp only [insertBlockTransactions, insertTransaction_withoutParents, map_bind, bind_map_left]
    congr 1
    funext step
    rcases step with ⟨id, db₁⟩
    congr 1
    funext txPosition
    simp only [stepWithoutParents, insertBlockTransaction_withoutParents, bind_map_left]
    congr 1
    funext db₂
    have htable : db₂.withoutParents.blockTransactions = db₂.blockTransactions := rfl
    rw [htable]
    split
    · rfl
    · simp only [map_bind, ih]
      rfl

theorem insertValuePools_withoutParents {pools : List ValuePool} :
    insertValuePools blockHash witness pools db.withoutParents =
      Db.withoutParents <$> insertValuePools blockHash witness pools db := by
  induction pools generalizing db with
  | nil => rfl
  | cons pool rest ih =>
    simp only [insertValuePools, map_bind]
    congr 1
    funext _
    let row := valuePoolRow blockHash witness pool
    exact @ih { db with
      valuePoolSnapshots := db.valuePoolSnapshots.upsert row row.refreshedBy row.key_refreshedBy }

section Evidence

/-- An observation is stored exactly if its parent's answer fits the columns. -/
theorem parentObservationRow_storable {o : ParentObservation} : o.storable = true ↔
    ∃ row, parentObservationRow blockHash witness o = .ok row ∧ row.valid = true := by
  unfold parentObservationRow ParentObservation.storable
  cases o.block with
  | none =>
    constructor
    · intro h
      refine ⟨_, rfl, ?_⟩
      simpa [ParentObservationRow.valid] using h
    · rintro ⟨row, hrow, hvalid⟩
      cases hrow
      simpa [ParentObservationRow.valid] using hvalid
  | some parent =>
    simp only [nullOr_some, optional, toI64, ParentBlock.storable]
    by_cases hheight : parent.height ≤ i64Max
    · simp only [hheight, decide_true, Bool.true_and, Bool.and_eq_true]
      constructor
      · rintro ⟨hsource, ⟨htime, hbits⟩, hdifficulty⟩
        refine ⟨_, rfl, ?_⟩
        simp [ParentObservationRow.valid, hsource, htime, hbits, hdifficulty]
      · rintro ⟨row, hrow, hvalid⟩
        cases hrow
        simpa [ParentObservationRow.valid, and_assoc] using hvalid
    · simp only [hheight, decide_false, Bool.false_and, Bool.and_false, Bool.false_eq_true,
        false_iff]
      rintro ⟨row, hrow, -⟩
      cases hrow

theorem insertObservations_ok (db : Db) {observations : List ParentObservation}
    (h : ∀ o ∈ observations, o.storable = true) :
    ∃ db', insertObservations blockHash witness observations db = .ok db' ∧
      db'.withoutParents = db.withoutParents := by
  induction observations generalizing db with
  | nil => exact ⟨db, rfl, rfl⟩
  | cons o rest ih =>
    obtain ⟨row, hrow, hvalid⟩ := parentObservationRow_storable.mp (h o (by simp))
    obtain ⟨db', hdb', heq⟩ := @ih { db with
      parentChainObservations := db.parentChainObservations.upsert row row.refreshedBy
        row.key_refreshedBy } fun o ho => h o (by simp [ho])
    refine ⟨db', ?_, heq⟩
    simp only [insertObservations, Result.bind_eq_ok, checked, ensure_eq_ok]
    exact ⟨row, hrow, (), hvalid, hdb'⟩

theorem insertObservations_error {observations : List ParentObservation}
    (h : ∃ o ∈ observations, o.storable = false) :
    ∃ e, insertObservations blockHash witness observations db = .error e := by
  cases hr : insertObservations blockHash witness observations db with
  | error e => exact ⟨e, rfl⟩
  | ok db' =>
    exfalso
    induction observations generalizing db with
    | nil => simp at h
    | cons o rest ih =>
      simp only [insertObservations, Result.bind_eq_ok, checked, ensure_eq_ok] at hr
      obtain ⟨row, hrow, -, hvalid, hr⟩ := hr
      have hstored := parentObservationRow_storable.mpr ⟨row, hrow, hvalid⟩
      obtain ⟨o', ho', hfalse⟩ := h
      rcases List.mem_cons.mp ho' with rfl | ho'
      · rw [hstored] at hfalse
        cases hfalse
      · exact ih ⟨o', ho', hfalse⟩ hr

theorem auxpowLinkRow_withoutParents (fetchedAt : Timestamp) {aux : VerifiedAuxPow} :
    auxpowLinkRow blockHash witness 0 aux.withoutParents =
      AuxpowLinkRow.withoutParents <$> auxpowLinkRow blockHash witness fetchedAt aux := by
  simp only [auxpowLinkRow, VerifiedAuxPow.withoutParents, map_bind]
  rfl

theorem insertEvidence_withoutParents
    (h : indexed.Storable) : insertEvidence blockHash witness 0
        (indexed.auxpow.map VerifiedAuxPow.withoutParents) db.withoutParents =
      Db.withoutParents <$> insertEvidence blockHash witness indexed.fetchedAt indexed.auxpow db := by
  unfold IndexedBlock.Storable IndexedBlock.observations at h
  cases haux : indexed.auxpow with
  | none => rfl
  | some aux =>
    rw [haux, Option.elim_some] at h
    simp only [Option.map_some, insertEvidence,
      auxpowLinkRow_withoutParents indexed.fetchedAt, map_bind, bind_map_left]
    congr 1
    funext row
    congr 1
    funext _
    obtain ⟨db', hdb', heq⟩ := insertObservations_ok { db with
      auxpowLinks := db.auxpowLinks.upsert row row.refreshedBy row.key_refreshedBy
      parentChainObservations := db.parentChainObservations.deleteWhere fun r =>
        r.blockHash = blockHash && r.witnessHash = witness } h
    rw [hdb']
    refine congrArg Except.ok (Eq.trans ?_ heq.symm)
    simp only [Db.withoutParents]
    congr 1
    exact Eq.symm (Table.image_upsert row fun _ => rfl)

theorem insertEvidence_error {fetchedAt : Timestamp} (h : ¬ indexed.Storable) :
    ∃ e, insertEvidence blockHash witness fetchedAt indexed.auxpow db = .error e := by
  unfold IndexedBlock.Storable IndexedBlock.observations at h
  cases haux : indexed.auxpow with
  | none => simp [haux] at h
  | some aux =>
    rw [haux] at h
    simp only [Option.elim_some, not_forall, Bool.not_eq_true] at h
    obtain ⟨o, ho, hfalse⟩ := h
    cases hr : insertEvidence blockHash witness fetchedAt (some aux) db with
    | error e => exact ⟨e, rfl⟩
    | ok db' =>
      simp only [insertEvidence, Result.bind_eq_ok] at hr
      obtain ⟨row, -, -, -, hr⟩ := hr
      obtain ⟨e, he⟩ := insertObservations_error ⟨o, ho, hfalse⟩
      rw [he] at hr
      cases hr

end Evidence

section Methods

/-- Inserting a block whose observations can be stored and leaving the parents out afterwards is
inserting it without them. -/
theorem insertBlock_withoutParents (h : indexed.Storable) :
    insertBlock lib networkId indexed.withoutParents db.withoutParents =
      Db.withoutParents <$> insertBlock lib networkId indexed db := by
  simp only [insertBlock, insertBlockFacts_withoutParents, witnessHash_withoutParents, map_bind,
    bind_map_left]
  congr 1
  funext db₁
  simp only [insertWitness_withoutParents, bind_map_left]
  congr 1
  funext db₂
  have htransactions : indexed.withoutParents.block = indexed.block := rfl
  simp only [htransactions, insertBlockTransactions_withoutParents, bind_map_left]
  congr 1
  funext db₃
  simp only [insertValuePools_withoutParents, bind_map_left]
  congr 1
  funext db₄
  exact insertEvidence_withoutParents h

/-- One observation that cannot be stored fails the block it is about. -/
theorem insertBlock_storable (h : insertBlock lib networkId indexed db = .ok db') :
    indexed.Storable := by
  by_contra hnot
  obtain ⟨db₁, db₂, db₃, db₄, -, -, -, -, hevidence⟩ := insertBlock_ok h
  obtain ⟨e, he⟩ := insertEvidence_error hnot
  rw [he] at hevidence
  cases hevidence

theorem insertBlocks_withoutParents {blocks : List IndexedBlock} (h : ∀ b ∈ blocks, b.Storable) :
    insertBlocks lib networkId (blocks.map IndexedBlock.withoutParents) db.withoutParents =
      Db.withoutParents <$> insertBlocks lib networkId blocks db := by
  induction blocks generalizing db with
  | nil => rfl
  | cons first rest ih =>
    simp only [List.map_cons, insertBlocks, insertBlock_withoutParents (h first (by simp)),
      map_bind, bind_map_left]
    congr 1
    funext db₁
    exact ih fun b hb => h b (by simp [hb])

theorem insertBlocks_storable {blocks : List IndexedBlock}
    (h : insertBlocks lib networkId blocks db = .ok db') : ∀ b ∈ blocks, b.Storable := by
  induction blocks generalizing db with
  | nil => simp
  | cons first rest ih =>
    obtain ⟨db₁, hfirst, hrest⟩ := insertBlocks_cons h
    intro b hb
    rcases List.mem_cons.mp hb with rfl | hb
    · exact insertBlock_storable hfirst
    · exact ih hrest b hb

theorem insertCanonicalSelector_withoutParents :
    insertCanonicalSelector lib networkId indexed.withoutParents db.withoutParents =
      Db.withoutParents <$> insertCanonicalSelector lib networkId indexed db := by
  have htable : db.withoutParents.canonicalChain = db.canonicalChain := rfl
  simp only [insertCanonicalSelector, witnessHash_withoutParents, htable, map_bind]
  congr 1
  funext height
  have hblock : indexed.withoutParents.block = indexed.block := rfl
  rw [hblock]
  split
  · rfl
  · simp only [map_bind]
    rfl

theorem insertSelectors_withoutParents {blocks : List IndexedBlock} :
    insertSelectors lib networkId (blocks.map IndexedBlock.withoutParents) db.withoutParents =
      Db.withoutParents <$> insertSelectors lib networkId blocks db := by
  induction blocks generalizing db with
  | nil => rfl
  | cons first rest ih =>
    simp only [List.map_cons, insertSelectors, insertCanonicalSelector_withoutParents, map_bind,
      bind_map_left]
    congr 1
    funext db₁
    exact ih

theorem recordTip_withoutParents (now : Timestamp) {height : Option Nat} {hash witness : Option Text} :
    recordTip networkId height hash witness 0 db.withoutParents =
      (recordTip networkId height hash witness now db).withoutParents := by
  simp only [recordTip, updateChainState, Db.withoutParents]
  congr 1
  exact Eq.symm (Table.image_updateWhere (fun _ => rfl) fun _ => rfl)

/-- `select_canonical` reads neither a time nor a parent's answer. -/
theorem selectCanonical_withoutParents (now : Timestamp) :
    selectCanonical lib networkId indexed.withoutParents 0 db.withoutParents =
      Db.withoutParents <$> selectCanonical lib networkId indexed now db := by
  simp only [selectCanonical, insertCanonicalSelector_withoutParents, witnessHash_withoutParents,
    map_bind, bind_map_left]
  congr 1
  funext db₁
  congr 1
  funext height
  have htable : db₁.withoutParents.canonicalChain = db₁.canonicalChain := rfl
  rw [htable]
  split
  · rfl
  · simp only [recordTip_withoutParents now, map_bind]
    rfl

theorem commitBlock_withoutParents (h : indexed.Storable) :
    commitBlock lib networkId indexed.withoutParents 0 db.withoutParents =
      Db.withoutParents <$> commitBlock lib networkId indexed now db := by
  simp only [commitBlock, insertBlock_withoutParents h, map_bind, bind_map_left,
    selectCanonical_withoutParents now]

theorem commitBlock_storable (h : commitBlock lib networkId indexed now db = .ok db') :
    indexed.Storable := by
  obtain ⟨db₁, -, hins, -⟩ := commitBlock_ok h
  exact insertBlock_storable hins

theorem contiguousFrom_withoutParents {height : Nat} {previous : Option Text}
    {blocks : List IndexedBlock} :
    contiguousFrom height previous (blocks.map IndexedBlock.withoutParents) =
      contiguousFrom height previous blocks := by
  induction blocks generalizing height previous with
  | nil => rfl
  | cons first rest ih => simp only [List.map_cons, contiguousFrom, ih, IndexedBlock.withoutParents]

theorem tipUnchanged_withoutParents {oldTip : ChainTip} :
    tipUnchanged networkId oldTip db.withoutParents = tipUnchanged networkId oldTip db := by
  unfold tipUnchanged Db.withoutParents
  rw [Table.find?_image]
  cases db.chainState.find? networkId <;> rfl

theorem freshEventId_withoutParents : freshEventId db.withoutParents = freshEventId db := by
  simp only [freshEventId, Db.withoutParents, Table.rows_image, List.map_map]
  rfl

theorem insertReorgEvent_withoutParents (now : Timestamp) {eventId : Nat} {oldTip : ChainTip}
    {ancestorHeight : Option Nat} {ancestorHash : Option Text} :
    insertReorgEvent eventId networkId oldTip ancestorHeight ancestorHash 0 db.withoutParents =
      (insertReorgEvent eventId networkId oldTip ancestorHeight ancestorHash now
        db).withoutParents := by
  simp only [insertReorgEvent, Db.withoutParents, Table.image_insertNew]
  rfl

theorem completeReorgEvent_withoutParents (now : Timestamp) {eventId : Nat} :
    completeReorgEvent eventId 0 db.withoutParents =
      (completeReorgEvent eventId now db).withoutParents := by
  simp only [completeReorgEvent, Db.withoutParents]
  congr 1
  exact Eq.symm (Table.image_updateWhere (fun _ => rfl) fun _ => rfl)

theorem replaceCanonicalBranch_withoutParents {oldTip : ChainTip} {ancestor : Option (Nat × Text)}
    {replacement : List IndexedBlock} (h : ∀ b ∈ replacement, b.Storable) :
    replaceCanonicalBranch lib networkId oldTip ancestor
        (replacement.map IndexedBlock.withoutParents) 0 db.withoutParents =
      Db.withoutParents <$>
        replaceCanonicalBranch lib networkId oldTip ancestor replacement now db := by
  have hdetach (height : Option Nat) (d : Db) :
      detach networkId height d.withoutParents = (detach networkId height d).withoutParents := rfl
  have hwitness (b : IndexedBlock) :
      (witnessHash lib ∘ IndexedBlock.withoutParents) b = witnessHash lib b :=
    witnessHash_withoutParents
  simp only [replaceCanonicalBranch, tipUnchanged_withoutParents, validateReplacementBranch,
    contiguousFrom_withoutParents, insertBlocks_withoutParents h, map_bind, bind_map_left]
  congr 1
  funext _
  congr 1
  funext _
  congr 1
  funext db₁
  congr 1
  funext ancestorHeight
  simp only [freshEventId_withoutParents, insertReorgEvent_withoutParents now, hdetach,
    insertSelectors_withoutParents, bind_map_left, List.getLast?_map]
  congr 1
  funext db₂
  cases replacement.getLast? with
  | none =>
    simp only [Option.map_none, optional, recordTip_withoutParents now,
      completeReorgEvent_withoutParents now]
    rfl
  | some last =>
    simp only [Option.map_some, recordTip_withoutParents now,
      completeReorgEvent_withoutParents now, witnessHash_withoutParents]
    rfl

theorem replaceCanonicalBranch_storable {oldTip : ChainTip} {ancestor : Option (Nat × Text)}
    {replacement : List IndexedBlock}
    (h : replaceCanonicalBranch lib networkId oldTip ancestor replacement now db = .ok db') :
    ∀ b ∈ replacement, b.Storable := by
  obtain ⟨db₁, db₂, -, -, -, hins, -, -⟩ := replaceCanonicalBranch_ok h
  exact insertBlocks_storable hins

end Methods

end WcashExplorer
