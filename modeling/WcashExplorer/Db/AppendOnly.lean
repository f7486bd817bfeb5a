import WcashExplorer.Db.Calls
import WcashExplorer.Indexer.Node

/-! Stored facts across calls: nothing is changed or removed, and accepted blocks read back. -/
namespace WcashExplorer

open Effects Relational

variable {lib : AuxPowCrate} {networkId : Text} {indexed : IndexedBlock}
  {start mid db db₁ db₂ db' : Db} {log log' : List DbCall} {t : DbCall} {w : World}

/-- No fact row of an earlier state was changed or removed. -/
structure AppendsFacts (db db' : Db) : Prop where
  blocks : db.blocks.rows <+: db'.blocks.rows
  transactionInstances : db.transactionInstances.rows <+: db'.transactionInstances.rows
  blockTransactions : db.blockTransactions.rows <+: db'.blockTransactions.rows
  transparentInputs : db.transparentInputs.rows <+: db'.transparentInputs.rows
  transparentOutputs : db.transparentOutputs.rows <+: db'.transparentOutputs.rows

namespace AppendsFacts

theorem refl (db : Db) : AppendsFacts db db :=
  ⟨List.prefix_rfl, List.prefix_rfl, List.prefix_rfl, List.prefix_rfl, List.prefix_rfl⟩

theorem trans (h : AppendsFacts db db₁) (h' : AppendsFacts db₁ db₂) : AppendsFacts db db₂ where
  blocks := h.blocks.trans h'.blocks
  transactionInstances := h.transactionInstances.trans h'.transactionInstances
  blockTransactions := h.blockTransactions.trans h'.blockTransactions
  transparentInputs := h.transparentInputs.trans h'.transparentInputs
  transparentOutputs := h.transparentOutputs.trans h'.transparentOutputs

end AppendsFacts

theorem Inserts.appendsFacts (h : Inserts db db') : AppendsFacts db db' :=
  ⟨h.blocks, h.transactionInstances, h.blockTransactions, h.transparentInputs,
    h.transparentOutputs⟩

/-- Every method only appends facts. -/
theorem exec_appendsFacts {r : t.Result} (h : exec lib w t db = .ok (r, db')) :
    AppendsFacts db db' := by
  obtain ⟨db₁, hins, hdb'⟩ := exec_insertBlocks h
  have happends := (insertBlocks_recorded hins).1.appendsFacts
  rw [hdb']
  exact ⟨happends.blocks, happends.transactionInstances, happends.blockTransactions,
    happends.transparentInputs, happends.transparentOutputs⟩

theorem Calls.appendsFacts {P : Db → DbCall → Prop} (h : Calls lib P db log db') :
    AppendsFacts db db' :=
  h.invariant (I := AppendsFacts db) (.refl db) fun _ _ _ _ _ _ hd hx =>
    hd.trans (exec_appendsFacts hx)

/-- One transaction repeats another one's instance with a longer input or output list. -/
def Longer (lib : AuxPowCrate) (t t' : RpcTransaction) : Prop :=
  SameInstance lib t t' ∧ (t.vin.length < t'.vin.length ∨ t.vout.length < t'.vout.length)

instance (t : RpcTransaction) : Decidable (ExtendsStored lib db t) :=
  decidable_of_iff ((transactionInstanceRow lib t 0).toOption.any fun row =>
    (db.transactionInstances.find? row.key).any fun stored =>
      (storedInputs db stored.transactionInstanceId).length < t.vin.length ||
        (storedOutputs db stored.transactionInstanceId).length < t.vout.length) (by
    cases hrow : transactionInstanceRow lib t 0 with
    | error e => simp [ExtendsStored, Except.toOption, hrow]
    | ok row =>
      cases hfind : db.transactionInstances.find? row.key <;>
        simp [ExtendsStored, Except.toOption, hrow, hfind])

instance (t t' : RpcTransaction) : Decidable (SameInstance lib t t') :=
  decidable_of_iff ((transactionInstanceRow lib t 0).toOption.any fun row =>
    (transactionInstanceRow lib t' 0).toOption.any fun row' => row.key = row'.key) (by
    cases hrow : transactionInstanceRow lib t 0 <;>
      cases hrow' : transactionInstanceRow lib t' 0 <;>
        simp [SameInstance, Except.toOption, hrow, hrow'])

instance (t t' : RpcTransaction) : Decidable (Longer lib t t') :=
  inferInstanceAs (Decidable (_ ∧ _))

/-- No transaction of the blocks extends a stored instance, or one of an earlier block among
them. -/
structure NoExtension (lib : AuxPowCrate) (db : Db) (blocks : List IndexedBlock) : Prop where
  stored : ∀ b ∈ blocks, ∀ t ∈ b.block.tx, ¬ ExtendsStored lib db t
  among : blocks.Pairwise fun b b' => ∀ t ∈ b.block.tx, ∀ t' ∈ b'.block.tx, ¬ Longer lib t t'

instance (blocks : List IndexedBlock) : Decidable (NoExtension lib db blocks) :=
  decidable_of_iff (_ ∧ _) ⟨fun ⟨h, h'⟩ => ⟨h, h'⟩, fun ⟨h, h'⟩ => ⟨h, h'⟩⟩

/-- Blocks that extend nothing leave every stored fact, and are recorded together. -/
theorem insertBlocks_keeps {blocks : List IndexedBlock} (hs : FactsSound db)
    (hext : NoExtension lib db blocks) (h : insertBlocks lib networkId blocks db = .ok db') :
    FactsSound db' ∧ Keeps db db' ∧ ∀ b ∈ blocks, ∃ ids, Recorded lib networkId db' b ids := by
  induction blocks generalizing db with
  | nil =>
    cases h
    exact ⟨hs, .refl _, by simp⟩
  | cons first rest ih =>
    obtain ⟨db₁, hfirst, hrest⟩ := insertBlocks_cons h
    obtain ⟨hs₁, ids, hrecorded⟩ := insertBlock_recordedFacts hs hfirst
    obtain ⟨hkeeps, hnext⟩ := insertBlock_keeps hs (hext.stored first (by simp)) hfirst
    obtain ⟨hamong, hamongRest⟩ := List.pairwise_cons.mp hext.among
    have hext₁ : NoExtension lib db₁ rest := by
      refine ⟨fun b hb t' ht' => ?_, hamongRest⟩
      refine hnext t' (hext.stored b (by simp [hb]) t' ht') fun t ht hsame => ?_
      have hle := hamong b hb t ht t' ht'
      by_contra hlonger
      exact hle ⟨hsame, by omega⟩
    obtain ⟨hs', hkeepsRest, hrecordedRest⟩ := ih hs₁ hext₁ hrest
    refine ⟨hs', hkeeps.trans hkeepsRest, fun b hb => ?_⟩
    rcases List.mem_cons.mp hb with rfl | hb
    · exact ⟨ids, hrecorded.keeps hkeepsRest⟩
    · exact hrecordedRest b hb

/-- The same for whatever method stored the blocks. -/
theorem exec_keeps {r : t.Result} (hs : FactsSound db) (hext : NoExtension lib db t.blocks)
    (h : exec lib w t db = .ok (r, db')) :
    FactsSound db' ∧ Keeps db db' ∧ ∀ b ∈ t.blocks, ∃ ids, Recorded lib t.networkId db' b ids := by
  obtain ⟨db₁, hins, hdb'⟩ := exec_insertBlocks h
  obtain ⟨hs₁, hkeeps, hrecorded⟩ := insertBlocks_keeps hs hext hins
  have hframe : Keeps db₁ db' := by
    rw [hdb']
    exact ⟨List.prefix_rfl, List.prefix_rfl, fun _ _ hread => hread⟩
  refine ⟨?_, hkeeps.trans hframe, fun b hb => ?_⟩
  · rw [hdb']
    exact ⟨⟨hs₁.instances.ids_nodup, hs₁.instances.ids_lt, hs₁.instances.inputs_refer,
      hs₁.instances.outputs_refer⟩, ⟨hs₁.placements.once, hs₁.placements.counted⟩⟩
  · obtain ⟨ids, hids⟩ := hrecorded b hb
    exact ⟨ids, hids.keeps hframe⟩

/-- A store without facts. -/
structure NoFacts (db : Db) : Prop where
  blocks : db.blocks.rows = []
  transactionInstances : db.transactionInstances.rows = []
  blockTransactions : db.blockTransactions.rows = []
  transparentInputs : db.transparentInputs.rows = []
  transparentOutputs : db.transparentOutputs.rows = []

theorem NoFacts.factsSound (h : NoFacts db) : FactsSound db where
  instances := by constructor <;> simp [h.transactionInstances, h.transparentInputs,
    h.transparentOutputs]
  placements := by constructor <;> simp [PlacedOnce, h.blockTransactions]

/-- No accepted call extends what is stored when it is made. -/
def extendsNothing (lib : AuxPowCrate) (db : Db) (t : DbCall) : Prop :=
  NoExtension lib db t.blocks

instance : Decidable (extendsNothing lib db t) :=
  inferInstanceAs (Decidable (NoExtension lib db t.blocks))

/-- The facts are sound, and the blocks of the accepted calls are all recorded. -/
structure AllRecorded (lib : AuxPowCrate) (log : List DbCall) (db : Db) : Prop where
  sound : FactsSound db
  recorded : ∀ t ∈ log, ∀ b ∈ t.blocks, ∃ ids, Recorded lib t.networkId db b ids

theorem Calls.allRecorded (h : Calls lib (extendsNothing lib) start log db)
    (hs : FactsSound start) : AllRecorded lib log db := by
  induction h with
  | nil => exact ⟨hs, by simp⟩
  | accepted _ hp hx ih =>
    obtain ⟨hs', hkeeps, hrecorded⟩ := exec_keeps ih.sound hp hx
    refine ⟨hs', fun t ht b hb => ?_⟩
    rcases List.mem_append.mp ht with ht | ht
    · obtain ⟨ids, hids⟩ := ih.recorded t ht b hb
      exact ⟨ids, hids.keeps hkeeps⟩
    · obtain rfl := List.mem_singleton.mp ht
      exact hrecorded b hb
  | rejected _ _ ih => exact ih

/-- Two blocks state different values for a compared column or list of one hash, one witness or
one transaction instance. -/
inductive Contradicts (lib : AuxPowCrate) (networkId networkId' : Text) (b b' : IndexedBlock) : Prop
  | header (hash : b.block.hash = b'.block.hash)
      (differ : BlockFacts.header <$> blockFacts lib networkId b ≠
        BlockFacts.header <$> blockFacts lib networkId' b')
  | transactions (hash : b.block.hash = b'.block.hash)
      (witness : witnessHash lib b = witnessHash lib b')
      (differ : b.block.tx.mapM (transactionFacts lib) ≠ b'.block.tx.mapM (transactionFacts lib))
  | transaction {x x' : RpcTransaction} (mem : x ∈ b.block.tx) (mem' : x' ∈ b'.block.tx)
      (same : SameInstance lib x x') (differ : transactionFacts lib x ≠ transactionFacts lib x')

/-- One instance is stored with one set of facts. -/
theorem SameInstance.facts_eq {x x' : RpcTransaction} {f f' : TransactionFacts} {id id' : Nat}
    (h : SameInstance lib x x') (hs : InstancesSound db) (hf : transactionFacts lib x = .ok f)
    (hread : readInstance db id = some f) (hf' : transactionFacts lib x' = .ok f')
    (hread' : readInstance db id' = some f') : f = f' := by
  obtain ⟨row, row', hrow, hrow', hkey⟩ := h
  obtain ⟨r, hr, -, rfl⟩ := (readInstance_eq_some hs).mp hread
  obtain ⟨r', hr', -, rfl⟩ := (readInstance_eq_some hs).mp hread'
  have hown : r.key = row.key := by
    obtain ⟨row₁, hrow₁, -, hcolumns, -⟩ := transactionFacts_ok hf
    obtain rfl := Except.ok.inj (hrow.symm.trans hrow₁)
    have hkeys := congrArg TransactionInstanceRow.key hcolumns
    exact hkeys
  have hown' : r'.key = row'.key := by
    obtain ⟨row₁, hrow₁, -, hcolumns, -⟩ := transactionFacts_ok hf'
    obtain rfl := Except.ok.inj (hrow'.symm.trans hrow₁)
    have hkeys := congrArg TransactionInstanceRow.key hcolumns
    exact hkeys
  obtain rfl : r = r' := List.inj_on_of_nodup_map db.transactionInstances.nodup hr hr'
    (hown.trans (hkey.trans hown'.symm))
  rfl

/-- Every transaction of a recorded block reads back under some id. -/
theorem Recorded.reads_of_mem {x : RpcTransaction} {ids : List Nat}
    (h : Recorded lib networkId db indexed ids) (hx : x ∈ indexed.block.tx) :
    ∃ id facts, transactionFacts lib x = .ok facts ∧ readInstance db id = some facts := by
  obtain ⟨i, hi, rfl⟩ := List.mem_iff_getElem.mp hx
  have hlen : i < ids.length := by
    rw [h.reads.length_eq]
    exact hi
  obtain ⟨facts, hfacts, hread⟩ := (List.forall₂_iff_get.mp h.reads).2 i hlen hi
  exact ⟨_, facts, hfacts, hread⟩

theorem mapIdx_some_injective {α : Type} {xs ys : List α}
    (h : (xs.mapIdx fun i a => (i, some a)) = ys.mapIdx fun i a => (i, some a)) : xs = ys := by
  apply List.ext_getElem?
  intro i
  have hi := congrArg (fun l => (l[i]?).bind Prod.snd) h
  simpa [List.getElem?_mapIdx, Option.bind_map, Function.comp_def] using hi

/-- Recorded blocks do not contradict one another. -/
theorem Recorded.not_contradicts {networkId' : Text} {b b' : IndexedBlock} {ids ids' : List Nat}
    (hs : FactsSound db) (h : Recorded lib networkId db b ids)
    (h' : Recorded lib networkId' db b' ids') : ¬ Contradicts lib networkId networkId' b b' := by
  obtain ⟨facts, hfacts, hheader, htxs⟩ := h.readsBack hs.placements
  obtain ⟨facts', hfacts', hheader', htxs'⟩ := h'.readsBack hs.placements
  intro hcontradicts
  cases hcontradicts with
  | header hash differ =>
    rw [hash, hheader'] at hheader
    refine differ ?_
    rw [hfacts, hfacts']
    exact congrArg Except.ok (Option.some.inj hheader).symm
  | transactions hash witness differ =>
    rw [hash, witness, htxs'] at htxs
    refine differ ?_
    obtain ⟨-, -, -, -, hstated⟩ := blockFacts_ok hfacts
    obtain ⟨-, -, -, -, hstated'⟩ := blockFacts_ok hfacts'
    rw [hstated, hstated', mapIdx_some_injective htxs]
  | transaction mem mem' same differ =>
    obtain ⟨id, f, hf, hread⟩ := h.reads_of_mem mem
    obtain ⟨id', f', hf', hread'⟩ := h'.reads_of_mem mem'
    refine differ ?_
    rw [hf, hf', same.facts_eq hs.instances hf hread hf' hread']

/-- As long as no accepted call extends a stored transaction, stored facts are only ever added to,
every block accepted so far reads back exactly, and a block that contradicts one is refused. -/
theorem accepted_blocks_read_back (hempty : NoFacts start)
    (h : Calls lib (extendsNothing lib) start log mid)
    (h' : Calls lib (extendsNothing lib) mid log' db) :
    AppendsFacts mid db ∧
    (∀ t ∈ log ++ log', ∀ b ∈ t.blocks, ReadsBack lib t.networkId db b) ∧
    ∀ t ∈ log ++ log', ∀ b ∈ t.blocks, ∀ w t', extendsNothing lib db t' → ∀ b' ∈ t'.blocks,
      Contradicts lib t.networkId t'.networkId b b' → ∃ e, exec lib w t' db = .error e := by
  have hrun := h.trans h'
  have hall := hrun.allRecorded hempty.factsSound
  refine ⟨h'.appendsFacts, ?_, ?_⟩
  · intro t ht b hb
    obtain ⟨ids, hids⟩ := hall.recorded t ht b hb
    exact hids.readsBack hall.sound.placements
  · intro t ht b hb w t' hnext b' hb' hcontradicts
    cases hx : exec lib w t' db with
    | error e => exact ⟨e, rfl⟩
    | ok result =>
      obtain ⟨r, db'⟩ := result
      have hall' := (hrun.accepted hnext hx).allRecorded hempty.factsSound
      obtain ⟨ids, hids⟩ := hall'.recorded t (List.mem_append_left _ ht) b hb
      obtain ⟨ids', hids'⟩ := hall'.recorded t' (by simp) b' hb'
      exact absurd hcontradicts (hids.not_contradicts hall'.sound hids')

section Sample

/-- The state a method leaves behind. -/
def stateAfter (lib : AuxPowCrate) (w : World) (db : Db) (t : DbCall) : Db :=
  match exec lib w t db with
  | .ok (_, db') => db'
  | .error _ => db

theorem Calls.next {P : Db → DbCall → Prop} (h : Calls lib P db log db') (hp : P db' t)
    (hok : (exec lib w t db').isOk = true) : Calls lib P db (log ++ [t]) (stateAfter lib w db' t) := by
  cases hx : exec lib w t db' with
  | error e =>
    rw [hx] at hok
    cases hok
  | ok result =>
    obtain ⟨r, db₂⟩ := result
    have hstate : stateAfter lib w db' t = db₂ := by simp [stateAfter, hx]
    rw [hstate]
    exact h.accepted hp hx

/-- A transaction of a format without authorization digest, and the inputs the node decodes. -/
def sampleTransaction (vin : List RpcInput) : RpcTransaction :=
  { txid := sampleHash 'a', version := 4, size := 100, vin, hex := some ['0', '4'] }

def sampleCoinbase : RpcInput := { coinbase := some ['0', '0'] }

example : ((transactionInstanceRow sampleCrate (sampleTransaction [sampleCoinbase]) 0).toOption.any
    fun row => row.valid && row.isCoinbase) = true := by decide +kernel

/-- A sample block with transactions, as it is materialized. -/
def sampleIndexed (height : Nat) (digit : Char) (previous : Option Char)
    (tx : List RpcTransaction) : IndexedBlock :=
  let node := sampleBlock height digit previous 0
  let solution : Bytes := [0x57, 0x43, 0x41, 0x5a, 1, 0]
  { block := { node.block with tx }
    auxpow := if height = 0 then none else
      some (verifiedAuxPow sampleCrate (sampleRaw solution 0) solution () (List.replicate 32 0)
        (.bestChain 1) [])
    fetchedAt := 0
    rawBlock := if height = 0 then sampleRaw [0] 0 else sampleRaw solution 0
    raw := .null }

def sampleGenesisCommit : DbCall :=
  .commitBlock sampleNetwork (sampleIndexed 0 '0' none [sampleTransaction [sampleCoinbase]])

/-- The next block carries the same transaction, with as many inputs as `vin`. -/
def sampleNextCommit (vin : List RpcInput) : DbCall :=
  .commitBlock sampleNetwork (sampleIndexed 1 '1' (some '0') [sampleTransaction vin])

/-- The store after the genesis block, and after the next one. -/
def sampleStore (vin : List RpcInput) : Db :=
  stateAfter sampleCrate { now := 0 }
    (stateAfter sampleCrate { now := 0 } (initialDb sampleNetwork) sampleGenesisCommit)
    (sampleNextCommit vin)

theorem sampleStore_calls {P : Db → DbCall → Prop} {vin : List RpcInput}
    (hgenesis : P (initialDb sampleNetwork) sampleGenesisCommit)
    (hnext : P (stateAfter sampleCrate { now := 0 } (initialDb sampleNetwork) sampleGenesisCommit)
      (sampleNextCommit vin))
    (hok : (exec sampleCrate { now := 0 } (sampleNextCommit vin)
      (stateAfter sampleCrate { now := 0 } (initialDb sampleNetwork) sampleGenesisCommit)).isOk) :
    Calls sampleCrate P (initialDb sampleNetwork) [sampleGenesisCommit, sampleNextCommit vin]
      (sampleStore vin) := by
  have h₁ : Calls sampleCrate P (initialDb sampleNetwork) [sampleGenesisCommit] _ :=
    (Calls.nil _).next (w := { now := 0 }) hgenesis (by decide +kernel)
  exact h₁.next hnext hok

/-- A block that repeats a stored transaction with one more input is accepted, and then the block
that brought the transaction does not read back. -/
theorem longer_input_list_accepted : ∃ vin,
    Calls sampleCrate (fun _ _ => True) (initialDb sampleNetwork)
      [sampleGenesisCommit, sampleNextCommit vin] (sampleStore vin) ∧
    ¬ ∀ b ∈ sampleGenesisCommit.blocks,
      ReadsBack sampleCrate sampleNetwork (sampleStore vin) b := by
  refine ⟨[sampleCoinbase, sampleCoinbase], sampleStore_calls trivial trivial
    (by decide +kernel), ?_⟩
  intro h
  obtain ⟨facts, hfacts, -, hread⟩ := h _ (List.mem_singleton.mpr rfl)
  have hstated : (blockFacts sampleCrate sampleNetwork
      (sampleIndexed 0 '0' none [sampleTransaction [sampleCoinbase]])).toOption.map (fun f =>
        f.transactions.map fun x => x.inputs.length) = some [1] := by decide +kernel
  have hstored : (readTransactions (sampleStore [sampleCoinbase, sampleCoinbase]) (sampleHash '0')
      (witnessHash sampleCrate (sampleIndexed 0 '0' none
        [sampleTransaction [sampleCoinbase]]))).map (fun p => p.2.map fun x => x.inputs.length) =
          [some 2] := by decide +kernel
  have hlengths := congrArg (List.map fun p => p.2.map fun x => x.inputs.length) hread
  rw [hfacts] at hstated
  obtain ⟨f, hf, hone⟩ := List.map_eq_singleton_iff.mp (Option.some.inj hstated)
  rw [hf] at hlengths
  have htwo : [some f.inputs.length] = [some 2] := hlengths.symm.trans hstored
  rw [hone] at htwo
  cases htwo

/-- Repeating the transaction as it was stored leaves both blocks to be read back. -/
theorem accepted_blocks_read_back_remined :
    ReadsBack sampleCrate sampleNetwork (sampleStore [sampleCoinbase])
        (sampleIndexed 0 '0' none [sampleTransaction [sampleCoinbase]]) ∧
      ReadsBack sampleCrate sampleNetwork (sampleStore [sampleCoinbase])
        (sampleIndexed 1 '1' (some '0') [sampleTransaction [sampleCoinbase]]) := by
  have hrun := @sampleStore_calls (extendsNothing sampleCrate) [sampleCoinbase]
    (by decide +kernel) (by decide +kernel) (by decide +kernel)
  have hreads := (accepted_blocks_read_back ⟨rfl, rfl, rfl, rfl, rfl⟩ (.nil _) hrun).2.1
  exact ⟨hreads sampleGenesisCommit (by simp) _ (by simp [sampleGenesisCommit, DbCall.blocks]),
    hreads (sampleNextCommit [sampleCoinbase]) (by simp) _
      (by simp [sampleNextCommit, DbCall.blocks])⟩

end Sample

end WcashExplorer
