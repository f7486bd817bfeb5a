import WcashExplorer.Db.ReadBack
import WcashExplorer.Relational.Upserts

/-! Facts that a store and a block agree on, and the success of `insert_block` on them. -/
namespace WcashExplorer

open Relational

/-- One assignment of facts: what a block hash, an instance key and a position of a witness
stand for. -/
structure Ledger where
  header : Text → Option BlockRow
  transaction : Text × Text → Option TransactionFacts
  placement : Text × Text × Nat → Option (Text × Text)

/-- The facts of a store are the ledger's. -/
structure Ledger.AgreesWith (ledger : Ledger) (db : Db) : Prop where
  blocks : ∀ r ∈ db.blocks.rows, ledger.header r.blockHash = some r.compared
  instances : ∀ r ∈ db.transactionInstances.rows,
    ledger.transaction r.key = some (storedFacts db r)
  placements : ∀ p ∈ db.blockTransactions.rows, ∃ r ∈ db.transactionInstances.rows,
    r.transactionInstanceId = p.transactionInstanceId ∧ ledger.placement p.key = some r.key

/-- The facts of a block are the ledger's. -/
structure Ledger.Describes (ledger : Ledger) (blockHash witness : Text) (facts : BlockFacts) :
    Prop where
  header : ledger.header blockHash = some facts.header
  transactions : ∀ f ∈ facts.transactions, ledger.transaction f.columns.key = some f
  placements : ∀ i, ledger.placement (blockHash, witness, i) =
    facts.transactions[i]?.map fun f => f.columns.key

/-- A block states these facts, and every row it is stored as passes its table's constraints. -/
structure Fits (lib : AuxPowCrate) (networkId : Text) (indexed : IndexedBlock)
    (facts : BlockFacts) : Prop where
  stated : blockFacts lib networkId indexed = .ok facts
  instances_nodup : (facts.transactions.map fun f => f.columns.key).Nodup
  witness : ∃ row, blockWitnessRow lib indexed = .ok row ∧ row.valid = true
  pools : ∀ pool ∈ indexed.block.valuePools, pool.id.storable = true
  link : ∀ aux ∈ indexed.auxpow, ∃ row, auxpowLinkRow indexed.block.hash (witnessHash lib indexed)
    indexed.fetchedAt aux = .ok row ∧ row.valid = true
  observations : ∀ aux ∈ indexed.auxpow, ∀ o ∈ aux.parentObservations, ∃ row,
    parentObservationRow indexed.block.hash (witnessHash lib indexed) o = .ok row ∧
      row.valid = true

/-- The outputs of a transaction are listed in the order of their numbers, as they are read back. -/
def OutputsOrdered (block : RpcBlock) : Prop :=
  ∀ t ∈ block.tx, (t.vout.map fun o => o.n).Pairwise (· < ·)

variable {lib : AuxPowCrate} {networkId blockHash witness : Text} {indexed : IndexedBlock}
  {t : RpcTransaction} {db db' : Db} {id j position : Nat} {f : TransactionFacts} {ledger : Ledger}

section Lists

/-- The inputs of a transaction that states its facts are all offered. -/
theorem insertInputs_offers {inputs : List RpcInput} {rows : List TransparentInputRow}
    (h : inputRows 0 position inputs = .ok rows) :
    insertInputs id position inputs db = .ok (rows.map (TransparentInputRow.under id),
      { db with transparentInputs :=
          db.transparentInputs.insertAll (rows.map (TransparentInputRow.under id)) }) := by
  induction inputs generalizing position db rows with
  | nil =>
    cases h
    rfl
  | cons input rest ih =>
    simp only [inputRows, Result.bind_eq_ok, checked, ensure_eq_ok] at h
    obtain ⟨row, hrow, -, hvalid, rows', hrest, h⟩ := h
    cases h
    simp only [insertInputs, Result.bind_eq_ok, checked, ensure_eq_ok]
    exact ⟨_, (transparentInputRow_under hrow id).2, (), hvalid, _, ih hrest, rfl⟩

theorem insertOutputs_offers {outputs : List RpcOutput} {rows : List TransparentOutputRow}
    (h : outputRows 0 outputs = .ok rows) :
    insertOutputs id outputs db = .ok (rows.map (TransparentOutputRow.under id),
      { db with transparentOutputs :=
          db.transparentOutputs.insertAll (rows.map (TransparentOutputRow.under id)) }) := by
  induction outputs generalizing db rows with
  | nil =>
    cases h
    rfl
  | cons output rest ih =>
    simp only [outputRows, Result.bind_eq_ok, checked, ensure_eq_ok] at h
    obtain ⟨row, hrow, -, hvalid, rows', hrest, h⟩ := h
    cases h
    simp only [insertOutputs, Result.bind_eq_ok, checked, ensure_eq_ok]
    exact ⟨_, (transparentOutputRow_under hrow id).2, (), hvalid, _, ih hrest, rfl⟩

/-- The offered inputs are numbered from `position` on. -/
theorem inputRows_increasing {inputs : List RpcInput} {rows : List TransparentInputRow}
    (h : inputRows id position inputs = .ok rows) :
    (rows.map fun r => r.inputIndex).Pairwise (· < ·) ∧ ∀ r ∈ rows, position ≤ r.inputIndex := by
  induction inputs generalizing position rows with
  | nil =>
    cases h
    exact ⟨.nil, by simp⟩
  | cons input rest ih =>
    simp only [inputRows, Result.bind_eq_ok] at h
    obtain ⟨row, hrow, -, -, rows', hrest, h⟩ := h
    cases h
    obtain ⟨hincreasing, hle⟩ := ih hrest
    have hindex : row.inputIndex = position := by
      simp only [transparentInputRow, toI32, Result.bind_eq_ok, asI32_eq_ok] at hrow
      obtain ⟨_, ⟨-, rfl⟩, _, -, _, -, hrow⟩ := hrow
      cases hrow
      rfl
    refine ⟨List.pairwise_cons.mpr ⟨?_, hincreasing⟩, ?_⟩
    · intro i hi
      obtain ⟨r, hr, rfl⟩ := List.mem_map.mp hi
      have hr := hle r hr
      change row.inputIndex < r.inputIndex
      omega
    · intro r hr
      rcases List.mem_cons.mp hr with rfl | hr
      · omega
      · have := hle r hr
        omega

/-- The lists stored under an id are the ones offered under it. -/
theorem storedInputs_eq {rows : List TransparentInputRow}
    (h : (storedInputs db id).map TransparentInputRow.anonymous = rows) :
    storedInputs db id = rows.map (TransparentInputRow.under id) := by
  subst h
  rw [List.map_map]
  refine (List.map_id _).symm.trans (List.map_congr_left ?_)
  intro r hr
  have hmem := List.of_mem_filter ((List.perm_insertionSort _ _).mem_iff.mp hr)
  obtain rfl : r.transactionInstanceId = id := by simpa using hmem
  rfl

theorem storedOutputs_eq {rows : List TransparentOutputRow}
    (h : (storedOutputs db id).map TransparentOutputRow.anonymous = rows) :
    storedOutputs db id = rows.map (TransparentOutputRow.under id) := by
  subst h
  rw [List.map_map]
  refine (List.map_id _).symm.trans (List.map_congr_left ?_)
  intro r hr
  have hmem := List.of_mem_filter ((List.perm_insertionSort _ _).mem_iff.mp hr)
  obtain rfl : r.transactionInstanceId = id := by simpa using hmem
  rfl

/-- Under an id that has these inputs stored, or none, they are stored and read back. -/
theorem insertInputs_settles {inputs : List RpcInput} {rows : List TransparentInputRow}
    (h : inputRows 0 0 inputs = .ok rows)
    (hstored : (storedInputs db id).map TransparentInputRow.anonymous = rows ∨
      ∀ i ∈ db.transparentInputs.rows, i.transactionInstanceId ≠ id) :
    ∃ offered db', insertInputs id 0 inputs db = .ok (offered, db') ∧
      db' = { db with transparentInputs := db'.transparentInputs } ∧
      storedInputs db' id = offered := by
  refine ⟨_, _, insertInputs_offers h, rfl, ?_⟩
  refine Table.orderBy_insertAll (fun r s hk => Prod.mk.inj hk) ?_ ?_ (hstored.imp_left storedInputs_eq)
  · intro r hr
    obtain ⟨s, -, rfl⟩ := List.mem_map.mp hr
    rfl
  · rw [List.map_map]
    exact (inputRows_increasing h).1

theorem insertOutputs_settles {outputs : List RpcOutput} {rows : List TransparentOutputRow}
    (h : outputRows 0 outputs = .ok rows)
    (hincreasing : (outputs.map fun o => o.n).Pairwise (· < ·))
    (hstored : (storedOutputs db id).map TransparentOutputRow.anonymous = rows ∨
      ∀ o ∈ db.transparentOutputs.rows, o.transactionInstanceId ≠ id) :
    ∃ offered db', insertOutputs id outputs db = .ok (offered, db') ∧
      db' = { db with transparentOutputs := db'.transparentOutputs } ∧
      storedOutputs db' id = offered := by
  refine ⟨_, _, insertOutputs_offers h, rfl, ?_⟩
  refine Table.orderBy_insertAll (fun r s hk => Prod.mk.inj hk) ?_ ?_
    (hstored.imp_left storedOutputs_eq)
  · intro r hr
    obtain ⟨s, -, rfl⟩ := List.mem_map.mp hr
    rfl
  · rw [List.map_map]
    rw [← outputRows_indices h] at hincreasing
    exact hincreasing

end Lists

section Transactions

theorem insertInstance_of_found {row stored : TransactionInstanceRow}
    (hrow : transactionInstanceRow lib t db.nextTransactionInstanceId = .ok row)
    (hvalid : row.valid = true)
    (hfound : (db.transactionInstances.insertNew row).find? row.key = some stored)
    (hsame : stored.anonymous = row.anonymous) :
    insertInstance lib t db = .ok (stored, { db with
      transactionInstances := db.transactionInstances.insertNew row
      nextTransactionInstanceId := db.nextTransactionInstanceId + 1 }) := by
  have hmatches := (immutableTransactionMatches_iff
    (congrArg Prod.fst (Table.key_of_find? hfound))).mpr hsame
  simp only [insertInstance, Result.bind_eq_ok, checked, ensure_eq_ok]
  refine ⟨row, hrow, (), hvalid, ?_⟩
  rw [hfound]
  simp only [Result.bind_eq_ok, ensure_eq_ok]
  exact ⟨(), hmatches, trivial⟩

/-- The instance is found with the facts stated, or it is new and nothing is stored under it. -/
theorem insertInstance_settles (hs : InstancesSound db) (hf : transactionFacts lib t = .ok f)
    (hagree : ∀ r ∈ db.transactionInstances.rows, r.key = f.columns.key → storedFacts db r = f) :
    ∃ stored db', insertInstance lib t db = .ok (stored, db') ∧
      db'.transparentInputs = db.transparentInputs ∧
      db'.transparentOutputs = db.transparentOutputs ∧
      (storedFacts db stored = f ∨
        (∀ i ∈ db.transparentInputs.rows, i.transactionInstanceId ≠ stored.transactionInstanceId) ∧
          ∀ o ∈ db.transparentOutputs.rows,
            o.transactionInstanceId ≠ stored.transactionInstanceId) := by
  obtain ⟨row₀, hrow₀, hvalid, hcolumns, -⟩ := transactionFacts_ok hf
  obtain ⟨-, hrow⟩ := transactionInstanceRow_under hrow₀ db.nextTransactionInstanceId
  generalize hdef : { row₀ with transactionInstanceId := db.nextTransactionInstanceId } = row at hrow
  have hid : row.transactionInstanceId = db.nextTransactionInstanceId := by rw [← hdef]
  have hvalid : row.valid = true := by
    rw [← hdef]
    exact hvalid
  have hcolumns : f.columns = row.anonymous := by
    rw [hcolumns, ← hdef]
    rfl
  cases hfind : db.transactionInstances.find? row.key with
  | some stored =>
    have hkey : row.key = f.columns.key := (congrArg TransactionInstanceRow.key hcolumns).symm
    have hsame := hagree stored (Table.mem_of_find? hfind) ((Table.key_of_find? hfind).trans hkey)
    have hstored : stored.anonymous = row.anonymous :=
      (congrArg TransactionFacts.columns hsame).trans hcolumns
    have hfound := Table.find?_insertNew_of_find? (r := row) hfind
    exact ⟨stored, _, insertInstance_of_found hrow hvalid hfound hstored, rfl, rfl, .inl hsame⟩
  | none =>
    have hfound : (db.transactionInstances.insertNew row).find? row.key = some row := by
      rw [Table.find?_insertNew, hfind, if_pos rfl, Option.none_or]
    refine ⟨row, _, insertInstance_of_found hrow hvalid hfound rfl, rfl, rfl, .inr ⟨?_, ?_⟩⟩
    · intro i hi he
      obtain ⟨r, hr, hrid⟩ := hs.inputs_refer i hi
      have := hs.ids_lt r hr
      omega
    · intro o ho he
      obtain ⟨r, hr, hrid⟩ := hs.outputs_refer o ho
      have := hs.ids_lt r hr
      omega

/-- A transaction is stored if the store agrees with it. -/
theorem insertTransaction_succeeds (hs : InstancesSound db) (hf : transactionFacts lib t = .ok f)
    (hincreasing : (t.vout.map fun o => o.n).Pairwise (· < ·))
    (hagree : ∀ r ∈ db.transactionInstances.rows, r.key = f.columns.key → storedFacts db r = f) :
    ∃ id db', insertTransaction lib t db = .ok (id, db') := by
  obtain ⟨-, -, -, -, hin, hout⟩ := transactionFacts_ok hf
  obtain ⟨stored, db₁, hinst, hins, houts, hknown⟩ := insertInstance_settles hs hf hagree
  have hinputs : (storedInputs db₁ stored.transactionInstanceId).map
      TransparentInputRow.anonymous = f.inputs ∨
      ∀ i ∈ db₁.transparentInputs.rows, i.transactionInstanceId ≠ stored.transactionInstanceId := by
    rw [storedInputs, hins]
    exact hknown.imp (congrArg TransactionFacts.inputs) And.left
  obtain ⟨inputs, db₂, hoffered, hframe, hread⟩ := insertInputs_settles hin hinputs
  have houtputs : (storedOutputs db₂ stored.transactionInstanceId).map
      TransparentOutputRow.anonymous = f.outputs ∨
      ∀ o ∈ db₂.transparentOutputs.rows, o.transactionInstanceId ≠ stored.transactionInstanceId := by
    rw [storedOutputs, hframe, houts]
    exact hknown.imp (congrArg TransactionFacts.outputs) And.right
  obtain ⟨outputs, db₃, hoffered', -, hread'⟩ := insertOutputs_settles hout hincreasing houtputs
  refine ⟨stored.transactionInstanceId, db₃, ?_⟩
  simp only [insertTransaction, Result.bind_eq_ok, ensure_eq_ok]
  exact ⟨_, hinst, _, hoffered, (), decide_eq_true hread, _, hoffered', (), decide_eq_true hread', rfl⟩

/-- An instance has the facts the ledger gives its key. -/
theorem Ledger.AgreesWith.storedFacts_eq (ha : ledger.AgreesWith db) {r : TransactionInstanceRow}
    (hr : r ∈ db.transactionInstances.rows) (hkey : r.key = f.columns.key)
    (hl : ledger.transaction f.columns.key = some f) : storedFacts db r = f := by
  have hstored := ha.instances r hr
  rw [hkey, hl] at hstored
  exact (Option.some.inj hstored).symm

/-- A transaction of the ledger extends nothing in a store that agrees with it. -/
theorem Ledger.AgreesWith.not_extends (ha : ledger.AgreesWith db)
    (hf : transactionFacts lib t = .ok f) (hl : ledger.transaction f.columns.key = some f) :
    ¬ ExtendsStored lib db t := by
  rintro ⟨row, stored, hrow, hfound, hlt⟩
  obtain ⟨row', hrow', -, hcolumns, -⟩ := transactionFacts_ok hf
  obtain rfl := Except.ok.inj (hrow.symm.trans hrow')
  have hkey : row.key = f.columns.key := (congrArg TransactionInstanceRow.key hcolumns).symm
  have hfacts := ha.storedFacts_eq (Table.mem_of_find? hfound)
    ((Table.key_of_find? hfound).trans hkey) hl
  have hins := congrArg (fun f => f.inputs.length) hfacts
  have houts := congrArg (fun f => f.outputs.length) hfacts
  simp only [storedFacts, List.length_map] at hins houts
  obtain ⟨hvin, hvout⟩ := transactionFacts_lengths hf
  omega

/-- Storing a transaction of the ledger keeps the store in agreement. -/
theorem Ledger.AgreesWith.inserted {row stored : TransactionInstanceRow}
    (ha : ledger.AgreesWith db) (hs : InstancesSound db)
    (hin : TransactionInserted lib t db id db' row stored) (hf : transactionFacts lib t = .ok f)
    (hl : ledger.transaction f.columns.key = some f) : ledger.AgreesWith db' ∧
      stored ∈ db'.transactionInstances.rows ∧ stored.key = f.columns.key := by
  have hs' := hin.sound hs
  have hmem := Table.mem_of_find? hin.found
  obtain ⟨facts, hfacts, hread⟩ := hin.reads hs
  obtain rfl := Except.ok.inj (hf.symm.trans hfacts)
  obtain ⟨r, hr, hrid, hstored⟩ := (readInstance_eq_some hs').mp hread
  obtain rfl : r = stored := List.inj_on_of_nodup_map hs'.ids_nodup hr hmem (hrid.trans hin.own.symm)
  have hkey : r.key = f.columns.key := by
    rw [← hstored]
    rfl
  refine ⟨⟨?_, ?_, ?_⟩, hmem, hkey⟩
  · rw [hin.blocks]
    exact ha.blocks
  · intro s hs''
    rcases hin.mem_instances.mp hs'' with hold | ⟨rfl, hnone⟩
    · have hbefore : readInstance db s.transactionInstanceId = some (storedFacts db s) :=
        (readInstance_eq_some hs).mpr ⟨s, hold, rfl, rfl⟩
      have hafter := hin.keeps hs (ha.not_extends hf hl) hbefore
      obtain ⟨s', hmem', hid, hsame⟩ := (readInstance_eq_some hs').mp hafter
      obtain rfl := List.inj_on_of_nodup_map hs'.ids_nodup hmem' hs'' hid
      rw [ha.instances s' hold, hsame]
    · obtain rfl : s = r := Option.some.inj ((Table.find?_of_mem hs'').symm.trans hin.found)
      rw [hkey, hl, hstored]
  · rw [hin.placements]
    intro p hp
    obtain ⟨s, hold, hid, hplaced⟩ := ha.placements p hp
    exact ⟨s, hin.mem_instances.mpr (.inl hold), hid, hplaced⟩

/-- An instance is placed where the ledger places it, if it does so nowhere else in the block. -/
theorem insertBlockTransaction_succeeds {stored : TransactionInstanceRow}
    (ha : ledger.AgreesWith db) (hs : InstancesSound db)
    (hstored : stored ∈ db.transactionInstances.rows)
    (honce : ∀ i, ledger.placement (blockHash, witness, i) = some stored.key ↔ i = position) :
    ∃ db', insertBlockTransaction
        ⟨blockHash, witness, position, stored.transactionInstanceId⟩ db = .ok db' ∧
      ledger.AgreesWith db' ∧ InstancesSound db' ∧
      db'.blockTransactions.find? (blockHash, witness, position) =
        some ⟨blockHash, witness, position, stored.transactionInstanceId⟩ := by
  have hplaced := (honce position).mpr rfl
  unfold insertBlockTransaction
  cases hfind : db.blockTransactions.find? (blockHash, witness, position) with
  | some p =>
    refine ⟨db, ?_, ha, hs, ?_⟩
    · simp only [BlockTransactionRow.key, hfind]
    · obtain ⟨r, hr, hid, hkey⟩ := ha.placements p (Table.mem_of_find? hfind)
      have hpkey := Table.key_of_find? hfind
      rw [hpkey, hplaced] at hkey
      obtain rfl := List.inj_on_of_nodup_map db.transactionInstances.nodup hr hstored
        (Option.some.inj hkey).symm
      simp only [BlockTransactionRow.key, Prod.mk.injEq] at hpkey
      obtain ⟨rfl, rfl, rfl⟩ := hpkey
      rw [hfind, hid]
  | none =>
    have hall : db.blockTransactions.rows.all (fun r => !(r.blockHash = blockHash &&
        r.witnessHash = witness && r.transactionInstanceId = stored.transactionInstanceId)) = true := by
      refine List.all_eq_true.mpr ?_
      intro p hp
      by_contra hne
      simp only [Bool.not_eq_true', Bool.not_eq_false, Bool.and_eq_true, decide_eq_true_eq] at hne
      obtain ⟨⟨rfl, rfl⟩, hid⟩ := hne
      obtain ⟨r, hr, hrid, hkey⟩ := ha.placements p hp
      obtain rfl := List.inj_on_of_nodup_map hs.ids_nodup hr hstored (hrid.trans hid)
      have hpos := (honce p.txPosition).mp hkey
      refine Table.find?_eq_none.mp hfind p hp ?_
      rw [← hpos]
      rfl
    refine ⟨{ db with
      blockTransactions := db.blockTransactions.insertNew
        ⟨blockHash, witness, position, stored.transactionInstanceId⟩ }, ?_,
      ⟨ha.blocks, ha.instances, ?_⟩, hs.placing _, ?_⟩
    · simp only [BlockTransactionRow.key, hfind, Result.bind_eq_ok, checked, ensure_eq_ok]
      exact ⟨(), hall, trivial⟩
    · intro p hp
      rcases Table.mem_insertNew.mp hp with hp | ⟨rfl, -⟩
      · exact ha.placements p hp
      · exact ⟨stored, hstored, rfl, hplaced⟩
    · rw [Table.find?_insertNew, hfind]
      exact if_pos rfl

/-- The transactions of a block the ledger describes are all stored and placed. -/
theorem insertBlockTransactions_succeeds {facts : List TransactionFacts} {txs : List RpcTransaction}
    (ha : ledger.AgreesWith db) (hs : InstancesSound db)
    (hl : ∀ f ∈ facts, ledger.transaction f.columns.key = some f)
    (hplace : ∀ i, ledger.placement (blockHash, witness, i) =
      facts[i]?.map fun f => f.columns.key)
    (hnodup : (facts.map fun f => f.columns.key).Nodup)
    (hfacts : txs.mapM (transactionFacts lib) = .ok (facts.drop position))
    (hincreasing : ∀ t ∈ txs, (t.vout.map fun o => o.n).Pairwise (· < ·))
    (hle : position + txs.length ≤ i32Max + 1) :
    ∃ db', insertBlockTransactions lib blockHash witness position txs db = .ok db' ∧
      ledger.AgreesWith db' := by
  induction txs generalizing position db with
  | nil => exact ⟨db, rfl, ha⟩
  | cons t rest ih =>
    rw [List.mapM_cons] at hfacts
    simp only [Result.bind_eq_ok] at hfacts
    obtain ⟨f, hf, rest', hrest, hdrop⟩ := hfacts
    have hdrop : facts.drop position = f :: rest' := (Except.ok.inj hdrop).symm
    have hat : facts[position]? = some f := by
      rw [← List.head?_drop, hdrop]
      rfl
    have hafter : facts.drop (position + 1) = rest' := by
      rw [← List.tail_drop, hdrop]
      rfl
    have hlf := hl f (List.mem_of_getElem? hat)
    obtain ⟨id, db₁, ht⟩ := insertTransaction_succeeds hs hf (hincreasing t (by simp))
      fun r hr hkey => ha.storedFacts_eq hr hkey hlf
    obtain ⟨row, stored, hin⟩ := insertTransaction_inserted ht
    obtain ⟨ha₁, hmem, hkey⟩ := ha.inserted hs hin hf hlf
    have honce : ∀ i, ledger.placement (blockHash, witness, i) = some stored.key ↔ i = position := by
      intro i
      rw [hplace, hkey]
      constructor
      · intro hi
        have hposition : (facts.map fun f => f.columns.key)[position]? = some f.columns.key := by
          rw [List.getElem?_map, hat, Option.map_some]
        rw [← List.getElem?_map] at hi
        obtain ⟨hlt, -⟩ := List.getElem?_eq_some_iff.mp hi
        exact (List.getElem?_inj hlt hnodup).mp (hi.trans hposition.symm)
      · rintro rfl
        rw [hat, Option.map_some]
    obtain ⟨db₂, hbt, ha₂, hs₂, hfound⟩ :=
      insertBlockTransaction_succeeds ha₁ (hin.sound hs) hmem honce
    rw [hin.own] at hbt hfound
    have hbound : position ≤ i32Max ∧ position + 1 + rest.length ≤ i32Max + 1 := by
      rw [List.length_cons] at hle
      omega
    obtain ⟨db', hloop, ha'⟩ := ih ha₂ hs₂ (hafter ▸ hrest)
      (fun t ht => hincreasing t (by simp [ht])) hbound.2
    refine ⟨db', ?_, ha'⟩
    simp only [insertBlockTransactions, Result.bind_eq_ok]
    refine ⟨_, ht, position, asI32_eq_ok.mpr ⟨hbound.1, rfl⟩, db₂, hbt, ?_⟩
    simp only [BlockTransactionRow.key, hfound, Result.bind_eq_ok, ensure_eq_ok]
    exact ⟨(), by simp, hloop⟩

end Transactions

section Blocks

/-- When a block is fetched does not matter to its constraints. -/
theorem Fits.fetchedAt {facts : BlockFacts} (h : Fits lib networkId indexed facts)
    (fetchedAt : Timestamp) : Fits lib networkId { indexed with fetchedAt } facts where
  stated := by
    obtain ⟨row, hrow, hvalid, hheader, htransactions⟩ := blockFacts_ok h.stated
    have hrow' : blockRow networkId { indexed with fetchedAt } =
        .ok { row with firstSeenAt := fetchedAt } := by
      simp only [blockRow, Result.bind_eq_ok] at hrow ⊢
      obtain ⟨time, htime, height, hheight, size, hsize, count, hcount, hrow⟩ := hrow
      cases hrow
      exact ⟨time, htime, height, hheight, size, hsize, count, hcount, rfl⟩
    simp only [blockFacts, Result.bind_eq_ok, checked, ensure_eq_ok]
    refine ⟨_, hrow', (), hvalid, _, htransactions, ?_⟩
    exact congrArg (fun header => Except.ok { facts with header }) hheader.symm
  instances_nodup := h.instances_nodup
  witness := by
    obtain ⟨row, hrow, hvalid⟩ := h.witness
    refine ⟨{ row with indexedAt := fetchedAt }, ?_, hvalid⟩
    obtain ⟨block, auxpow, _, rawBlock, raw⟩ := indexed
    cases auxpow with
    | none =>
      cases hrow
      rfl
    | some aux =>
      simp only [blockWitnessRow, Result.bind_eq_ok] at hrow ⊢
      obtain ⟨bytes, hbytes, hrow⟩ := hrow
      cases hrow
      exact ⟨bytes, hbytes, rfl⟩
  pools := h.pools
  link := by
    intro aux haux
    obtain ⟨row, hrow, hvalid⟩ := h.link aux haux
    refine ⟨{ row with verifiedAt := fetchedAt }, ?_, hvalid⟩
    simp only [auxpowLinkRow, Result.bind_eq_ok] at hrow ⊢
    obtain ⟨size, hsize, parent, hparent, auth, hauth, auxiliary, hauxiliary, hrow⟩ := hrow
    cases hrow
    exact ⟨size, hsize, parent, hparent, auth, hauth, auxiliary, hauxiliary, rfl⟩
  observations := h.observations

theorem insertWitness_succeeds
    (h : ∃ row, blockWitnessRow lib indexed = .ok row ∧ row.valid = true) :
    ∃ db', insertWitness lib indexed db = .ok db' := by
  obtain ⟨row, hrow, hvalid⟩ := h
  refine ⟨{ db with
    blockWitnesses := db.blockWitnesses.upsert row row.refreshedBy row.key_refreshedBy }, ?_⟩
  simp only [insertWitness, Result.bind_eq_ok, checked, ensure_eq_ok]
  exact ⟨row, hrow, (), hvalid, rfl⟩

theorem insertValuePools_succeeds {pools : List ValuePool}
    (h : ∀ pool ∈ pools, pool.id.storable = true) :
    ∃ db', insertValuePools blockHash witness pools db = .ok db' := by
  induction pools generalizing db with
  | nil => exact ⟨db, rfl⟩
  | cons pool rest ih =>
    obtain ⟨db', hrest⟩ := ih fun p hp => h p (by simp [hp])
    refine ⟨db', ?_⟩
    simp only [insertValuePools, Result.bind_eq_ok, checked, ensure_eq_ok]
    exact ⟨(), h pool (by simp), hrest⟩

theorem insertObservations_succeeds {observations : List ParentObservation}
    (h : ∀ o ∈ observations, ∃ row, parentObservationRow blockHash witness o = .ok row ∧
      row.valid = true) : ∃ db', insertObservations blockHash witness observations db = .ok db' := by
  induction observations generalizing db with
  | nil => exact ⟨db, rfl⟩
  | cons observation rest ih =>
    obtain ⟨row, hrow, hvalid⟩ := h observation (by simp)
    obtain ⟨db', hrest⟩ := ih fun o ho => h o (by simp [ho])
    refine ⟨db', ?_⟩
    simp only [insertObservations, Result.bind_eq_ok, checked, ensure_eq_ok]
    exact ⟨row, hrow, (), hvalid, hrest⟩

theorem insertEvidence_succeeds {fetchedAt : Timestamp} {auxpow : Option VerifiedAuxPow}
    (hlink : ∀ aux ∈ auxpow, ∃ row, auxpowLinkRow blockHash witness fetchedAt aux = .ok row ∧
      row.valid = true)
    (hobservations : ∀ aux ∈ auxpow, ∀ o ∈ aux.parentObservations, ∃ row,
      parentObservationRow blockHash witness o = .ok row ∧ row.valid = true) :
    ∃ db', insertEvidence blockHash witness fetchedAt auxpow db = .ok db' := by
  cases auxpow with
  | none => exact ⟨db, rfl⟩
  | some aux =>
    obtain ⟨row, hrow, hvalid⟩ := hlink aux rfl
    obtain ⟨db', hrest⟩ := insertObservations_succeeds (hobservations aux rfl)
    refine ⟨db', ?_⟩
    simp only [insertEvidence, Result.bind_eq_ok, checked, ensure_eq_ok]
    exact ⟨row, hrow, (), hvalid, hrest⟩

/-- The header of a block the ledger describes is stored, or was stored with the same facts. -/
theorem insertBlockFacts_succeeds {facts : BlockFacts} (ha : ledger.AgreesWith db)
    (h : blockFacts lib networkId indexed = .ok facts)
    (hl : ledger.header indexed.block.hash = some facts.header) :
    ∃ db', insertBlockFacts networkId indexed db = .ok db' ∧ ledger.AgreesWith db' := by
  obtain ⟨row, hrow, hvalid, hheader, -⟩ := blockFacts_ok h
  have hhash : row.blockHash = indexed.block.hash := (blockRow_ok hrow).1
  obtain ⟨stored, hfound, hsame⟩ : ∃ stored,
      (db.blocks.insertNew row).find? indexed.block.hash = some stored ∧
        stored.compared = row.compared := by
    rw [← hhash] at hl ⊢
    cases hfind : db.blocks.find? row.blockHash with
    | some stored =>
      have hstored := ha.blocks stored (Table.mem_of_find? hfind)
      rw [Table.key_of_find? hfind, hl] at hstored
      exact ⟨stored, Table.find?_insertNew_of_find? hfind,
        (Option.some.inj hstored).symm.trans hheader⟩
    | none =>
      refine ⟨row, ?_, rfl⟩
      rw [Table.find?_insertNew, hfind]
      exact if_pos rfl
  have hkey : stored.blockHash = row.blockHash := (Table.key_of_find? hfound).trans hhash.symm
  refine ⟨{ db with blocks := db.blocks.insertNew row }, ?_, ⟨?_, ha.instances, ha.placements⟩⟩
  · simp only [insertBlockFacts, Result.bind_eq_ok, checked, ensure_eq_ok]
    refine ⟨row, hrow, (), hvalid, ?_⟩
    rw [hfound]
    simp only [Result.bind_eq_ok, ensure_eq_ok]
    exact ⟨(), (immutableBlockMatches_iff hkey).mpr hsame, trivial⟩
  · intro r hr
    rcases Table.mem_insertNew.mp hr with hr | ⟨rfl, -⟩
    · exact ha.blocks r hr
    · rw [hhash, hl, hheader]

/-- A block that fits its tables and that the ledger describes is inserted into a store that
agrees with the ledger, and the store still does. -/
theorem insertBlock_succeeds {facts : BlockFacts} (ha : ledger.AgreesWith db) (hs : FactsSound db)
    (hfits : Fits lib networkId indexed facts) (hordered : OutputsOrdered indexed.block)
    (hl : ledger.Describes indexed.block.hash (witnessHash lib indexed) facts) :
    ∃ db', insertBlock lib networkId indexed db = .ok db' ∧ ledger.AgreesWith db' ∧
      FactsSound db' := by
  obtain ⟨row, hrow, -, -, htransactions⟩ := blockFacts_ok hfits.stated
  obtain ⟨db₁, h₁, ha₁⟩ := insertBlockFacts_succeeds ha hfits.stated hl.header
  obtain ⟨db₂, h₂⟩ : ∃ db₂, insertWitness lib indexed db₁ = .ok db₂ :=
    insertWitness_succeeds hfits.witness
  have hframe : db₂ = { db with
      blocks := db₁.blocks
      blockWitnesses := db₂.blockWitnesses } := by
    obtain ⟨row, stored, -, -, rfl, -⟩ := insertBlockFacts_ok h₁
    obtain ⟨wrow, -, -, rfl⟩ := insertWitness_ok h₂
    rfl
  have hs₂ : InstancesSound db₂ := by
    rw [hframe]
    exact ⟨hs.instances.ids_nodup, hs.instances.ids_lt, hs.instances.inputs_refer,
      hs.instances.outputs_refer⟩
  have ha₂ : ledger.AgreesWith db₂ := by
    rw [hframe]
    exact ⟨ha₁.blocks, ha.instances, ha.placements⟩
  have hcount : 0 + indexed.block.tx.length ≤ i32Max + 1 := by
    simp only [blockRow, Result.bind_eq_ok, asI32_eq_ok] at hrow
    obtain ⟨-, -, -, -, -, -, -, ⟨hle, -⟩, -⟩ := hrow
    omega
  obtain ⟨db₃, h₃, ha₃⟩ := insertBlockTransactions_succeeds ha₂ hs₂ hl.transactions hl.placements
    hfits.instances_nodup htransactions hordered hcount
  obtain ⟨db₄, h₄⟩ : ∃ db₄, insertValuePools indexed.block.hash (witnessHash lib indexed)
      indexed.block.valuePools db₃ = .ok db₄ := insertValuePools_succeeds hfits.pools
  obtain ⟨db', h₅⟩ : ∃ db', insertEvidence indexed.block.hash (witnessHash lib indexed)
      indexed.fetchedAt indexed.auxpow db₄ = .ok db' :=
    insertEvidence_succeeds hfits.link hfits.observations
  have hinsert : insertBlock lib networkId indexed db = .ok db' := by
    simp only [insertBlock, Result.bind_eq_ok]
    exact ⟨db₁, h₁, db₂, h₂, db₃, h₃, db₄, h₄, h₅⟩
  refine ⟨db', hinsert, ?_, (insertBlock_recordedFacts hs hinsert).1⟩
  rw [insertEvidence_frame h₅, insertValuePools_frame h₄]
  exact ⟨ha₃.blocks, ha₃.instances, ha₃.placements⟩

end Blocks

section Listed

/-- The ledger of a list of blocks: the hash, the witness and the facts of each. -/
def Ledger.ofBlocks (blocks : List (Text × Text × BlockFacts)) : Ledger where
  header := fun hash => (blocks.find? fun b => b.1 = hash).map fun b => b.2.2.header
  transaction := fun key =>
    (blocks.flatMap fun b => b.2.2.transactions).find? fun f => f.columns.key = key
  placement := fun (hash, witness, i) =>
    (blocks.find? fun b => b.1 = hash && b.2.1 = witness).bind fun b =>
      b.2.2.transactions[i]?.map fun f => f.columns.key

/-- The only element of a list with a key is the one that is found. -/
theorem find?_of_nodup_map {α β : Type} {key : α → β} {p : α → Bool} {xs : List α} {x : α}
    (hnodup : (xs.map key).Nodup) (hx : x ∈ xs) (hp : p x = true)
    (hkey : ∀ y ∈ xs, p y = true → key y = key x) : xs.find? p = some x := by
  cases hfind : xs.find? p with
  | none =>
    have hnone := List.find?_eq_none.mp hfind x hx
    exact absurd hp hnone
  | some y =>
    have hy := List.mem_of_find?_eq_some hfind
    have hsame := hkey y hy (List.find?_some hfind)
    rw [List.inj_on_of_nodup_map hnodup hy hx hsame]

/-- Where no hash and no instance is listed twice, the ledger describes every block listed. -/
theorem Ledger.ofBlocks_describes {blocks : List (Text × Text × BlockFacts)} {facts : BlockFacts}
    (hblocks : (blocks.map fun b => b.1).Nodup)
    (hinstances : ((blocks.flatMap fun b => b.2.2.transactions).map fun f => f.columns.key).Nodup)
    (hmem : (blockHash, witness, facts) ∈ blocks) :
    (Ledger.ofBlocks blocks).Describes blockHash witness facts where
  header := by
    have hfind : blocks.find? (fun b => b.1 = blockHash) = some (blockHash, witness, facts) :=
      find?_of_nodup_map hblocks hmem (by simp) fun b _ hb => by simpa using hb
    simp only [Ledger.ofBlocks, hfind, Option.map_some]
  transactions := by
    intro f hf
    have hlisted : f ∈ blocks.flatMap fun b => b.2.2.transactions := List.mem_flatMap.mpr ⟨_, hmem, hf⟩
    exact find?_of_nodup_map hinstances hlisted (by simp) fun g _ hg => by simpa using hg
  placements := by
    intro i
    have hfind : blocks.find? (fun b => b.1 = blockHash && b.2.1 = witness) =
        some (blockHash, witness, facts) := by
      refine find?_of_nodup_map hblocks hmem (by simp) ?_
      intro b _ hb
      simp only [Bool.and_eq_true, decide_eq_true_eq] at hb
      exact hb.1
    simp only [Ledger.ofBlocks, hfind, Option.bind_some]

end Listed

end WcashExplorer
