import WcashExplorer.Db.Facts

/-! What `insert_block` stored is what it was given, as long as no transaction grows. -/
namespace WcashExplorer

open Relational

variable {lib : AuxPowCrate} {networkId blockHash witness : Text} {indexed : IndexedBlock}
  {t : RpcTransaction} {db db₁ db₂ db' : Db} {id j position : Nat}

/-- Instance ids name one row each, and inputs and outputs refer to one. -/
structure InstancesSound (db : Db) : Prop where
  ids_nodup : (db.transactionInstances.rows.map fun r => r.transactionInstanceId).Nodup
  ids_lt : ∀ r ∈ db.transactionInstances.rows,
    r.transactionInstanceId < db.nextTransactionInstanceId
  inputs_refer : ∀ i ∈ db.transparentInputs.rows, ∃ r ∈ db.transactionInstances.rows,
    r.transactionInstanceId = i.transactionInstanceId
  outputs_refer : ∀ o ∈ db.transparentOutputs.rows, ∃ r ∈ db.transactionInstances.rows,
    r.transactionInstanceId = o.transactionInstanceId

section Rows

/-- An input row under the identifier its transaction is stored under. -/
def TransparentInputRow.under (id : Nat) (r : TransparentInputRow) : TransparentInputRow :=
  { r with transactionInstanceId := id }

def TransparentOutputRow.under (id : Nat) (r : TransparentOutputRow) : TransparentOutputRow :=
  { r with transactionInstanceId := id }

/-- A row offered differs from one id to another in the id only. -/
theorem transparentInputRow_under {input : RpcInput} {row : TransparentInputRow}
    (h : transparentInputRow j position input = .ok row) (id : Nat) : row.transactionInstanceId = j ∧
      transparentInputRow id position input = .ok (row.under id) := by
  simp only [transparentInputRow, Result.bind_eq_ok] at h ⊢
  obtain ⟨i, hi, o, ho, s, hs, h⟩ := h
  cases h
  exact ⟨rfl, i, hi, o, ho, s, hs, rfl⟩

theorem transparentOutputRow_under {output : RpcOutput} {row : TransparentOutputRow}
    (h : transparentOutputRow j output = .ok row) (id : Nat) : row.transactionInstanceId = j ∧
      transparentOutputRow id output = .ok (row.under id) := by
  simp only [transparentOutputRow, Result.bind_eq_ok] at h ⊢
  obtain ⟨i, hi, h⟩ := h
  cases h
  exact ⟨rfl, i, hi, rfl⟩

theorem transactionInstanceRow_under {row : TransactionInstanceRow}
    (h : transactionInstanceRow lib t j = .ok row) (id : Nat) : row.transactionInstanceId = j ∧
      transactionInstanceRow lib t id = .ok { row with transactionInstanceId := id } := by
  simp only [transactionInstanceRow, Result.bind_eq_ok] at h ⊢
  obtain ⟨raw, hraw, hash, hhash, digest, hdigest, size, hsize, lock, hlock, expiry, hexpiry, spends,
    hspends, outputs, houtputs, h⟩ := h
  cases h
  exact ⟨rfl, raw, hraw, hash, hhash, digest, hdigest, size, hsize, lock, hlock, expiry, hexpiry,
    spends, hspends, outputs, houtputs, rfl⟩

/-- The rows offered for the inputs, and those of them that were new, appended. -/
theorem insertInputs_rows {inputs : List RpcInput} {rows : List TransparentInputRow}
    (h : insertInputs id position inputs db = .ok (rows, db')) :
    db' = { db with transparentInputs := db'.transparentInputs } ∧
      inputRows 0 position inputs = .ok (rows.map TransparentInputRow.anonymous) ∧
      rows.length = inputs.length ∧ ∃ added, db'.transparentInputs.rows =
        db.transparentInputs.rows ++ added ∧ ∀ r ∈ added, r.transactionInstanceId = id := by
  induction inputs generalizing position db rows with
  | nil =>
    cases h
    exact ⟨rfl, rfl, rfl, [], by simp, by simp⟩
  | cons input rest ih =>
    simp only [insertInputs, Result.bind_eq_ok, checked, ensure_eq_ok] at h
    obtain ⟨row, hrow, -, hvalid, ⟨rows', db₁⟩, hrest, h⟩ := h
    cases h
    obtain ⟨hid, hanon⟩ := transparentInputRow_under hrow 0
    obtain ⟨hframe, hrows, hlen, added, hadded, hown⟩ := ih hrest
    refine ⟨hframe, ?_, by simp [hlen], ?_⟩
    · simp only [inputRows, Result.bind_eq_ok, checked, ensure_eq_ok]
      exact ⟨_, hanon, (), hvalid, _, hrows, rfl⟩
    · cases hfind : db.transparentInputs.find? row.key with
      | some stored =>
        rw [Table.insertNew_of_some hfind] at hadded
        exact ⟨added, hadded, hown⟩
      | none =>
        rw [Table.rows_insertNew_of_none hfind] at hadded
        refine ⟨row :: added, by simpa using hadded, ?_⟩
        intro r hr
        rcases List.mem_cons.mp hr with rfl | hr
        · exact hid
        · exact hown r hr

theorem insertOutputs_rows {outputs : List RpcOutput} {rows : List TransparentOutputRow}
    (h : insertOutputs id outputs db = .ok (rows, db')) :
    db' = { db with transparentOutputs := db'.transparentOutputs } ∧
      outputRows 0 outputs = .ok (rows.map TransparentOutputRow.anonymous) ∧
      rows.length = outputs.length ∧ ∃ added, db'.transparentOutputs.rows =
        db.transparentOutputs.rows ++ added ∧ ∀ r ∈ added, r.transactionInstanceId = id := by
  induction outputs generalizing db rows with
  | nil =>
    cases h
    exact ⟨rfl, rfl, rfl, [], by simp, by simp⟩
  | cons output rest ih =>
    simp only [insertOutputs, Result.bind_eq_ok, checked, ensure_eq_ok] at h
    obtain ⟨row, hrow, -, hvalid, ⟨rows', db₁⟩, hrest, h⟩ := h
    cases h
    obtain ⟨hid, hanon⟩ := transparentOutputRow_under hrow 0
    obtain ⟨hframe, hrows, hlen, added, hadded, hown⟩ := ih hrest
    refine ⟨hframe, ?_, by simp [hlen], ?_⟩
    · simp only [outputRows, Result.bind_eq_ok, checked, ensure_eq_ok]
      exact ⟨_, hanon, (), hvalid, _, hrows, rfl⟩
    · cases hfind : db.transparentOutputs.find? row.key with
      | some stored =>
        rw [Table.insertNew_of_some hfind] at hadded
        exact ⟨added, hadded, hown⟩
      | none =>
        rw [Table.rows_insertNew_of_none hfind] at hadded
        refine ⟨row :: added, by simpa using hadded, ?_⟩
        intro r hr
        rcases List.mem_cons.mp hr with rfl | hr
        · exact hid
        · exact hown r hr

end Rows

section Instances

/-- Rows appended under one id do not show in what is stored under another. -/
theorem storedInputs_other {added : List TransparentInputRow}
    (h : db'.transparentInputs.rows = db.transparentInputs.rows ++ added)
    (hown : ∀ r ∈ added, r.transactionInstanceId = id) (hne : j ≠ id) :
    storedInputs db' j = storedInputs db j := by
  have hnone : added.filter (fun r => decide (r.transactionInstanceId = j)) = [] := by
    refine List.filter_eq_nil_iff.mpr ?_
    intro r hr
    simpa [hown r hr] using hne.symm
  simp only [storedInputs, h, List.filter_append, hnone, List.append_nil]

theorem storedOutputs_other {added : List TransparentOutputRow}
    (h : db'.transparentOutputs.rows = db.transparentOutputs.rows ++ added)
    (hown : ∀ r ∈ added, r.transactionInstanceId = id) (hne : j ≠ id) :
    storedOutputs db' j = storedOutputs db j := by
  have hnone : added.filter (fun r => decide (r.transactionInstanceId = j)) = [] := by
    refine List.filter_eq_nil_iff.mpr ?_
    intro r hr
    simpa [hown r hr] using hne.symm
  simp only [storedOutputs, h, List.filter_append, hnone, List.append_nil]

/-- A list of stored inputs that did not become longer did not change. -/
theorem storedInputs_of_length_le {added : List TransparentInputRow}
    (h : db'.transparentInputs.rows = db.transparentInputs.rows ++ added)
    (hle : (storedInputs db' j).length ≤ (storedInputs db j).length) :
    storedInputs db' j = storedInputs db j := by
  have hnone : added.filter (fun r => decide (r.transactionInstanceId = j)) = [] := by
    simp only [storedInputs, h, List.filter_append, List.length_insertionSort,
      List.length_append] at hle
    exact List.length_eq_zero_iff.mp (by omega)
  simp only [storedInputs, h, List.filter_append, hnone, List.append_nil]

theorem storedOutputs_of_length_le {added : List TransparentOutputRow}
    (h : db'.transparentOutputs.rows = db.transparentOutputs.rows ++ added)
    (hle : (storedOutputs db' j).length ≤ (storedOutputs db j).length) :
    storedOutputs db' j = storedOutputs db j := by
  have hnone : added.filter (fun r => decide (r.transactionInstanceId = j)) = [] := by
    simp only [storedOutputs, h, List.filter_append, List.length_insertionSort,
      List.length_append] at hle
    exact List.length_eq_zero_iff.mp (by omega)
  simp only [storedOutputs, h, List.filter_append, hnone, List.append_nil]

/-- Everything a successful `insert_transaction` does: the instance found or added, the rows
appended under its id, and the lists it compares. -/
structure TransactionInserted (lib : AuxPowCrate) (t : RpcTransaction) (db : Db) (id : Nat)
    (db' : Db) (row stored : TransactionInstanceRow) : Prop where
  offered : transactionInstanceRow lib t db.nextTransactionInstanceId = .ok row
  valid : row.valid = true
  instances : db'.transactionInstances = db.transactionInstances.insertNew row
  next : db'.nextTransactionInstanceId = db.nextTransactionInstanceId + 1
  found : db'.transactionInstances.find? row.key = some stored
  own : stored.transactionInstanceId = id
  same : stored.anonymous = row.anonymous
  inputs : inputRows 0 0 t.vin = .ok ((storedInputs db' id).map TransparentInputRow.anonymous)
  inputs_length : (storedInputs db' id).length = t.vin.length
  outputs : outputRows 0 t.vout = .ok ((storedOutputs db' id).map TransparentOutputRow.anonymous)
  outputs_length : (storedOutputs db' id).length = t.vout.length
  inputs_added : ∃ added, db'.transparentInputs.rows = db.transparentInputs.rows ++ added ∧
    ∀ r ∈ added, r.transactionInstanceId = id
  outputs_added : ∃ added, db'.transparentOutputs.rows = db.transparentOutputs.rows ++ added ∧
    ∀ r ∈ added, r.transactionInstanceId = id
  placements : db'.blockTransactions = db.blockTransactions
  blocks : db'.blocks = db.blocks

theorem insertTransaction_inserted (h : insertTransaction lib t db = .ok (id, db')) :
    ∃ row stored, TransactionInserted lib t db id db' row stored := by
  obtain ⟨stored, db₁, inputs, db₂, outputs, hinst, rfl, hin, hstin, hout, hstout⟩ :=
    insertTransaction_ok h
  obtain ⟨row, hrow, hvalid, rfl, hfound, hm⟩ := insertInstance_ok hinst
  obtain ⟨hframe₂, hinputs, hinlen, inAdded, hinAdded, hinOwn⟩ := insertInputs_rows hin
  obtain ⟨hframe', houtputs, houtlen, outAdded, houtAdded, houtOwn⟩ := insertOutputs_rows hout
  have htxid : stored.txid = row.txid := congrArg Prod.fst (Table.key_of_find? hfound)
  have hinstances : db'.transactionInstances = db.transactionInstances.insertNew row := by
    rw [hframe', hframe₂]
  have hins : db'.transparentInputs = db₂.transparentInputs := by rw [hframe']
  have houts : db₂.transparentOutputs = db.transparentOutputs := by rw [hframe₂]
  have hstored : storedInputs db' stored.transactionInstanceId = inputs := by
    rw [← hstin, storedInputs, storedInputs, hins]
  refine ⟨row, stored, ⟨hrow, hvalid, hinstances, ?_, ?_, rfl,
    (immutableTransactionMatches_iff htxid).mp hm, hstored ▸ hinputs, hstored ▸ hinlen,
    hstout ▸ houtputs, hstout ▸ houtlen, ⟨inAdded, ?_, hinOwn⟩, ⟨outAdded, ?_, houtOwn⟩, ?_, ?_⟩⟩
  · rw [hframe', hframe₂]
  · rw [hinstances]
    exact hfound
  · rw [hins]
    exact hinAdded
  · rw [← houts]
    exact houtAdded
  · rw [hframe', hframe₂]
  · rw [hframe', hframe₂]

/-- Instance ids find their rows. -/
theorem InstancesSound.find?_id (hs : InstancesSound db) {r : TransactionInstanceRow}
    (hr : r ∈ db.transactionInstances.rows) :
    db.transactionInstances.rows.find? (fun s => s.transactionInstanceId = r.transactionInstanceId) =
      some r := by
  have hsome : (db.transactionInstances.rows.find? fun s =>
      s.transactionInstanceId = r.transactionInstanceId).isSome :=
    List.find?_isSome.mpr ⟨r, hr, by simp⟩
  obtain ⟨s, hsr⟩ := Option.isSome_iff_exists.mp hsome
  have hid : s.transactionInstanceId = r.transactionInstanceId := by
    simpa using List.find?_some hsr
  have hmem := List.mem_of_find?_eq_some hsr
  rw [hsr, List.inj_on_of_nodup_map hs.ids_nodup hmem hr hid]

theorem readInstance_eq_some (hs : InstancesSound db) {f : TransactionFacts} :
    readInstance db j = some f ↔ ∃ r ∈ db.transactionInstances.rows,
      r.transactionInstanceId = j ∧ storedFacts db r = f := by
  constructor
  · intro h
    obtain ⟨r, hr, hf⟩ := Option.map_eq_some_iff.mp h
    exact ⟨r, List.mem_of_find?_eq_some hr, by simpa using List.find?_some hr, hf⟩
  · rintro ⟨r, hr, rfl, rfl⟩
    rw [readInstance, hs.find?_id hr, Option.map_some]

namespace TransactionInserted

variable {row stored : TransactionInstanceRow}

theorem mem_instances (h : TransactionInserted lib t db id db' row stored)
    {r : TransactionInstanceRow} : r ∈ db'.transactionInstances.rows ↔
      r ∈ db.transactionInstances.rows ∨ (r = row ∧ db.transactionInstances.find? row.key = none) := by
  rw [h.instances, Table.mem_insertNew]

/-- A new row gets the next id, which no stored row has. -/
theorem row_id (h : TransactionInserted lib t db id db' row stored) :
    row.transactionInstanceId = db.nextTransactionInstanceId :=
  (transactionInstanceRow_under h.offered 0).1

theorem sound (hs : InstancesSound db) (h : TransactionInserted lib t db id db' row stored) :
    InstancesSound db' := by
  have hrefer (k : Nat) (hk : ∃ r ∈ db.transactionInstances.rows, r.transactionInstanceId = k) :
      ∃ r ∈ db'.transactionInstances.rows, r.transactionInstanceId = k := by
    obtain ⟨r, hr, hid⟩ := hk
    exact ⟨r, h.mem_instances.mpr (.inl hr), hid⟩
  have hown : ∃ r ∈ db'.transactionInstances.rows, r.transactionInstanceId = id :=
    ⟨stored, Table.mem_of_find? h.found, h.own⟩
  refine ⟨?_, ?_, ?_, ?_⟩
  · cases hfind : db.transactionInstances.find? row.key with
    | some s =>
      rw [h.instances, Table.insertNew_of_some hfind]
      exact hs.ids_nodup
    | none =>
      rw [h.instances, Table.rows_insertNew_of_none hfind, List.map_append, List.nodup_append]
      refine ⟨hs.ids_nodup, by simp, ?_⟩
      intro k hk l hl
      obtain ⟨r, hr, rfl⟩ := List.mem_map.mp hk
      obtain rfl : l = row.transactionInstanceId := by simpa using hl
      have hlt := hs.ids_lt r hr
      rw [h.row_id]
      omega
  · intro r hr
    rw [h.next]
    rcases h.mem_instances.mp hr with hr | ⟨rfl, -⟩
    · have := hs.ids_lt r hr
      omega
    · rw [h.row_id]
      omega
  · intro i hi
    obtain ⟨added, hadded, hadd⟩ := h.inputs_added
    rw [hadded] at hi
    rcases List.mem_append.mp hi with hi | hi
    · exact hrefer _ (hs.inputs_refer i hi)
    · rw [hadd i hi]
      exact hown
  · intro o ho
    obtain ⟨added, hadded, hadd⟩ := h.outputs_added
    rw [hadded] at ho
    rcases List.mem_append.mp ho with ho | ho
    · exact hrefer _ (hs.outputs_refer o ho)
    · rw [hadd o ho]
      exact hown

/-- The transaction reads back under its id. -/
theorem reads (hs : InstancesSound db) (h : TransactionInserted lib t db id db' row stored) :
    ∃ facts, transactionFacts lib t = .ok facts ∧ readInstance db' id = some facts := by
  obtain ⟨-, hoffered⟩ := transactionInstanceRow_under h.offered 0
  refine ⟨storedFacts db' stored, ?_, ?_⟩
  · simp only [transactionFacts, Result.bind_eq_ok, checked, ensure_eq_ok]
    refine ⟨_, hoffered, (), h.valid, _, h.inputs, _, h.outputs, ?_⟩
    have hcolumns : stored.anonymous = { row with transactionInstanceId := 0 }.anonymous := h.same
    simp only [storedFacts, hcolumns, h.own]
  · exact (readInstance_eq_some (h.sound hs)).mpr ⟨stored, Table.mem_of_find? h.found, h.own, rfl⟩

/-- Other instances are left alone. -/
theorem other (hs : InstancesSound db) (h : TransactionInserted lib t db id db' row stored)
    (hne : j ≠ id) {f : TransactionFacts} (hj : readInstance db j = some f) :
    readInstance db' j = some f := by
  obtain ⟨r, hr, rfl, rfl⟩ := (readInstance_eq_some hs).mp hj
  obtain ⟨inAdded, hin, hinOwn⟩ := h.inputs_added
  obtain ⟨outAdded, hout, houtOwn⟩ := h.outputs_added
  refine (readInstance_eq_some (h.sound hs)).mpr ⟨r, h.mem_instances.mpr (.inl hr), rfl, ?_⟩
  simp only [storedFacts, storedInputs_other hin hinOwn hne, storedOutputs_other hout houtOwn hne]

end TransactionInserted

/-- A transaction extends a stored instance of it: its input or output list is longer than the
list stored under its key. -/
def ExtendsStored (lib : AuxPowCrate) (db : Db) (t : RpcTransaction) : Prop :=
  ∃ row stored, transactionInstanceRow lib t 0 = .ok row ∧
    db.transactionInstances.find? row.key = some stored ∧
      ((storedInputs db stored.transactionInstanceId).length < t.vin.length ∨
        (storedOutputs db stored.transactionInstanceId).length < t.vout.length)

namespace TransactionInserted

variable {row stored : TransactionInstanceRow}

/-- A transaction that extends nothing leaves every instance as it was stored. -/
theorem keeps (hs : InstancesSound db) (h : TransactionInserted lib t db id db' row stored)
    (hext : ¬ ExtendsStored lib db t) {f : TransactionFacts} (hj : readInstance db j = some f) :
    readInstance db' j = some f := by
  by_cases hne : j = id
  · subst hne
    obtain ⟨r, hr, hrid, rfl⟩ := (readInstance_eq_some hs).mp hj
    obtain ⟨-, hoffered⟩ := transactionInstanceRow_under h.offered 0
    have hr' := h.mem_instances.mpr (.inl hr)
    have hsame : stored = r := List.inj_on_of_nodup_map (h.sound hs).ids_nodup
      (Table.mem_of_find? h.found) hr' (h.own.trans hrid.symm)
    subst hsame
    have hfound : db.transactionInstances.find? row.key = some stored := by
      rw [← Table.key_of_find? h.found]
      exact Table.find?_of_mem hr
    have hle : ¬ ((storedInputs db stored.transactionInstanceId).length < t.vin.length ∨
        (storedOutputs db stored.transactionInstanceId).length < t.vout.length) :=
      fun hlt => hext ⟨_, stored, hoffered, hfound, hlt⟩
    have hinlen := h.inputs_length
    have houtlen := h.outputs_length
    rw [← hrid] at hinlen houtlen
    obtain ⟨inAdded, hin, -⟩ := h.inputs_added
    obtain ⟨outAdded, hout, -⟩ := h.outputs_added
    have hins : storedInputs db' stored.transactionInstanceId =
        storedInputs db stored.transactionInstanceId := storedInputs_of_length_le hin (by omega)
    have houts : storedOutputs db' stored.transactionInstanceId =
        storedOutputs db stored.transactionInstanceId := storedOutputs_of_length_le hout (by omega)
    refine (readInstance_eq_some (h.sound hs)).mpr ⟨stored, hr', hrid, ?_⟩
    simp only [storedFacts, hins, houts]
  · exact h.other hs hne hj

end TransactionInserted

/-- Two transactions are stored under one key: one txid and one instance digest. -/
def SameInstance (lib : AuxPowCrate) (t t' : RpcTransaction) : Prop :=
  ∃ row row', transactionInstanceRow lib t 0 = .ok row ∧
    transactionInstanceRow lib t' 0 = .ok row' ∧ row.key = row'.key

/-- Storing a transaction makes another one extend something only if it is a longer list of the
same instance. -/
theorem TransactionInserted.not_extends {row stored : TransactionInstanceRow} {t' : RpcTransaction}
    (hs : InstancesSound db) (h : TransactionInserted lib t db id db' row stored)
    (hext : ¬ ExtendsStored lib db t) (hext' : ¬ ExtendsStored lib db t')
    (hle : SameInstance lib t t' →
      t'.vin.length ≤ t.vin.length ∧ t'.vout.length ≤ t.vout.length) :
    ¬ ExtendsStored lib db' t' := by
  rintro ⟨row', stored', hrow', hfound', hlt⟩
  obtain ⟨-, hoffered⟩ := transactionInstanceRow_under h.offered 0
  cases hold : db.transactionInstances.find? row'.key with
  | some s =>
    -- stored before: its lists are what they were
    have hsame : db'.transactionInstances.find? row'.key = some s := by
      rw [h.instances]
      exact Table.find?_insertNew_of_find? hold
    obtain rfl : s = stored' := Option.some.inj (hsame.symm.trans hfound')
    have hread : readInstance db s.transactionInstanceId = some (storedFacts db s) :=
      (readInstance_eq_some hs).mpr ⟨s, Table.mem_of_find? hold, rfl, rfl⟩
    have hread' := h.keeps hs hext hread
    obtain ⟨r, hr, hid, hfacts⟩ := (readInstance_eq_some (h.sound hs)).mp hread'
    obtain rfl : r = s := List.inj_on_of_nodup_map (h.sound hs).ids_nodup hr
      (Table.mem_of_find? hfound') hid
    have hins := congrArg (fun f => f.inputs.length) hfacts
    have houts := congrArg (fun f => f.outputs.length) hfacts
    simp only [storedFacts, List.length_map] at hins houts
    rw [hins, houts] at hlt
    exact hext' ⟨row', r, hrow', hold, hlt⟩
  | none =>
    -- stored just now, so it is the transaction's own instance
    have hkey : row.key = row'.key := by
      rw [h.instances, Table.find?_insertNew, hold] at hfound'
      by_contra hne
      simp [hne] at hfound'
    have hstored : stored = stored' := by
      have hfound := h.found
      rw [hkey] at hfound
      exact Option.some.inj (hfound.symm.trans hfound')
    obtain ⟨hvin, hvout⟩ := hle ⟨_, row', hoffered, hrow', hkey⟩
    rw [← hstored, h.own, h.inputs_length, h.outputs_length] at hlt
    omega

end Instances

section Placements

/-- Each witness places an instance once. -/
def PlacedOnce (db : Db) : Prop :=
  ∀ r ∈ db.blockTransactions.rows, ∀ s ∈ db.blockTransactions.rows,
    r.blockHash = s.blockHash → r.witnessHash = s.witnessHash →
      r.transactionInstanceId = s.transactionInstanceId → r = s

theorem InstancesSound.placing (hs : InstancesSound db)
    (placements : Table BlockTransactionRow BlockTransactionRow.key) :
    InstancesSound { db with blockTransactions := placements } :=
  ⟨hs.ids_nodup, hs.ids_lt, hs.inputs_refer, hs.outputs_refer⟩

theorem insertBlockTransaction_ok {row : BlockTransactionRow}
    (h : insertBlockTransaction row db = .ok db') :
    db' = { db with blockTransactions := db.blockTransactions.insertNew row } ∧
      (db.blockTransactions.find? row.key = none → ∀ r ∈ db.blockTransactions.rows,
        r.blockHash = row.blockHash → r.witnessHash = row.witnessHash →
          r.transactionInstanceId ≠ row.transactionInstanceId) := by
  unfold insertBlockTransaction at h
  split at h
  · rename_i stored hstored
    cases h
    rw [Table.insertNew_of_some hstored]
    exact ⟨rfl, fun hnone => by simp [hstored] at hnone⟩
  · simp only [Result.bind_eq_ok, checked, ensure_eq_ok] at h
    obtain ⟨-, hall, h⟩ := h
    cases h
    refine ⟨rfl, fun _ r hr hb hw hi => ?_⟩
    have hr := List.all_eq_true.mp hall r hr
    simp [hb, hw, hi] at hr

/-- One step of the transaction loop, with the transaction it stored and where it placed it. -/
theorem insertBlockTransactions_step {rest : List RpcTransaction} (hu : PlacedOnce db)
    (h : insertBlockTransactions lib blockHash witness position (t :: rest) db = .ok db') :
    ∃ id db₁ db₂ row stored, TransactionInserted lib t db id db₁ row stored ∧
      db₂ = { db₁ with blockTransactions :=
        db.blockTransactions.insertNew ⟨blockHash, witness, position, id⟩ } ∧
      PlacedOnce db₂ ∧ db₂.blockTransactions.find? (blockHash, witness, position) =
        some ⟨blockHash, witness, position, id⟩ ∧
      insertBlockTransactions lib blockHash witness (position + 1) rest db₂ = .ok db' := by
  obtain ⟨id, db₁, db₂, placed, ht, -, hbt, hplaced, hid, hrest⟩ := insertBlockTransactions_cons h
  obtain ⟨row, stored, hin⟩ := insertTransaction_inserted ht
  obtain ⟨rfl, hnew⟩ := insertBlockTransaction_ok hbt
  rw [hin.placements] at hnew hplaced hrest
  refine ⟨id, db₁, _, row, stored, hin, rfl, ?_, ?_, hrest⟩
  · intro r hr s hs hb hw hi
    rcases Table.mem_insertNew.mp hr with hr | ⟨rfl, hnone⟩
    · rcases Table.mem_insertNew.mp hs with hs | ⟨rfl, hnone⟩
      · exact hu r hr s hs hb hw hi
      · exact absurd hi (hnew hnone r hr hb hw)
    · rcases Table.mem_insertNew.mp hs with hs | ⟨rfl, -⟩
      · exact absurd hi.symm (hnew hnone s hs hb.symm hw.symm)
      · rfl
  · have hkey := Table.key_of_find? hplaced
    simp only [BlockTransactionRow.key, Prod.mk.injEq] at hkey
    obtain ⟨hb, hw, hp⟩ := hkey
    rw [hplaced]
    cases placed
    simp_all

/-- An instance that is placed already is none of those placed from here on. -/
theorem insertBlockTransactions_fresh {txs : List RpcTransaction} {q : Nat} (hu : PlacedOnce db)
    (hplaced : ⟨blockHash, witness, q, id⟩ ∈ db.blockTransactions.rows) (hq : q < position)
    (h : insertBlockTransactions lib blockHash witness position txs db = .ok db') :
    ∀ t ∈ txs, ∀ row stored, transactionInstanceRow lib t 0 = .ok row →
      db.transactionInstances.find? row.key = some stored → stored.transactionInstanceId ≠ id := by
  induction txs generalizing position db with
  | nil => simp
  | cons first rest ih =>
    obtain ⟨id₁, db₁, db₂, row₁, stored₁, hin, rfl, hu₂, hfound, hrest⟩ :=
      insertBlockTransactions_step hu h
    have hkeep : ⟨blockHash, witness, q, id⟩ ∈ (db.blockTransactions.insertNew
        ⟨blockHash, witness, position, id₁⟩).rows := Table.mem_insertNew.mpr (.inl hplaced)
    have hne : id₁ ≠ id := by
      rintro rfl
      have hrow := hu₂ _ (Table.mem_of_find? hfound) _ hkeep rfl rfl rfl
      have hp : position = q := congrArg BlockTransactionRow.txPosition hrow
      omega
    intro t ht row stored hrow hstored
    have hlater : db₁.transactionInstances.find? row.key = some stored := by
      rw [hin.instances]
      exact Table.find?_insertNew_of_find? hstored
    rcases List.mem_cons.mp ht with rfl | ht
    · obtain ⟨-, hoffered⟩ := transactionInstanceRow_under hin.offered 0
      obtain rfl : row = _ := Except.ok.inj (hrow.symm.trans hoffered)
      obtain rfl : stored = stored₁ := Option.some.inj (hlater.symm.trans hin.found)
      rw [hin.own]
      exact hne
    · exact ih hu₂ hkeep (by omega) hrest t ht row stored hrow hlater

/-- An instance that is placed already stays as it is stored. -/
theorem insertBlockTransactions_placed {txs : List RpcTransaction} {q : Nat} {f : TransactionFacts}
    (hs : InstancesSound db) (hu : PlacedOnce db)
    (hplaced : ⟨blockHash, witness, q, id⟩ ∈ db.blockTransactions.rows) (hq : q < position)
    (h : insertBlockTransactions lib blockHash witness position txs db = .ok db')
    (hf : readInstance db id = some f) : readInstance db' id = some f := by
  induction txs generalizing position db with
  | nil =>
    cases h
    exact hf
  | cons first rest ih =>
    obtain ⟨id₁, db₁, db₂, row₁, stored₁, hin, rfl, hu₂, hfound, hrest⟩ :=
      insertBlockTransactions_step hu h
    have hkeep : ⟨blockHash, witness, q, id⟩ ∈ (db.blockTransactions.insertNew
        ⟨blockHash, witness, position, id₁⟩).rows := Table.mem_insertNew.mpr (.inl hplaced)
    have hne : id ≠ id₁ := by
      rintro rfl
      have hrow := hu₂ _ (Table.mem_of_find? hfound) _ hkeep rfl rfl rfl
      have hp : position = q := congrArg BlockTransactionRow.txPosition hrow
      omega
    exact ih ((hin.sound hs).placing _) hu₂ hkeep (by omega) hrest (hin.other hs hne hf)

/-- Each transaction of the list reads back under the instance its position names. -/
structure Placed (lib : AuxPowCrate) (blockHash witness : Text) (position : Nat)
    (txs : List RpcTransaction) (db db' : Db) (ids : List Nat) : Prop where
  reads : List.Forall₂ (fun id t => ∃ facts, transactionFacts lib t = .ok facts ∧
    readInstance db' id = some facts) ids txs
  found : ∀ i id, ids[i]? = some id → db'.blockTransactions.find? (blockHash, witness, position + i) =
    some ⟨blockHash, witness, position + i, id⟩
  others : ∀ r ∈ db'.blockTransactions.rows, r ∈ db.blockTransactions.rows ∨
    (r.blockHash = blockHash ∧ r.witnessHash = witness ∧ r.txPosition < position + txs.length)

theorem insertBlockTransactions_reads {txs : List RpcTransaction} (hs : InstancesSound db)
    (hu : PlacedOnce db)
    (h : insertBlockTransactions lib blockHash witness position txs db = .ok db') :
    InstancesSound db' ∧ PlacedOnce db' ∧
      ∃ ids, Placed lib blockHash witness position txs db db' ids := by
  induction txs generalizing position db with
  | nil =>
    cases h
    exact ⟨hs, hu, [], .nil, by simp, fun r hr => .inl hr⟩
  | cons first rest ih =>
    obtain ⟨id, db₁, db₂, row, stored, hin, rfl, hu₂, hfound, hrest⟩ :=
      insertBlockTransactions_step hu h
    have hs₂ := (hin.sound hs).placing (db.blockTransactions.insertNew
      ⟨blockHash, witness, position, id⟩)
    obtain ⟨hs', hu', ids, hids⟩ := ih hs₂ hu₂ hrest
    obtain ⟨facts, hfacts, hread⟩ := hin.reads hs
    have hkept := insertBlockTransactions_placed hs₂ hu₂ (Table.mem_of_find? hfound)
      (Nat.lt_succ_self position) hrest hread
    have hgrow := (insertBlockTransactions_inserts hrest).blockTransactions
    refine ⟨hs', hu', id :: ids, .cons ⟨facts, hfacts, hkept⟩ hids.reads, ?_, ?_⟩
    · intro i k hk
      cases i with
      | zero =>
        obtain rfl : id = k := by simpa using hk
        exact Table.find?_of_prefix hgrow hfound
      | succ i =>
        have hi := hids.found i k (by simpa using hk)
        have hpos : position + 1 + i = position + (i + 1) := by omega
        rw [hpos] at hi
        exact hi
    · intro r hr
      rcases hids.others r hr with hr | ⟨hb, hw, hp⟩
      · rcases Table.mem_insertNew.mp hr with hr | ⟨rfl, -⟩
        · exact .inl hr
        · exact .inr ⟨rfl, rfl, by simp⟩
      · refine .inr ⟨hb, hw, ?_⟩
        rw [List.length_cons]
        omega

/-- In a block that is accepted no instance occurs twice, so an earlier transaction of it makes
no later one extend anything. -/
theorem TransactionInserted.rest_not_extends {rest : List RpcTransaction}
    {row stored : TransactionInstanceRow}
    (hs : InstancesSound db) (hin : TransactionInserted lib t db id db₁ row stored)
    (hext : ∀ t' ∈ t :: rest, ¬ ExtendsStored lib db t') (hu : PlacedOnce db₂)
    (hdb₂ : db₂ = { db₁ with blockTransactions :=
      db.blockTransactions.insertNew ⟨blockHash, witness, position, id⟩ })
    (hfound : db₂.blockTransactions.find? (blockHash, witness, position) =
      some ⟨blockHash, witness, position, id⟩)
    (hrest : insertBlockTransactions lib blockHash witness (position + 1) rest db₂ = .ok db') :
    ∀ t' ∈ rest, ¬ ExtendsStored lib db₂ t' := by
  intro t' ht'
  subst hdb₂
  suffices hnot : ¬ ExtendsStored lib db₁ t' from hnot
  refine hin.not_extends hs (hext t (by simp)) (hext t' (by simp [ht'])) ?_
  rintro ⟨row₁, row', hrow₁, hrow', hkey⟩
  obtain ⟨-, hoffered⟩ := transactionInstanceRow_under hin.offered 0
  obtain rfl : row₁ = _ := Except.ok.inj (hrow₁.symm.trans hoffered)
  have hfresh := insertBlockTransactions_fresh hu (Table.mem_of_find? hfound)
    (Nat.lt_succ_self position) hrest t' ht' row' stored hrow' (by rw [← hkey]; exact hin.found)
  exact absurd hin.own hfresh

/-- A block that extends nothing leaves every instance as it was stored. -/
theorem insertBlockTransactions_keeps {txs : List RpcTransaction} {f : TransactionFacts}
    (hs : InstancesSound db) (hu : PlacedOnce db) (hext : ∀ t ∈ txs, ¬ ExtendsStored lib db t)
    (h : insertBlockTransactions lib blockHash witness position txs db = .ok db')
    (hf : readInstance db j = some f) : readInstance db' j = some f := by
  induction txs generalizing position db with
  | nil =>
    cases h
    exact hf
  | cons first rest ih =>
    obtain ⟨id, db₁, db₂, row, stored, hin, hdb₂, hu₂, hfound, hrest⟩ :=
      insertBlockTransactions_step hu h
    have hext₂ := hin.rest_not_extends hs hext hu₂ hdb₂ hfound hrest
    subst hdb₂
    exact ih ((hin.sound hs).placing _) hu₂ hext₂ hrest (hin.keeps hs (hext first (by simp)) hf)

/-- Nor does it make another transaction extend one, unless that is a longer list of its own. -/
theorem insertBlockTransactions_not_extends {txs : List RpcTransaction} {t' : RpcTransaction}
    (hs : InstancesSound db) (hu : PlacedOnce db) (hext : ∀ t ∈ txs, ¬ ExtendsStored lib db t)
    (hext' : ¬ ExtendsStored lib db t') (hle : ∀ t ∈ txs, SameInstance lib t t' →
      t'.vin.length ≤ t.vin.length ∧ t'.vout.length ≤ t.vout.length)
    (h : insertBlockTransactions lib blockHash witness position txs db = .ok db') :
    ¬ ExtendsStored lib db' t' := by
  induction txs generalizing position db with
  | nil =>
    cases h
    exact hext'
  | cons first rest ih =>
    obtain ⟨id, db₁, db₂, row, stored, hin, hdb₂, hu₂, hfound, hrest⟩ :=
      insertBlockTransactions_step hu h
    have hext₂ := hin.rest_not_extends hs hext hu₂ hdb₂ hfound hrest
    subst hdb₂
    have hext'₂ := hin.not_extends hs (hext first (by simp)) hext' (hle first (by simp))
    exact ih ((hin.sound hs).placing _) hu₂ hext₂ hext'₂ (fun t ht => hle t (by simp [ht])) hrest

end Placements

section Blocks

structure PlacementsSound (db : Db) : Prop where
  once : PlacedOnce db
  counted : ∀ r ∈ db.blockTransactions.rows, ∃ b, db.blocks.find? r.blockHash = some b ∧
    r.txPosition < b.transactionCount

theorem insertEvidence_frame {fetchedAt : Timestamp} {auxpow : Option VerifiedAuxPow}
    (h : insertEvidence blockHash witness fetchedAt auxpow db = .ok db') :
    db' = { db with
      auxpowLinks := db'.auxpowLinks
      parentChainObservations := db'.parentChainObservations } := by
  cases auxpow with
  | none =>
    cases h
    rfl
  | some aux =>
    simp only [insertEvidence, Result.bind_eq_ok] at h
    obtain ⟨row, -, -, -, h⟩ := h
    have hframe := insertObservations_frame h
    rw [hframe]

/-- `insert_block` around its transaction loop. -/
theorem insertBlock_loop (h : insertBlock lib networkId indexed db = .ok db') :
    ∃ row stored db₂ db₃, blockRow networkId indexed = .ok row ∧ row.valid = true ∧
      db₂.blocks.find? indexed.block.hash = some stored ∧ stored.compared = row.compared ∧
      db₂ = { db with
        blocks := db.blocks.insertNew row
        blockWitnesses := db₂.blockWitnesses } ∧
      insertBlockTransactions lib indexed.block.hash (witnessHash lib indexed) 0 indexed.block.tx
        db₂ = .ok db₃ ∧
      db' = { db₃ with
        valuePoolSnapshots := db'.valuePoolSnapshots
        auxpowLinks := db'.auxpowLinks
        parentChainObservations := db'.parentChainObservations } := by
  obtain ⟨db₁, db₂, db₃, db₄, h₁, h₂, h₃, h₄, h₅⟩ := insertBlock_ok h
  obtain ⟨row, stored, hrow, hvalid, rfl, hstored, hm⟩ := insertBlockFacts_ok h₁
  obtain ⟨wrow, -, -, hdb₂⟩ := insertWitness_ok h₂
  have hkey : stored.blockHash = row.blockHash :=
    (Table.key_of_find? hstored).trans (blockRow_ok hrow).1.symm
  refine ⟨row, stored, db₂, db₃, hrow, hvalid, ?_, (immutableBlockMatches_iff hkey).mp hm, ?_, h₃,
    ?_⟩
  · rw [hdb₂]
    exact hstored
  · rw [hdb₂]
  · rw [insertEvidence_frame h₅, insertValuePools_frame h₄]

/-- A block as it is recorded: its header, and one instance for each position. -/
structure Recorded (lib : AuxPowCrate) (networkId : Text) (db : Db) (indexed : IndexedBlock)
    (ids : List Nat) : Prop where
  header : ∃ row stored, blockRow networkId indexed = .ok row ∧ row.valid = true ∧
    db.blocks.find? indexed.block.hash = some stored ∧ stored.compared = row.compared
  reads : List.Forall₂ (fun id t => ∃ facts, transactionFacts lib t = .ok facts ∧
    readInstance db id = some facts) ids indexed.block.tx
  found : ∀ i id, ids[i]? = some id →
    db.blockTransactions.find? (indexed.block.hash, witnessHash lib indexed, i) =
      some ⟨indexed.block.hash, witnessHash lib indexed, i, id⟩

/-- What the store keeps of earlier states: every stored fact. -/
structure Keeps (db db' : Db) : Prop where
  blocks : db.blocks.rows <+: db'.blocks.rows
  blockTransactions : db.blockTransactions.rows <+: db'.blockTransactions.rows
  instances : ∀ id f, readInstance db id = some f → readInstance db' id = some f

theorem Keeps.refl (db : Db) : Keeps db db := ⟨List.prefix_rfl, List.prefix_rfl, fun _ _ h => h⟩

theorem Keeps.trans (h : Keeps db db₁) (h' : Keeps db₁ db₂) : Keeps db db₂ :=
  ⟨h.blocks.trans h'.blocks, h.blockTransactions.trans h'.blockTransactions,
    fun id f hf => h'.instances id f (h.instances id f hf)⟩

theorem Recorded.keeps {ids : List Nat} (hr : Recorded lib networkId db indexed ids)
    (h : Keeps db db') : Recorded lib networkId db' indexed ids where
  header := by
    obtain ⟨row, stored, hrow, hvalid, hstored, hsame⟩ := hr.header
    exact ⟨row, stored, hrow, hvalid, Table.find?_of_prefix h.blocks hstored, hsame⟩
  reads := hr.reads.imp fun id t ⟨facts, hfacts, hread⟩ => ⟨facts, hfacts, h.instances id facts hread⟩
  found := fun i id hi => Table.find?_of_prefix h.blockTransactions (hr.found i id hi)

/-- The block's row counts its transactions. -/
theorem blockRow_count {row : BlockRow} (h : blockRow networkId indexed = .ok row) :
    row.transactionCount = indexed.block.tx.length := by
  simp only [blockRow, Result.bind_eq_ok, asI32_eq_ok] at h
  obtain ⟨t, -, height, -, size, -, count, ⟨-, rfl⟩, h⟩ := h
  cases h
  rfl

theorem Recorded.mapM_facts {ids : List Nat} {txs : List RpcTransaction}
    (h : List.Forall₂ (fun id t => ∃ facts, transactionFacts lib t = .ok facts ∧
      readInstance db id = some facts) ids txs) :
    ∃ facts, txs.mapM (transactionFacts lib) = .ok facts ∧
      ids.map (readInstance db) = facts.map some := by
  induction h with
  | nil => exact ⟨[], rfl, rfl⟩
  | cons hfirst _ ih =>
    obtain ⟨f, hf, hread⟩ := hfirst
    obtain ⟨fs, hfs, hreads⟩ := ih
    refine ⟨f :: fs, ?_, by simp [hread, hreads]⟩
    rw [List.mapM_cons, hf, hfs]
    rfl

/-- A recorded block reads back. -/
theorem Recorded.readsBack {ids : List Nat} (hr : Recorded lib networkId db indexed ids)
    (hp : PlacementsSound db) : ReadsBack lib networkId db indexed := by
  obtain ⟨row, stored, hrow, hvalid, hstored, hsame⟩ := hr.header
  obtain ⟨facts, hfacts, hreads⟩ := Recorded.mapM_facts hr.reads
  have hlen : ids.length = indexed.block.tx.length := hr.reads.length_eq
  have hcount : stored.transactionCount = ids.length := by
    have hcounts : stored.compared.transactionCount = row.compared.transactionCount :=
      congrArg _ hsame
    rw [hlen, ← blockRow_count hrow]
    exact hcounts
  have hplacements : storedPlacements db indexed.block.hash (witnessHash lib indexed) =
      ids.mapIdx fun i id => ⟨indexed.block.hash, witnessHash lib indexed, i, id⟩ := by
    refine orderBy_eq ?_ ?_ ?_
    · rw [List.pairwise_iff_getElem]
      intro i k hi hk hik
      simpa using hik
    · exact (List.Nodup.of_map _ db.blockTransactions.nodup).filter _
    · intro r
      simp only [List.mem_filter, Bool.and_eq_true, decide_eq_true_eq, List.mem_mapIdx]
      constructor
      · rintro ⟨hmem, hb, hw⟩
        obtain ⟨b, hfind, hlt⟩ := hp.counted r hmem
        rw [hb, hstored] at hfind
        obtain rfl := Option.some.inj hfind
        rw [hcount] at hlt
        have hat := hr.found r.txPosition _ (List.getElem?_eq_getElem hlt)
        have hown := Table.find?_of_mem hmem
        have hkey : BlockTransactionRow.key r =
            (indexed.block.hash, witnessHash lib indexed, r.txPosition) := by
          rw [← hb, ← hw]
          rfl
        rw [hkey, hat] at hown
        exact ⟨r.txPosition, hlt, Option.some.inj hown⟩
      · rintro ⟨i, hi, rfl⟩
        exact ⟨Table.mem_of_find? (hr.found i _ (List.getElem?_eq_getElem hi)), rfl, rfl⟩
  refine ⟨{ header := row.compared, transactions := facts }, ?_, ?_, ?_⟩
  · simp only [blockFacts, Result.bind_eq_ok, checked, ensure_eq_ok]
    exact ⟨row, hrow, (), hvalid, facts, hfacts, rfl⟩
  · rw [readHeader, hstored, Option.map_some, hsame]
  · rw [readTransactions, hplacements]
    apply List.ext_getElem?
    intro i
    have hi := congrArg (fun l => l[i]?) hreads
    simp only [List.getElem?_map] at hi
    simp only [List.getElem?_map, List.getElem?_mapIdx, Option.map_map]
    cases hid : ids[i]? with
    | none =>
      rw [hid] at hi
      cases hf : facts[i]? with
      | none => rfl
      | some f => simp [hf] at hi
    | some id =>
      rw [hid] at hi
      cases hf : facts[i]? with
      | none => simp [hf] at hi
      | some f =>
        rw [hf] at hi
        simpa using hi

/-- The invariants of the fact tables. -/
structure FactsSound (db : Db) : Prop where
  instances : InstancesSound db
  placements : PlacementsSound db

/-- An accepted block is recorded. -/
theorem insertBlock_recordedFacts (hs : FactsSound db)
    (h : insertBlock lib networkId indexed db = .ok db') :
    FactsSound db' ∧ ∃ ids, Recorded lib networkId db' indexed ids := by
  obtain ⟨row, stored, db₂, db₃, hrow, hvalid, hstored, hsame, hdb₂, hloop, hdb'⟩ :=
    insertBlock_loop h
  have hs₂ : InstancesSound db₂ := by
    rw [hdb₂]
    exact ⟨hs.instances.ids_nodup, hs.instances.ids_lt, hs.instances.inputs_refer,
      hs.instances.outputs_refer⟩
  have hplaced₂ : db₂.blockTransactions = db.blockTransactions := by rw [hdb₂]
  have hblocks₂ : db₂.blocks = db.blocks.insertNew row := by rw [hdb₂]
  have hu₂ : PlacedOnce db₂ := by
    rw [PlacedOnce, hplaced₂]
    exact hs.placements.once
  obtain ⟨hs₃, hu₃, ids, hplaced⟩ := insertBlockTransactions_reads hs₂ hu₂ hloop
  have hblocks : db'.blocks = db₂.blocks := by
    rw [hdb', insertBlockTransactions_only hloop]
  have hplacements : db'.blockTransactions = db₃.blockTransactions := by rw [hdb']
  have hread (id : Nat) : readInstance db' id = readInstance db₃ id := by
    rw [hdb']
    rfl
  have hcount : stored.transactionCount = indexed.block.tx.length := by
    have hcounts : stored.compared.transactionCount = row.compared.transactionCount :=
      congrArg _ hsame
    rw [← blockRow_count hrow]
    exact hcounts
  refine ⟨⟨?_, ?_, ?_⟩, ids, ⟨row, stored, hrow, hvalid, hblocks ▸ hstored, hsame⟩, ?_, ?_⟩
  · rw [hdb']
    exact ⟨hs₃.ids_nodup, hs₃.ids_lt, hs₃.inputs_refer, hs₃.outputs_refer⟩
  · rw [PlacedOnce, hplacements]
    exact hu₃
  · intro r hr
    rw [hplacements] at hr
    rw [hblocks]
    rcases hplaced.others r hr with hr | ⟨hb, -, hp⟩
    · rw [hplaced₂] at hr
      obtain ⟨b, hb, hlt⟩ := hs.placements.counted r hr
      rw [hblocks₂]
      exact ⟨b, Table.find?_insertNew_of_find? hb, hlt⟩
    · exact ⟨stored, hb ▸ hstored, by omega⟩
  · exact hplaced.reads.imp fun id t ⟨facts, hfacts, hf⟩ => ⟨facts, hfacts, (hread id).trans hf⟩
  · intro i id hi
    rw [hplacements]
    simpa using hplaced.found i id hi

/-- A block that extends nothing leaves every stored fact, and makes no transaction extend one
unless that is a longer list of its own. -/
theorem insertBlock_keeps (hs : FactsSound db)
    (hext : ∀ t ∈ indexed.block.tx, ¬ ExtendsStored lib db t)
    (h : insertBlock lib networkId indexed db = .ok db') : Keeps db db' ∧
      ∀ t', ¬ ExtendsStored lib db t' → (∀ t ∈ indexed.block.tx, SameInstance lib t t' →
        t'.vin.length ≤ t.vin.length ∧ t'.vout.length ≤ t.vout.length) →
      ¬ ExtendsStored lib db' t' := by
  have hi := insertBlock_inserts h
  obtain ⟨row, stored, db₂, db₃, -, -, -, -, hdb₂, hloop, hdb'⟩ := insertBlock_loop h
  have hs₂ : InstancesSound db₂ := by
    rw [hdb₂]
    exact ⟨hs.instances.ids_nodup, hs.instances.ids_lt, hs.instances.inputs_refer,
      hs.instances.outputs_refer⟩
  have hu₂ : PlacedOnce db₂ := by
    rw [hdb₂]
    exact hs.placements.once
  have hext₂ (t : RpcTransaction) : ExtendsStored lib db₂ t ↔ ExtendsStored lib db t := by
    rw [hdb₂]
    rfl
  have hext' (t : RpcTransaction) : ExtendsStored lib db' t ↔ ExtendsStored lib db₃ t := by
    rw [hdb']
    rfl
  have hloopExt : ∀ t ∈ indexed.block.tx, ¬ ExtendsStored lib db₂ t := fun t ht =>
    (hext₂ t).not.mpr (hext t ht)
  refine ⟨⟨hi.blocks, hi.blockTransactions, ?_⟩, ?_⟩
  · intro id f hf
    have hf₂ : readInstance db₂ id = some f := by
      rw [hdb₂]
      exact hf
    have hf₃ := insertBlockTransactions_keeps hs₂ hu₂ hloopExt hloop hf₂
    rw [hdb']
    exact hf₃
  · intro t' ht' hle
    rw [hext']
    exact insertBlockTransactions_not_extends hs₂ hu₂ hloopExt ((hext₂ t').not.mpr ht') hle hloop

end Blocks

end WcashExplorer
