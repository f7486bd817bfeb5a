import WcashExplorer.Db.AppendOnly
import WcashExplorer.Db.WitnessEvidence

/-! Replacing a branch: exactly the new branch on the kept prefix, or nothing at all. -/
namespace WcashExplorer

open Effects Relational

variable {lib : AuxPowCrate} {networkId : Text} {indexed : IndexedBlock}
  {db db₁ db₂ db' : Db} {xs : List CanonicalRow} {now : Timestamp}

section Agreement

/-- What a transaction repeats of the rows `db` holds under its key and its position, where
`db'` names its instance: every stored column, and every stored input and output. -/
structure RepeatsTransaction (lib : AuxPowCrate) (db db' : Db) (place : Text × Text × Nat)
    (t : RpcTransaction) : Prop where
  columns : ∃ row own inputs outputs, transactionInstanceRow lib t 0 = .ok row ∧
    db'.transactionInstances.find? row.key = some own ∧
    inputRows 0 0 t.vin = .ok inputs ∧ outputRows 0 t.vout = .ok outputs ∧
    (∀ stored, db.transactionInstances.find? row.key = some stored →
      stored.anonymous = row.anonymous ∧
      (∀ i ∈ storedInputs db stored.transactionInstanceId, i.anonymous ∈ inputs) ∧
      ∀ o ∈ storedOutputs db stored.transactionInstanceId, o.anonymous ∈ outputs) ∧
    ∀ p, db.blockTransactions.find? place = some p →
      p.transactionInstanceId = own.transactionInstanceId

/-- A block repeats every immutable row `db` holds for its hash, its positions and its
transactions. -/
structure RepeatsStored (lib : AuxPowCrate) (networkId : Text) (db db' : Db)
    (indexed : IndexedBlock) : Prop where
  header : ∃ row, blockRow networkId indexed = .ok row ∧ ∀ stored,
    db.blocks.find? indexed.block.hash = some stored → stored.compared = row.compared
  transactions : ∀ i t, indexed.block.tx[i]? = some t → RepeatsTransaction lib db db'
    (indexed.block.hash, witnessHash lib indexed, i) t

theorem RepeatsTransaction.mono {place : Text × Text × Nat} {t : RpcTransaction}
    (h : RepeatsTransaction lib db db₁ place t) (h' : AppendsFacts db₁ db') :
    RepeatsTransaction lib db db' place t := by
  obtain ⟨row, own, inputs, outputs, hrow, hown, hrest⟩ := h.columns
  exact ⟨row, own, inputs, outputs, hrow, Table.find?_of_prefix h'.transactionInstances hown, hrest⟩

theorem mem_storedInputs {id : Nat} {r : TransparentInputRow} :
    r ∈ storedInputs db id ↔ r ∈ db.transparentInputs.rows ∧ r.transactionInstanceId = id := by
  simp [storedInputs]

theorem mem_storedOutputs {id : Nat} {r : TransparentOutputRow} :
    r ∈ storedOutputs db id ↔ r ∈ db.transparentOutputs.rows ∧ r.transactionInstanceId = id := by
  simp [storedOutputs]

/-- A transaction that was stored after `db` repeats what `db` held of it. -/
theorem TransactionInserted.repeats {t : RpcTransaction} {id : Nat}
    {row stored : TransactionInstanceRow} {place : Text × Text × Nat} {placed : BlockTransactionRow}
    (h : TransactionInserted lib t db₁ id db₂ row stored) (h₂ : AppendsFacts db db₂)
    (hplaced : ∀ p, db.blockTransactions.find? place = some p → p = placed)
    (hid : placed.transactionInstanceId = id) : RepeatsTransaction lib db db₂ place t := by
  obtain ⟨-, hoffered⟩ := transactionInstanceRow_under h.offered 0
  refine ⟨_, stored, _, _, hoffered, h.found, h.inputs, h.outputs, ?_, ?_⟩
  · intro s hs
    have hsame : stored = s := Option.some.inj
      (h.found.symm.trans (Table.find?_of_prefix h₂.transactionInstances hs))
    subst hsame
    refine ⟨h.same, fun i hi => ?_, fun o ho => ?_⟩
    · obtain ⟨hi, hown⟩ := mem_storedInputs.mp hi
      refine List.mem_map.mpr ⟨i, mem_storedInputs.mpr ⟨?_, hown.trans h.own⟩, rfl⟩
      exact h₂.transparentInputs.subset hi
    · obtain ⟨ho, hown⟩ := mem_storedOutputs.mp ho
      refine List.mem_map.mpr ⟨o, mem_storedOutputs.mpr ⟨?_, hown.trans h.own⟩, rfl⟩
      exact h₂.transparentOutputs.subset ho
  · intro p hp
    rw [hplaced p hp, hid, h.own]

theorem insertBlockTransactions_repeat {blockHash witness : Text} {position : Nat}
    {txs : List RpcTransaction} (h₁ : AppendsFacts db db₁)
    (h : insertBlockTransactions lib blockHash witness position txs db₁ = .ok db') :
    ∀ i t, txs[i]? = some t →
      RepeatsTransaction lib db db' (blockHash, witness, position + i) t := by
  induction txs generalizing position db₁ with
  | nil => simp
  | cons first rest ih =>
    obtain ⟨id, db₂, db₃, placed, ht, -, hbt, hplaced, hid, hrest⟩ := insertBlockTransactions_cons h
    obtain ⟨row, stored, hin⟩ := insertTransaction_inserted ht
    have h₂ := h₁.trans (insertTransaction_inserts ht).appendsFacts
    have hplace := (insertBlockTransaction_inserts hbt).appendsFacts
    have hlater := (insertBlockTransactions_inserts hrest).appendsFacts
    intro i t hi
    cases i with
    | zero =>
      obtain rfl : first = t := by simpa using hi
      have hrepeats : RepeatsTransaction lib db db₂ (blockHash, witness, position) first := by
        refine hin.repeats h₂ (fun p hp => ?_) hid
        have hkept := Table.find?_of_prefix (h₂.trans hplace).blockTransactions hp
        exact Option.some.inj (hkept.symm.trans hplaced)
      exact hrepeats.mono (hplace.trans hlater)
    | succ i =>
      have hi' := ih (h₂.trans hplace) hrest i t (by simpa using hi)
      have hposition : position + 1 + i = position + (i + 1) := by omega
      rw [hposition] at hi'
      exact hi'

/-- An accepted block repeats what any earlier state held of it. -/
theorem insertBlock_repeats (h₁ : AppendsFacts db db₁)
    (h : insertBlock lib networkId indexed db₁ = .ok db') :
    RepeatsStored lib networkId db db' indexed := by
  obtain ⟨row, stored, db₂, db₃, hrow, -, hstored, hsame, hdb₂, hloop, hdb'⟩ := insertBlock_loop h
  have h₂ : AppendsFacts db db₂ := by
    rw [hdb₂]
    exact { h₁ with blocks := h₁.blocks.trans (Table.rows_prefix_insertNew _ _) }
  refine ⟨⟨row, hrow, fun s hs => ?_⟩, fun i t hi => ?_⟩
  · have hkept := Table.find?_of_prefix h₂.blocks hs
    obtain rfl := Option.some.inj (hkept.symm.trans hstored)
    exact hsame
  · have hrepeats := insertBlockTransactions_repeat h₂ hloop i t hi
    rw [Nat.zero_add] at hrepeats
    refine hrepeats.mono ?_
    rw [hdb']
    exact ⟨List.prefix_rfl, List.prefix_rfl, List.prefix_rfl, List.prefix_rfl, List.prefix_rfl⟩

theorem insertBlocks_repeat {blocks : List IndexedBlock} (h₁ : AppendsFacts db db₁)
    (h : insertBlocks lib networkId blocks db₁ = .ok db') :
    ∀ b ∈ blocks, RepeatsStored lib networkId db db' b := by
  induction blocks generalizing db₁ with
  | nil => simp
  | cons first rest ih =>
    obtain ⟨db₂, hfirst, hrest⟩ := insertBlocks_cons h
    have h₂ := h₁.trans (insertBlock_inserts hfirst).appendsFacts
    have hlater := (insertBlocks_recorded hrest).1.appendsFacts
    intro b hb
    rcases List.mem_cons.mp hb with rfl | hb
    · have hrepeats := insertBlock_repeats h₁ hfirst
      exact ⟨hrepeats.header, fun i t hi => (hrepeats.transactions i t hi).mono hlater⟩
    · exact ih h₂ hrest b hb

end Agreement

section Exactness

/-- Blocks of consecutive heights from `height` on, each naming the one before it. -/
def LinkedFrom : Nat → Text → List IndexedBlock → Prop
  | _, _, [] => True
  | height, previous, b :: rest => b.block.height = height ∧
      b.block.previousblockhash = some previous ∧ LinkedFrom (height + 1) b.block.hash rest

/-- Recording a tip and completing an event leave the facts as they are. -/
theorem AppendsFacts.of_record {eventId : Nat} {height : Option Nat} {hash witness : Option Text} :
    AppendsFacts db (completeReorgEvent eventId now (recordTip networkId height hash witness now db)) :=
  ⟨List.prefix_rfl, List.prefix_rfl, List.prefix_rfl, List.prefix_rfl, List.prefix_rfl⟩

/-- Everything a successful replacement over the selected ancestor `r` at `a` says and does. -/
structure BranchReplaced (lib : AuxPowCrate) (networkId : Text) (oldTip : ChainTip) (a : Nat)
    (r : CanonicalRow) (blocks : List IndexedBlock) (xs : List CanonicalRow) (db db' : Db) :
    Prop where
  tip : ∃ c, db.chainState.find? networkId = some c ∧ c.indexedHeight = some oldTip.height ∧
    c.indexedHash = some oldTip.blockHash
  linked : LinkedFrom (a + 1) r.blockHash blocks
  repeats : ∀ b ∈ blocks, RepeatsStored lib networkId db db' b
  selected : Selected networkId db' (xs.take (a + 1) ++ blocks.map (canonicalRow lib networkId))
  others : ∀ n h, n ≠ networkId →
    db'.canonicalChain.find? (n, h) = db.canonicalChain.find? (n, h)
  facts : AppendsFacts db db'
  evidence : ∀ k, (∀ b ∈ blocks, k ≠ (b.block.hash, witnessHash lib b)) →
    evidence db' k = evidence db k
  event : ∃ e, db'.reorgEvents.rows = db.reorgEvents.rows ++ [e] ∧ e.networkId = networkId ∧
    e.oldTipHeight = oldTip.height ∧ e.oldTipHash = oldTip.blockHash ∧
    e.commonAncestorHeight = some a ∧ e.commonAncestorHash = some r.blockHash ∧
    e.completedAt.isSome

theorem linkedFrom_of_contiguousFrom {blocks : List IndexedBlock} {height : Nat} {previous : Text}
    (hle : ∀ b ∈ blocks, b.block.height ≤ i64Max)
    (h : contiguousFrom height (some previous) blocks = true) :
    LinkedFrom height previous blocks := by
  induction blocks generalizing height previous with
  | nil => trivial
  | cons first rest ih =>
    simp only [contiguousFrom, Bool.and_eq_true, decide_eq_true_eq] at h
    obtain ⟨⟨hheight, hprevious⟩, hrest⟩ := h
    have hbound : height ≤ i64Max := hheight ▸ hle first (by simp)
    rw [saturatingAdd_one hbound] at hrest
    exact ⟨hheight, hprevious, ih (fun b hb => hle b (by simp [hb])) hrest⟩

theorem insertSelectors_others {blocks : List IndexedBlock} {n : Text} {h : Nat}
    (hn : n ≠ networkId) (hsel : insertSelectors lib networkId blocks db = .ok db') :
    db'.canonicalChain.find? (n, h) = db.canonicalChain.find? (n, h) := by
  induction blocks generalizing db with
  | nil =>
    cases hsel
    rfl
  | cons first rest ih =>
    simp only [insertSelectors, Result.bind_eq_ok] at hsel
    obtain ⟨db₁, hfirst, hrest⟩ := hsel
    obtain ⟨-, ⟨-, rfl⟩ | ⟨-, -, rfl⟩⟩ := insertCanonicalSelector_ok hfirst
    · exact ih hrest
    · rw [ih hrest, Table.find?_insertNew_of_ne]
      intro hkey
      exact hn (congrArg Prod.fst hkey).symm

theorem detach_others {height : Option Nat} {n : Text} {h : Nat} (hn : n ≠ networkId) :
    (detach networkId height db).canonicalChain.find? (n, h) =
      db.canonicalChain.find? (n, h) := by
  rw [detach, Table.find?_deleteWhere]
  cases hfind : db.canonicalChain.find? (n, h) with
  | none => rfl
  | some r =>
    have hnetwork : r.networkId = n := congrArg Prod.fst (Table.key_of_find? hfind)
    simp [hnetwork, hn]

theorem le_foldr_max {ids : List Nat} {i : Nat} (h : i ∈ ids) : i ≤ ids.foldr max 0 := by
  induction ids with
  | nil => cases h
  | cons j rest ih =>
    rw [List.foldr_cons]
    rcases List.mem_cons.mp h with rfl | h
    · omega
    · have hle := ih h
      omega

theorem freshEventId_fresh {e : ReorgEventRow} (he : e ∈ db.reorgEvents.rows) :
    e.eventId ≠ freshEventId db := by
  have hle := le_foldr_max (List.mem_map.mpr ⟨e, he, rfl⟩ : e.eventId ∈
    db.reorgEvents.rows.map fun r => r.eventId)
  unfold freshEventId
  omega

/-- The event a replacement logs, once it is complete. -/
def completedEvent (eventId : Nat) (networkId : Text) (oldTip : ChainTip)
    (ancestor : Option (Nat × Text)) (now : Timestamp) : ReorgEventRow where
  eventId := eventId
  networkId := networkId
  oldTipHeight := oldTip.height
  oldTipHash := oldTip.blockHash
  commonAncestorHeight := ancestor.map Prod.fst
  commonAncestorHash := ancestor.map Prod.snd
  detectedAt := now
  completedAt := some now

/-- The events after logging one and completing it are the old ones and that one. -/
theorem completeReorgEvent_rows {oldTip : ChainTip} {ancestor : Option (Nat × Text)} :
    (completeReorgEvent (freshEventId db) now (insertReorgEvent (freshEventId db) networkId oldTip
        (ancestor.map Prod.fst) (ancestor.map Prod.snd) now db)).reorgEvents.rows =
      db.reorgEvents.rows ++ [completedEvent (freshEventId db) networkId oldTip ancestor now] := by
  have hnone : db.reorgEvents.find? (freshEventId db) = none :=
    Table.find?_eq_none.mpr fun e he => freshEventId_fresh he
  have hold : db.reorgEvents.rows.map (fun e => if decide (e.eventId = freshEventId db) then
      { e with completedAt := some now } else e) = db.reorgEvents.rows := by
    refine (List.map_congr_left (g := id) fun e he => ?_).trans (List.map_id _)
    rw [if_neg (by simpa using freshEventId_fresh he), id]
  rw [completeReorgEvent, Table.rows_updateWhere, insertReorgEvent,
    Table.rows_insertNew_of_none hnone, List.map_append, hold]
  simp [completedEvent]

theorem insertBlocks_evidence_other {blocks : List IndexedBlock} {k : Text × Text}
    (hk : ∀ b ∈ blocks, k ≠ (b.block.hash, witnessHash lib b))
    (h : insertBlocks lib networkId blocks db = .ok db') : evidence db' k = evidence db k := by
  induction blocks generalizing db with
  | nil =>
    cases h
    rfl
  | cons first rest ih =>
    obtain ⟨db₁, hfirst, hrest⟩ := insertBlocks_cons h
    rw [ih (fun b hb => hk b (by simp [hb])) hrest,
      insertBlock_evidence_other hfirst (hk first (by simp))]

/-- A successful replacement over a selected ancestor is exact. -/
theorem replaceCanonicalBranch_exact {oldTip : ChainTip} {a : Nat} {r : CanonicalRow}
    {blocks : List IndexedBlock} (hx : Selected networkId db xs) (hr : xs[a]? = some r)
    (h : replaceCanonicalBranch lib networkId oldTip (some (a, r.blockHash)) blocks now db =
      .ok db') : BranchReplaced lib networkId oldTip a r blocks xs db db' := by
  have hselected := hx.replaceCanonicalBranch hr rfl h
  obtain ⟨db₁, db₂, htip, hval, hle, hins, hsel, rfl⟩ := replaceCanonicalBranch_ok h
  obtain ⟨hi, -⟩ := insertBlocks_recorded hins
  have hrepeats := insertBlocks_repeat (.refl db) hins
  have hframe := insertSelectors_frame hsel
  have hheights : ∀ b ∈ blocks, b.block.height ≤ i64Max := by
    intro b hb
    obtain ⟨row, hrow, -⟩ := (hrepeats b hb).header
    simp only [blockRow, Result.bind_eq_ok, toI64_eq_ok] at hrow
    obtain ⟨-, -, -, ⟨hbound, -⟩, -⟩ := hrow
    exact hbound
  have hcontiguous : contiguousFrom (saturatingAdd a 1) (some r.blockHash) blocks = true :=
    ensure_eq_ok.mp hval
  rw [saturatingAdd_one (hle (a, r.blockHash) rfl)] at hcontiguous
  have happends : AppendsFacts db₁ db₂ := by
    rw [hframe]
    exact ⟨List.prefix_rfl, List.prefix_rfl, List.prefix_rfl, List.prefix_rfl, List.prefix_rfl⟩
  refine ⟨?_, linkedFrom_of_contiguousFrom hheights hcontiguous, ?_, hselected, ?_, ?_, ?_, ?_⟩
  · obtain ⟨witness, hrecorded⟩ := tipUnchanged_ok htip
    obtain ⟨c, hc, hcolumns⟩ := Option.map_eq_some_iff.mp hrecorded
    simp only [Prod.mk.injEq] at hcolumns
    exact ⟨c, hc, hcolumns.1, hcolumns.2.1⟩
  · intro b hb
    exact ⟨(hrepeats b hb).header, fun i t hi =>
      ((hrepeats b hb).transactions i t hi).mono (happends.trans .of_record)⟩
  · intro n height hn
    have hselectors := insertSelectors_others (h := height) hn hsel
    rw [detach_others hn] at hselectors
    exact hselectors.trans (by rw [insertReorgEvent, hi.canonicalChain])
  · exact hi.appendsFacts.trans (happends.trans .of_record)
  · intro k hk
    have hevidence : evidence db₂ k = evidence db₁ k := by
      rw [hframe]
      rfl
    exact hevidence.trans (insertBlocks_evidence_other hk hins)
  · refine ⟨completedEvent (freshEventId db₁) networkId oldTip (some (a, r.blockHash)) now, ?_,
      rfl, rfl, rfl, rfl, rfl, rfl⟩
    rw [← hi.reorgEvents, ← completeReorgEvent_rows, completeReorgEvent, completeReorgEvent,
      recordTip, updateChainState, hframe]
    rfl

/-- Publishing a branch over a selected ancestor, against whatever tip it was staged, fails without
a trace or replaces the branch exactly. -/
theorem replacement_exact_or_unchanged (hx : Selected networkId db xs) {a : Nat} {r : CanonicalRow}
    (hr : xs[a]? = some r) (oldTip : ChainTip) (blocks : List IndexedBlock)
    (env : Environment explorer World) :
    let run := (Prog.txn (S := explorer) (.replaceCanonicalBranch networkId oldTip
      (some (a, r.blockHash)) blocks)).runWith (exec lib) env [] db
    ((∃ e, run.2.1 = .error e) ∧ run.2.2 = db) ∨
      (run.2.1 = .ok () ∧ BranchReplaced lib networkId oldTip a r blocks xs db run.2.2) := by
  intro run
  have hrun : run = _ := Prog.runWith_txn (exec lib) env _ [] db
  rw [hrun]
  cases hexec : exec lib (env.clock []) (.replaceCanonicalBranch networkId oldTip
      (some (a, r.blockHash)) blocks) db with
  | error e => exact .inl ⟨⟨e, rfl⟩, rfl⟩
  | ok result =>
    obtain ⟨u, db'⟩ := result
    exact .inr ⟨rfl, replaceCanonicalBranch_exact hx hr (writing_ok.mp hexec)⟩

end Exactness

section Sample

/-- The tip of the sample store after one chain, under a witness it was not indexed with. -/
def foreignTip : ChainTip := { height := 2, blockHash := sampleHash '2', witnessHash := sampleHash 'f' }

/-- The witness hash of the old tip is not compared. -/
theorem replacement_over_foreign_witness :
    Reachable sampleCrate sampleNetwork (sampleDb [['1', '2']]) ∧
    recordedTip sampleNetwork (sampleDb [['1', '2']]) ≠ some (some foreignTip.height,
      some foreignTip.blockHash, some foreignTip.witnessHash) ∧
    (exec sampleCrate { now := 0 } (.replaceCanonicalBranch sampleNetwork foreignTip
      (some (1, sampleHash '1')) []) (sampleDb [['1', '2']])).isOk = true :=
  ⟨sampleDb_reachable _, by decide +kernel, by decide +kernel⟩

/-- A sibling of the tip replaces it. -/
theorem replacement_exact_or_unchanged_sibling : ∃ xs r,
    BranchReplaced sampleCrate sampleNetwork foreignTip 1 r
      [sampleIndexed 2 '3' (some '1') [sampleTransaction [sampleCoinbase]]] xs
      (sampleDb [['1', '2']]) (((Prog.txn (S := explorer) (.replaceCanonicalBranch sampleNetwork
        foreignTip (some (1, r.blockHash))
        [sampleIndexed 2 '3' (some '1') [sampleTransaction [sampleCoinbase]]])).runWith
          (exec sampleCrate) (steadyNode []) [] (sampleDb [['1', '2']])).2.2) := by
  obtain ⟨⟨xs, hx⟩, -⟩ := (sampleDb_reachable [['1', '2']]).chainInvariant
  have hselected : ((sampleDb [['1', '2']]).canonicalChain.find? (sampleNetwork, 1)).map
      CanonicalRow.blockHash = some (sampleHash '1') := by decide +kernel
  obtain ⟨r, hfind, hhash⟩ := Option.map_eq_some_iff.mp hselected
  refine ⟨xs, r, ?_⟩
  have hr := (hx.represents 1).symm.trans hfind
  rcases replacement_exact_or_unchanged hx hr foreignTip
    [sampleIndexed 2 '3' (some '1') [sampleTransaction [sampleCoinbase]]] (steadyNode []) with
    ⟨⟨e, he⟩, -⟩ | ⟨-, hreplaced⟩
  · have hok : ((Prog.txn (S := explorer) (.replaceCanonicalBranch sampleNetwork foreignTip
        (some (1, sampleHash '1')) [sampleIndexed 2 '3' (some '1')
          [sampleTransaction [sampleCoinbase]]])).runWith (exec sampleCrate) (steadyNode []) []
            (sampleDb [['1', '2']])).2.1.isOk = true := by decide +kernel
    rw [← hhash, he] at hok
    cases hok
  · exact hreplaced

end Sample

end WcashExplorer
