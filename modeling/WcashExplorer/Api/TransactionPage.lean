import WcashExplorer.Api.Resolution
import WcashExplorer.Api.SamePages
import WcashExplorer.Api.Traversal
import WcashExplorer.Db.BlockRows
import WcashExplorer.Db.Instances
import WcashExplorer.Db.LastPass
import WcashExplorer.Db.RawRpc

/-! The page of a transaction, read by several statements while the indexer commits in between. -/
namespace WcashExplorer

open Effects Relational

variable {lib : AuxPowCrate} {networkId : Text} {network : NetworkProfile} {start db db' : Db}
  {log : List DbCall} {f : TransactionFacts} {t : RpcTransaction} {id position : Nat}

section Shown

def TransparentInputRow.shown (r : TransparentInputRow) : InputView where
  inputIndex := r.inputIndex
  previousTxid := r.previousTxid
  previousOutputIndex := r.previousOutputIndex
  coinbaseData := r.coinbaseData
  sequence := r.sequence

def TransparentOutputRow.shown (network : NetworkProfile) (r : TransparentOutputRow) :
    OutputView where
  index := r.outputIndex
  value := amount network r.valueZat
  address := r.address
  scriptType := r.scriptType
  scriptHex := r.scriptHex

/-- How a page shows the input a transaction has at a position. -/
def RpcInput.shown (position : Nat) (input : RpcInput) : InputView where
  inputIndex := position
  previousTxid := input.txid
  previousOutputIndex := input.vout
  coinbaseData := input.coinbase
  sequence := input.sequence

def RpcOutput.shown (network : NetworkProfile) (output : RpcOutput) : OutputView where
  index := output.n
  value := amount network output.valueZat
  address := output.scriptPubKey.primaryAddress
  scriptType := output.scriptPubKey.scriptType
  scriptHex := output.scriptPubKey.hex

theorem transparentInputRow_shown {input : RpcInput} {row : TransparentInputRow}
    (h : transparentInputRow id position input = .ok row) : row.shown = input.shown position := by
  simp only [transparentInputRow, toI32, Result.bind_eq_ok, asI32_eq_ok, optional_eq_ok,
    toI64_eq_ok] at h
  obtain ⟨_, ⟨-, rfl⟩, vout, hvout, sequence, hsequence, h⟩ := h
  have hsame : vout = input.vout := by
    rcases hvout with ⟨hnone, rfl⟩ | ⟨n, _, hsome, rfl, -, rfl⟩
    · exact hnone.symm
    · exact hsome.symm
  have hsame' : sequence = input.sequence := by
    rcases hsequence with ⟨hnone, rfl⟩ | ⟨n, _, hsome, rfl, -, rfl⟩
    · exact hnone.symm
    · exact hsome.symm
  cases h
  rw [TransparentInputRow.shown, RpcInput.shown, hsame, hsame']

theorem transparentOutputRow_shown (network : NetworkProfile) {output : RpcOutput}
    {row : TransparentOutputRow} (h : transparentOutputRow id output = .ok row) :
    row.shown network = output.shown network ∧ row.valueZat = output.valueZat := by
  simp only [transparentOutputRow, Result.bind_eq_ok, asI32_eq_ok] at h
  obtain ⟨_, ⟨-, rfl⟩, h⟩ := h
  cases h
  exact ⟨rfl, rfl⟩

/-- The rows of a list of inputs are shown as the list, from `position` on. -/
theorem inputRows_shown {inputs : List RpcInput} {rows : List TransparentInputRow}
    (h : inputRows id position inputs = .ok rows) :
    rows.map TransparentInputRow.shown =
      inputs.mapIdx fun i input => input.shown (position + i) := by
  induction inputs generalizing position rows with
  | nil =>
    cases h
    rfl
  | cons input rest ih =>
    simp only [inputRows, Result.bind_eq_ok] at h
    obtain ⟨row, hrow, -, -, rows', hrest, h⟩ := h
    cases h
    rw [List.map_cons, List.mapIdx_cons, transparentInputRow_shown hrow, ih hrest]
    simp only [Nat.add_zero, Nat.add_assoc, Nat.add_comm 1]

theorem outputRows_shown (network : NetworkProfile) {outputs : List RpcOutput}
    {rows : List TransparentOutputRow} (h : outputRows id outputs = .ok rows) :
    rows.map (TransparentOutputRow.shown network) = outputs.map (RpcOutput.shown network) ∧
      rows.map TransparentOutputRow.valueZat = outputs.map RpcOutput.valueZat := by
  induction outputs generalizing rows with
  | nil =>
    cases h
    exact ⟨rfl, rfl⟩
  | cons output rest ih =>
    simp only [outputRows, Result.bind_eq_ok] at h
    obtain ⟨row, hrow, -, -, rows', hrest, h⟩ := h
    cases h
    obtain ⟨hshown, hvalue⟩ := transparentOutputRow_shown network hrow
    obtain ⟨hrows, hvalues⟩ := ih hrest
    rw [List.map_cons, List.map_cons, List.map_cons, List.map_cons, hshown, hvalue, hrows, hvalues]
    exact ⟨rfl, rfl⟩

end Shown

section Read

/-- The lists read back are those the statements read, in their order. -/
theorem lists_of_read (h : readInstance db id = some f) :
    f.inputs = (orderBy TransparentInputRow.inputIndex (instanceInputs db id)).map
        TransparentInputRow.anonymous ∧
      f.outputs = (orderBy TransparentOutputRow.outputIndex (instanceOutputs db id)).map
        TransparentOutputRow.anonymous := by
  obtain ⟨r, hr, rfl⟩ := Option.map_eq_some_iff.mp h
  have hid : r.transactionInstanceId = id := by simpa using List.find?_some hr
  rw [storedFacts, hid]
  exact ⟨rfl, rfl⟩

theorem inputViews_of_read (h : readInstance db id = some f) :
    inputViews db id = f.inputs.map TransparentInputRow.shown := by
  rw [(lists_of_read h).1, List.map_map]
  rfl

theorem outputViews_of_read (h : readInstance db id = some f) :
    outputViews network db id = f.outputs.map (TransparentOutputRow.shown network) := by
  rw [(lists_of_read h).2, List.map_map]
  rfl

theorem publicOutputZat_of_read (h : readInstance db id = some f) :
    publicOutputZat db id = (f.outputs.map TransparentOutputRow.valueZat).sum := by
  have hperm := orderBy_perm TransparentOutputRow.outputIndex (instanceOutputs db id)
  rw [(lists_of_read h).2, List.map_map]
  exact (hperm.map TransparentOutputRow.valueZat).sum_eq.symm

theorem counts_of_read (h : readInstance db id = some f) :
    (instanceInputs db id).length = f.inputs.length ∧
      (instanceOutputs db id).length = f.outputs.length := by
  obtain ⟨hinputs, houtputs⟩ := lists_of_read h
  rw [hinputs, houtputs, List.length_map, List.length_map]
  exact ⟨(orderBy_perm _ _).length_eq.symm, (orderBy_perm _ _).length_eq.symm⟩

end Read

section Handler

variable {txid : Text} {block : Option Text} {now : Timestamp} {seen seen' : ℕ → Db}

/-- The handler depends on the later states only in what it reads under the instance it found. -/
theorem transaction_congr (hzero : seen 0 = seen' 0) (hone : seen 1 = seen' 1)
    (hreads : ∀ row, transactionDetailQuery (seen 1) network.id txid block = .ok (some row) →
      inputViews (seen 2) row.transactionInstanceId =
        inputViews (seen' 2) row.transactionInstanceId ∧
      outputViews network (seen 3) row.transactionInstanceId =
        outputViews network (seen' 3) row.transactionInstanceId ∧
      storedRawRpc (seen 4) row.transactionInstanceId =
        storedRawRpc (seen' 4) row.transactionInstanceId) :
    transaction network txid block seen now = transaction network txid block seen' now := by
  rw [transaction, transaction, ← hzero, ← hone]
  cases hquery : transactionDetailQuery (seen 1) network.id txid block with
  | error error => rfl
  | ok found =>
    cases found with
    | none => rfl
    | some row =>
      obtain ⟨hinputs, houtputs, hraw⟩ := hreads row hquery
      simp only [orNotFound, Except.bind, bind, hinputs, houtputs, hraw]

end Handler

section Request

/-- Calls that extend no stored transaction keep what is stored of each. -/
theorem Calls.keeps (h : Calls lib (extendsNothing lib) db log db') (hs : FactsSound db) :
    Keeps db db' := by
  have hrun : FactsSound db' ∧ Keeps db db' := by
    refine h.invariant (I := fun d => FactsSound d ∧ Keeps db d) ⟨hs, .refl db⟩
      fun d w t r d' hp hd hx => ?_
    obtain ⟨hs', hkeeps, -⟩ := exec_keeps hd.1 hp hx
    exact ⟨hs', hd.2.trans hkeeps⟩
  exact hrun.2

/-- The states the statements of a request see. Methods are committed before the first of them and
between any two, and none of them extends a stored transaction. -/
structure Unextended (lib : AuxPowCrate) (start : Db) (accepted : ℕ → List DbCall)
    (seen : ℕ → Db) : Prop where
  empty : NoBlocks start
  opening : Calls lib (extendsNothing lib) start (accepted 0) (seen 0)
  next : ∀ i, Calls lib (extendsNothing lib) (seen i) (accepted (i + 1)) (seen (i + 1))

/-- The blocks of the methods before the statement that finds the transaction. -/
def acceptedBlocks (accepted : ℕ → List DbCall) : List IndexedBlock :=
  (accepted 0 ++ accepted 1).flatMap DbCall.blocks

namespace Unextended

variable {accepted : ℕ → List DbCall} {seen : ℕ → Db} (h : Unextended lib start accepted seen)
include h

theorem found : Calls lib (extendsNothing lib) start (accepted 0 ++ accepted 1) (seen 1) :=
  h.opening.trans (h.next 0)

theorem after (i : ℕ) : ∃ log, Calls lib (extendsNothing lib) (seen 1) log (seen (i + 1)) := by
  induction i with
  | zero => exact ⟨[], .nil _⟩
  | succ i ih =>
    obtain ⟨log, hlog⟩ := ih
    exact ⟨_, hlog.trans (h.next (i + 1))⟩

theorem sound : StoreSound (seen 1) := h.found.sound h.empty.sound

theorem kept (i : ℕ) : Keeps (seen 1) (seen (i + 1)) := by
  obtain ⟨log, hlog⟩ := h.after i
  exact hlog.keeps h.sound.facts

theorem appended (i : ℕ) : AppendsFacts (seen 1) (seen (i + 1)) := by
  obtain ⟨log, hlog⟩ := h.after i
  exact hlog.appendsFacts

/-- What the statements after the second read is what they would have read in the state the second
one saw. -/
theorem reads (network : NetworkProfile) {y : ChainTransaction}
    (hy : IsChainTransaction (seen 1) networkId y) (i : ℕ) :
    inputViews (seen (i + 1)) y.stored.transactionInstanceId =
        inputViews (seen 1) y.stored.transactionInstanceId ∧
      outputViews network (seen (i + 1)) y.stored.transactionInstanceId =
        outputViews network (seen 1) y.stored.transactionInstanceId ∧
      storedRawRpc (seen (i + 1)) y.stored.transactionInstanceId = .ok y.stored.rawRpc := by
  have hid := instanceById_id hy.stored
  obtain ⟨f, hf⟩ := Option.isSome_iff_exists.mp
    (h.sound.placements y.placement (mem_witnessPlacements.mp hy.placement).1).2
  rw [hid]
  have hlater := (h.kept i).instances _ f hf
  have hstored : instanceById (seen (i + 1)) y.placement.transactionInstanceId = some y.stored :=
    (h.appended i).transactionInstances.find?_eq_some hy.stored
  refine ⟨?_, ?_, ?_⟩
  · rw [inputViews_of_read hlater, inputViews_of_read hf]
  · rw [outputViews_of_read hlater, outputViews_of_read hf]
  · rw [storedRawRpc, hstored]

/-- The answer, a refusal included, is that of a request whose later statements all see the state
in which the transaction is found. -/
theorem transaction_eq (txid : Text) (block : Option Text) (now : Timestamp) :
    transaction network txid block seen now =
      transaction network txid block (fun i => seen (min i 1)) now := by
  refine transaction_congr rfl rfl fun row hrow => ?_
  obtain ⟨y, hy, hsummary⟩ := transactionDetailQuery_eq_ok hrow
  have hchain := isChainTransaction_of_latest hy
  obtain ⟨-, hid, -⟩ := transactionSummaryRow_columns hsummary
  obtain ⟨-, -, hraw⟩ := h.reads network hchain 0
  rw [hid]
  refine ⟨(h.reads network hchain 1).1, (h.reads network hchain 2).2.1, ?_⟩
  exact (h.reads network hchain 3).2.2.trans hraw.symm

end Unextended

end Request

section Origin

variable {P : Db → DbCall → Prop} {k : Text × Text}

/-- A stored witness is that of an accepted block. -/
theorem Calls.witness_accepted (h : Calls lib P start log db) (hempty : NoBlocks start)
    (hk : (db.blockWitnesses.find? k).isSome) :
    ∃ call ∈ log, ∃ b ∈ call.blocks, (b.block.hash, witnessHash lib b) = k := by
  obtain ⟨ps, hps, hevidence⟩ := h.evidence_eq (k := k)
  cases hpasses : passesOver lib k (log.flatMap DbCall.blocks) with
  | nil =>
    rw [hpasses] at hps
    cases hps
    have hstart : start.blockWitnesses.find? k = none :=
      Table.find?_eq_none.mpr fun r hr => by simp [hempty.blockWitnesses] at hr
    have hstate := congrArg Evidence.exactWitnessState hevidence
    simp only [afterPasses, List.foldl_nil, evidence, hstart, Option.map_none,
      Option.map_eq_none_iff] at hstate
    rw [hstate] at hk
    cases hk
  | cons b rest =>
    have hb : b ∈ passesOver lib k (log.flatMap DbCall.blocks) := by
      rw [hpasses]
      exact List.mem_cons_self
    obtain ⟨hmem, hown⟩ := List.mem_filter.mp hb
    obtain ⟨call, hcall, hblock⟩ := List.mem_flatMap.mp hmem
    exact ⟨call, hcall, b, hblock, of_decide_eq_true hown⟩

/-- A placement is the place of a transaction in a block, and its instance holds the facts of that
transaction. -/
structure BroughtBy (lib : AuxPowCrate) (db : Db) (networkId : Text) (b : IndexedBlock)
    (r : BlockTransactionRow) (x : RpcTransaction) : Prop where
  hash : r.blockHash = b.block.hash
  listed : b.block.tx[r.txPosition]? = some x
  header : ∃ row stored, blockRow networkId b = .ok row ∧
    db.blocks.find? r.blockHash = some stored ∧ stored.compared = row.compared
  facts : ∃ f, transactionFacts lib x = .ok f ∧ readInstance db r.transactionInstanceId = some f

/-- Every placement was brought by an accepted block. -/
theorem Calls.brought (h : Calls lib (extendsNothing lib) start log db) (hempty : NoBlocks start)
    {r : BlockTransactionRow} (hr : r ∈ db.blockTransactions.rows) :
    ∃ call ∈ log, ∃ b ∈ call.blocks, ∃ x, BroughtBy lib db call.networkId b r x := by
  have hsound := h.sound hempty.sound
  obtain ⟨call, hcall, b, hb, hown⟩ := h.witness_accepted hempty (hsound.placements r hr).1
  obtain ⟨hhash, hwitness⟩ := Prod.mk.inj hown
  obtain ⟨ids, hids⟩ := (h.allRecorded hempty.factsSound).recorded call hcall b hb
  obtain ⟨row, stored, hrow, -, hstored, hsame⟩ := hids.header
  -- The stored header counts the transactions of the block, so the position is one of its list.
  obtain ⟨b', hb', hlt⟩ := hsound.facts.placements.counted r hr
  rw [← hhash, hstored] at hb'
  obtain rfl := Option.some.inj hb'
  have hcount : stored.transactionCount = b.block.tx.length := by
    have hcounts : stored.compared.transactionCount = row.compared.transactionCount :=
      congrArg _ hsame
    rw [← blockRow_count hrow]
    exact hcounts
  have hlt : r.txPosition < b.block.tx.length := by omega
  have hlen : r.txPosition < ids.length := by
    rw [hids.reads.length_eq]
    exact hlt
  obtain ⟨f, hf, hread⟩ := (List.forall₂_iff_get.mp hids.reads).2 r.txPosition hlen hlt
  have hfound := hids.found r.txPosition _ (List.getElem?_eq_getElem hlen)
  rw [hhash, hwitness] at hfound
  have hsameRow := (Table.find?_of_mem hr).symm.trans hfound
  have hid : r.transactionInstanceId = ids[r.txPosition] :=
    congrArg BlockTransactionRow.transactionInstanceId (Option.some.inj hsameRow)
  refine ⟨call, hcall, b, hb, _, hhash.symm, List.getElem?_eq_getElem hlt, ?_, f, hf, ?_⟩
  · exact ⟨row, stored, hrow, hhash ▸ hstored, hsame⟩
  · rw [hid]
    exact hread

end Origin

section Page

/-- The summary row of a transaction at a position of a block, from what the node says of both. -/
def RpcTransaction.summaryRow (x : RpcTransaction) (row : TransactionInstanceRow) (b : BlockRow)
    (position : Nat) : TransactionSummaryRow where
  transactionInstanceId := row.transactionInstanceId
  txid := row.txid
  instanceDigest := row.instanceDigest
  authDigest := row.authDigest
  version := row.version
  sizeBytes := row.sizeBytes
  isCoinbase := row.isCoinbase
  feeZat := none
  valueBalanceZat := row.valueBalanceZat
  saplingSpendCount := row.saplingSpendCount
  saplingOutputCount := row.saplingOutputCount
  orchardActionCount := row.orchardActionCount
  ironwoodActionCount := row.ironwoodActionCount
  blockHeight := b.height
  blockHash := b.blockHash
  blockTime := b.blockTime
  txPosition := position
  transparentInputCount := x.vin.length
  transparentOutputCount := x.vout.length
  publicOutputZat := (x.vout.map RpcOutput.valueZat).sum

/-- A page shows one transaction of a block, in every part but the node's own answer. -/
structure Shows (lib : AuxPowCrate) (network : NetworkProfile) (b : IndexedBlock)
    (x : RpcTransaction) (d : TransactionDetail) : Prop where
  listed : b.block.tx[d.summary.position]? = some x
  summary : ∃ row header, transactionInstanceRow lib x 0 = .ok row ∧
    blockRow network.id b = .ok header ∧
    d.summary = TransactionSummary.fromRow network (x.summaryRow row header d.summary.position)
  inputs : d.inputs = x.vin.mapIdx fun i input => input.shown i
  outputs : d.outputs = x.vout.map (RpcOutput.shown network)


/-- A row whose columns, lists and block are those of a transaction is summarized as it is. -/
theorem transactionSummaryRow_eq (network : NetworkProfile) {y : ChainTransaction}
    {r : TransactionSummaryRow} {row : TransactionInstanceRow} {header : BlockRow}
    (h : transactionSummaryRow db y = .ok r) (hcolumns : y.stored.anonymous = row.anonymous)
    (hheader : y.block.compared = header.compared)
    (hhash : y.selector.blockHash = y.block.blockHash)
    (hheight : y.selector.height = y.block.height) (hf : transactionFacts lib t = .ok f)
    (hread : readInstance db y.stored.transactionInstanceId = some f) :
    TransactionSummary.fromRow network r =
      TransactionSummary.fromRow network (t.summaryRow row header y.placement.txPosition) := by
  obtain ⟨hinputs, houtputs⟩ := counts_of_read hread
  obtain ⟨hin, hout⟩ := transactionFacts_lengths hf
  obtain ⟨-, -, -, -, -, hrows⟩ := transactionFacts_ok hf
  have hsum := publicOutputZat_of_read hread
  rw [(outputRows_shown network hrows).2] at hsum
  have hinputs' : ((db.transparentInputs.rows.filter fun i =>
      i.transactionInstanceId = y.stored.transactionInstanceId).length) = t.vin.length :=
    hinputs.trans hin
  simp only [TransactionInstanceRow.anonymous, TransactionInstanceRow.mk.injEq] at hcolumns
  simp only [BlockRow.compared, BlockRow.mk.injEq] at hheader
  -- The summary does not show the identifier the row is stored under.
  have hsame : r = { t.summaryRow row header y.placement.txPosition with
      transactionInstanceId := y.stored.transactionInstanceId } := by
    simp only [transactionSummaryRow, Result.bind_eq_ok, asBigint_eq_ok_iff, Except.ok.injEq] at h
    obtain ⟨_, ⟨-, rfl⟩, rfl⟩ := h
    simp only [RpcTransaction.summaryRow, houtputs, hout, hsum, hinputs', hhash, hheight, hcolumns,
      hheader]
  rw [hsame]
  rfl

/-- The stored answer of an instance is that of an accepted transaction of the instance. -/
theorem Accounted.answered (ha : Accounted lib log db) {stored row : TransactionInstanceRow}
    (hstored : stored ∈ db.transactionInstances.rows)
    (hrow : transactionInstanceRow lib t 0 = .ok row)
    (hsame : stored.anonymous = row.anonymous) :
    ∃ call ∈ log, ∃ b ∈ call.blocks, ∃ t' ∈ b.block.tx, SameInstance lib t' t ∧
      stored.rawRpc = t'.toJson := by
  obtain ⟨call, hcall, b, hb, t', ht', hoffered⟩ := ha.rows stored hstored
  obtain ⟨-, hoffered'⟩ := transactionInstanceRow_under hoffered 0
  refine ⟨call, hcall, b, hb, t', ht', ⟨_, row, hoffered', hrow, ?_⟩,
    transactionInstanceRow_rawRpc hoffered⟩
  exact (anonymous_identity hsame).1

/-- A selected placement has the columns and the facts of the transaction that was placed. -/
theorem BroughtBy.stored {y : ChainTransaction} {b : IndexedBlock} {x : RpcTransaction}
    (hx : BroughtBy lib db networkId b y.placement x) (hy : IsChainTransaction db networkId y) :
    ∃ row, transactionInstanceRow lib x 0 = .ok row ∧ y.stored.anonymous = row.anonymous ∧
      ∃ f, transactionFacts lib x = .ok f ∧
        readInstance db y.stored.transactionInstanceId = some f := by
  obtain ⟨f, hf, hread⟩ := hx.facts
  obtain ⟨row, hrow, -, hcolumns, -⟩ := transactionFacts_ok hf
  have hfacts : (instanceById db y.placement.transactionInstanceId).map (storedFacts db) =
      some f := hread
  rw [hy.stored] at hfacts
  obtain rfl := Option.some.inj hfacts
  exact ⟨row, hrow, hcolumns, _, hf, (instanceById_id hy.stored).symm ▸ hread⟩

namespace Unextended

variable {accepted : ℕ → List DbCall} {seen : ℕ → Db} (h : Unextended lib start accepted seen)
include h

/-- The block of a transaction that is found is the selected one. -/
theorem selected {y : ChainTransaction} (hy : IsChainTransaction (seen 1) networkId y) :
    y.block.height = y.selector.height ∧ y.block.networkId = networkId := by
  obtain ⟨hmem, hnetwork⟩ := mem_canonicalRows.mp hy.selector
  obtain ⟨stored, hstored, hheight, hsame⟩ := h.found.selectedStored
    (fun c hc => by simp [h.empty.canonicalChain] at hc) y.selector hmem
  obtain rfl := Option.some.inj (hstored.symm.trans hy.block)
  exact ⟨hheight, hsame.trans hnetwork⟩

/-- A transaction that is found is one of an accepted block, and its instance holds its facts. -/
theorem origin {y : ChainTransaction} (hy : IsChainTransaction (seen 1) networkId y) :
    ∃ b ∈ acceptedBlocks accepted, ∃ x, BroughtBy lib (seen 1) networkId b y.placement x := by
  obtain ⟨hplaced, hhash, -⟩ := mem_witnessPlacements.mp hy.placement
  obtain ⟨call, hcall, b, hb, x, hx⟩ := h.found.brought h.empty hplaced
  obtain ⟨header, stored, hheader, hstored, hsame⟩ := hx.header
  rw [hhash, hy.block] at hstored
  obtain rfl := Option.some.inj hstored
  have hcalled : call.networkId = networkId := by
    have hcompared : y.block.compared.networkId = header.compared.networkId := congrArg _ hsame
    have hcolumn : y.block.networkId = header.networkId := hcompared
    rw [← (h.selected hy).2, hcolumn, (blockRow_ok hheader).2.1]
  exact ⟨b, List.mem_flatMap.mpr ⟨call, hcall, hb⟩, x, hcalled ▸ hx⟩

/-- A page that is served shows that transaction, at its place in that block. -/
theorem shows {y : ChainTransaction} {r : TransactionSummaryRow} {b : IndexedBlock}
    {x : RpcTransaction} {d : TransactionDetail} (hy : IsChainTransaction (seen 1) network.id y)
    (hx : BroughtBy lib (seen 1) network.id b y.placement x)
    (hr : transactionSummaryRow (seen 1) y = .ok r)
    (hsummary : d.summary = TransactionSummary.fromRow network r)
    (hinputs : d.inputs = inputViews (seen 1) y.stored.transactionInstanceId)
    (houtputs : d.outputs = outputViews network (seen 1) y.stored.transactionInstanceId) :
    Shows lib network b x d := by
  obtain ⟨-, hhash, -⟩ := mem_witnessPlacements.mp hy.placement
  obtain ⟨header, stored, hheader, hstored, hsame⟩ := hx.header
  rw [hhash, hy.block] at hstored
  obtain rfl := Option.some.inj hstored
  obtain ⟨row, hrow, hcolumns, f, hf, hread⟩ := hx.stored hy
  obtain ⟨-, -, -, -, hin, hout⟩ := transactionFacts_ok hf
  have hshown := transactionSummaryRow_eq network hr hcolumns hsame
    (Table.key_of_find? hy.block).symm (h.selected hy).1.symm hf hread
  have hposition : d.summary.position = y.placement.txPosition := by
    rw [hsummary, hshown]
    rfl
  refine ⟨?_, ⟨row, header, hrow, hheader, ?_⟩, ?_, ?_⟩
  · rw [hposition]
    exact hx.listed
  · rw [hposition, hsummary]
    exact hshown
  · rw [hinputs, inputViews_of_read hread, inputRows_shown hin]
    simp only [Nat.zero_add]
  · rw [houtputs, outputViews_of_read hread]
    exact (outputRows_shown network hout).1

end Unextended

/-- However the chain moves while the page of a transaction is read, the answer is the one of the
state in which the transaction is found, and a page that is served shows one transaction of an
accepted block, with all of its inputs and outputs. Its raw part is what the node said of the same
instance. -/
theorem transaction_page_is_one_transaction {accepted : ℕ → List DbCall} {seen : ℕ → Db}
    {txid : Text} {block : Option Text} {now : Timestamp}
    (h : Unextended lib start accepted seen) :
    transaction network txid block seen now =
        transaction network txid block (fun i => seen (min i 1)) now ∧
      ∀ answer, transaction network txid block seen now = .ok answer →
        ∃ b ∈ acceptedBlocks accepted, ∃ x, Shows lib network b x answer.data ∧ x.txid = txid ∧
          (∀ hash ∈ block, b.block.hash = hash) ∧
          ∃ b' ∈ acceptedBlocks accepted, ∃ x' ∈ b'.block.tx, SameInstance lib x' x ∧
            answer.data.rawRpc = x'.toJson := by
  refine ⟨h.transaction_eq txid block now, fun answer hanswer => ?_⟩
  simp only [transaction, Result.bind_eq_ok, orNotFound_eq_ok, Except.ok.injEq] at hanswer
  obtain ⟨-, -, -, -, chain, -, _, hquery, r, rfl, raw, hraw, hanswer⟩ := hanswer
  have hdata : TransactionDetail.mk (TransactionSummary.fromRow network r)
      (inputViews (seen 2) r.transactionInstanceId)
      (outputViews network (seen 3) r.transactionInstanceId) raw = answer.data :=
    congrArg ApiEnvelope.data hanswer
  obtain ⟨y, hlatest, hr⟩ := transactionDetailQuery_eq_ok hquery
  have hy := isChainTransaction_of_latest hlatest
  obtain ⟨-, htxid, hblock⟩ := mem_placementsOf.mp (mem_orderBy.mp (List.mem_of_head? hlatest))
  obtain ⟨-, hid, -⟩ := transactionSummaryRow_columns hr
  obtain ⟨b, hb, x, hx⟩ := h.origin hy
  rw [hid] at hraw
  obtain rfl := Except.ok.inj (((h.reads network hy 3).2.2).symm.trans hraw)
  have hinputs := (congrArg (inputViews (seen 2)) hid).trans (h.reads network hy 1).1
  have houtputs := (congrArg (outputViews network (seen 3)) hid).trans
    (h.reads network hy 2).2.1
  have hshows : Shows lib network b x answer.data := h.shows hy hx hr
    (congrArg TransactionDetail.summary hdata).symm
    ((congrArg TransactionDetail.inputs hdata).symm.trans hinputs)
    ((congrArg TransactionDetail.outputs hdata).symm.trans houtputs)
  obtain ⟨row, hrow, hcolumns, -⟩ := hx.stored hy
  obtain ⟨call, hcall, b', hb', x', hx', hsame, hjson⟩ := (h.found.accounted h.empty).answered
    (List.mem_of_find?_eq_some hy.stored) hrow hcolumns
  refine ⟨b, hb, x, hshows, ?_, fun hash hhash => ?_, b', ?_, x', hx', hsame, ?_⟩
  · have hcolumn : y.stored.anonymous.txid = row.anonymous.txid := congrArg _ hcolumns
    have hsameTxid : y.stored.txid = row.txid := hcolumn
    rw [← htxid, hsameTxid, (transactionInstanceRow_identified hrow).txid]
  · rw [← hx.hash, (mem_witnessPlacements.mp hy.placement).2.1]
    exact hblock hash hhash
  · exact List.mem_flatMap.mpr ⟨call, hcall, hb'⟩
  · rw [← hdata]
    exact hjson

end Page

section Sample

/-- The first two statements see the genesis block, and the later ones also a block that carries its
transaction again. -/
def sampleRemined (i : ℕ) : Db :=
  if i ≤ 1 then stateAfter sampleCrate { now := 0 } (initialDb sampleNetwork) sampleGenesisCommit
  else sampleStore [sampleCoinbase]

def sampleBetween : ℕ → List DbCall
  | 0 => [sampleGenesisCommit]
  | 2 => [sampleNextCommit [sampleCoinbase]]
  | _ => []

theorem unextended_sampleRemined :
    Unextended sampleCrate (initialDb sampleNetwork) sampleBetween sampleRemined where
  empty := ⟨⟨rfl, rfl, rfl, rfl, rfl⟩, rfl, rfl, rfl, rfl⟩
  opening := (Calls.nil _).next (w := { now := 0 }) (by decide +kernel) (by decide +kernel)
  next := by
    intro i
    match i with
    | 0 => exact .nil _
    | 1 => exact (Calls.nil _).next (w := { now := 0 }) (by decide +kernel) (by decide +kernel)
    | _ + 2 => exact .nil _

/-- In the later states another block is the latest to carry the transaction, and the page still
shows the block that was found. -/
theorem transaction_page_is_one_transaction_remined :
    ∃ answer, transaction sampleProfile (sampleHash 'a') none sampleRemined 0 = .ok answer ∧
      answer.data.summary.blockHeight = 0 ∧
      ∃ b ∈ acceptedBlocks sampleBetween, ∃ x,
        Shows sampleCrate sampleProfile b x answer.data := by
  obtain ⟨-, hshows⟩ := @transaction_page_is_one_transaction sampleCrate sampleProfile
    (initialDb sampleNetwork) sampleBetween sampleRemined (sampleHash 'a') none 0
    unextended_sampleRemined
  have hheight : (transaction sampleProfile (sampleHash 'a') none sampleRemined 0).map
      (fun answer => answer.data.summary.blockHeight) = .ok 0 := by decide +kernel
  cases hanswer : transaction sampleProfile (sampleHash 'a') none sampleRemined 0 with
  | error error =>
    rw [hanswer] at hheight
    cases hheight
  | ok answer =>
    rw [hanswer] at hheight
    obtain ⟨b, hb, x, hx, -⟩ := hshows answer hanswer
    exact ⟨answer, rfl, Except.ok.inj hheight, b, hb, x, hx⟩

/-- A block that repeats the transaction with one more input, committed before the inputs are read:
the page counts one input and lists two. -/
example : (transaction sampleProfile (sampleHash 'a') none
    (fun i => if i ≤ 1 then sampleRemined i
      else sampleStore [sampleCoinbase, sampleCoinbase]) 0).map
        (fun answer => (answer.data.summary.transparentInputCount, answer.data.inputs.length)) =
    .ok (1, 2) := by decide +kernel

end Sample

end WcashExplorer
