import WcashExplorer.Api.Canonical
import WcashExplorer.Api.RichList

/-! The ledger of an address over the canonical transactions, which both queries compute. -/
namespace WcashExplorer

open Relational

variable {networkId address : Text} {db : Db} {c : CanonicalRow} {x : ChainTransaction}
  {y : ChainOutput} {z : ChainInput}

/-- What the queries rely on of the schema: stored references, heights and values in range. -/
structure SchemaHolds (db : Db) : Prop where
  witnesses : ∀ w ∈ db.blockWitnesses.rows, (db.blocks.find? w.blockHash).isSome
  canonical : ∀ c ∈ db.canonicalChain.rows,
    (db.blockWitnesses.find? (c.blockHash, c.witnessHash)).isSome ∧ c.height ≤ i64Max
  placements : ∀ r ∈ db.blockTransactions.rows, (instanceById db r.transactionInstanceId).isSome
  outputs : ∀ o ∈ db.transparentOutputs.rows, o.valid

section Ledger

/-- A canonical input spends the output. -/
def isSpent (db : Db) (networkId : Text) (y : ChainOutput) : Bool :=
  (chainInputs db networkId).any fun z => z.input.prevout = some y.outpoint

/-- The transaction pays the address, or spends an output to it. -/
def involves (db : Db) (networkId address : Text) (x : ChainTransaction) : Bool :=
  ((instanceOutputs db x.stored.transactionInstanceId).any fun o => o.address = some address) ||
    (instanceInputs db x.stored.transactionInstanceId).any fun i =>
      (ownedOutputs db networkId address).any fun y => i.prevout = some y.outpoint

/-- The canonical transactions of the address. -/
def addressEvents (db : Db) (networkId address : Text) : List ChainTransaction :=
  (chainTransactions db networkId).filter (involves db networkId address)

structure AddressLedger where
  received : Int
  sent : Int
  balance : Int
  utxoCount : Nat
  transactionCount : Nat
  firstSeen : Option ChainTransaction
  lastSeen : Option ChainTransaction

/-- The ledger of an address. -/
def addressLedger (db : Db) (networkId address : Text) : AddressLedger :=
  let owned := ownedOutputs db networkId address
  let events := addressEvents db networkId address
  { received := (owned.map ChainOutput.value).sum
    sent := sumWhere (fun y => isSpent db networkId y) owned
    balance := sumWhere (fun y => !isSpent db networkId y) owned
    utxoCount := (owned.filter fun y => !isSpent db networkId y).length
    transactionCount := events.length
    firstSeen := (orderBy ChainTransaction.order events).head?
    lastSeen := (orderBy (fun x => OrderDual.toDual x.order) events).head? }

theorem sumWhere_congr {p q : ChainOutput → Bool} {rows : List ChainOutput}
    (h : ∀ y ∈ rows, p y = q y) : sumWhere p rows = sumWhere q rows := by
  rw [sumWhere, sumWhere, List.filter_congr h]

/-- A condition and its negation split a sum. -/
theorem sumWhere_split (p q : ChainOutput → Bool) (rows : List ChainOutput) :
    sumWhere (fun y => q y && p y) rows + sumWhere (fun y => q y && !p y) rows =
      sumWhere q rows := by
  induction rows with
  | nil => rfl
  | cons y rest ih =>
    simp only [sumWhere, List.filter_cons] at ih ⊢
    cases hq : q y <;> cases hp : p y <;> simp <;> omega

/-- What was received and not sent is there. -/
theorem addressLedger_balance : (addressLedger db networkId address).received -
    (addressLedger db networkId address).sent = (addressLedger db networkId address).balance := by
  have hsplit := sumWhere_split (isSpent db networkId) (fun _ => true)
    (ownedOutputs db networkId address)
  have hall : sumWhere (fun _ => true) (ownedOutputs db networkId address) =
      ((ownedOutputs db networkId address).map ChainOutput.value).sum := by
    rw [sumWhere, List.filter_true]
  simp only [Bool.true_and, hall] at hsplit
  simp only [addressLedger]
  omega

end Ledger

section Members

theorem mem_chainOutputs : y ∈ chainOutputs db networkId ↔
    y.maker ∈ chainTransactions db networkId ∧
      y.output ∈ instanceOutputs db y.maker.stored.transactionInstanceId := by
  obtain ⟨x, o⟩ := y
  simp only [chainOutputs, List.mem_flatMap, List.mem_map, ChainOutput.mk.injEq]
  constructor
  · rintro ⟨_, hx, _, ho, rfl, rfl⟩
    exact ⟨hx, ho⟩
  · rintro ⟨hx, ho⟩
    exact ⟨x, hx, o, ho, rfl, rfl⟩

theorem mem_ownedOutputs : y ∈ ownedOutputs db networkId address ↔
    y ∈ chainOutputs db networkId ∧ y.output.address = some address := by
  simp [ownedOutputs]

theorem mem_chainInputs : z ∈ chainInputs db networkId ↔
    z.spender ∈ chainTransactions db networkId ∧
      z.input ∈ instanceInputs db z.spender.stored.transactionInstanceId := by
  obtain ⟨x, i⟩ := z
  simp only [chainInputs, List.mem_flatMap, List.mem_map, ChainInput.mk.injEq]
  constructor
  · rintro ⟨_, hx, _, hi, rfl, rfl⟩
    exact ⟨hx, hi⟩
  · rintro ⟨hx, hi⟩
    exact ⟨x, hx, i, hi, rfl, rfl⟩

theorem mem_ownedSpenders {s : ChainOutput × ChainInput} :
    s ∈ ownedSpenders db networkId address ↔ s.1 ∈ ownedOutputs db networkId address ∧
      s.2 ∈ chainInputs db networkId ∧ s.2.input.prevout = some s.1.outpoint := by
  simp [ownedSpenders, mem_join]

theorem prevout_eq_some {i : TransparentInputRow} {txid : Text} {index : Nat} :
    i.prevout = some (txid, index) ↔
      i.previousTxid = some txid ∧ i.previousOutputIndex = some index := by
  unfold TransparentInputRow.prevout
  cases i.previousTxid <;> cases i.previousOutputIndex <;> simp

theorem isSpent_iff : isSpent db networkId y = true ↔
    ∃ z ∈ chainInputs db networkId, z.input.prevout = some y.outpoint := by
  simp [isSpent]

/-- The events of an address make an output to it, or spend one. -/
theorem mem_addressEvents : x ∈ addressEvents db networkId address ↔
    (∃ y ∈ ownedOutputs db networkId address, y.maker = x) ∨
      ∃ s ∈ ownedSpenders db networkId address, s.2.spender = x := by
  simp only [addressEvents, involves, List.mem_filter, Bool.or_eq_true, List.any_eq_true,
    decide_eq_true_eq]
  constructor
  · rintro ⟨hx, ⟨o, ho, haddress⟩ | ⟨i, hi, y, hy, hprevout⟩⟩
    · exact .inl ⟨⟨x, o⟩, mem_ownedOutputs.mpr ⟨mem_chainOutputs.mpr ⟨hx, ho⟩, haddress⟩, rfl⟩
    · exact .inr ⟨(y, ⟨x, i⟩),
        mem_ownedSpenders.mpr ⟨hy, mem_chainInputs.mpr ⟨hx, hi⟩, hprevout⟩, rfl⟩
  · rintro (⟨y, hy, rfl⟩ | ⟨s, hs, rfl⟩)
    · obtain ⟨hchain, haddress⟩ := mem_ownedOutputs.mp hy
      obtain ⟨hx, ho⟩ := mem_chainOutputs.mp hchain
      exact ⟨hx, .inl ⟨y.output, ho, haddress⟩⟩
    · obtain ⟨hy, hz, hprevout⟩ := mem_ownedSpenders.mp hs
      obtain ⟨hx, hi⟩ := mem_chainInputs.mp hz
      exact ⟨hx, .inr ⟨s.2.input, hi, s.1, hy, hprevout⟩⟩

theorem addressEvents_order_nodup :
    ((addressEvents db networkId address).map ChainTransaction.order).Nodup :=
  (List.filter_sublist.map _).nodup chainTransactions_order_nodup

end Members

section Joins

/-- A selected row has its block. -/
theorem SchemaHolds.block (hs : SchemaHolds db) (hc : c ∈ db.canonicalChain.rows) :
    ∃ b, db.blocks.find? c.blockHash = some b := by
  obtain ⟨w, hw⟩ := Option.isSome_iff_exists.mp (hs.canonical c hc).1
  obtain ⟨hmem, hkey⟩ := Table.find?_eq_some.mp hw
  obtain ⟨b, hb⟩ := Option.isSome_iff_exists.mp (hs.witnesses w hmem)
  have hhash : w.blockHash = c.blockHash := congrArg Prod.fst hkey
  exact ⟨b, hhash ▸ hb⟩

theorem instanceById_id {id : Nat} {t : TransactionInstanceRow} (h : instanceById db id = some t) :
    t.transactionInstanceId = id := by
  simpa using List.find?_some h

/-- The joins with blocks and instances lose no placement. -/
theorem SchemaHolds.map_placement (hs : SchemaHolds db) (hc : c ∈ db.canonicalChain.rows) :
    (selectedTransactions db c).map ChainTransaction.placement = witnessPlacements db c := by
  obtain ⟨b, hb⟩ := hs.block hc
  have hrows (r : BlockTransactionRow) (hr : r ∈ witnessPlacements db c) :
      ((instanceById db r.transactionInstanceId).map fun t => (⟨c, b, r, t⟩ : ChainTransaction)).map
        ChainTransaction.placement = some r := by
    obtain ⟨t, ht⟩ := Option.isSome_iff_exists.mp
      (hs.placements r (mem_witnessPlacements.mp hr).1)
    rw [ht]
    rfl
  simp only [selectedTransactions, hb, List.map_filterMap]
  rw [List.filterMap_congr hrows, List.filterMap_some]

theorem SchemaHolds.placedInputs_eq (hs : SchemaHolds db) : placedInputs db networkId =
    (chainInputs db networkId).map fun z => ⟨z.spender.selector, z.spender.placement, z.input⟩ := by
  simp only [placedInputs, chainInputs, chainTransactions, List.map_flatMap, List.flatMap_assoc]
  refine List.flatMap_congr fun c hc => ?_
  rw [← hs.map_placement (mem_canonicalRows.mp hc).1, List.flatMap_map]
  refine List.flatMap_congr fun x hx => ?_
  obtain ⟨rfl, -, -, hstored⟩ := mem_selectedTransactions.mp hx
  simp only [List.map_map, instanceById_id hstored]
  rfl

theorem SchemaHolds.placedInstances_eq (hs : SchemaHolds db) : placedInstances db networkId =
    (chainTransactions db networkId).map ChainTransaction.stored := by
  simp only [placedInstances, chainTransactions, List.map_flatMap]
  refine List.flatMap_congr fun c hc => ?_
  obtain ⟨b, hb⟩ := hs.block (mem_canonicalRows.mp hc).1
  simp only [selectedTransactions, hb, List.map_filterMap]
  refine List.filterMap_congr fun r _ => ?_
  cases instanceById db r.transactionInstanceId <;> rfl

end Joins

section Sample

def ledgerBlock (height : Nat) (digit : Char) : BlockRow :=
  { blockHash := sampleHash digit, networkId := sampleNetwork, height, previousBlockHash := none,
    merkleRoot := sampleHash '0', blockCommitments := none, blockTime := height, sizeBytes := 150,
    transactionCount := 1, bits := ['1', 'e', '0', '0', '8', '8', '5', '9'],
    difficultyText := ['1'], nonce := sampleHash '0', chainSupplyZat := none, firstSeenAt := 0,
    rawRpc := .null }

def ledgerWitness (digit : Char) : BlockWitnessRow :=
  { blockHash := sampleHash digit, witnessHash := sampleHash digit, rawBlock := [0],
    auxpowBytes := none, exactWitnessState := .bestChain, witnessConfirmations := none,
    localValidationState := .auxpowVerified, verifierVersion := none, indexedAt := 0 }

def ledgerInstance (id : Nat) (digit : Char) (isCoinbase : Bool) : TransactionInstanceRow :=
  { transactionInstanceId := id, txid := sampleHash digit, instanceDigest := sampleHash digit,
    authDigest := none, rawHash := sampleHash digit, rawTransaction := none, version := 1,
    sizeBytes := 100, lockTime := 0, expiryHeight := 0, isCoinbase, valueBalanceZat := none,
    saplingSpendCount := 0, saplingOutputCount := 0, orchardActionCount := 0,
    ironwoodActionCount := 0, rawRpc := .null }

def ledgerOutput (id index : Nat) (value : Int) (address : Char) : TransparentOutputRow :=
  { transactionInstanceId := id, outputIndex := index, valueZat := value, address := some [address],
    scriptType := none, scriptHex := none }

def ledgerSpend (id index : Nat) (digit : Char) (output : Nat) : TransparentInputRow :=
  { transactionInstanceId := id, inputIndex := index, previousTxid := some (sampleHash digit),
    previousOutputIndex := some output, coinbaseData := none, sequence := none }

/-- Two blocks, each with its coinbase transaction, the second with one more transaction. -/
def sampleLedger (outputs : List TransparentOutputRow) (inputs : List TransparentInputRow) : Db where
  blocks := [ledgerBlock 0 '0', ledgerBlock 1 '1'].foldl .insertNew .empty
  blockWitnesses := [ledgerWitness '0', ledgerWitness '1'].foldl .insertNew .empty
  canonicalChain := [⟨sampleNetwork, 0, sampleHash '0', sampleHash '0'⟩,
    ⟨sampleNetwork, 1, sampleHash '1', sampleHash '1'⟩].foldl .insertNew .empty
  transactionInstances := [ledgerInstance 1 'a' true, ledgerInstance 2 'b' true,
    ledgerInstance 3 'c' false].foldl .insertNew .empty
  blockTransactions := [⟨sampleHash '0', sampleHash '0', 0, 1⟩,
    ⟨sampleHash '1', sampleHash '1', 0, 2⟩,
    ⟨sampleHash '1', sampleHash '1', 1, 3⟩].foldl .insertNew .empty
  transparentOutputs := outputs.foldl .insertNew .empty
  transparentInputs := inputs.foldl .insertNew .empty

/-- The third transaction sends what the first pays, in part back to itself. -/
def sampleSpending : Db := sampleLedger
  [ledgerOutput 1 0 50 'A', ledgerOutput 2 0 50 'B', ledgerOutput 3 0 30 'A',
    ledgerOutput 3 1 20 'B'] [ledgerSpend 3 0 'a' 0]

theorem sampleSpending_schema : SchemaHolds sampleSpending where
  witnesses := by decide +kernel
  canonical := by decide +kernel
  placements := by decide +kernel
  outputs := by decide +kernel

end Sample

end WcashExplorer
