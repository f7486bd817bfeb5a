import WcashExplorer.Api.AddressLedger

/-! The address page, the rich list and the address statistics compute one ledger. -/
namespace WcashExplorer

open Relational

variable {networkId address : Text} {db : Db} {tip coinbaseMaturity : Nat} {x : ChainTransaction}
  {y : ChainOutput}

section Page

theorem spendCount_pos (hs : SchemaHolds db) (hy : y ∈ ownedOutputs db networkId address) :
    0 < spendCount db networkId address y ↔ isSpent db networkId y = true := by
  rw [spendCount, List.length_pos_iff_exists_mem, isSpent_iff]
  simp only [mem_group, ownedSpends, mem_join, hs.placedInputs_eq, decide_eq_true_eq]
  constructor
  · rintro ⟨s, ⟨-, hinput, hprevout⟩, hkey⟩
    obtain ⟨z, hz, hplaced⟩ := List.mem_map.mp hinput
    refine ⟨z, hz, ?_⟩
    rw [← hkey, ← hprevout, ← hplaced]
  · rintro ⟨z, hz, hprevout⟩
    exact ⟨(y, ⟨z.spender.selector, z.spender.placement, z.input⟩),
      ⟨hy, List.mem_map_of_mem hz, hprevout⟩, rfl⟩

def ChainTransaction.eventKey (x : ChainTransaction) : EventKey :=
  WcashExplorer.eventKey x.selector x.block x.placement

theorem mem_eventKeys (hs : SchemaHolds db) {k : EventKey} :
    k ∈ eventKeys db networkId address ↔
      ∃ x ∈ addressEvents db networkId address, x.eventKey = k := by
  simp only [eventKeys, List.mem_dedup, List.mem_append, List.mem_map, List.mem_filterMap,
    mem_addressEvents]
  constructor
  · rintro (⟨y, hy, rfl⟩ | ⟨⟨y, w⟩, hw, hk⟩)
    · exact ⟨y.maker, .inl ⟨y, hy, rfl⟩, rfl⟩
    · simp only [ownedSpends, mem_join, hs.placedInputs_eq, decide_eq_true_eq] at hw
      obtain ⟨hy, hinput, hprevout⟩ := hw
      obtain ⟨z, hz, rfl⟩ := List.mem_map.mp hinput
      have hx := mem_chainTransactions.mp (mem_chainInputs.mp hz).1
      simp only [hx.block, Option.map_some, Option.some.injEq] at hk
      exact ⟨z.spender, .inr ⟨(y, z), mem_ownedSpenders.mpr ⟨hy, hz, hprevout⟩, rfl⟩, hk⟩
  · rintro ⟨x, ⟨y, hy, rfl⟩ | ⟨⟨y, z⟩, hsz, rfl⟩, rfl⟩
    · exact .inl ⟨y, hy, rfl⟩
    · obtain ⟨hy, hz, hprevout⟩ := mem_ownedSpenders.mp hsz
      have hx := mem_chainTransactions.mp (mem_chainInputs.mp hz).1
      refine .inr ⟨(y, ⟨z.spender.selector, z.spender.placement, z.input⟩), ?_, ?_⟩
      · simp only [ownedSpends, mem_join, hs.placedInputs_eq, decide_eq_true_eq]
        exact ⟨hy, List.mem_map_of_mem hz, hprevout⟩
      · simp only [hx.block, Option.map_some]
        rfl

theorem eventKeys_perm (hs : SchemaHolds db) : (eventKeys db networkId address).Perm
    ((addressEvents db networkId address).map ChainTransaction.eventKey) := by
  refine (List.perm_ext_iff_of_nodup (List.nodup_dedup _) ?_).mpr fun k => ?_
  · refine List.Nodup.of_map (fun k : EventKey => toLex (k.height, k.txPosition)) ?_
    rw [List.map_map]
    exact addressEvents_order_nodup
  · exact (mem_eventKeys hs).trans List.mem_map.symm

theorem ChainTransaction.eventKey_lt {x y : ChainTransaction} (h : x.order < y.order) :
    x.eventKey.order < y.eventKey.order :=
  toLex_lt_followed h

theorem orderBy_eventKeys (hs : SchemaHolds db) :
    orderBy EventKey.order (eventKeys db networkId address) =
      (orderBy ChainTransaction.order (addressEvents db networkId address)).map
        ChainTransaction.eventKey :=
  orderBy_of_perm_map (eventKeys_perm hs) addressEvents_order_nodup
    fun _ _ _ _ h => ChainTransaction.eventKey_lt h

theorem orderBy_eventKeys_desc (hs : SchemaHolds db) :
    orderBy (fun k => OrderDual.toDual k.order) (eventKeys db networkId address) =
      (orderBy (fun x => OrderDual.toDual x.order) (addressEvents db networkId address)).map
        ChainTransaction.eventKey := by
  have hnodup : ((addressEvents db networkId address).map fun x =>
      OrderDual.toDual x.order).Nodup := addressEvents_order_nodup
  exact orderBy_of_perm_map (eventKeys_perm hs) hnodup
    fun _ _ _ _ h => ChainTransaction.eventKey_lt h

/-- The page shows the ledger, and its balance in three parts. -/
structure AddressBalanceRow.Shows (page : AddressBalanceRow) (ledger : AddressLedger) : Prop where
  received : page.totalReceivedZat = numericText ledger.received
  sent : page.totalSpentZat = numericText ledger.sent
  balance : page.balanceZat = ledger.balance
  parts : page.immatureCoinbaseZat + page.matureCoinbaseZat + page.nonCoinbaseUnspentZat =
    ledger.balance
  utxoCount : page.utxoCount = ledger.utxoCount
  transactionCount : page.transactionCount = ledger.transactionCount
  firstSeenHeight : page.firstSeenHeight = ledger.firstSeen.map fun x => x.selector.height
  lastSeenHeight : page.lastSeenHeight = ledger.lastSeen.map fun x => x.selector.height
  lastSeenAt : page.lastSeenAt = ledger.lastSeen.map fun x => x.block.blockTime

theorem addressBalanceQuery_shows (hs : SchemaHolds db) {page : AddressBalanceRow}
    (h : addressBalanceQuery db networkId address tip coinbaseMaturity = .ok page) :
    page.Shows (addressLedger db networkId address) := by
  simp only [addressBalanceQuery, Result.bind_eq_ok, castBigint_eq_ok_iff, asBigint_eq_ok_iff,
    Except.ok.injEq] at h
  obtain ⟨-, -, balance, ⟨-, rfl⟩, immature, ⟨-, rfl⟩, mature, ⟨-, rfl⟩, nonCoinbase, ⟨-, rfl⟩,
    anomalies, ⟨-, rfl⟩, rfl⟩ := h
  have hunspent (y : ChainOutput) (hy : y ∈ ownedOutputs db networkId address) :
      decide (spendCount db networkId address y = 0) = !isSpent db networkId y := by
    have hpos := spendCount_pos hs hy
    cases hspent : isSpent db networkId y <;> simp [hspent] at hpos ⊢ <;> omega
  have hspent (y : ChainOutput) (hy : y ∈ ownedOutputs db networkId address) :
      decide (0 < spendCount db networkId address y) = isSpent db networkId y := by
    have hpos := spendCount_pos hs hy
    cases hspent : isSpent db networkId y <;> simp [hspent] at hpos ⊢ <;> omega
  have hbalance := sumWhere_congr hunspent
  have hcoinbase := sumWhere_split (fun y => y.maker.stored.isCoinbase)
    (fun y => decide (spendCount db networkId address y = 0)) (ownedOutputs db networkId address)
  have hmature := sumWhere_split
    (fun y => decide ((tip : Int) - y.maker.selector.height + 1 < coinbaseMaturity))
    (fun y => decide (spendCount db networkId address y = 0) && y.maker.stored.isCoinbase)
    (ownedOutputs db networkId address)
  simp only [← decide_not, not_lt] at hmature
  refine ⟨rfl, ?_, ?_, ?_, ?_, ?_, ?_, ?_, ?_⟩
  · exact congrArg numericText (sumWhere_congr hspent)
  · exact hbalance
  · dsimp only [addressLedger] at hbalance ⊢
    omega
  · simp only [addressLedger, List.filter_congr hunspent]
  · rw [(eventKeys_perm hs).length_eq, List.length_map]
    rfl
  · simp only [orderBy_eventKeys hs, List.head?_map, Option.map_map]
    rfl
  · simp only [orderBy_eventKeys_desc hs, List.head?_map, Option.map_map]
    rfl
  · simp only [orderBy_eventKeys_desc hs, List.head?_map, Option.map_map]
    rfl

end Page

section RichList

/-- An output to an address, as the rich list joins it. -/
def ChainOutput.addressed (y : ChainOutput) (address : Text) : AddressedOutput :=
  ⟨address, y.maker.stored, y.output⟩

/-- The instances of the canonical transactions. -/
abbrev chainInstances (db : Db) (networkId : Text) : List TransactionInstanceRow :=
  (chainTransactions db networkId).map ChainTransaction.stored

theorem addressedOutputs_eq : addressedOutputs db (chainInstances db networkId) =
    (chainOutputs db networkId).filterMap fun y => y.output.address.map y.addressed := by
  simp only [addressedOutputs, chainOutputs, List.flatMap_map, List.filterMap_flatMap,
    List.filterMap_map]
  rfl

theorem group_addressedOutputs :
    group AddressedOutput.address address (addressedOutputs db (chainInstances db networkId)) =
      (ownedOutputs db networkId address).map fun y => y.addressed address := by
  rw [addressedOutputs_eq, ownedOutputs, group]
  induction chainOutputs db networkId with
  | nil => rfl
  | cons y rest ih =>
    cases ha : y.output.address with
    | none => simpa [ha] using ih
    | some a =>
      by_cases heq : a = address
      · simpa [ha, heq, ChainOutput.addressed] using ih
      · simpa [ha, heq, ChainOutput.addressed] using ih

theorem any_spentBy : (spentPrevouts db (chainInstances db networkId)).any
    (y.addressed address).spentBy = isSpent db networkId y := by
  refine Bool.eq_iff_iff.mpr ?_
  simp only [isSpent_iff, List.any_eq_true, spentPrevouts, List.mem_dedup, List.mem_filterMap,
    List.flatMap_map, List.mem_flatMap, Option.map_eq_some_iff, AddressedOutput.spentBy,
    Bool.and_eq_true, decide_eq_true_eq]
  constructor
  · rintro ⟨s, ⟨i, ⟨x, hx, hi⟩, txid, htxid, rfl⟩, rfl, hindex⟩
    exact ⟨⟨x, i⟩, mem_chainInputs.mpr ⟨hx, hi⟩, prevout_eq_some.mpr ⟨htxid, hindex⟩⟩
  · rintro ⟨z, hz, hprevout⟩
    obtain ⟨hx, hi⟩ := mem_chainInputs.mp hz
    obtain ⟨htxid, hindex⟩ := prevout_eq_some.mp hprevout
    exact ⟨_, ⟨z.input, ⟨z.spender, hx, hi⟩, _, htxid, rfl⟩, rfl, hindex⟩

theorem sum_addressed (rows : List ChainOutput) :
    ((rows.map fun y => y.addressed address).map AddressedOutput.value).sum =
      (rows.map ChainOutput.value).sum := by
  rw [List.map_map]
  rfl

/-- The unspent outputs to an address. -/
theorem group_unspent : group AddressedOutput.address address
    ((addressedOutputs db (chainInstances db networkId)).filter fun y =>
      !(spentPrevouts db (chainInstances db networkId)).any y.spentBy) =
    ((ownedOutputs db networkId address).filter fun y => !isSpent db networkId y).map fun y =>
      y.addressed address := by
  rw [group, List.filter_comm, ← group, group_addressedOutputs, List.filter_map]
  congr 1
  refine List.filter_congr fun y _ => ?_
  rw [Function.comp_apply, any_spentBy]

theorem mem_utxos {u : Text × List AddressedOutput} :
    u ∈ utxos db (chainInstances db networkId) ↔
      (u.2 = ((ownedOutputs db networkId u.1).filter fun y => !isSpent db networkId y).map fun y =>
        y.addressed u.1) ∧ 0 < (addressLedger db networkId u.1).balance := by
  have hvalue (h : u.2 = ((ownedOutputs db networkId u.1).filter fun y =>
      !isSpent db networkId y).map fun y => y.addressed u.1) :
      groupValue u = (addressLedger db networkId u.1).balance := by
    rw [groupValue, h, sum_addressed]
    rfl
  simp only [utxos, List.mem_filter, mem_groupBy, group_unspent, decide_eq_true_eq]
  constructor
  · rintro ⟨⟨-, hrows⟩, hpos⟩
    exact ⟨hrows, hvalue hrows ▸ hpos⟩
  · rintro ⟨hrows, hpos⟩
    rw [← hvalue hrows] at hpos
    have hne : u.2 ≠ [] := by
      intro hnil
      simp [groupValue, hnil] at hpos
    obtain ⟨r, hr⟩ := List.exists_mem_of_ne_nil _ hne
    rw [hrows, ← group_unspent] at hr
    obtain ⟨hr, haddress⟩ := mem_group.mp hr
    exact ⟨⟨⟨r, List.mem_filter.mp hr, haddress⟩, hrows⟩, hpos⟩

theorem group_spent :
    ((group (fun s : AddressedOutput × (Text × Option Nat) => s.1.address) address
      (join AddressedOutput.spentBy (addressedOutputs db (chainInstances db networkId))
        (spentPrevouts db (chainInstances db networkId)))).map fun s => s.1.value).sum =
      (addressLedger db networkId address).sent := by
  rw [group_join, group_addressedOutputs]
  refine (sum_join AddressedOutput.value fun r _ => ?_).trans ?_
  · refine length_filter_le_one (s := (r.tx.txid, some r.output.outputIndex)) (List.nodup_dedup _)
      fun t ht => ?_
    simp only [AddressedOutput.spentBy, Bool.and_eq_true, decide_eq_true_eq] at ht
    exact Prod.ext ht.1 ht.2
  · rw [List.filter_map, sum_addressed]
    simp only [Function.comp_def, any_spentBy]
    rfl

theorem mem_previousAddresses {i : TransparentInputRow} :
    address ∈ previousAddresses db (chainTransactions db networkId) i ↔
      ∃ y ∈ ownedOutputs db networkId address, i.prevout = some y.outpoint := by
  simp only [previousAddresses, List.mem_flatMap, List.mem_filter, List.mem_filterMap,
    decide_eq_true_eq]
  constructor
  · rintro ⟨x, ⟨hx, htxid⟩, o, ⟨ho, hindex⟩, haddress⟩
    exact ⟨⟨x, o⟩, mem_ownedOutputs.mpr ⟨mem_chainOutputs.mpr ⟨hx, ho⟩, haddress⟩,
      prevout_eq_some.mpr ⟨htxid, hindex⟩⟩
  · rintro ⟨y, hy, hprevout⟩
    obtain ⟨hchain, haddress⟩ := mem_ownedOutputs.mp hy
    obtain ⟨hx, ho⟩ := mem_chainOutputs.mp hchain
    obtain ⟨htxid, hindex⟩ := prevout_eq_some.mp hprevout
    exact ⟨y.maker, ⟨hx, htxid⟩, y.output, ⟨ho, hindex⟩, haddress⟩

theorem mem_activityEvents {e : ActivityEvent} :
    e ∈ activityEvents db (chainTransactions db networkId) ↔
      ∃ x ∈ addressEvents db networkId e.address, x.activityEvent e.address = e := by
  simp only [activityEvents, List.mem_dedup, List.mem_append, List.mem_flatMap, List.mem_filterMap,
    List.mem_map, Option.map_eq_some_iff, mem_addressEvents]
  constructor
  · rintro (⟨x, hx, o, ho, a, haddress, rfl⟩ | ⟨x, hx, i, hi, a, ha, rfl⟩)
    · exact ⟨x, .inl ⟨⟨x, o⟩, mem_ownedOutputs.mpr ⟨mem_chainOutputs.mpr ⟨hx, ho⟩, haddress⟩, rfl⟩,
        rfl⟩
    · obtain ⟨y, hy, hprevout⟩ := mem_previousAddresses.mp ha
      exact ⟨x, .inr ⟨(y, ⟨x, i⟩),
        mem_ownedSpenders.mpr ⟨hy, mem_chainInputs.mpr ⟨hx, hi⟩, hprevout⟩, rfl⟩, rfl⟩
  · rintro ⟨x, ⟨y, hy, rfl⟩ | ⟨s, hs, rfl⟩, he⟩
    · obtain ⟨hchain, haddress⟩ := mem_ownedOutputs.mp hy
      obtain ⟨hx, ho⟩ := mem_chainOutputs.mp hchain
      exact .inl ⟨y.maker, hx, y.output, ho, e.address, haddress, he⟩
    · obtain ⟨hy, hz, hprevout⟩ := mem_ownedSpenders.mp hs
      obtain ⟨hx, hi⟩ := mem_chainInputs.mp hz
      exact .inr ⟨s.2.spender, hx, s.2.input, hi, e.address,
        mem_previousAddresses.mpr ⟨s.1, hy, hprevout⟩, he⟩

/-- The events of an address in the rich list are its ledger's. -/
theorem group_activityEvents :
    (group ActivityEvent.address address (activityEvents db (chainTransactions db networkId))).Perm
      ((addressEvents db networkId address).map fun x => x.activityEvent address) := by
  have hevents : (activityEvents db (chainTransactions db networkId)).Nodup := List.nodup_dedup _
  refine (List.perm_ext_iff_of_nodup (hevents.filter _) ?_).mpr fun e => ?_
  · refine List.Nodup.of_map (fun e : ActivityEvent => toLex (e.height, e.txPosition)) ?_
    rw [List.map_map]
    exact addressEvents_order_nodup
  · rw [← group, mem_group, mem_activityEvents, List.mem_map]
    constructor
    · rintro ⟨h, rfl⟩
      exact h
    · rintro ⟨x, hx, rfl⟩
      exact ⟨⟨x, hx, rfl⟩, rfl⟩

theorem ChainTransaction.activityEvent_lt {x y : ChainTransaction} (h : x.order < y.order) :
    (x.activityEvent address).order < (y.activityEvent address).order :=
  toLex_lt_followed h

theorem ActivityEvent.height_mono (e e' : ActivityEvent) (h : e.order ≤ e'.order) :
    e.height ≤ e'.height := by
  rcases Prod.Lex.toLex_le_toLex.mp h with h | ⟨h, -⟩
  · exact h.le
  · exact h.le

/-- The row the rich list has for a ledger. -/
def AddressLedger.richBalance (ledger : AddressLedger) (address : Text) : RichBalance where
  address
  balanceZat := ledger.balance
  utxoCount := ledger.utxoCount
  totalReceivedZat := ledger.received
  totalSentZat := ledger.sent
  transactionCount := ledger.transactionCount
  firstSeenHeight := ledger.firstSeen.map fun x => x.selector.height
  lastSeenHeight := ledger.lastSeen.map fun x => x.selector.height
  lastSeenAt := ledger.lastSeen.map fun x => x.block.blockTime

theorem orderBy_activityEvents : orderBy ActivityEvent.order
    (group ActivityEvent.address address (activityEvents db (chainTransactions db networkId))) =
      (orderBy ChainTransaction.order (addressEvents db networkId address)).map fun x =>
        x.activityEvent address :=
  orderBy_of_perm_map group_activityEvents addressEvents_order_nodup
    fun _ _ _ _ h => ChainTransaction.activityEvent_lt h

theorem orderBy_activityEvents_desc : orderBy (fun e => OrderDual.toDual e.order)
    (group ActivityEvent.address address (activityEvents db (chainTransactions db networkId))) =
      (orderBy (fun x => OrderDual.toDual x.order) (addressEvents db networkId address)).map
        fun x => x.activityEvent address := by
  have hnodup : ((addressEvents db networkId address).map fun x =>
      OrderDual.toDual x.order).Nodup := addressEvents_order_nodup
  exact orderBy_of_perm_map group_activityEvents hnodup
    fun _ _ _ _ h => ChainTransaction.activityEvent_lt h

theorem find?_received (h : 0 < (addressLedger db networkId address).balance) :
    ∃ r, (groupBy AddressedOutput.address
        (addressedOutputs db (chainInstances db networkId))).find? (fun r => r.1 = address) = some r ∧
      groupValue r = (addressLedger db networkId address).received := by
  rcases lookup_groupBy AddressedOutput.address (addressedOutputs db (chainInstances db networkId))
    address with hlookup | ⟨-, hnil⟩
  · obtain ⟨r, hfind, hrows⟩ := Option.map_eq_some_iff.mp hlookup
    refine ⟨r, hfind, ?_⟩
    rw [groupValue, hrows, group_addressedOutputs, sum_addressed]
    rfl
  · rw [group_addressedOutputs, List.map_eq_nil_iff] at hnil
    simp [addressLedger, sumWhere, hnil] at h

/-- The rich list's rows are ledgers. -/
theorem richBalances_eq : richBalances db (chainTransactions db networkId)
    (utxos db (chainInstances db networkId)) =
      (utxos db (chainInstances db networkId)).map fun u =>
        (addressLedger db networkId u.1).richBalance u.1 := by
  rw [← List.filterMap_eq_map]
  refine List.filterMap_congr fun u hu => ?_
  obtain ⟨hrows, hpos⟩ := mem_utxos.mp hu
  obtain ⟨r, hfind, hreceived⟩ := find?_received hpos
  simp only [hfind, Option.map_some, Function.comp_apply, Option.some.injEq,
    AddressLedger.richBalance, RichBalance.mk.injEq, true_and]
  refine ⟨?_, ?_, hreceived, ?_, ?_, ?_, ?_, ?_⟩
  · rw [groupValue, hrows, sum_addressed]
    rfl
  · rw [hrows, List.length_map]
    rfl
  · refine (getD_groupBy ?_).trans group_spent
    rfl
  · refine (getD_groupBy List.length_nil).trans ?_
    rw [group_activityEvents.length_eq, List.length_map]
    rfl
  · refine (bind_groupBy rfl).trans ?_
    rw [min?_eq_first ActivityEvent.height_mono, orderBy_activityEvents, List.head?_map,
      Option.map_map]
    rfl
  · refine (bind_groupBy rfl).trans ?_
    rw [max?_eq_last ActivityEvent.height_mono, orderBy_activityEvents_desc, List.head?_map,
      Option.map_map]
    rfl
  · refine (bind_groupBy rfl).trans ?_
    rw [orderBy_activityEvents_desc, List.head?_map, Option.map_map]
    rfl

end RichList

section Fits

/-- The sums that the queries cast to `BIGINT` are in its range. -/
structure SumsFit (db : Db) (networkId : Text) (tip : Nat) : Prop where
  balances : ((utxos db (chainInstances db networkId)).map groupValue).sum ≤ i64Max
  anomalies : ∀ address ∈ db.transparentOutputs.rows.filterMap TransparentOutputRow.address,
    ((ownedOutputs db networkId address).map fun y =>
      max ((spendCount db networkId address y : Int) - 1) 0).sum ≤ i64Max
  confirmations : (tip : Int) + 1 ≤ i64Max

theorem inBigint_of_nonneg {z : Int} (h : 0 ≤ z) (h' : z ≤ i64Max) : InBigint z :=
  ⟨by omega, h'⟩

theorem SchemaHolds.value_nonneg (hs : SchemaHolds db) (hy : y ∈ ownedOutputs db networkId address) :
    0 ≤ y.value := by
  obtain ⟨-, ho⟩ := mem_chainOutputs.mp (mem_ownedOutputs.mp hy).1
  have hvalid := hs.outputs y.output (List.mem_filter.mp ho).1
  simp only [TransparentOutputRow.valid, Bool.and_eq_true, decide_eq_true_eq] at hvalid
  exact hvalid.1.1.1

theorem groupValue_pos {txs : List TransactionInstanceRow} {u : Text × List AddressedOutput}
    (hu : u ∈ utxos db txs) : 0 < groupValue u := by
  simpa using (List.mem_filter.mp hu).2

theorem groupValue_le {txs : List TransactionInstanceRow} {u : Text × List AddressedOutput}
    (hu : u ∈ utxos db txs) : groupValue u ≤ ((utxos db txs).map groupValue).sum := by
  refine List.single_le_sum (fun z hz => ?_) _ (List.mem_map_of_mem hu)
  obtain ⟨v, hv, rfl⟩ := List.mem_map.mp hz
  exact (groupValue_pos hv).le

/-- The balance of an address is one of the rich list's, or nothing. -/
theorem balance_le : (addressLedger db networkId address).balance ≤
    ((utxos db (chainInstances db networkId)).map groupValue).sum := by
  by_cases hpos : 0 < (addressLedger db networkId address).balance
  · have hu : (address, ((ownedOutputs db networkId address).filter fun y =>
        !isSpent db networkId y).map fun y => y.addressed address) ∈
        utxos db (chainInstances db networkId) := mem_utxos.mpr ⟨rfl, hpos⟩
    have hle := groupValue_le hu
    rw [groupValue, sum_addressed] at hle
    exact hle
  · have hnonneg := sum_nonneg fun u (hu : u ∈ utxos db (chainInstances db networkId)) =>
      (groupValue_pos hu).le
    omega

theorem sumWhere_inBigint (hs : SchemaHolds db) (hfit : SumsFit db networkId tip)
    {p : ChainOutput → Bool} (hp : ∀ y ∈ ownedOutputs db networkId address, p y = true →
      isSpent db networkId y = false) :
    InBigint (sumWhere p (ownedOutputs db networkId address)) := by
  have hnonneg (y : ChainOutput) (hy : y ∈ ownedOutputs db networkId address) := hs.value_nonneg hy
  have hbalance : (addressLedger db networkId address).balance ≤ i64Max :=
    balance_le.trans hfit.balances
  refine inBigint_of_nonneg ?_ (le_trans ?_ hbalance)
  · exact sum_nonneg fun y hy => hnonneg y (List.mem_filter.mp hy).1
  · have hcongr : sumWhere p (ownedOutputs db networkId address) = sumWhere
        (fun y => p y && !isSpent db networkId y) (ownedOutputs db networkId address) := by
      refine sumWhere_congr fun y hy => ?_
      cases hpy : p y with
      | false => rfl
      | true => rw [hp y hy hpy]; rfl
    rw [hcongr]
    refine sum_filter_le hnonneg fun y h => ?_
    simp only [Bool.and_eq_true] at h
    exact h.2

theorem anomalies_le (hfit : SumsFit db networkId tip) :
    ((ownedOutputs db networkId address).map fun y =>
      max ((spendCount db networkId address y : Int) - 1) 0).sum ≤ i64Max := by
  cases howned : ownedOutputs db networkId address with
  | nil => simp
  | cons y rest =>
    have hy : y ∈ ownedOutputs db networkId address := howned ▸ List.mem_cons_self
    obtain ⟨hchain, haddress⟩ := mem_ownedOutputs.mp hy
    have ho := (List.mem_filter.mp (mem_chainOutputs.mp hchain).2).1
    exact howned ▸ hfit.anomalies address (List.mem_filterMap.mpr ⟨y.output, ho, haddress⟩)

/-- The address page answers. -/
theorem addressBalanceQuery_answers (hs : SchemaHolds db) (hfit : SumsFit db networkId tip)
    (address : Text) (coinbaseMaturity : Nat) :
    ∃ page, addressBalanceQuery db networkId address tip coinbaseMaturity = .ok page := by
  have hunspent (y : ChainOutput) (hy : y ∈ ownedOutputs db networkId address)
      (h : spendCount db networkId address y = 0) : isSpent db networkId y = false := by
    have hpos := spendCount_pos hs hy
    rw [h] at hpos
    simpa using hpos
  have hsum (p : ChainOutput → Bool) (hp : ∀ y, p y = true →
      spendCount db networkId address y = 0) :
      InBigint (sumWhere p (ownedOutputs db networkId address)) :=
    sumWhere_inBigint hs hfit fun y hy h => hunspent y hy (hp y h)
  have hanomalies := inBigint_of_nonneg
    (sum_nonneg fun y (_ : y ∈ ownedOutputs db networkId address) =>
      le_max_right ((spendCount db networkId address y : Int) - 1) 0) (anomalies_le hfit)
  have hconfirmations (y : ChainOutput) (hy : y ∈ ownedOutputs db networkId address) :
      InBigint ((tip : Int) - y.maker.selector.height + 1) := by
    obtain ⟨hx, -⟩ := mem_chainOutputs.mp (mem_ownedOutputs.mp hy).1
    have hc := (mem_canonicalRows.mp (mem_chainTransactions.mp hx).selector).1
    have hheight := (hs.canonical _ hc).2
    have htip := hfit.confirmations
    unfold InBigint i64Max at *
    omega
  simp only [addressBalanceQuery, Result.bind_eq_ok, castBigint_eq_ok_iff, asBigint_eq_ok_iff,
    Except.ok.injEq]
  exact ⟨_, _, ⟨fun y hy => hconfirmations y (List.mem_filter.mp hy).1, rfl⟩,
    _, ⟨hsum _ (by simp), rfl⟩, _, ⟨hsum _ (by simp +contextual), rfl⟩,
    _, ⟨hsum _ (by simp +contextual), rfl⟩, _, ⟨hsum _ (by simp +contextual), rfl⟩,
    _, ⟨hanomalies, rfl⟩, rfl⟩

theorem ranked_perm (collation : LinearOrder Text) (rows : List RichBalance) :
    ((ranked collation rows).map Prod.fst).Perm rows := by
  rw [ranked, List.zipIdx_map_fst]
  exact orderBy_perm _ rows

/-- The entry shows the ledger. -/
structure RichListRow.Shows (entry : RichListRow) (ledger : AddressLedger) : Prop where
  balance : entry.balanceZat = ledger.balance
  received : entry.totalReceivedZat = numericText ledger.received
  sent : entry.totalSentZat = numericText ledger.sent
  utxoCount : entry.utxoCount = ledger.utxoCount
  transactionCount : entry.transactionCount = ledger.transactionCount
  firstSeenHeight : entry.firstSeenHeight = ledger.firstSeen.map fun x => x.selector.height
  lastSeenHeight : entry.lastSeenHeight = ledger.lastSeen.map fun x => x.selector.height
  lastSeenAt : entry.lastSeenAt = ledger.lastSeen.map fun x => x.block.blockTime

/-- The rows are the funded ledgers, with their number and sum in two columns. -/
structure IsRichList (db : Db) (networkId : Text) (rows : List RichListRow) : Prop where
  entries : ∀ entry ∈ rows, entry.Shows (addressLedger db networkId entry.address)
  listed : ∀ address, (∃ entry ∈ rows, entry.address = address) ↔
    0 < (addressLedger db networkId address).balance
  length : rows.length = (utxos db (chainInstances db networkId)).length
  sum : (rows.map RichListRow.balanceZat).sum =
    ((utxos db (chainInstances db networkId)).map groupValue).sum
  columns : ∀ entry ∈ rows, entry.fundedAddressCount = rows.length ∧
    entry.addressedBalanceZat = (rows.map RichListRow.balanceZat).sum

theorem ledger_balance_eq {u : Text × List AddressedOutput}
    (hu : u ∈ utxos db (chainInstances db networkId)) :
    (addressLedger db networkId u.1).balance = groupValue u := by
  rw [groupValue, (mem_utxos.mp hu).1, sum_addressed]
  rfl

section Ranked

variable {collation : LinearOrder Text} {r : RichBalance × Nat}

/-- The ranked balances of the canonical chain. -/
abbrev chainRanked (collation : LinearOrder Text) (db : Db) (networkId : Text) :
    List (RichBalance × Nat) :=
  ranked collation (richBalances db (chainTransactions db networkId)
    (utxos db (chainInstances db networkId)))

theorem map_chainRanked_perm (collation : LinearOrder Text) (db : Db) (networkId : Text) :
    ((chainRanked collation db networkId).map Prod.fst).Perm
    ((utxos db (chainInstances db networkId)).map fun u =>
      (addressLedger db networkId u.1).richBalance u.1) :=
  richBalances_eq ▸ ranked_perm collation _

theorem mem_chainRanked (hr : r ∈ chainRanked collation db networkId) :
    ∃ u ∈ utxos db (chainInstances db networkId),
      (addressLedger db networkId u.1).richBalance u.1 = r.1 :=
  List.mem_map.mp ((map_chainRanked_perm collation db networkId).mem_iff.mp (List.mem_map_of_mem hr))

theorem chainRanked_nonneg (hr : r ∈ chainRanked collation db networkId) :
    0 ≤ r.1.balanceZat := by
  obtain ⟨u, hu, heq⟩ := mem_chainRanked hr
  rw [← heq]
  exact (mem_utxos.mp hu).2.le

theorem length_chainRanked : (chainRanked collation db networkId).length =
    (utxos db (chainInstances db networkId)).length := by
  have hlength := (map_chainRanked_perm collation db networkId).length_eq
  rwa [List.length_map, List.length_map] at hlength

theorem sum_chainRanked : ((chainRanked collation db networkId).map fun r =>
    r.1.balanceZat).sum = ((utxos db (chainInstances db networkId)).map groupValue).sum := by
  have hsum := ((map_chainRanked_perm collation db networkId).map RichBalance.balanceZat).sum_eq
  rw [List.map_map, List.map_map] at hsum
  refine hsum.trans (congrArg List.sum (List.map_congr_left fun u hu => ?_))
  exact ledger_balance_eq hu

/-- The window sums answer where the largest of them fits. -/
theorem windowTotals_answers {rows : List (RichBalance × Nat)}
    (hnonneg : ∀ r ∈ rows, 0 ≤ r.1.balanceZat)
    (hfit : (rows.map fun r => r.1.balanceZat).sum ≤ i64Max) :
    ∃ totals, windowTotals rows = .ok totals ∧ totals.fundedAddressCount = rows.length ∧
      totals.addressedBalanceZat = (rows.map fun r => r.1.balanceZat).sum := by
  have hpart (p : RichBalance × Nat → Bool) :
      InBigint ((rows.filter p).map fun r => r.1.balanceZat).sum := by
    have hle := sum_filter_le (p := p) (q := fun _ => true) hnonneg fun _ _ => rfl
    rw [List.filter_true] at hle
    exact inBigint_of_nonneg (sum_nonneg fun r hr => hnonneg r (List.mem_filter.mp hr).1)
      (hle.trans hfit)
  have hall := hpart fun _ => true
  rw [List.filter_true] at hall
  simp only [windowTotals, Result.bind_eq_ok, asBigint_eq_ok_iff, Except.ok.injEq]
  exact ⟨_, ⟨_, ⟨hall, rfl⟩, _, ⟨hpart _, rfl⟩, _, ⟨hpart _, rfl⟩, _, ⟨hpart _, rfl⟩, rfl⟩, rfl, rfl⟩

/-- The rich list answers. -/
theorem richListRows_answers (collation : LinearOrder Text) (hfit : SumsFit db networkId tip) :
    ∃ rows, richListRows collation db networkId = .ok rows ∧ IsRichList db networkId rows := by
  have hsum : ((chainRanked collation db networkId).map fun r => r.1.balanceZat).sum =
      ((utxos db (chainInstances db networkId)).map groupValue).sum := sum_chainRanked
  obtain ⟨totals, htotals, hcount, htotal⟩ := windowTotals_answers
    (fun r (hr : r ∈ chainRanked collation db networkId) => chainRanked_nonneg hr)
    (hsum.trans_le hfit.balances)
  have hgroups (u : Text × List AddressedOutput) (hu : u ∈ utxos db (chainInstances db networkId)) :
      InBigint (groupValue u) :=
    inBigint_of_nonneg (groupValue_pos hu).le ((groupValue_le hu).trans hfit.balances)
  have hlength : ((chainRanked collation db networkId).map (richListRow totals)).length =
      (utxos db (chainInstances db networkId)).length := by
    rw [List.length_map, length_chainRanked]
  have hbalances : (((chainRanked collation db networkId).map (richListRow totals)).map
      RichListRow.balanceZat).sum = ((utxos db (chainInstances db networkId)).map groupValue).sum := by
    rw [List.map_map]
    exact hsum
  refine ⟨(chainRanked collation db networkId).map (richListRow totals), ?_, ?_, ?_, hlength,
    hbalances, ?_⟩
  · simp only [richListRows, Result.bind_eq_ok, castBigint_eq_ok_iff, Except.ok.injEq]
    exact ⟨utxos db (chainInstances db networkId), ⟨hgroups, rfl⟩, totals, htotals, rfl⟩
  · intro entry hentry
    obtain ⟨r, hr, rfl⟩ := List.mem_map.mp hentry
    obtain ⟨u, -, heq⟩ := mem_chainRanked hr
    simp only [richListRow, ← heq]
    exact ⟨rfl, rfl, rfl, rfl, rfl, rfl, rfl, rfl⟩
  · intro address
    constructor
    · rintro ⟨entry, hentry, rfl⟩
      obtain ⟨r, hr, rfl⟩ := List.mem_map.mp hentry
      obtain ⟨u, hu, heq⟩ := mem_chainRanked hr
      simp only [richListRow, ← heq]
      exact (mem_utxos.mp hu).2
    · intro hpos
      have hu : (address, ((ownedOutputs db networkId address).filter fun y =>
          !isSpent db networkId y).map fun y => y.addressed address) ∈
          utxos db (chainInstances db networkId) := mem_utxos.mpr ⟨rfl, hpos⟩
      have hmem := (map_chainRanked_perm collation db networkId).mem_iff.mpr
        (List.mem_map_of_mem hu)
      obtain ⟨r, hr, heq⟩ := List.mem_map.mp hmem
      refine ⟨_, List.mem_map_of_mem hr, ?_⟩
      simp only [richListRow, heq]
      rfl
  · intro entry hentry
    obtain ⟨r, -, rfl⟩ := List.mem_map.mp hentry
    exact ⟨hcount.trans (List.length_map _).symm, htotal.trans (hsum.trans hbalances.symm)⟩

end Ranked

/-- The statistics answer, with the number and sum of the rich list's rows. -/
theorem currentAddressStatsQuery_answers (hs : SchemaHolds db) (hfit : SumsFit db networkId tip) :
    ∃ stats, currentAddressStatsQuery db networkId = .ok stats ∧
      stats.fundedAddressCount = (utxos db (chainInstances db networkId)).length ∧
      stats.addressedBalanceZat =
        ((utxos db (chainInstances db networkId)).map groupValue).sum := by
  have hgroups (u : Text × List AddressedOutput) (hu : u ∈ utxos db (chainInstances db networkId)) :
      InBigint (groupValue u) :=
    inBigint_of_nonneg (groupValue_pos hu).le ((groupValue_le hu).trans hfit.balances)
  have hsum := inBigint_of_nonneg (sum_nonneg fun u
    (hu : u ∈ utxos db (chainInstances db networkId)) => (groupValue_pos hu).le) hfit.balances
  simp only [currentAddressStatsQuery, hs.placedInstances_eq, Result.bind_eq_ok,
    castBigint_eq_ok_iff, asBigint_eq_ok_iff, Except.ok.injEq]
  exact ⟨_, ⟨_, ⟨hgroups, rfl⟩, _, ⟨hsum, rfl⟩, rfl⟩, rfl, rfl⟩

end Fits

section Agreement

variable {rows : List RichListRow}

/-- The entry of an address shows what its page shows. -/
structure RichListRow.Agrees (entry : RichListRow) (page : AddressBalanceRow) : Prop where
  balance : entry.balanceZat = page.balanceZat
  received : entry.totalReceivedZat = page.totalReceivedZat
  sent : entry.totalSentZat = page.totalSpentZat
  utxoCount : entry.utxoCount = page.utxoCount
  transactionCount : entry.transactionCount = page.transactionCount
  firstSeenHeight : entry.firstSeenHeight = page.firstSeenHeight
  lastSeenHeight : entry.lastSeenHeight = page.lastSeenHeight
  lastSeenAt : entry.lastSeenAt = page.lastSeenAt

/-- What was received and not sent is unspent, and consists of the three parts. -/
def AddressBalanceRow.Balanced (page : AddressBalanceRow) : Prop :=
  ∃ received sent : Int, page.totalReceivedZat = numericText received ∧
    page.totalSpentZat = numericText sent ∧ received - sent = page.balanceZat ∧
    page.balanceZat = page.immatureCoinbaseZat + page.matureCoinbaseZat + page.nonCoinbaseUnspentZat

/-- The number and the sum of the balances are the totals of the list and of the statistics. -/
structure TotalsAgree (rows : List RichListRow) (stats : CurrentAddressStatsRow) : Prop where
  listCount : (richListTotals rows).fundedAddressCount = rows.length
  statsCount : stats.fundedAddressCount = rows.length
  listSum : (richListTotals rows).addressedBalanceZat = (rows.map RichListRow.balanceZat).sum
  statsSum : stats.addressedBalanceZat = (rows.map RichListRow.balanceZat).sum

theorem RichListRow.Shows.agrees {entry : RichListRow} {page : AddressBalanceRow}
    {ledger : AddressLedger} (h : entry.Shows ledger) (h' : page.Shows ledger) :
    entry.Agrees page where
  balance := h.balance.trans h'.balance.symm
  received := h.received.trans h'.received.symm
  sent := h.sent.trans h'.sent.symm
  utxoCount := h.utxoCount.trans h'.utxoCount.symm
  transactionCount := h.transactionCount.trans h'.transactionCount.symm
  firstSeenHeight := h.firstSeenHeight.trans h'.firstSeenHeight.symm
  lastSeenHeight := h.lastSeenHeight.trans h'.lastSeenHeight.symm
  lastSeenAt := h.lastSeenAt.trans h'.lastSeenAt.symm

theorem AddressBalanceRow.Shows.balanced {page : AddressBalanceRow}
    (h : page.Shows (addressLedger db networkId address)) : page.Balanced :=
  ⟨_, _, h.received, h.sent, addressLedger_balance.trans h.balance.symm,
    h.balance.trans h.parts.symm⟩

theorem IsRichList.totals (h : IsRichList db networkId rows) :
    (richListTotals rows).fundedAddressCount = rows.length ∧
      (richListTotals rows).addressedBalanceZat = (rows.map RichListRow.balanceZat).sum := by
  cases rows with
  | nil => exact ⟨rfl, rfl⟩
  | cons entry rest => exact h.columns entry List.mem_cons_self

/-- In every store state that keeps the schema, with sums in range, the three queries agree on
every address, on which of them are funded, and on the totals. -/
theorem addresses_agree (hs : SchemaHolds db) (hfit : SumsFit db networkId tip)
    (coinbaseMaturity : Nat) (collation : LinearOrder Text) :
    ∃ (page : Text → AddressBalanceRow) (rows : List RichListRow) (stats : CurrentAddressStatsRow),
      (∀ address, addressBalanceQuery db networkId address tip coinbaseMaturity =
        .ok (page address)) ∧
      (∀ limit, richListQuery collation db networkId limit = .ok (rows.take limit)) ∧
      currentAddressStatsQuery db networkId = .ok stats ∧
      (∀ entry ∈ rows, entry.Agrees (page entry.address)) ∧
      (∀ address, (∃ entry ∈ rows, entry.address = address) ↔ 0 < (page address).balanceZat) ∧
      TotalsAgree rows stats ∧ ∀ address, (page address).Balanced := by
  choose page hpage using fun address =>
    addressBalanceQuery_answers hs hfit address coinbaseMaturity
  have hshows (address : Text) := addressBalanceQuery_shows hs (hpage address)
  obtain ⟨rows, hrows, hlist⟩ := richListRows_answers collation hfit
  obtain ⟨stats, hstats, hcount, hsum⟩ := currentAddressStatsQuery_answers hs hfit
  refine ⟨page, rows, stats, hpage, fun limit => ?_, hstats, fun entry hentry => ?_,
    fun address => ?_, ?_, fun address => (hshows address).balanced⟩
  · rw [richListQuery, hrows]
    rfl
  · exact (hlist.entries entry hentry).agrees (hshows entry.address)
  · rw [hlist.listed address, (hshows address).balance]
  · exact ⟨hlist.totals.1, hcount.trans hlist.length.symm, hlist.totals.2,
      hsum.trans hlist.sum.symm⟩

/-- Of two funded addresses, one sent part of what it received back to itself. -/
theorem addresses_agree_spending : ∃ (page : Text → AddressBalanceRow) (rows : List RichListRow),
    addressBalanceQuery sampleSpending sampleNetwork ['A'] 1 100 = .ok (page ['A']) ∧
      (page ['A']).balanceZat = 30 ∧ (∃ entry ∈ rows, entry.address = ['A']) ∧
      ∀ entry ∈ rows, entry.Agrees (page entry.address) := by
  have hfit : SumsFit sampleSpending sampleNetwork 1 :=
    ⟨by decide +kernel, by decide +kernel, by decide⟩
  obtain ⟨page, rows, stats, hpage, -, -, hentries, hlisted, -⟩ := addresses_agree
    sampleSpending_schema hfit 100 inferInstance
  have hbalance : (addressBalanceQuery sampleSpending sampleNetwork ['A'] 1 100).map
      AddressBalanceRow.balanceZat = .ok 30 := by decide +kernel
  rw [hpage, Except.map, Except.ok.injEq] at hbalance
  refine ⟨page, rows, hpage _, hbalance, (hlisted _).mpr ?_, hentries⟩
  rw [hbalance]
  decide

end Agreement

end WcashExplorer
