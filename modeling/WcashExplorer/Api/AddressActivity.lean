import WcashExplorer.Api.AddressAgreement

/-! The activity of an address: its running balance is what the address held at each transaction. -/
namespace WcashExplorer

open Relational

variable {networkId address : Text} {db : Db} {x x' : ChainTransaction} {y : ChainOutput}
  {t : Lex (Nat × Nat)}

section History

/-- Transaction ids are distinct, and each output is spent at most once, later than it is made. -/
structure SpentOnceLater (db : Db) (networkId : Text) : Prop where
  txids : ((chainTransactions db networkId).map fun x => x.stored.txid).Nodup
  once : ∀ y ∈ chainOutputs db networkId, ((chainInputs db networkId).filter fun z =>
    z.input.prevout = some y.outpoint).length ≤ 1
  later : ∀ y ∈ chainOutputs db networkId, ∀ z ∈ chainInputs db networkId,
    z.input.prevout = some y.outpoint → y.maker.order < z.spender.order

/-- A canonical input at or before a place spends the output. -/
def wasSpent (db : Db) (networkId : Text) (t : Lex (Nat × Nat)) (y : ChainOutput) : Bool :=
  (chainInputs db networkId).any fun z => z.input.prevout = some y.outpoint && z.spender.order ≤ t

/-- What the address held after a place: the outputs made at or before it, and not spent then. -/
def unspentAt (db : Db) (networkId address : Text) (t : Lex (Nat × Nat)) : Int :=
  sumWhere (fun y => y.maker.order ≤ t && !wasSpent db networkId t y)
    (ownedOutputs db networkId address)

/-- Spent outputs were made before, so what was received and not spent is what was held. -/
theorem unspentAt_eq (h : SpentOnceLater db networkId) :
    sumWhere (fun y => y.maker.order ≤ t) (ownedOutputs db networkId address) -
      sumWhere (fun y => wasSpent db networkId t y) (ownedOutputs db networkId address) =
    unspentAt db networkId address t := by
  have hsplit := sumWhere_split (fun y => wasSpent db networkId t y)
    (fun y => decide (y.maker.order ≤ t)) (ownedOutputs db networkId address)
  have hspent : sumWhere (fun y => wasSpent db networkId t y) (ownedOutputs db networkId address) =
      sumWhere (fun y => decide (y.maker.order ≤ t) && wasSpent db networkId t y)
        (ownedOutputs db networkId address) := by
    refine sumWhere_congr fun y hy => ?_
    cases hwas : wasSpent db networkId t y with
    | false => rw [Bool.and_false]
    | true =>
      obtain ⟨z, hz, hspends⟩ := List.any_eq_true.mp hwas
      simp only [Bool.and_eq_true, decide_eq_true_eq] at hspends
      have hlater := h.later y (mem_ownedOutputs.mp hy).1 z hz hspends.1
      simp [hlater.le.trans hspends.2]
  rw [unspentAt]
  omega

theorem sum_ownedSpenders (h : SpentOnceLater db networkId) :
    (((ownedSpenders db networkId address).filter fun s => s.2.spender.order ≤ t).map
      fun s => s.1.value).sum =
    sumWhere (fun y => wasSpent db networkId t y) (ownedOutputs db networkId address) := by
  rw [ownedSpenders, filter_join fun z : ChainInput => decide (z.spender.order ≤ t)]
  refine sum_join ChainOutput.value fun y hy => ?_
  refine (List.Sublist.length_le ?_).trans (h.once y (mem_ownedOutputs.mp hy).1)
  refine List.monotone_filter_right _ fun z hz => ?_
  exact (Bool.and_eq_true _ _ ▸ hz).1

end History

section Sums

variable (rows : List DeltaRow) (p : ActivityKey → Prop) [DecidablePred p]

/-- Grouping the deltas keeps what a column adds up to. -/
theorem sum_activity_received :
    (((activity rows).filter fun s => p s.key).map DeltaRow.receivedZat).sum =
      ((rows.filter fun s => p s.key).map DeltaRow.receivedZat).sum := by
  have hgroups := sum_groupBy DeltaRow.key rows p DeltaRow.receivedZat
  simpa only [activity, List.filter_map, List.map_map, Function.comp_def] using hgroups

theorem sum_activity_spent :
    (((activity rows).filter fun s => p s.key).map DeltaRow.spentZat).sum =
      ((rows.filter fun s => p s.key).map DeltaRow.spentZat).sum := by
  have hgroups := sum_groupBy DeltaRow.key rows p DeltaRow.spentZat
  simpa only [activity, List.filter_map, List.map_map, Function.comp_def] using hgroups

variable (networkId address db) in
/-- The received column sums up the outputs. -/
theorem sum_deltas_received :
    (((deltas db networkId address).filter fun s => p s.key).map DeltaRow.receivedZat).sum =
      sumWhere (fun y => p y.maker.activityKey) (ownedOutputs db networkId address) := by
  have hreceipts := sum_groupBy
    (fun y : ChainOutput => (y.maker.activityKey, y.maker.stored.isCoinbase))
    (ownedOutputs db networkId address) (fun k => p k.1) ChainOutput.value
  rw [deltas, List.filter_append, List.map_append, List.sum_append]
  simp only [receipts, expenses, List.filter_map, List.map_map, Function.comp_def, hreceipts,
    List.map_const', List.sum_replicate, nsmul_zero, add_zero]
  rfl

variable (networkId address db) in
/-- The spent column sums up what the inputs spend. -/
theorem sum_deltas_spent :
    (((deltas db networkId address).filter fun s => p s.key).map DeltaRow.spentZat).sum =
      (((ownedSpenders db networkId address).filter fun s => p s.2.spender.activityKey).map
        fun s => s.1.value).sum := by
  have hexpenses := sum_groupBy
    (fun s : ChainOutput × ChainInput =>
      (s.2.spender.activityKey, s.2.spender.stored.isCoinbase))
    (ownedSpenders db networkId address) (fun k => p k.1) fun s => s.1.value
  rw [deltas, List.filter_append, List.map_append, List.sum_append]
  simp only [receipts, expenses, List.filter_map, List.map_map, Function.comp_def, hexpenses,
    List.map_const', List.sum_replicate, nsmul_zero, zero_add]

end Sums

section Keys

@[simp] theorem ChainTransaction.activityKey_place : x.activityKey.place = x.order := rfl

theorem ChainTransaction.activityKey_lt (h : x.order < x'.order) :
    x.activityKey.order < x'.activityKey.order :=
  toLex_lt_followed h

/-- On canonical transactions the order of the running sum is the order of the chain. -/
theorem activityKey_le (hx : x ∈ chainTransactions db networkId)
    (hx' : x' ∈ chainTransactions db networkId) :
    x.activityKey.order ≤ x'.activityKey.order ↔ x.order ≤ x'.order := by
  rcases lt_trichotomy x.order x'.order with h | h | h
  · exact iff_of_true (ChainTransaction.activityKey_lt h).le h.le
  · have heq := (mem_chainTransactions.mp hx).eq_of_order (mem_chainTransactions.mp hx') h
    rw [heq]
    exact iff_of_true le_rfl le_rfl
  · exact iff_of_false (ChainTransaction.activityKey_lt h).not_ge h.not_ge

theorem mem_keys_deltas {k : ActivityKey} : (∃ d ∈ deltas db networkId address, d.key = k) ↔
    ∃ x ∈ addressEvents db networkId address, x.activityKey = k := by
  simp only [deltas, receipts, expenses, List.mem_append, List.mem_map, mem_addressEvents]
  constructor
  · rintro ⟨d, ⟨g, hg, rfl⟩ | ⟨g, hg, rfl⟩, rfl⟩
    · obtain ⟨⟨y, hy, hkey⟩, -⟩ := mem_groupBy.mp hg
      exact ⟨y.maker, .inl ⟨y, hy, rfl⟩, congrArg Prod.fst hkey⟩
    · obtain ⟨⟨s, hs, hkey⟩, -⟩ := mem_groupBy.mp hg
      exact ⟨s.2.spender, .inr ⟨s, hs, rfl⟩, congrArg Prod.fst hkey⟩
  · rintro ⟨x, ⟨y, hy, rfl⟩ | ⟨s, hs, rfl⟩, rfl⟩
    · exact ⟨_, .inl ⟨_, group_mem_groupBy hy, rfl⟩, rfl⟩
    · exact ⟨_, .inr ⟨_, group_mem_groupBy hs, rfl⟩, rfl⟩

/-- `activity` has one row for each transaction of the address. -/
theorem keys_activity_perm : ((activity (deltas db networkId address)).map DeltaRow.key).Perm
    ((addressEvents db networkId address).map ChainTransaction.activityKey) := by
  have hkeys : (activity (deltas db networkId address)).map DeltaRow.key =
      (groupBy DeltaRow.key (deltas db networkId address)).map Prod.fst := by
    rw [activity, List.map_map]
    rfl
  have hevents : ((addressEvents db networkId address).map ChainTransaction.activityKey).Nodup := by
    refine List.Nodup.of_map (fun k : ActivityKey => toLex (k.height, k.txPosition)) ?_
    rw [List.map_map]
    exact addressEvents_order_nodup
  rw [hkeys]
  refine (List.perm_ext_iff_of_nodup keys_groupBy_nodup hevents).mpr fun k => ?_
  rw [groupBy, List.map_map, List.mem_map, ← mem_keys_deltas.trans List.mem_map.symm]
  simp

end Keys

section Balance

theorem sum_net (rows : List DeltaRow) : (rows.map DeltaRow.netZat).sum =
    (rows.map DeltaRow.receivedZat).sum - (rows.map DeltaRow.spentZat).sum := by
  induction rows with
  | nil => rfl
  | cons r rest ih =>
    simp only [List.map_cons, List.sum_cons, ih, DeltaRow.netZat]
    omega

/-- The running sum at a transaction is what the address held then. -/
theorem balanceAfter_eq (h : SpentOnceLater db networkId)
    (hx : x ∈ chainTransactions db networkId) {r : DeltaRow} (hr : r.key = x.activityKey) :
    balanceAfter (activity (deltas db networkId address)) r =
      unspentAt db networkId address x.order := by
  rw [balanceAfter, sum_net, hr, sum_activity_received _ fun k => k.order ≤ x.activityKey.order,
    sum_activity_spent _ fun k => k.order ≤ x.activityKey.order,
    sum_deltas_received _ _ _ fun k => k.order ≤ x.activityKey.order,
    sum_deltas_spent _ _ _ fun k => k.order ≤ x.activityKey.order, ← unspentAt_eq h,
    ← sum_ownedSpenders h]
  congr 1
  · refine sumWhere_congr fun y hy => ?_
    have hy := (mem_chainOutputs.mp (mem_ownedOutputs.mp hy).1).1
    rw [decide_eq_decide, activityKey_le hy hx]
  · congr 2
    refine List.filter_congr fun s hs => ?_
    have hs := (mem_chainInputs.mp (mem_ownedSpenders.mp hs).2.1).1
    rw [decide_eq_decide, activityKey_le hs hx]

end Balance

section Rows

variable {rows : List AddressActivityRow} {r : AddressActivityRow}

theorem addressActivityRows_eq (h : addressActivityRows db networkId address = .ok rows) :
    orderBy (fun r => OrderDual.toDual r.key.place)
      (running (activity (deltas db networkId address))) = rows := by
  simp only [addressActivityRows, Result.bind_eq_ok, castBigint_eq_ok_iff, Except.ok.injEq] at h
  obtain ⟨_, ⟨-, rfl⟩, _, ⟨-, rfl⟩, _, ⟨-, rfl⟩, _, ⟨-, rfl⟩, _, ⟨-, rfl⟩, _, ⟨-, rfl⟩, h⟩ := h
  exact h

/-- One row for each transaction of the address, newest first. -/
theorem map_key_rows (h : addressActivityRows db networkId address = .ok rows) :
    rows.map AddressActivityRow.key =
      (orderBy (fun x => OrderDual.toDual x.order) (addressEvents db networkId address)).map
        ChainTransaction.activityKey := by
  have hnodup : ((addressEvents db networkId address).map fun x =>
      OrderDual.toDual x.order).Nodup := addressEvents_order_nodup
  have hkeys : (running (activity (deltas db networkId address))).map AddressActivityRow.key =
      (activity (deltas db networkId address)).map DeltaRow.key := by
    rw [running, List.map_map]
    rfl
  rw [← addressActivityRows_eq h, map_orderBy (fun k : ActivityKey => OrderDual.toDual k.place)
    AddressActivityRow.key, hkeys]
  exact orderBy_of_perm_map keys_activity_perm hnodup fun _ _ _ _ hlt => hlt

theorem balanceAfter_running (h : SpentOnceLater db networkId)
    (hr : r ∈ running (activity (deltas db networkId address))) :
    r.balanceAfterZat = unspentAt db networkId address r.key.place := by
  obtain ⟨d, hd, rfl⟩ := List.mem_map.mp hr
  have hkey := keys_activity_perm.mem_iff.mp (List.mem_map_of_mem hd)
  obtain ⟨x, hx, hkey⟩ := List.mem_map.mp hkey
  dsimp only
  rw [balanceAfter_eq h (List.mem_filter.mp hx).1 hkey.symm, ← hkey, ChainTransaction.activityKey_place]

/-- After its last transaction the address holds its balance. -/
theorem unspentAt_last (hlast : ∀ e ∈ addressEvents db networkId address, e.order ≤ t) :
    unspentAt db networkId address t = (addressLedger db networkId address).balance := by
  refine sumWhere_congr fun y hy => ?_
  have hmaker := hlast y.maker (mem_addressEvents.mpr (.inl ⟨y, hy, rfl⟩))
  have hspent : wasSpent db networkId t y = isSpent db networkId y := by
    refine Bool.eq_iff_iff.mpr ?_
    simp only [wasSpent, isSpent_iff, List.any_eq_true, Bool.and_eq_true, decide_eq_true_eq]
    constructor
    · rintro ⟨z, hz, hprevout, -⟩
      exact ⟨z, hz, hprevout⟩
    · rintro ⟨z, hz, hprevout⟩
      refine ⟨z, hz, hprevout, hlast z.spender (mem_addressEvents.mpr (.inr ⟨(y, z), ?_, rfl⟩))⟩
      exact mem_ownedSpenders.mpr ⟨hy, hz, hprevout⟩
  rw [hspent, decide_eq_true hmaker, Bool.true_and]

/-- The newest row shows the balance. -/
theorem newest_balance (h : SpentOnceLater db networkId)
    (hrows : addressActivityRows db networkId address = .ok rows) (hr : rows.head? = some r) :
    r.balanceAfterZat = (addressLedger db networkId address).balance := by
  have hmem : r ∈ running (activity (deltas db networkId address)) := by
    rw [← addressActivityRows_eq hrows] at hr
    exact mem_orderBy.mp (List.mem_of_mem_head? hr)
  have hkey := congrArg List.head? (map_key_rows hrows)
  rw [List.head?_map, List.head?_map, hr, Option.map_some] at hkey
  obtain ⟨x, hx, hkey⟩ := Option.map_eq_some_iff.mp hkey.symm
  obtain ⟨rest, hrest⟩ := List.head?_eq_some_iff.mp hx
  obtain ⟨-, hlast⟩ := first_le hrest
  rw [balanceAfter_running h hmem, ← hkey, ChainTransaction.activityKey_place]
  exact unspentAt_last hlast

end Rows

section Answers

variable {ρ : Type} {rows : List ρ} {column : ρ → Int}

/-- A column of nonnegative values fits where its sum does. -/
theorem castBigint_of_sum (hnonneg : ∀ r ∈ rows, 0 ≤ column r)
    (hsum : (rows.map column).sum ≤ i64Max) : ∀ r ∈ rows, InBigint (column r) := by
  intro r hr
  refine inBigint_of_nonneg (hnonneg r hr) (le_trans ?_ hsum)
  refine List.single_le_sum (fun z hz => ?_) _ (List.mem_map_of_mem hr)
  obtain ⟨s, hs, rfl⟩ := List.mem_map.mp hz
  exact hnonneg s hs

theorem inBigint_sub {a b : Int} (ha : 0 ≤ a) (hb : 0 ≤ b) (ha' : InBigint a)
    (hb' : InBigint b) : InBigint (a - b) := by
  unfold InBigint i64Max at *
  omega

theorem deltas_nonneg (hs : SchemaHolds db) {d : DeltaRow}
    (hd : d ∈ deltas db networkId address) : 0 ≤ d.receivedZat ∧ 0 ≤ d.spentZat := by
  rcases List.mem_append.mp hd with hd | hd
  · obtain ⟨g, hg, rfl⟩ := List.mem_map.mp hd
    obtain ⟨-, hrows⟩ := mem_groupBy.mp hg
    refine ⟨sum_nonneg fun y hy => hs.value_nonneg (mem_group.mp (hrows ▸ hy)).1, le_rfl⟩
  · obtain ⟨g, hg, rfl⟩ := List.mem_map.mp hd
    obtain ⟨-, hrows⟩ := mem_groupBy.mp hg
    refine ⟨le_rfl, sum_nonneg fun s hsp => ?_⟩
    exact hs.value_nonneg (mem_ownedSpenders.mp (mem_group.mp (hrows ▸ hsp)).1).1

theorem activity_nonneg {rows : List DeltaRow}
    (h : ∀ d ∈ rows, 0 ≤ d.receivedZat ∧ 0 ≤ d.spentZat) {d : DeltaRow} (hd : d ∈ activity rows) :
    0 ≤ d.receivedZat ∧ 0 ≤ d.spentZat := by
  obtain ⟨g, hg, rfl⟩ := List.mem_map.mp hd
  obtain ⟨-, hrows⟩ := mem_groupBy.mp hg
  exact ⟨sum_nonneg fun s hs => (h s (mem_group.mp (hrows ▸ hs)).1).1,
    sum_nonneg fun s hs => (h s (mem_group.mp (hrows ▸ hs)).1).2⟩

theorem unspentAt_nonneg (hs : SchemaHolds db) : 0 ≤ unspentAt db networkId address t :=
  sum_nonneg fun _ hy => hs.value_nonneg (List.mem_filter.mp hy).1

theorem unspentAt_inBigint (hs : SchemaHolds db)
    (hfit : ((ownedOutputs db networkId address).map ChainOutput.value).sum ≤ i64Max) :
    InBigint (unspentAt db networkId address t) := by
  have hle := sum_filter_le (p := fun y => y.maker.order ≤ t && !wasSpent db networkId t y)
    (q := fun _ => true)
    (fun y (hy : y ∈ ownedOutputs db networkId address) => hs.value_nonneg hy) fun _ _ => rfl
  rw [List.filter_true] at hle
  exact inBigint_of_nonneg (unspentAt_nonneg hs) (hle.trans hfit)

/-- No more is spent than was received. -/
theorem sum_spenders_le (hs : SchemaHolds db) (h : SpentOnceLater db networkId) :
    ((ownedSpenders db networkId address).map fun s => s.1.value).sum ≤
      ((ownedOutputs db networkId address).map ChainOutput.value).sum := by
  rw [ownedSpenders, sum_join ChainOutput.value fun y hy => h.once y (mem_ownedOutputs.mp hy).1]
  have hle := sum_filter_le (p := fun y => (chainInputs db networkId).any fun z =>
      z.input.prevout = some y.outpoint) (q := fun _ => true)
    (fun y (hy : y ∈ ownedOutputs db networkId address) => hs.value_nonneg hy) fun _ _ => rfl
  rwa [List.filter_true] at hle

/-- The query answers where the outputs to the address fit in one sum. -/
theorem addressActivityRows_answers (hs : SchemaHolds db) (h : SpentOnceLater db networkId)
    (hfit : ((ownedOutputs db networkId address).map ChainOutput.value).sum ≤ i64Max) :
    ∃ rows, addressActivityRows db networkId address = .ok rows := by
  have hdeltas (d : DeltaRow) (hd : d ∈ deltas db networkId address) := deltas_nonneg hs hd
  have hactivity (d : DeltaRow) (hd : d ∈ activity (deltas db networkId address)) :=
    activity_nonneg hdeltas hd
  have hreceived := sum_deltas_received networkId address db fun _ => True
  have hspent := sum_deltas_spent networkId address db fun _ => True
  have hgrouped := sum_activity_received (deltas db networkId address) fun _ => True
  have hgrouped' := sum_activity_spent (deltas db networkId address) fun _ => True
  simp only [decide_true, List.filter_true, sumWhere] at hreceived hspent hgrouped hgrouped'
  have hle : ((ownedSpenders db networkId address).map fun s => s.1.value).sum ≤ i64Max :=
    (sum_spenders_le hs h).trans hfit
  have hfits := castBigint_of_sum (fun d hd => (hactivity d hd).1)
    ((hgrouped.trans hreceived).trans_le hfit)
  have hfits' := castBigint_of_sum (fun d hd => (hactivity d hd).2)
    ((hgrouped'.trans hspent).trans_le hle)
  simp only [addressActivityRows, Result.bind_eq_ok, castBigint_eq_ok_iff, Except.ok.injEq]
  refine ⟨_, _, ⟨castBigint_of_sum (fun d hd => (hdeltas d hd).1) (hreceived.trans_le hfit), rfl⟩,
    _, ⟨castBigint_of_sum (fun d hd => (hdeltas d hd).2) (hspent.trans_le hle), rfl⟩,
    _, ⟨hfits, rfl⟩, _, ⟨hfits', rfl⟩, _, ⟨?_, rfl⟩, _, ⟨?_, rfl⟩, rfl⟩
  · intro r hr
    obtain ⟨d, hd, rfl⟩ := List.mem_map.mp hr
    exact inBigint_sub (hactivity d hd).1 (hactivity d hd).2 (hfits d hd) (hfits' d hd)
  · intro r hr
    rw [balanceAfter_running h hr]
    exact unspentAt_inBigint hs hfit

end Answers

/-- The rows are the transactions of the address, newest first, each with what it held then. -/
structure IsHistory (db : Db) (networkId address : Text) (rows : List AddressActivityRow) :
    Prop where
  transactions : rows.map AddressActivityRow.key =
    (orderBy (fun x => OrderDual.toDual x.order) (addressEvents db networkId address)).map
      ChainTransaction.activityKey
  balances : ∀ r ∈ rows, r.balanceAfterZat = unspentAt db networkId address r.key.place
  nonneg : ∀ r ∈ rows, 0 ≤ r.balanceAfterZat

/-- The page counts the rows, and its balance is the newest row's. -/
def AddressBalanceRow.Concludes (page : AddressBalanceRow) (rows : List AddressActivityRow) : Prop :=
  rows.length = page.transactionCount ∧
    ∀ r ∈ rows.head?, r.balanceAfterZat = page.balanceZat

/-- Where each output is spent at most once and later than it is made, the activity is the history
of what the address held, and ends with the balance of its page. The query answers where the
outputs to the address fit in one sum. -/
theorem activity_is_history (hs : SchemaHolds db) (h : SpentOnceLater db networkId)
    (address : Text) :
    (((ownedOutputs db networkId address).map ChainOutput.value).sum ≤ i64Max →
      ∃ rows, addressActivityRows db networkId address = .ok rows) ∧
    ∀ rows, addressActivityRows db networkId address = .ok rows →
      addressActivityQuery db networkId address = .ok (rows.take 100) ∧
      IsHistory db networkId address rows ∧
      ∀ tip coinbaseMaturity page,
        addressBalanceQuery db networkId address tip coinbaseMaturity = .ok page →
          page.Concludes rows := by
  refine ⟨addressActivityRows_answers hs h, fun rows hrows => ⟨?_, ?_, ?_⟩⟩
  · rw [addressActivityQuery, hrows]
    rfl
  · have hbalance (r : AddressActivityRow) (hr : r ∈ rows) :
        r.balanceAfterZat = unspentAt db networkId address r.key.place := by
      rw [← addressActivityRows_eq hrows] at hr
      exact balanceAfter_running h (mem_orderBy.mp hr)
    refine ⟨map_key_rows hrows, hbalance, fun r hr => ?_⟩
    rw [hbalance r hr]
    exact unspentAt_nonneg hs
  · intro tip coinbaseMaturity page hpage
    have hshows := addressBalanceQuery_shows hs hpage
    have hlength := congrArg List.length (map_key_rows hrows)
    rw [List.length_map, List.length_map, (orderBy_perm _ _).length_eq] at hlength
    exact ⟨hlength.trans hshows.transactionCount.symm,
      fun r hr => (newest_balance h hrows hr).trans hshows.balance.symm⟩

section Sample

theorem sampleSpending_spentOnceLater : SpentOnceLater sampleSpending sampleNetwork where
  txids := by decide +kernel
  once := by decide +kernel
  later := by decide +kernel

/-- Two transactions, one of which both pays the address and spends from it. -/
theorem activity_is_history_spending : ∃ rows,
    addressActivityQuery sampleSpending sampleNetwork ['A'] = .ok rows ∧ rows.length = 2 ∧
      IsHistory sampleSpending sampleNetwork ['A'] rows := by
  obtain ⟨hanswers, hhistory⟩ := activity_is_history sampleSpending_schema
    sampleSpending_spentOnceLater ['A']
  obtain ⟨rows, hrows⟩ := hanswers (by decide +kernel)
  obtain ⟨hquery, hrest, -⟩ := hhistory rows hrows
  have hlength : rows.length = 2 := by
    have hkeys := congrArg List.length hrest.transactions
    rw [List.length_map, List.length_map, (orderBy_perm _ _).length_eq] at hkeys
    exact hkeys.trans (by decide +kernel)
  refine ⟨rows, ?_, hlength, hrest⟩
  rw [hquery, List.take_of_length_le (by omega)]

/-- A coinbase transaction that pays an address the greatest value twice. -/
def sampleOverflow : Db :=
  sampleLedger [ledgerOutput 1 0 i64Max 'A', ledgerOutput 1 1 i64Max 'A'] []

theorem sampleOverflow_schema : SchemaHolds sampleOverflow where
  witnesses := by decide +kernel
  canonical := by decide +kernel
  placements := by decide +kernel
  outputs := by decide +kernel

theorem sampleOverflow_spentOnceLater : SpentOnceLater sampleOverflow sampleNetwork where
  txids := by decide +kernel
  once := by decide +kernel
  later := by decide +kernel

/-- Its value does not fit the sum of the transaction: the query fails, and has no row for it. -/
theorem activity_of_overflow : SchemaHolds sampleOverflow ∧
    SpentOnceLater sampleOverflow sampleNetwork ∧
    (addressEvents sampleOverflow sampleNetwork ['A']).length = 1 ∧
    addressActivityQuery sampleOverflow sampleNetwork ['A'] = .error .database := by
  refine ⟨sampleOverflow_schema, sampleOverflow_spentOnceLater, by decide +kernel, ?_⟩
  have herror : (addressActivityQuery sampleOverflow sampleNetwork ['A']).map List.length =
      .error .database := by decide +kernel
  cases hquery : addressActivityQuery sampleOverflow sampleNetwork ['A'] with
  | error e =>
    rw [hquery] at herror
    exact congrArg Except.error (Except.error.inj herror)
  | ok rows =>
    rw [hquery] at herror
    cases herror

end Sample

end WcashExplorer
