import WcashExplorer.Api.Canonical
import WcashExplorer.Api.Paging
import WcashExplorer.Indexer.Filled

/-! Following the cursors of the paged lists while the writer keeps committing blocks. -/
namespace WcashExplorer

open Effects Relational

variable {lib : AuxPowCrate} {network : NetworkProfile} {db db' : Db} {xs : List CanonicalRow}
  {c : CanonicalRow} {x : ChainTransaction} {atState atPage : ℕ → Db} {limit : Option Nat}
  {now : Timestamp}

/-- The states the statements of a traversal see: between two of them the branch is kept. -/
structure Views (lib : AuxPowCrate) (atState atPage : ℕ → Db) : Prop where
  request : ∀ i, ∃ log, Calls lib keepsBranch (atState i) log (atPage i)
  next : ∀ i, ∃ log, Calls lib keepsBranch (atPage i) log (atState (i + 1))

theorem Views.calls (h : Views lib atState atPage) (i : ℕ) :
    ∃ log, Calls lib keepsBranch (atPage 0) log (atPage i) := by
  induction i with
  | zero => exact ⟨[], .nil _⟩
  | succ i ih =>
    obtain ⟨log, hlog⟩ := ih
    obtain ⟨log₁, hlog₁⟩ := h.next i
    obtain ⟨log₂, hlog₂⟩ := h.request (i + 1)
    exact ⟨_, (hlog.trans hlog₁).trans hlog₂⟩

theorem Views.chainState (h : Views lib atState atPage)
    (hinit : Initialized network.id (atPage 0)) (i : ℕ) :
    ∃ row, chainStateRow (atState i) network = .ok row := by
  obtain ⟨log, hlog⟩ := h.calls i
  obtain ⟨log₁, hlog₁⟩ := h.request i
  have hi : Initialized network.id (atState i) :=
    hlog₁.initialized.mp (hlog.initialized.mpr hinit)
  obtain ⟨row, hrow⟩ := Option.isSome_iff_exists.mp hi
  exact ⟨row, by rw [chainStateRow, hrow]⟩

theorem boundedLimit_pos (limit : Option Nat) : 0 < boundedLimit limit :=
  Nat.lt_of_lt_of_le Nat.one_pos (le_max_left _ _)

/-- A query whose rows all evaluate returns a row for each. -/
theorem mapM_rows {α β γ : Type} (f : α → Result β) (view : β → γ) (entry : α → γ) {rows : List α}
    (h : ∀ a ∈ rows, ∃ b, f a = .ok b ∧ view b = entry a) :
    ∃ fetched, rows.mapM f = .ok fetched ∧ fetched.map view = rows.map entry := by
  induction rows with
  | nil => exact ⟨[], rfl, rfl⟩
  | cons a rest ih =>
    obtain ⟨b, hb, hview⟩ := h a (by simp)
    obtain ⟨fetched, hfetched, hrest⟩ := ih fun a' ha' => h a' (by simp [ha'])
    refine ⟨b :: fetched, ?_, by rw [List.map_cons, List.map_cons, hview, hrest]⟩
    rw [List.mapM_cons, hb, hfetched]
    rfl

section Blocks

/-- The computed columns of a canonical block's row fit. -/
structure BlockFits (db : Db) (c : CanonicalRow) : Prop where
  reward : ∀ b, db.blocks.find? c.blockHash = some b → InBigint (rewardZat db c b)
  confirmations : InBigint (chainConfirmations db c)

instance : Decidable (BlockFits db c) :=
  decidable_of_iff (((db.blocks.find? c.blockHash).all fun b => decide (InBigint (rewardZat db c b))) ∧
    InBigint (chainConfirmations db c)) (by
      constructor
      · rintro ⟨hreward, hconfirmations⟩
        exact ⟨fun b hb => by simpa [hb] using hreward, hconfirmations⟩
      · rintro ⟨hreward, hconfirmations⟩
        refine ⟨?_, hconfirmations⟩
        cases hb : db.blocks.find? c.blockHash with
        | none => rfl
        | some b => simpa using hreward b hb)

/-- What names a block in the list. -/
def CanonicalRow.entry (c : CanonicalRow) : Nat × Text := (c.height, c.blockHash)

def BlockSummary.entry (s : BlockSummary) : Nat × Text := (s.height, s.hash)

/-- The joined rows are the selected rows. -/
theorem chainBlocks_selectors (hs : StoreSound db) :
    (chainBlocks db network.id).map Prod.fst = canonicalRows db network.id := by
  have hjoin : ∀ c ∈ canonicalRows db network.id, Option.map Prod.fst (do
      let b ← db.blocks.find? c.blockHash
      let w ← db.blockWitnesses.find? (c.blockHash, c.witnessHash)
      some (c, b, w)) = some c := by
    intro c hc
    have hwitness := hs.canonical c (List.mem_of_mem_filter hc)
    obtain ⟨b, hb, -⟩ := (hs.witnesses _ hwitness).block
    obtain ⟨w, hw⟩ := Option.isSome_iff_exists.mp hwitness
    simp only at hb
    rw [hb, hw]
    rfl
  rw [chainBlocks, List.map_filterMap, List.filterMap_congr hjoin, List.filterMap_some]

/-- The canonical blocks from the tip down. -/
def blockList (db : Db) (networkId : Text) : List CanonicalRow :=
  below CanonicalRow.height none (canonicalRows db networkId)

/-- Below the last block shown, a later state still lists the rest. -/
theorem Grown.blocks_rest (h : Grown network.id db xs db') {done rest : List CanonicalRow}
    (hsplit : blockList db network.id = done ++ rest) (hstart : done = [] → db' = db) :
    below CanonicalRow.height (done.getLast?.map CanonicalRow.height)
      (canonicalRows db' network.id) = rest := by
  cases hlast : done.getLast? with
  | none =>
    obtain rfl := List.getLast?_eq_none_iff.mp hlast
    rw [hstart rfl]
    exact hsplit
  | some last =>
    have hsorted := below_strict (@canonicalRows_nodup network.id db)
    have hin (r : CanonicalRow) : r ∈ done ++ rest ↔ r ∈ canonicalRows db network.id := by
      rw [← hsplit, blockList, mem_below]
      simp
    have hlastIn : last ∈ canonicalRows db network.id :=
      (hin last).mp (List.mem_append_left _ (List.mem_of_getLast? hlast))
    obtain ⟨hmem, hn⟩ := WcashExplorer.mem_canonicalRows.mp hlastIn
    have hbound := h.selected.occupied_iff.mp ⟨last, hmem, hn, rfl⟩
    refine below_eq_rest (hsplit ▸ hsorted) hlast (.of_map _ canonicalRows_nodup) fun r hr => ?_
    rw [hin, h.mem_canonicalRows (lt_trans hr hbound)]

theorem blockSummaryRow_ok {b : BlockRow} {w : BlockWitnessRow} (hfits : BlockFits db c)
    (hb : db.blocks.find? c.blockHash = some b) : ∃ row, blockSummaryRow db c b w = .ok row ∧
      (BlockSummary.fromRow network row).entry = c.entry := by
  simp only [blockSummaryRow, asBigint_eq_ok (hfits.reward b hb),
    asBigint_eq_ok hfits.confirmations]
  exact ⟨_, rfl, rfl⟩

/-- The answer to a page request after some blocks were shown. -/
theorem Grown.blocks_page (h : Grown network.id db xs db') {done rest : List CanonicalRow}
    (hsplit : blockList db network.id = done ++ rest) (hstart : done = [] → db' = db)
    (hfits : ∀ c ∈ canonicalRows db network.id, BlockFits db' c) {chain : ChainStateRow}
    {before : Db} (hchain : chainStateRow before network = .ok chain) : ∃ page next,
      (fun e => (e.data, e.pageMeta.nextCursor)) <$> blocks network
        { cursor := done.getLast?.map fun c => encodeCursor c.height, limit } before db' now =
          .ok (page, next) ∧
      NextPage BlockSummary.entry CanonicalRow.entry (fun c => encodeCursor c.height) rest page
        next := by
  have hin (r : CanonicalRow) (hr : r ∈ done ++ rest) : r ∈ canonicalRows db network.id := by
    rw [← hsplit, blockList, mem_below] at hr
    exact hr.1
  have hcursor : optional decodeCursor (done.getLast?.map fun c => encodeCursor c.height) =
      .ok (done.getLast?.map CanonicalRow.height) := by
    cases hlast : done.getLast? with
    | none => rfl
    | some last =>
      have hmem := hin last (List.mem_append_left _ (List.mem_of_getLast? hlast))
      have hle := h.selected.bounded last (h.selected.mem_canonicalRows.mp hmem)
      simp only [optional, Option.map_some, decodeCursor_encodeCursor hle]
      rfl
  have hrest := h.blocks_rest hsplit hstart
  -- the joined rows below the cursor, as selected rows
  have hjoined : (below (fun x => x.1.height) (done.getLast?.map CanonicalRow.height)
      (chainBlocks db' network.id)).map Prod.fst = rest := by
    rw [map_below CanonicalRow.height, chainBlocks_selectors h.sound', hrest]
  have hrows : ∀ x ∈ (below (fun x => x.1.height) (done.getLast?.map CanonicalRow.height)
      (chainBlocks db' network.id)).take (boundedLimit limit + 1), ∃ row,
        blockSummaryRow db' x.1 x.2.1 x.2.2 = .ok row ∧
          (BlockSummary.fromRow network row).entry = x.1.entry := by
    rintro ⟨c, b, w⟩ hx
    have hx := List.mem_of_mem_take hx
    have hc : c ∈ rest := hjoined ▸ List.mem_map_of_mem hx
    have hb : db'.blocks.find? c.blockHash = some b := by
      obtain ⟨c', -, hc'⟩ := List.mem_filterMap.mp (mem_below.mp hx).1
      simp only [Option.bind_eq_bind, Option.bind_eq_some_iff, Option.some.injEq,
        Prod.mk.injEq] at hc'
      obtain ⟨b', hb', w', -, rfl, rfl, -⟩ := hc'
      exact hb'
    exact blockSummaryRow_ok (hfits c (hin c (List.mem_append_right _ hc))) hb
  obtain ⟨fetched, hfetched, hview⟩ := mapM_rows
    (fun x : ChainBlock => blockSummaryRow db' x.1 x.2.1 x.2.2)
    (fun row => (BlockSummary.fromRow network row).entry) (fun x => x.1.entry) hrows
  have hshown : fetched.map (fun row => (BlockSummary.fromRow network row).entry) =
      (rest.take (boundedLimit limit + 1)).map CanonicalRow.entry := by
    rw [hview, ← hjoined, List.map_take, List.map_take, List.map_map]
    rfl
  refine ⟨_, _, ?_, nextPage_of_lookahead (fun e : Nat × Text => encodeCursor e.1)
    (boundedLimit_pos limit) (fun _ => rfl) hshown⟩
  simp only [blocks, hchain, hcursor]
  change (fun e : ApiEnvelope (List BlockSummary) => (e.data, e.pageMeta.nextCursor)) <$>
    (blockSummaryQuery db' network.id _ (boundedLimit limit + 1) >>= _) = _
  rw [blockSummaryQuery, hfetched]
  rfl

end Blocks

section Transactions

/-- The computed column of a canonical transaction's row fits. -/
def TransactionFits (db : Db) (x : ChainTransaction) : Prop :=
  InBigint (publicOutputZat db x.stored.transactionInstanceId)

instance : Decidable (TransactionFits db x) := inferInstanceAs (Decidable (InBigint _))

/-- What names a transaction in the list. -/
structure TransactionEntry where
  blockHeight : Nat
  blockHash : Text
  position : Nat
  txid : Text

def ChainTransaction.entry (x : ChainTransaction) : TransactionEntry :=
  ⟨x.selector.height, x.selector.blockHash, x.placement.txPosition, x.stored.txid⟩

def TransactionSummary.entry (s : TransactionSummary) : TransactionEntry :=
  ⟨s.blockHeight, s.blockHash, s.position, s.txid⟩

def ChainTransaction.place (x : ChainTransaction) : Nat × Nat :=
  (x.selector.height, x.placement.txPosition)

/-- The cursor that names a transaction as the last one shown. -/
def ChainTransaction.cursor (x : ChainTransaction) : Text :=
  encodeTxCursor x.selector.height x.placement.txPosition

/-- The canonical transactions from the tip down. -/
def transactionList (db : Db) (networkId : Text) : List ChainTransaction :=
  below ChainTransaction.order none (chainTransactions db networkId)

theorem mem_transactionList :
    x ∈ transactionList db network.id ↔ x ∈ chainTransactions db network.id := by
  rw [transactionList, mem_below]
  simp

theorem Grown.transactions_rest (h : Grown network.id db xs db') {done rest : List ChainTransaction}
    (hsplit : transactionList db network.id = done ++ rest) (hstart : done = [] → db' = db) :
    below ChainTransaction.order (done.getLast?.map ChainTransaction.order)
      (chainTransactions db' network.id) = rest := by
  cases hlast : done.getLast? with
  | none =>
    obtain rfl := List.getLast?_eq_none_iff.mp hlast
    rw [hstart rfl]
    exact hsplit
  | some last =>
    have hsorted := below_strict (@chainTransactions_order_nodup network.id db)
    have hin (r : ChainTransaction) : r ∈ done ++ rest ↔ r ∈ chainTransactions db network.id := by
      rw [← hsplit, mem_transactionList]
    have hlastIn := WcashExplorer.mem_chainTransactions.mp
      ((hin last).mp (List.mem_append_left _ (List.mem_of_getLast? hlast)))
    obtain ⟨hmem, hn⟩ := WcashExplorer.mem_canonicalRows.mp hlastIn.selector
    have hbound := h.selected.occupied_iff.mp ⟨last.selector, hmem, hn, rfl⟩
    refine below_eq_rest (hsplit ▸ hsorted) hlast chainTransactions_nodup fun r hr => ?_
    have hheight : r.selector.height ≤ last.selector.height := by
      rcases Prod.Lex.toLex_lt_toLex.mp hr with hlt | ⟨heq, -⟩
      · exact hlt.le
      · exact heq.le
    rw [hin, h.mem_chainTransactions (lt_of_le_of_lt hheight hbound)]

theorem transactionSummaryRow_ok (hfits : TransactionFits db x) :
    ∃ row, transactionSummaryRow db x = .ok row ∧
      (TransactionSummary.fromRow network row).entry = x.entry := by
  simp only [transactionSummaryRow, asBigint_eq_ok hfits]
  exact ⟨_, rfl, rfl⟩

/-- The cursor of a canonical transaction decodes to its place. -/
theorem Grown.decode_cursor (h : Grown network.id db xs db')
    (hx : x ∈ chainTransactions db network.id) :
    decodeTxCursor x.cursor = .ok x.place ∧
      x.selector.height ≤ i64Max := by
  obtain ⟨hselector, -, hplacement, -⟩ := WcashExplorer.mem_chainTransactions.mp hx
  have hheight := h.selected.bounded _ (h.selected.mem_canonicalRows.mp hselector)
  obtain ⟨b, hb, -, hcount, -⟩ := h.block hselector
  obtain ⟨hr, hbr, -⟩ := mem_witnessPlacements.mp hplacement
  obtain ⟨b', hb', hlt⟩ := h.sound.facts.placements.counted _ hr
  rw [hbr, hb] at hb'
  obtain rfl := Option.some.inj hb'
  exact ⟨decodeTxCursor_encodeTxCursor hheight (by omega), hheight⟩

theorem Grown.transactions_page (h : Grown network.id db xs db') {done rest : List ChainTransaction}
    (hsplit : transactionList db network.id = done ++ rest) (hstart : done = [] → db' = db)
    (hfits : ∀ x ∈ chainTransactions db network.id, TransactionFits db' x) {chain : ChainStateRow}
    {before : Db} (hchain : chainStateRow before network = .ok chain) : ∃ page next,
      (fun e => (e.data, e.pageMeta.nextCursor)) <$> transactions network
        { cursor := done.getLast?.map ChainTransaction.cursor, limit } before db' now =
          .ok (page, next) ∧
      NextPage TransactionSummary.entry ChainTransaction.entry ChainTransaction.cursor rest page
        next := by
  have hin (r : ChainTransaction) (hr : r ∈ done ++ rest) :
      r ∈ chainTransactions db network.id := by
    rw [← hsplit, mem_transactionList] at hr
    exact hr
  have hcursor : optional decodeTxCursor (done.getLast?.map ChainTransaction.cursor) =
        .ok (done.getLast?.map ChainTransaction.place) ∧
      optional boundTxCursor (done.getLast?.map ChainTransaction.place) =
        .ok (done.getLast?.map ChainTransaction.place) := by
    cases hlast : done.getLast? with
    | none => exact ⟨rfl, rfl⟩
    | some last =>
      obtain ⟨hdecode, hle⟩ := h.decode_cursor
        (hin last (List.mem_append_left _ (List.mem_of_getLast? hlast)))
      have hbound : boundTxCursor last.place = .ok last.place := by
        rw [boundTxCursor, requestToI64, ChainTransaction.place, if_pos hle]
        rfl
      simp only [optional, Option.map_some, hdecode, hbound]
      exact ⟨rfl, rfl⟩
  have hrest := h.transactions_rest hsplit hstart
  have hrows : ∀ x ∈ rest.take (boundedLimit limit + 1), ∃ row,
      transactionSummaryRow db' x = .ok row ∧
        (TransactionSummary.fromRow network row).entry = x.entry := by
    intro x hx
    exact transactionSummaryRow_ok
      (hfits x (hin x (List.mem_append_right _ (List.mem_of_mem_take hx))))
  obtain ⟨fetched, hfetched, hshown⟩ := mapM_rows (transactionSummaryRow db')
    (fun row => (TransactionSummary.fromRow network row).entry) ChainTransaction.entry hrows
  have hquery : transactionSummaryQuery db' network.id
      (done.getLast?.map ChainTransaction.place) (boundedLimit limit + 1) = .ok fetched := by
    rw [transactionSummaryQuery, Option.map_map]
    rw [← hrest] at hfetched
    exact hfetched
  refine ⟨_, _, ?_, nextPage_of_lookahead
    (fun e : TransactionEntry => encodeTxCursor e.blockHeight e.position) (boundedLimit_pos limit)
    (fun _ => rfl) hshown⟩
  simp only [transactions, hchain, hcursor.1]
  change (fun e : ApiEnvelope (List TransactionSummary) => (e.data, e.pageMeta.nextCursor)) <$>
    (optional boundTxCursor _ >>= _) = _
  rw [hcursor.2]
  change (fun e : ApiEnvelope (List TransactionSummary) => (e.data, e.pageMeta.nextCursor)) <$>
    (transactionSummaryQuery db' network.id _ (boundedLimit limit + 1) >>= _) = _
  rw [hquery]
  rfl

end Transactions

section Traversals

/-- The pages a client collects from the first one on are finitely many, and show exactly the
listed entries, each once and in strictly descending order. -/
def CollectsOnce {σ τ κ : Type} [LT κ] (request : ℕ → Option Text → Result (List σ × Option Text))
    (key : σ → κ) (entry : σ → τ) (listed : τ → Prop) : Prop :=
  ∃ fuel pages, follow request fuel 0 none = .ok (some pages) ∧
    (pages.flatten.map key).Pairwise (fun a b => b < a) ∧
    ∀ e, e ∈ pages.flatten.map entry ↔ listed e

/-- The requests of a traversal: the client chooses each limit, the server's clock is any. -/
def blockRequests (network : NetworkProfile) (atState atPage : ℕ → Db) (limits : ℕ → Option Nat)
    (now : ℕ → Timestamp) (i : ℕ) (cursor : Option Text) :
    Result (List BlockSummary × Option Text) :=
  (fun e => (e.data, e.pageMeta.nextCursor)) <$>
    blocks network { cursor, limit := limits i } (atState i) (atPage i) (now i)

def transactionRequests (network : NetworkProfile) (atState atPage : ℕ → Db)
    (limits : ℕ → Option Nat) (now : ℕ → Timestamp) (i : ℕ) (cursor : Option Text) :
    Result (List TransactionSummary × Option Text) :=
  (fun e => (e.data, e.pageMeta.nextCursor)) <$>
    transactions network { cursor, limit := limits i } (atState i) (atPage i) (now i)

/-- A complete list of rows in strict order is collected once. -/
theorem collectsOnce_of_follow {ρ σ τ κ : Type} [LT κ]
    {request : ℕ → Option Text → Result (List σ × Option Text)} {view : σ → τ} {entry : ρ → τ}
    {total : List ρ} (keyOf : τ → κ)
    (hsorted : total.Pairwise fun r s => keyOf (entry s) < keyOf (entry r))
    (h : ∃ pages, follow request (total.length + 1) 0 none = .ok (some pages) ∧
      pages.flatten.map view = total.map entry) :
    CollectsOnce request (fun s => keyOf (view s)) view fun e => ∃ r ∈ total, entry r = e := by
  obtain ⟨pages, hpages, hview⟩ := h
  refine ⟨_, pages, hpages, ?_, fun e => ?_⟩
  · have hkeys : pages.flatten.map (fun s => keyOf (view s)) =
        total.map fun r => keyOf (entry r) := by
      have hmapped := congrArg (List.map keyOf) hview
      simpa only [List.map_map, Function.comp_def] using hmapped
    rw [hkeys]
    exact List.pairwise_map.mpr hsorted
  · rw [hview, List.mem_map]

theorem first_of_nil {α : Type} {i : ℕ} {done : List α} (hi : i = 0 ∨ done ≠ []) (hdone : done = []) :
    atPage i = atPage 0 := by
  rcases hi with rfl | hne
  · rfl
  · exact absurd hdone hne

variable {limits : ℕ → Option Nat} {clock : ℕ → Timestamp}

theorem blocks_collect_once (hgrown : ∀ i, Grown network.id (atPage 0) xs (atPage i))
    (hchain : ∀ i, ∃ chain, chainStateRow (atState i) network = .ok chain)
    (hfits : ∀ i, ∀ c ∈ canonicalRows (atPage 0) network.id, BlockFits (atPage i) c) :
    CollectsOnce (blockRequests network atState atPage limits clock) BlockSummary.height
      BlockSummary.entry fun e => ∃ c ∈ canonicalRows (atPage 0) network.id, c.entry = e := by
  have hrequest : ∀ i done rest, blockList (atPage 0) network.id = done ++ rest →
      (i = 0 ∨ done ≠ []) → ∃ page next,
        blockRequests network atState atPage limits clock i
          (done.getLast?.map fun c => encodeCursor c.height) = .ok (page, next) ∧
        NextPage BlockSummary.entry CanonicalRow.entry (fun c => encodeCursor c.height) rest page
          next := by
    intro i done rest hsplit hi
    obtain ⟨chain, hchain⟩ := hchain i
    exact (hgrown i).blocks_page hsplit (first_of_nil hi) (hfits i) hchain
  have hfollow := follow_complete hrequest (Nat.lt_succ_self _) (List.nil_append _).symm (.inl rfl)
  have hsorted : (blockList (atPage 0) network.id).Pairwise fun r s => s.entry.1 < r.entry.1 :=
    below_strict canonicalRows_nodup
  have hall := collectsOnce_of_follow Prod.fst hsorted hfollow
  simp only [blockList, mem_below, Option.mem_def, reduceCtorEq, false_implies, implies_true,
    and_true] at hall
  exact hall

theorem transactions_collect_once (hgrown : ∀ i, Grown network.id (atPage 0) xs (atPage i))
    (hchain : ∀ i, ∃ chain, chainStateRow (atState i) network = .ok chain)
    (hfits : ∀ i, ∀ x ∈ chainTransactions (atPage 0) network.id, TransactionFits (atPage i) x) :
    CollectsOnce (transactionRequests network atState atPage limits clock)
      (fun s => toLex (s.blockHeight, s.position)) TransactionSummary.entry
      fun e => ∃ x ∈ chainTransactions (atPage 0) network.id, x.entry = e := by
  have hrequest : ∀ i done rest, transactionList (atPage 0) network.id = done ++ rest →
      (i = 0 ∨ done ≠ []) → ∃ page next,
        transactionRequests network atState atPage limits clock i
          (done.getLast?.map ChainTransaction.cursor) = .ok (page, next) ∧
        NextPage TransactionSummary.entry ChainTransaction.entry ChainTransaction.cursor rest page
          next := by
    intro i done rest hsplit hi
    obtain ⟨chain, hchain⟩ := hchain i
    exact (hgrown i).transactions_page hsplit (first_of_nil hi) (hfits i) hchain
  have hfollow := follow_complete hrequest (Nat.lt_succ_self _) (List.nil_append _).symm (.inl rfl)
  have hsorted : (transactionList (atPage 0) network.id).Pairwise fun x y => y.order < x.order :=
    below_strict chainTransactions_order_nodup
  have hall := collectsOnce_of_follow
    (fun e : TransactionEntry => toLex (e.blockHeight, e.position)) hsorted hfollow
  simp only [mem_transactionList] at hall
  exact hall

/-- Following the cursors of `/blocks`, or of `/transactions`, from the first page ends after
finitely many pages, and lists exactly what was canonical when the first page was read, while the
branch grows in between; as long as the computed columns of the rows read fit their type. -/
theorem traversals_collect_once (hreach : Filled lib network.id (atPage 0))
    (hviews : Views lib atState atPage) (limits : ℕ → Option Nat) (clock : ℕ → Timestamp) :
    ((∀ i, ∀ c ∈ canonicalRows (atPage 0) network.id, BlockFits (atPage i) c) →
      CollectsOnce (blockRequests network atState atPage limits clock) BlockSummary.height
        BlockSummary.entry fun e => ∃ c ∈ canonicalRows (atPage 0) network.id, c.entry = e) ∧
    ((∀ i, ∀ x ∈ chainTransactions (atPage 0) network.id, TransactionFits (atPage i) x) →
      CollectsOnce (transactionRequests network atState atPage limits clock)
        (fun s => toLex (s.blockHeight, s.position)) TransactionSummary.entry
        fun e => ∃ x ∈ chainTransactions (atPage 0) network.id, x.entry = e) := by
  obtain ⟨xs, hx⟩ := hreach.selected
  have hgrown (i : ℕ) : Grown network.id (atPage 0) xs (atPage i) := by
    obtain ⟨log, hlog⟩ := hviews.calls i
    exact .of_calls hx hreach.sound hlog
  have hchain := hviews.chainState hreach.initialized
  exact ⟨blocks_collect_once hgrown hchain, transactions_collect_once hgrown hchain⟩

end Traversals

section Sample

def sampleProfile : NetworkProfile :=
  { id := sampleNetwork, genesisHash := sampleHash '0', symbol := ['T'], decimals := 8,
    coinbaseMaturity := 100 }

/-- A genesis block with one transaction of two outputs. -/
def samplePaying (value : Int) : NodeBlock :=
  let output (n : Nat) : RpcOutput := { n, valueZat := value, scriptPubKey := {} }
  let b := sampleBlock 0 '0' none 0
  { b with block := { b.block with
      tx := [{ sampleTransaction [sampleCoinbase] with vout := [output 0, output 1] }] } }

def samplePayingDb (value : Int) : Db :=
  (sampleIndexer 10).round (nodeEnvironment sampleNetwork (fun _ => [samplePaying value])
    { now := 0 }) (initialDb sampleNetwork)

theorem samplePayingDb_filled (value : Int) :
    Filled sampleCrate sampleNetwork (samplePayingDb value) :=
  (Filled.initial sampleNetwork).round rfl

example : (canonicalRows (samplePayingDb 5) sampleNetwork).map CanonicalRow.height = [0] := by
  decide +kernel

/-- A transaction named by a digit. -/
def samplePayment (digit : Char) : RpcTransaction :=
  { sampleTransaction [sampleCoinbase] with
    txid := sampleHash digit
    vout := [{ n := 0, valueZat := 5, scriptPubKey := {} }] }

def NodeBlock.carrying (b : NodeBlock) (digits : List Char) : NodeBlock :=
  { b with block := { b.block with tx := digits.map samplePayment } }

/-- Two blocks, and two transactions in the second of them. -/
def sampleCarrying : List NodeBlock :=
  [(sampleBlock 0 '0' none 0).carrying ['a'], (sampleBlock 1 '1' (some '0') 1).carrying ['b', 'c']]

def sampleCarryingDb : Db :=
  (sampleIndexer 10).round (nodeEnvironment sampleNetwork (fun _ => sampleCarrying) { now := 0 })
    (initialDb sampleNetwork)

/-- All pages but the first are read after another block was committed. -/
def samplePage : ℕ → Db
  | 0 => sampleCarryingDb
  | _ + 1 => stateAfter sampleCrate { now := 0 } sampleCarryingDb
      (.commitBlock sampleNetwork (sampleIndexed 2 '2' (some '1') [samplePayment 'd']))

theorem samplePage_views : Views sampleCrate samplePage samplePage where
  request := fun _ => ⟨[], .nil _⟩
  next := fun i => by
    cases i with
    | zero =>
      have hstart : Calls sampleCrate keepsBranch sampleCarryingDb [] sampleCarryingDb := .nil _
      have hcommit := hstart.next (w := { now := 0 })
        (t := .commitBlock sampleNetwork (sampleIndexed 2 '2' (some '1') [samplePayment 'd']))
        trivial (by decide +kernel)
      exact ⟨_, hcommit⟩
    | succ i => exact ⟨[], .nil _⟩

/-- Two blocks and three transactions, one row a page, and one more of each from the second page
on. -/
theorem traversals_collect_once_growing :
    (canonicalRows (samplePage 0) sampleNetwork).length = 2 ∧
    (chainTransactions (samplePage 0) sampleNetwork).length = 3 ∧
    (canonicalRows (samplePage 1) sampleNetwork).length = 3 ∧
    (chainTransactions (samplePage 1) sampleNetwork).length = 4 ∧
    CollectsOnce (blockRequests sampleProfile samplePage samplePage (fun _ => some 1) fun _ => 0)
      BlockSummary.height BlockSummary.entry
      (fun e => ∃ c ∈ canonicalRows (samplePage 0) sampleNetwork, c.entry = e) ∧
    CollectsOnce
      (transactionRequests sampleProfile samplePage samplePage (fun _ => some 1) fun _ => 0)
      (fun s => toLex (s.blockHeight, s.position)) TransactionSummary.entry
      (fun e => ∃ x ∈ chainTransactions (samplePage 0) sampleNetwork, x.entry = e) := by
  have hfilled : Filled sampleCrate sampleProfile.id (samplePage 0) :=
    (Filled.initial sampleNetwork).round rfl
  have h := traversals_collect_once hfilled samplePage_views (fun _ => some 1) (fun _ => 0)
  have hblocks : ∀ c ∈ canonicalRows (samplePage 0) sampleNetwork,
      BlockFits (samplePage 0) c ∧ BlockFits (samplePage 1) c := by decide +kernel
  have htxs : ∀ x ∈ chainTransactions (samplePage 0) sampleNetwork,
      TransactionFits (samplePage 0) x ∧ TransactionFits (samplePage 1) x := by decide +kernel
  have hcounts : (canonicalRows (samplePage 0) sampleNetwork).length = 2 ∧
      (chainTransactions (samplePage 0) sampleNetwork).length = 3 ∧
      (canonicalRows (samplePage 1) sampleNetwork).length = 3 ∧
      (chainTransactions (samplePage 1) sampleNetwork).length = 4 := by decide +kernel
  obtain ⟨hrows, hplaced, hrows', hplaced'⟩ := hcounts
  refine ⟨hrows, hplaced, hrows', hplaced', h.1 fun i c hc => ?_, h.2 fun i x hx => ?_⟩
  · cases i with
    | zero => exact (hblocks c hc).1
    | succ i => exact (hblocks c hc).2
  · cases i with
    | zero => exact (htxs x hx).1
    | succ i => exact (htxs x hx).2

theorem follow_error {σ γ ε : Type} {request : ℕ → Option γ → Except ε (List σ × Option γ)}
    (h : (request 0 none).isOk = false) (fuel : ℕ) (pages : List (List σ)) :
    follow request fuel 0 none ≠ .ok (some pages) := by
  intro hfollow
  cases fuel with
  | zero => cases hfollow
  | succ fuel =>
    cases hr : request 0 none with
    | error e =>
      rw [follow, hr] at hfollow
      cases hfollow
    | ok page =>
      rw [hr] at h
      cases h

/-- One canonical transaction whose outputs do not add up in a `BIGINT` fails the first page of
either list. -/
theorem overflow_fails_first_page : Filled sampleCrate sampleNetwork (samplePayingDb i64Max) ∧
    ¬ (CollectsOnce (blockRequests sampleProfile (fun _ => samplePayingDb i64Max)
        (fun _ => samplePayingDb i64Max) (fun _ => none) (fun _ => 0)) BlockSummary.height
      BlockSummary.entry
      fun e => ∃ c ∈ canonicalRows (samplePayingDb i64Max) sampleNetwork, c.entry = e) ∧
    ¬ CollectsOnce (transactionRequests sampleProfile (fun _ => samplePayingDb i64Max)
        (fun _ => samplePayingDb i64Max) (fun _ => none) (fun _ => 0))
      (fun s => toLex (s.blockHeight, s.position)) TransactionSummary.entry
      fun e => ∃ x ∈ chainTransactions (samplePayingDb i64Max) sampleNetwork, x.entry = e := by
  refine ⟨samplePayingDb_filled _, ?_, ?_⟩
  · rintro ⟨fuel, pages, hfollow, -⟩
    exact follow_error (by decide +kernel) fuel pages hfollow
  · rintro ⟨fuel, pages, hfollow, -⟩
    exact follow_error (by decide +kernel) fuel pages hfollow

end Sample

end WcashExplorer
