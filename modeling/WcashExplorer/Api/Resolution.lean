import WcashExplorer.Api.AddressLedger
import WcashExplorer.Api.Lookup
import WcashExplorer.Api.Rewards

/-! Which spellings of a hash find the object that has it. -/
namespace WcashExplorer

open Codec Relational

section Text

variable {s hash : Text}

/-- A text spells a hash: 64 hexadecimal digits, in either letter case. -/
def Spells (s hash : Text) : Prop := isHash s ∧ s.map Char.toLower = hash.map Char.toLower

instance : Decidable (Spells s hash) := inferInstanceAs (Decidable (_ ∧ _))

theorem trim_eq_self (h : ∀ c ∈ s, isWhitespace c = false) : s.trim = s := by
  have hdrop {t : Text} (ht : ∀ c ∈ t, isWhitespace c = false) : t.dropWhile isWhitespace = t := by
    cases t with
    | nil => rfl
    | cons c t => rw [List.dropWhile_cons, ht c (by simp), if_neg (by simp)]
  rw [Text.trim, hdrop h, hdrop (by simpa using h), List.reverse_reverse]

theorem isWhitespace_of_isHexDigit {c : Char} (h : isHexDigit c) : isWhitespace c = false := by
  have hrange := isHexDigit_toNat h
  simp [isWhitespace]
  omega

/-- A hash passes the checks of a search as it is typed. -/
theorem searchable_of_isHash (h : isHash s) :
    s.trim = s ∧ (!s.isEmpty && decide (s.len ≤ 256)) = true := by
  simp only [isHash, Bool.and_eq_true, beq_iff_eq] at h
  obtain ⟨hlen, hdigits⟩ := h
  refine ⟨trim_eq_self fun c hc => isWhitespace_of_isHexDigit (List.all_eq_true.mp hdigits c hc), ?_⟩
  rw [hlen]
  cases s with
  | nil => simp [Text.len] at hlen
  | cons => rfl

end Text

section Blocks

variable {lib : AuxPowCrate} {db : Db} {network : NetworkProfile} {xs : List CanonicalRow}
  {c : CanonicalRow} {x y : ChainBlock} {s : Text}

/-- The computed columns of a block's detailed row fit. -/
structure DetailFits (db : Db) (c : CanonicalRow) : Prop extends BlockFits db c where
  next : InBigint (c.height + 1)

/-- A selected row is joined with one block and one witness. -/
theorem chainBlocks_unique {networkId : Text} (hx : x ∈ chainBlocks db networkId)
    (hy : y ∈ chainBlocks db networkId) (h : x.1 = y.1) : x = y := by
  obtain ⟨-, hb, hw⟩ := mem_chainBlocks.mp hx
  obtain ⟨-, hb', hw'⟩ := mem_chainBlocks.mp hy
  rw [h] at hb hw
  exact Prod.ext h (Prod.ext (Option.some.inj (hb.symm.trans hb'))
    (Option.some.inj (hw.symm.trans hw')))

theorem blockDetailRow_ok_iff {networkId : Text} (hx : x ∈ chainBlocks db networkId) :
    (∃ row, blockDetailRow db x = .ok row) ↔ DetailFits db x.1 := by
  obtain ⟨c, b, w⟩ := x
  obtain ⟨-, hb, -⟩ := mem_chainBlocks.mp hx
  constructor
  · rintro ⟨row, hrow⟩
    simp only [blockDetailRow, blockSummaryRow, Result.bind_eq_ok, asBigint_eq_ok_iff] at hrow
    obtain ⟨_, ⟨_, ⟨hreward, -⟩, _, ⟨hconfirmations, -⟩, -⟩, _, ⟨hnext, -⟩, -⟩ := hrow
    refine ⟨⟨fun b' hb' => ?_, hconfirmations⟩, hnext⟩
    rw [Option.some.inj (hb'.symm.trans hb)]
    exact hreward
  · rintro ⟨⟨hreward, hconfirmations⟩, hnext⟩
    simp only [blockDetailRow, blockSummaryRow, asBigint_eq_ok (hreward b hb),
      asBigint_eq_ok hconfirmations, asBigint_eq_ok hnext]
    exact ⟨_, rfl⟩

theorem blockDetailRow_selector {row : BlockDetailRow} (h : blockDetailRow db x = .ok row) :
    row.summary.height = x.1.height ∧ row.summary.hash = x.1.blockHash := by
  simp only [blockDetailRow, blockSummaryRow, Result.bind_eq_ok, Except.ok.injEq] at h
  obtain ⟨summary, ⟨_, -, _, -, rfl⟩, _, -, rfl⟩ := h
  exact ⟨rfl, rfl⟩

theorem blockDetailQuery_eq_ok {networkId : Text} {height : Option Nat} {hash : Option Text}
    {row : BlockDetailRow} (h : blockDetailQuery db networkId height hash = .ok (some row)) :
    ∃ x ∈ chainBlocks db networkId, (height = some x.1.height ∨ hash = some x.1.blockHash) ∧
      blockDetailRow db x = .ok row := by
  rw [blockDetailQuery] at h
  split at h
  · rename_i x hx
    cases hrow : blockDetailRow db x with
    | error error =>
      rw [hrow] at h
      cases h
    | ok found =>
      rw [hrow] at h
      obtain rfl := Option.some.inj (Except.ok.inj h)
      exact ⟨x, List.mem_of_find?_eq_some hx, by simpa using List.find?_some hx, hrow⟩
  · cases h

/-- Where one block only has the height or the hash, the query finds it. -/
theorem blockDetailQuery_unique {networkId : Text} {height : Option Nat} {hash : Option Text}
    (hx : x ∈ chainBlocks db networkId)
    (hfound : height = some x.1.height ∨ hash = some x.1.blockHash)
    (honly : ∀ y ∈ chainBlocks db networkId,
      (height = some y.1.height ∨ hash = some y.1.blockHash) → y = x) :
    blockDetailQuery db networkId height hash = (blockDetailRow db x).map some := by
  rw [blockDetailQuery]
  split
  · rename_i y hy
    have hsame := honly y (List.mem_of_find?_eq_some hy) (by simpa using List.find?_some hy)
    rw [hsame]
  · rename_i hnone
    have hno := List.find?_eq_none.mp hnone x hx
    simp only [Bool.or_eq_true, decide_eq_true_eq] at hno
    exact absurd hfound hno

theorem orNotFound_eq_ok {α : Type} {found : Option α} {a : α} :
    orNotFound found = .ok a ↔ found = some a := by
  cases found <;> simp [orNotFound]

theorem blockArguments_hash (hnone : parseU64 s = none) (hhash : isHash s) :
    blockArguments s = .ok (none, some s) := by
  rw [blockArguments, hnone]
  simp only [requestHash, hhash]
  rfl

theorem blockArguments_height {n : Nat} (hparse : parseU64 s = some n) (hn : n ≤ i64Max) :
    blockArguments s = .ok (some n, none) := by
  rw [blockArguments, hparse]
  simp only [requestToI64, if_pos hn]
  rfl

theorem blockArguments_eq_ok {height : Option Nat} {hash : Option Text}
    (h : blockArguments s = .ok (height, hash)) :
    (parseU64 s = height ∧ hash = none) ∨ (parseU64 s = none ∧ height = none ∧ hash = some s) := by
  rw [blockArguments] at h
  split at h
  · rename_i n hparse
    rw [requestToI64] at h
    split at h
    · cases h
      exact Or.inl ⟨hparse, rfl⟩
    · cases h
  · rename_i hparse
    cases hvalid : requestHash "block hash" s with
    | error error =>
      rw [hvalid] at h
      cases h
    | ok =>
      rw [hvalid] at h
      cases h
      exact Or.inr ⟨hparse, rfl, rfl⟩

/-- What `find_block` answers, it selected by the number it read or else by the hash itself. -/
theorem findBlock_eq_ok {row : BlockDetailRow}
    (h : findBlock network.toNetworkConfig s db = .ok row) :
    ∃ x ∈ chainBlocks db network.id, blockDetailRow db x = .ok row ∧
      (parseU64 s = some x.1.height ∨ (parseU64 s = none ∧ s = x.1.blockHash)) := by
  simp only [findBlock, Result.bind_eq_ok, orNotFound_eq_ok] at h
  obtain ⟨⟨height, hash⟩, harguments, _, hquery, rfl⟩ := h
  obtain ⟨x, hx, hselected, hrow⟩ := blockDetailQuery_eq_ok hquery
  refine ⟨x, hx, hrow, ?_⟩
  rcases blockArguments_eq_ok harguments with ⟨hparse, rfl⟩ | ⟨hparse, rfl, rfl⟩
  · rcases hselected with hheight | hnone
    · exact Or.inl (hparse.trans hheight)
    · cases hnone
  · rcases hselected with hnone | hhash
    · cases hnone
    · exact Or.inr ⟨hparse, Option.some.inj hhash⟩

theorem findBlock_of_arguments {height : Option Nat} {hash : Option Text} {row : BlockDetailRow}
    (harguments : blockArguments s = .ok (height, hash))
    (hquery : blockDetailQuery db network.id height hash = .ok (some row)) :
    findBlock network.toNetworkConfig s db = .ok row := by
  simp only [findBlock, Result.bind_eq_ok, orNotFound_eq_ok]
  exact ⟨_, harguments, _, hquery, rfl⟩

/-- A selected block is found by its height and by its hash. -/
theorem findBlock_of_selected {row : BlockDetailRow} (hx : Selected network.id db xs)
    (hmem : x ∈ chainBlocks db network.id) (hrow : blockDetailRow db x = .ok row)
    (hhash : isHash s)
    (h : parseU64 s = some x.1.height ∨ (parseU64 s = none ∧ s = x.1.blockHash)) :
    findBlock network.toNetworkConfig s db = .ok row := by
  have hin {y : ChainBlock} (hy : y ∈ chainBlocks db network.id) : y.1 ∈ xs :=
    hx.mem_canonicalRows.mp (mem_chainBlocks.mp hy).1
  rcases h with hparse | ⟨hparse, rfl⟩
  · refine findBlock_of_arguments (blockArguments_height hparse (hx.bounded _ (hin hmem))) ?_
    rw [blockDetailQuery_unique hmem (Or.inl rfl), hrow]
    · rfl
    · rintro y hy (hheight | hnone)
      · refine chainBlocks_unique hy hmem ?_
        exact List.inj_on_of_nodup_map canonicalRows_nodup (mem_chainBlocks.mp hy).1
          (mem_chainBlocks.mp hmem).1 (Option.some.inj hheight).symm
      · cases hnone
  · refine findBlock_of_arguments (blockArguments_hash hparse hhash) ?_
    rw [blockDetailQuery_unique hmem (Or.inr rfl), hrow]
    · rfl
    · rintro y hy (hnone | hsame)
      · cases hnone
      · refine chainBlocks_unique hy hmem ?_
        exact List.inj_on_of_nodup_map hx.nodup (hin hy) (hin hmem) (Option.some.inj hsame).symm

end Blocks

section Search

variable {addresses : AddressCrate} {db : Db} {network : NetworkProfile} {s : Text}
  {now : Timestamp} {chain : ChainStateRow} {result : SearchResult}

/-- A search for a hash shows what the hash names. -/
theorem search_hash_iff (hs : isHash s) (hchain : chainStateRow db network = .ok chain) :
    (∃ answer, search addresses network s db now = .ok answer ∧ answer.data = result) ↔
      named addresses network s db = .ok (some result) := by
  obtain ⟨htrim, hlen⟩ := searchable_of_isHash hs
  constructor
  · rintro ⟨answer, h, rfl⟩
    simp only [search, htrim, Result.bind_eq_ok, orNotFound_eq_ok, Except.ok.injEq] at h
    obtain ⟨_, -, chain, -, _, hnamed, found, rfl, rfl⟩ := h
    exact hnamed
  · intro hnamed
    refine ⟨envelope network result none chain now, ?_, rfl⟩
    simp only [search, htrim, Result.bind_eq_ok, orNotFound_eq_ok, Except.ok.injEq]
    exact ⟨(), by simp [ensure, hlen], chain, hchain, _, hnamed, result, rfl, rfl⟩

theorem named_block_of_height {n : Nat} (hparse : parseU64 s = some n) (hn : n ≤ i64Max)
    (hfound : (db.canonicalChain.find? (network.id, n)).isSome) :
    named addresses network s db = .ok (some (.block s)) := by
  simp only [named, hparse, requestToI64, if_pos hn]
  change Except.ok _ = _
  rw [if_pos hfound]

theorem named_of_hash (hparse : parseU64 s = none) (hs : isHash s) :
    named addresses network s db =
      .ok (if (canonicalRows db network.id).any fun c => c.blockHash = s then some (.block s)
        else if (placedInstances db network.id).any fun t => t.txid = s then some (.transaction s)
        else none) := by
  simp only [named, hparse]
  rw [if_pos hs]

theorem parse_of_named_transaction (h : named addresses network s db = .ok (some result))
    (hkind : result.kind = .transaction) : parseU64 s = none := by
  cases hparse : parseU64 s with
  | none => rfl
  | some n =>
    simp only [named, hparse, Result.bind_eq_ok, Except.ok.injEq] at h
    obtain ⟨height, -, h⟩ := h
    split at h
    · obtain rfl := Option.some.inj h
      cases hkind
    · cases h

end Search

section Transactions

variable {db : Db} {network : NetworkProfile} {networkId txid : Text} {block : Option Text}
  {x y : ChainTransaction} {now : Timestamp} {chain : ChainStateRow}

theorem mem_placementsOf : x ∈ placementsOf db networkId txid block ↔
    x ∈ chainTransactions db networkId ∧ x.stored.txid = txid ∧
      ∀ hash ∈ block, x.selector.blockHash = hash := by
  cases block <;> simp [placementsOf]

theorem latestPlacement_mem (h : latestPlacement db networkId txid block = some x) :
    x ∈ chainTransactions db networkId ∧ x.stored.txid = txid := by
  obtain ⟨hx, htxid, -⟩ := mem_placementsOf.mp (mem_orderBy.mp (List.mem_of_head? h))
  exact ⟨hx, htxid⟩

theorem latestPlacement_isSome (hx : x ∈ placementsOf db networkId txid block) :
    ∃ y, latestPlacement db networkId txid block = some y := by
  refine Option.isSome_iff_exists.mp ?_
  rw [latestPlacement, List.isSome_head?]
  intro hnil
  exact List.not_mem_nil (hnil ▸ mem_orderBy.mpr hx)

theorem transactionDetailQuery_eq_ok {row : TransactionSummaryRow}
    (h : transactionDetailQuery db networkId txid block = .ok (some row)) :
    ∃ x, latestPlacement db networkId txid block = some x ∧
      transactionSummaryRow db x = .ok row := by
  rw [transactionDetailQuery] at h
  split at h
  · rename_i x hx
    cases hrow : transactionSummaryRow db x with
    | error error =>
      rw [hrow] at h
      cases h
    | ok found =>
      rw [hrow] at h
      obtain rfl := Option.some.inj (Except.ok.inj h)
      exact ⟨x, hx, hrow⟩
  · cases h

theorem transactionSummaryRow_columns {row : TransactionSummaryRow}
    (h : transactionSummaryRow db x = .ok row) : TransactionFits db x ∧
      row.transactionInstanceId = x.stored.transactionInstanceId ∧ row.txid = x.stored.txid := by
  simp only [transactionSummaryRow, Result.bind_eq_ok, asBigint_eq_ok_iff, Except.ok.injEq] at h
  obtain ⟨_, ⟨hfits, -⟩, rfl⟩ := h
  exact ⟨hfits, rfl, rfl⟩

/-- The endpoint shows the latest placement of the id it is asked for. -/
theorem transaction_eq_ok {answer : ApiEnvelope TransactionDetail}
    (h : transaction network txid block (fun _ => db) now = .ok answer) :
    ∃ x row, latestPlacement db network.id txid block = some x ∧
      transactionSummaryRow db x = .ok row ∧
      answer.data.summary = TransactionSummary.fromRow network row := by
  simp only [transaction, Result.bind_eq_ok, orNotFound_eq_ok, Except.ok.injEq] at h
  obtain ⟨-, -, -, -, -, -, _, hquery, row, rfl, _, -, rfl⟩ := h
  obtain ⟨x, hx, hrow⟩ := transactionDetailQuery_eq_ok hquery
  exact ⟨x, row, hx, hrow, rfl⟩

theorem transaction_of_placement {row : TransactionSummaryRow} (hs : isHash txid)
    (hchain : chainStateRow db network = .ok chain)
    (hx : latestPlacement db network.id txid none = some x)
    (hrow : transactionSummaryRow db x = .ok row) :
    ∃ answer, transaction network txid none (fun _ => db) now = .ok answer ∧
      answer.data.summary = TransactionSummary.fromRow network row := by
  have hstored := (mem_chainTransactions.mp (latestPlacement_mem hx).1).stored
  obtain ⟨-, hid, -⟩ := transactionSummaryRow_columns hrow
  have hraw : storedRawRpc db row.transactionInstanceId = .ok x.stored.rawRpc := by
    rw [storedRawRpc, hid, instanceById_id hstored, hstored]
  have hquery : transactionDetailQuery db network.id txid none = .ok (some row) := by
    rw [transactionDetailQuery, hx]
    simp only [hrow, Except.map]
  refine ⟨envelope network
    { summary := TransactionSummary.fromRow network row
      inputs := inputViews db row.transactionInstanceId
      outputs := outputViews network db row.transactionInstanceId
      rawRpc := x.stored.rawRpc } none chain now, ?_, rfl⟩
  simp only [transaction, Result.bind_eq_ok, orNotFound_eq_ok, Except.ok.injEq]
  exact ⟨(), by simp [requestHash, ensure, hs], none, rfl, chain, hchain, _, hquery, row, rfl, _,
    hraw, rfl⟩

end Transactions

section Resolution

variable {lib : AuxPowCrate} {db : Db} {network : NetworkProfile} {xs : List CanonicalRow}
  {c : CanonicalRow} {x : ChainTransaction} {s : Text}

/-- A text finds a canonical block: looked up, it is the block of that row, and a search for it
leads to where it is looked up. -/
structure FindsBlock (addresses : AddressCrate) (network : NetworkProfile) (db : Db)
    (now : Timestamp) (s : Text) (c : CanonicalRow) : Prop where
  lookup : ∃ x ∈ chainBlocks db network.id, x.1 = c ∧ ∃ row, blockDetailRow db x = .ok row ∧
    findBlock network.toNetworkConfig s db = .ok row
  search : ∃ answer, search addresses network s db now = .ok answer ∧ answer.data = .block s

/-- A text finds a canonical transaction: the endpoint shows one with its id, and a search for the
text leads there. -/
structure FindsTransaction (addresses : AddressCrate) (network : NetworkProfile) (db : Db)
    (now : Timestamp) (s txid : Text) : Prop where
  lookup : ∃ y ∈ chainTransactions db network.id, y.stored.txid = txid ∧ ∃ row answer,
    transactionSummaryRow db y = .ok row ∧
    transaction network s none (fun _ => db) now = .ok answer ∧
    answer.data.summary = TransactionSummary.fromRow network row
  search : ∃ answer, search addresses network s db now = .ok answer ∧
    answer.data = .transaction s

theorem Initialized.chainStateRow (h : Initialized network.id db) :
    ∃ chain, chainStateRow db network = .ok chain := by
  obtain ⟨row, hrow⟩ := Option.isSome_iff_exists.mp h
  refine ⟨row, ?_⟩
  rw [WcashExplorer.chainStateRow, hrow]

theorem named_of_selected {addresses : AddressCrate} (hx : Selected network.id db xs)
    (hc : c ∈ canonicalRows db network.id) (hs : isHash s)
    (h : parseU64 s = some c.height ∨ (parseU64 s = none ∧ s = c.blockHash)) :
    named addresses network s db = .ok (some (.block s)) := by
  rcases h with hparse | ⟨hparse, rfl⟩
  · have hmem := hx.mem_canonicalRows.mp hc
    refine named_block_of_height hparse (hx.bounded c hmem) ?_
    obtain ⟨hrow, hn⟩ := mem_canonicalRows.mp hc
    have hfound : db.canonicalChain.find? (c.networkId, c.height) = some c :=
      Table.find?_of_mem hrow
    rw [← hn, hfound]
    rfl
  · rw [named_of_hash hparse hs, if_pos (List.any_eq_true.mpr ⟨c, hc, by simp⟩)]

theorem findsBlock_iff (hreach : Filled lib network.id db) (hc : c ∈ canonicalRows db network.id)
    (hs : isHash s) {addresses : AddressCrate} {now : Timestamp} :
    FindsBlock addresses network db now s c ↔ DetailFits db c ∧
      (parseU64 s = some c.height ∨ (parseU64 s = none ∧ s = c.blockHash)) := by
  obtain ⟨xs, hx⟩ := hreach.selected
  obtain ⟨chain, hchain⟩ := hreach.initialized.chainStateRow
  constructor
  · rintro ⟨⟨x, hmem, rfl, row, hrow, hfind⟩, -⟩
    refine ⟨(blockDetailRow_ok_iff hmem).mp ⟨row, hrow⟩, ?_⟩
    obtain ⟨y, -, hrow', hselected⟩ := findBlock_eq_ok hfind
    obtain ⟨hheight, hhash⟩ := blockDetailRow_selector hrow
    obtain ⟨hheight', hhash'⟩ := blockDetailRow_selector hrow'
    rw [← hheight', ← hhash', hheight, hhash] at hselected
    exact hselected
  · rintro ⟨hfits, hselected⟩
    rw [← chainBlocks_selectors hreach.sound] at hc
    obtain ⟨x, hmem, rfl⟩ := List.mem_map.mp hc
    obtain ⟨row, hrow⟩ := (blockDetailRow_ok_iff hmem).mpr hfits
    refine ⟨⟨x, hmem, rfl, row, hrow, findBlock_of_selected hx hmem hrow hs hselected⟩, ?_⟩
    rw [search_hash_iff hs hchain]
    exact named_of_selected hx (mem_chainBlocks.mp hmem).1 hs hselected

theorem mem_placedInstances (hx : x ∈ chainTransactions db network.id) :
    x.stored ∈ placedInstances db network.id := by
  obtain ⟨hselector, -, hplacement, hstored⟩ := mem_chainTransactions.mp hx
  exact List.mem_flatMap.mpr ⟨x.selector, hselector, List.mem_filterMap.mpr ⟨_, hplacement, hstored⟩⟩

theorem findsTransaction_iff (hreach : Filled lib network.id db)
    (hx : x ∈ chainTransactions db network.id) (hs : isHash s)
    (hblock : ∀ c ∈ canonicalRows db network.id, c.blockHash ≠ s)
    {addresses : AddressCrate} {now : Timestamp} :
    FindsTransaction addresses network db now s x.stored.txid ↔
      parseU64 s = none ∧ s = x.stored.txid ∧
        ∀ y ∈ latestPlacement db network.id x.stored.txid none, TransactionFits db y := by
  obtain ⟨chain, hchain⟩ := hreach.initialized.chainStateRow
  constructor
  · rintro ⟨⟨y, -, htxid, row, answer, hrow, hanswer, hsummary⟩, hsearch⟩
    rw [search_hash_iff hs hchain] at hsearch
    obtain ⟨z, row', hz, hrow', hsummary'⟩ := transaction_eq_ok hanswer
    have hsame : s = x.stored.txid := by
      have htexts : row.txid = row'.txid :=
        congrArg TransactionSummary.txid (hsummary.symm.trans hsummary')
      rw [(transactionSummaryRow_columns hrow).2.2, (transactionSummaryRow_columns hrow').2.2,
        htxid, (latestPlacement_mem hz).2] at htexts
      exact htexts.symm
    refine ⟨parse_of_named_transaction hsearch rfl, hsame, fun w hw => ?_⟩
    rw [← hsame] at hw
    obtain rfl := Option.some.inj (hz.symm.trans hw)
    exact (transactionSummaryRow_columns hrow').1
  · rintro ⟨hparse, rfl, hfits⟩
    obtain ⟨y, hy⟩ := latestPlacement_isSome
      (mem_placementsOf.mpr ⟨hx, rfl, fun _ hnone => absurd hnone (Option.not_mem_none _)⟩)
    obtain ⟨hmem, htxid⟩ := latestPlacement_mem hy
    have hok : ∃ row, transactionSummaryRow db y = .ok row ∧
        (TransactionSummary.fromRow network row).entry = y.entry :=
      transactionSummaryRow_ok (hfits y hy)
    obtain ⟨row, hrow, -⟩ := hok
    obtain ⟨answer, hanswer, hsummary⟩ := transaction_of_placement hs hchain hy hrow
    refine ⟨⟨y, hmem, htxid, row, answer, hrow, hanswer, hsummary⟩, ?_⟩
    rw [search_hash_iff hs hchain, named_of_hash hparse hs, if_neg ?_, if_pos ?_]
    · exact List.any_eq_true.mpr ⟨_, mem_placedInstances hx, by simp⟩
    · simpa using hblock

/-- A spelling of a hash finds its object only where it is the stored spelling and does not read as
a number, or where it reads as the height of its own block. -/
theorem spellings_resolve_iff (hreach : Filled lib network.id db) (addresses : AddressCrate)
    (now : Timestamp) :
    (∀ c ∈ canonicalRows db network.id, ∀ s, Spells s c.blockHash →
      (FindsBlock addresses network db now s c ↔ DetailFits db c ∧
        (parseU64 s = some c.height ∨ (parseU64 s = none ∧ s = c.blockHash)))) ∧
    ∀ x ∈ chainTransactions db network.id, ∀ s, Spells s x.stored.txid →
      (∀ c ∈ canonicalRows db network.id, c.blockHash ≠ s) →
        (FindsTransaction addresses network db now s x.stored.txid ↔
          parseU64 s = none ∧ s = x.stored.txid ∧
            ∀ y ∈ latestPlacement db network.id x.stored.txid none, TransactionFits db y) :=
  ⟨fun _ hc _ hs => findsBlock_iff hreach hc hs.1,
    fun _ hx _ hs hblock => findsTransaction_iff hreach hx hs.1 hblock⟩

end Resolution

section Sample

/-- Addresses are the texts that begin with a `t`. -/
def sampleAddresses : AddressCrate where
  Address := Text
  newMainnet := .error "no activation height"
  parseWcash := fun _ value => if value.head? = some 't' then some value else none
  encodeWcash := fun _ address => some address

/-- A genesis block with one transaction, and a block under a hash of letters. -/
def sampleLetters : Db :=
  (sampleIndexer 10).round (nodeEnvironment sampleNetwork
    (fun _ => [samplePaying 5, sampleBlock 1 'b' (some '0') 7]) { now := 0 })
    (initialDb sampleNetwork)

theorem sampleLetters_filled : Filled sampleCrate sampleNetwork sampleLetters :=
  (Filled.initial sampleNetwork).round rfl

theorem spellings_resolve_iff_letters :
    (∃ c ∈ canonicalRows sampleLetters sampleNetwork,
      FindsBlock sampleAddresses sampleProfile sampleLetters 0 (sampleHash 'b') c) ∧
    ∃ x ∈ chainTransactions sampleLetters sampleNetwork, FindsTransaction sampleAddresses
      sampleProfile sampleLetters 0 (sampleHash 'a') x.stored.txid := by
  have hreach : Filled sampleCrate sampleProfile.id sampleLetters := sampleLetters_filled
  obtain ⟨hblocks, htransactions⟩ := spellings_resolve_iff hreach sampleAddresses 0
  have hblock : ∃ c ∈ canonicalRows sampleLetters sampleNetwork,
      Spells (sampleHash 'b') c.blockHash ∧ BlockFits sampleLetters c ∧
      InBigint (c.height + 1) ∧ sampleHash 'b' = c.blockHash := by
    decide +kernel
  have htransaction : ∃ x ∈ chainTransactions sampleLetters sampleNetwork,
      Spells (sampleHash 'a') x.stored.txid ∧ sampleHash 'a' = x.stored.txid ∧
      ∀ y ∈ latestPlacement sampleLetters sampleNetwork (sampleHash 'a') none,
        TransactionFits sampleLetters y := by
    decide +kernel
  constructor
  · obtain ⟨c, hc, hspells, hfits, hnext, hsame⟩ := hblock
    exact ⟨c, hc, (hblocks c hc _ hspells).mpr ⟨⟨hfits, hnext⟩, Or.inr ⟨by decide, hsame⟩⟩⟩
  · obtain ⟨x, hx, hspells, hsame, hfits⟩ := htransaction
    refine ⟨x, hx, (htransactions x hx _ hspells (by decide +kernel)).mpr ⟨by decide, hsame, ?_⟩⟩
    rw [← hsame]
    exact hfits

/-- Typed in capitals, neither hash is found. -/
theorem capitals_not_found : Filled sampleCrate sampleNetwork sampleLetters ∧
    ((∃ c ∈ canonicalRows sampleLetters sampleNetwork, Spells (sampleHash 'B') c.blockHash) ∧
      (findBlock sampleProfile.toNetworkConfig (sampleHash 'B') sampleLetters).map (fun _ => ()) =
        .error .notFound ∧
      (search sampleAddresses sampleProfile (sampleHash 'B') sampleLetters 0).map (fun _ => ()) =
        .error .notFound) ∧
    (∃ x ∈ chainTransactions sampleLetters sampleNetwork, Spells (sampleHash 'A') x.stored.txid) ∧
      (transaction sampleProfile (sampleHash 'A') none (fun _ => sampleLetters) 0).map (fun _ => ()) =
        .error .notFound :=
  ⟨sampleLetters_filled, by decide +kernel, by decide +kernel⟩

end Sample

end WcashExplorer
