import WcashExplorer.Indexer.Converging

/-! One pass brings the selector to the node's chain, and the next one finds nothing to do. -/
namespace WcashExplorer

open Effects Relational

/-- The node serves a chain whose blocks pass verification and the constraints of the schema,
and state the ledger's facts. -/
structure Conforming {lib : AuxPowCrate} (ledger : Ledger) (indexer : Indexer lib)
    (answers : Answers) (chain : List NodeBlock) : Prop where
  linked : NodeChain indexer chain
  keeps : KeepsChain indexer answers chain
  verifies : ∀ b ∈ chain, Verifies indexer b
  conforms : ∀ b ∈ chain, ∀ indexed, FetchedFrom indexer answers b indexed →
    Conforms lib ledger indexer.network.id indexed

/-- Nothing is stored and no block is shared, or the stored chain and the served one share their
first `k` blocks, up to a fork point within the limit of the stored tip. -/
inductive ForkWithin (limit : Nat) (networkId : Text) (db : Db) (chain : List NodeBlock) : Nat → Prop
  | empty (nothing : canonicalRows db networkId = []) : ForkWithin limit networkId db chain 0
  | fork {tip : ChainTip} {f : Nat} (stored : canonicalTip db networkId = some tip)
      (greatest : IsGreatest {h | ∃ hash, storedHash networkId db h = some hash ∧
        (hashes chain)[h]? = some hash} f)
      (within : tip.height ≤ f + limit) : ForkWithin limit networkId db chain (f + 1)

variable {lib : AuxPowCrate} {indexer : Indexer lib} {answers : Answers} {chain : List NodeBlock}
  {ledger : Ledger} {xs : List CanonicalRow} {k limit : Nat} {networkId : Text} {tr : Trace}
  {db db' : Db} {env : Environment explorer World}

theorem Conforming.serving (h : Conforming ledger indexer answers chain)
    (hordered : ∀ b ∈ chain, OutputsOrdered b.block) : Serving ledger indexer answers chain where
  linked := h.linked
  keeps := h.keeps
  verifies := h.verifies
  acceptable := by
    intro b hb indexed hfetched
    refine ⟨h.conforms b hb indexed hfetched, ?_⟩
    rw [hfetched.block]
    exact hordered b hb

theorem ForkWithin.shared (h : ForkWithin limit networkId db chain k)
    (hx : Selected networkId db xs) : SharedPrefix limit xs chain k := by
  cases h with
  | empty nothing =>
    refine .inl ⟨?_, rfl⟩
    have hperm := hx.canonicalRows_perm
    rw [nothing] at hperm
    exact hperm.nil_eq.symm
  | @fork tip f stored greatest within =>
    refine .inr ⟨f, rfl, ?_, ?_⟩
    · have hcommon : {h | ∃ hash, storedHash networkId db h = some hash ∧
          (hashes chain)[h]? = some hash} =
          Chain.commonHeights (xs.map CanonicalRow.blockHash) (hashes chain) := by
        ext h
        simp only [Chain.commonHeights, Set.mem_ofPred_eq, hx.storedHash_eq, List.getElem?_map]
      rwa [hcommon] at greatest
    · rw [hx.canonicalTip_eq] at stored
      obtain ⟨l, hl, rfl⟩ := Option.map_eq_some_iff.mp stored
      have hlast := hx.last_height hl
      change l.height ≤ f + limit at within
      omega

/-- The selected rows from a height on. -/
theorem Selected.length_above (hx : Selected networkId db xs) :
    ((canonicalRows db networkId).filter fun r => k ≤ r.height).length = xs.length - k := by
  rw [(hx.canonicalRows_perm.filter _).length_eq, ← List.countP_eq_length_filter]
  have hcount : (xs.map CanonicalRow.height).countP (fun h => decide (k ≤ h)) = xs.length - k := by
    rw [hx.map_height]
    induction xs.length with
    | zero => simp
    | succ n ih =>
      rw [List.range_succ, List.countP_append, ih, List.countP_singleton]
      split
      · rename_i hle
        rw [decide_eq_true_iff] at hle
        omega
      · rename_i hlt
        rw [decide_eq_true_iff] at hlt
        omega
  rw [List.countP_map] at hcount
  exact hcount

/-- The node is the configured one. -/
theorem validateIdentity_succeeds (hs : Serving ledger indexer answers chain) :
    (indexer.validateIdentity indexer.expectedChain).Ensures (keepingTo lib answers)
      (Ends db (.ok ())) tr db := by
  obtain ⟨b, hat, hgenesis, -⟩ := hs.linked.genesis
  refine Ends.bind (hs.keeps.blockHash hat) fun tr => ?_
  refine ensure_bind (decide_eq_true hgenesis) ?_
  refine Prog.Ensures.ofExcept ?_
  exact ⟨rfl, ensure_eq_ok.mpr (decide_eq_true rfl)⟩

/-- A pass over a chain that shares `k` blocks with the node's ends at the node's chain. -/
theorem syncOnce_succeeds (hs : Serving ledger indexer answers chain)
    (hanswers : ∀ q, ∃ a, answers q a) (hdepth : indexer.evidenceRefreshDepth ≤ i64Max)
    (hx : Holds ledger indexer.network.id xs db)
    (hshared : SharedPrefix indexer.maxReorgDepth xs chain k) :
    indexer.syncOnce.Ensures (keepingTo lib answers) (Prog.succeeds fun outcome db' =>
      outcome = {
          indexedBlocks := chain.length - k
          indexedHeight := chain.length - 1
          nodeHeight := chain.length - 1
          reorgDepth := xs.length - k } ∧
        (xs.map CanonicalRow.blockHash = hashes chain → db'.canonicalChain = db.canonicalChain) ∧
        ∃ ys, Holds ledger indexer.network.id ys db' ∧
          ys.map CanonicalRow.blockHash = hashes chain) tr db := by
  obtain ⟨tipHash, htip, hstorable, hn⟩ := hs.tip hanswers
  have hinfo : Wcash.blockchainInfo.Ensures (keepingTo lib answers) (Ends db (.ok
      { chain := indexer.expectedChain, blocks := chain.length - 1 })) tr db := by
    intro a ha
    obtain rfl := hs.keeps.info a ha
    exact ⟨rfl, rfl⟩
  refine Ends.bind hinfo fun tr => ?_
  refine Ends.bind (hs.blockHash htip) fun tr => ?_
  refine Ends.bind (validateIdentity_succeeds hs) fun tr => ?_
  refine Ends.bind (canonicalTip_succeeds hx.selected) fun tr => ?_
  refine Prog.Ensures.bind_succeeds (observeNodeTip_succeeds hx hn hstorable) ?_
  rintro tr - db₁ ⟨hchain₁, hx₁⟩
  refine Prog.Ensures.bind_succeeds (advance_succeeds hs hanswers hx₁ rfl htip hshared) ?_
  rintro tr - db₂ ⟨rfl, hsame, ys, hx₂, hall⟩
  refine Prog.Ensures.bind_succeeds (refreshEvidence_succeeds hs hx₂ hall hdepth) ?_
  rintro tr - db₃ ⟨hchain₃, hx₃⟩
  refine (finish_succeeds hs hanswers hx₃ hall rfl hstorable).mono ?_
  rintro tr o db₄ ⟨outcome, rfl, rfl, hchain₄, hx₄⟩
  refine ⟨_, rfl, rfl, ?_, ys, hx₄, hall⟩
  intro heq
  rw [hchain₄, hchain₃, hsame heq, hchain₁]

/-- A store a single writer filled holds some chain. -/
theorem Filled.holds (h : Filled lib networkId db) (ha : ledger.AgreesWith db) :
    ∃ xs, Holds ledger networkId xs db := by
  obtain ⟨xs, hx, htip⟩ := h.reachable.soundChain
  exact ⟨xs, ha, h.sound.facts, hx, htip⟩

theorem Holds.storedHash {h : Nat} (hx : Holds ledger networkId xs db)
    (hall : xs.map CanonicalRow.blockHash = hashes chain) :
    storedHash networkId db h = (hashes chain)[h]? := by
  rw [hx.selected.storedHash_eq, ← hall, List.getElem?_map]

/-- A chain is shared with itself up to its tip. -/
theorem SharedPrefix.refl (hpos : 0 < chain.length)
    (hall : xs.map CanonicalRow.blockHash = hashes chain) :
    SharedPrefix limit xs chain chain.length := by
  have hlen := length_of_hashes hall
  refine .inr ⟨chain.length - 1, by omega, ⟨?_, ?_⟩, by omega⟩
  · obtain ⟨hash, hlast⟩ := exists_hash (by omega : chain.length - 1 < chain.length)
    exact ⟨hash, hall ▸ hlast, hlast⟩
  · intro h hh
    obtain ⟨-, hlt⟩ := Chain.commonHeights_lt hh
    rw [hashes_length] at hlt
    omega

/-- Against a node that keeps its chain, one pass from any store that a single writer filled ends
well with exactly the node's chain selected, having detached what was selected above the fork point
and indexed what the node has above it; a second pass moves nothing. -/
theorem sync_once_converges (hfilled : Filled lib indexer.network.id db)
    (hagrees : ledger.AgreesWith db) (hchain : Conforming ledger indexer answers chain)
    (hordered : ∀ b ∈ chain, OutputsOrdered b.block)
    (hdepth : indexer.evidenceRefreshDepth ≤ i64Max)
    (hfork : ForkWithin indexer.maxReorgDepth indexer.network.id db chain k)
    (hkeeps : ∀ tr q, answers q (env.answer tr q)) :
    ∃ outcome, (indexer.pass env db).2.1 = .ok outcome ∧
      outcome.reorgDepth = ((canonicalRows db indexer.network.id).filter fun r => k ≤ r.height).length ∧
      outcome.indexedBlocks = (chain.drop k).length ∧
      (∀ h, storedHash indexer.network.id (indexer.pass env db).2.2 h = (hashes chain)[h]?) ∧
      ∀ env' : Environment explorer World, (∀ tr q, answers q (env'.answer tr q)) →
        ∃ outcome', (indexer.pass env' (indexer.pass env db).2.2).2.1 = .ok outcome' ∧
          (indexer.pass env' (indexer.pass env db).2.2).2.2.canonicalChain =
            (indexer.pass env db).2.2.canonicalChain ∧
          outcome'.reorgDepth = 0 ∧ outcome'.indexedBlocks = 0 := by
  have hs := hchain.serving hordered
  have hanswers : ∀ q, ∃ a, answers q a := fun q => ⟨_, hkeeps [] q⟩
  obtain ⟨xs, hx⟩ := hfilled.holds hagrees
  obtain ⟨outcome, hok, rfl, -, ys, hy, hall⟩ :=
    (syncOnce_succeeds hs hanswers hdepth hx (hfork.shared hx.selected)).runWith hkeeps
  refine ⟨_, hok, hx.selected.length_above.symm, List.length_drop.symm,
    fun h => hy.storedHash hall, ?_⟩
  intro env' hkeeps'
  obtain ⟨outcome', hok', rfl, hsame, -⟩ :=
    (syncOnce_succeeds hs hanswers hdepth hy (.refl hs.linked.length_pos hall)).runWith hkeeps'
  refine ⟨_, hok', hsame hall, ?_, Nat.sub_self _⟩
  have hlen := length_of_hashes hall
  change ys.length - chain.length = 0
  omega

section Sample

def sampleRefreshing (depth : Nat) : Indexer sampleCrate :=
  { sampleIndexer 10 with evidenceRefreshDepth := depth }

/-- The answers of a sample node with one chain. -/
def chainAnswers (chain : List NodeBlock) : Answers := fun q a => a = nodeAnswer sampleNetwork chain 0 q

/-- A sample block as it is materialized. -/
def materialized (b : NodeBlock) : Result IndexedBlock := do
  let rawBlock ← decodeHexBounded "raw block" b.encoded (maxRpcResponseBytes / 2)
  let evidence ← localEvidence sampleCrate (sampleIndexer 10).auxpow b.block rawBlock
  .ok
    { block := b.block
      auxpow := evidence.map fun (proofBytes, proof, coinbase) =>
        verifiedAuxPow sampleCrate rawBlock proofBytes proof coinbase (.bestChain 1) []
      fetchedAt := 0
      rawBlock
      raw := b.raw }

/-- Hash, witness and facts of a sample block. -/
def sampleEntry (b : NodeBlock) : Result (Text × Text × BlockFacts) := do
  let indexed ← materialized b
  let facts ← blockFacts sampleCrate sampleNetwork indexed
  .ok (indexed.block.hash, witnessHash sampleCrate indexed, facts)

def sampleEntries (blocks : List NodeBlock) : List (Text × Text × BlockFacts) :=
  blocks.filterMap fun b => (sampleEntry b).toOption

/-- A materialized block without observations passes the constraints of its tables. -/
def fitsTables (indexed : IndexedBlock) : Bool :=
  (blockFacts sampleCrate sampleNetwork indexed).toOption.any (fun facts =>
    decide (facts.transactions.map fun f => f.columns.key).Nodup) &&
  (blockWitnessRow sampleCrate indexed).toOption.any BlockWitnessRow.valid &&
  indexed.block.valuePools.all (fun pool => pool.id.storable) &&
  indexed.auxpow.all fun aux => aux.parentObservations.isEmpty &&
    (auxpowLinkRow indexed.block.hash (witnessHash sampleCrate indexed) indexed.fetchedAt
      aux).toOption.any AuxpowLinkRow.valid

/-- The chain is one of the sample network, its blocks pass, and nothing is listed twice. -/
def sampleChecks (chain others : List NodeBlock) : Bool :=
  chain.map (fun b => b.block.height) = List.range chain.length &&
  chain.map (fun b => b.block.previousblockhash) = none :: (hashes chain).dropLast.map some &&
  (hashes chain).head? = some (sampleHash '0') &&
  decide (hashes chain).Nodup &&
  chain.all (fun b => isHash b.block.hash && (materialized b).toOption.any fitsTables) &&
  decide ((sampleEntries (chain ++ others)).map fun e => e.1).Nodup &&
  decide (((sampleEntries (chain ++ others)).flatMap fun e => e.2.2.transactions).map
    fun f => f.columns.key).Nodup

theorem toOption_any {α : Type} {r : Result α} {p : α → Bool} (h : r.toOption.any p = true) :
    ∃ a, r = .ok a ∧ p a = true := by
  cases r with
  | ok a => exact ⟨a, rfl, h⟩
  | error e => cases h

variable {others : List NodeBlock} {b : NodeBlock} {d : Nat} {indexed : IndexedBlock}

theorem fits_of_fitsTables (h : fitsTables indexed = true) :
    ∃ facts, Fits sampleCrate sampleNetwork indexed facts := by
  simp only [fitsTables, Bool.and_eq_true, List.all_eq_true, Option.all_eq_true] at h
  obtain ⟨⟨⟨hfacts, hwitness⟩, hpools⟩, hevidence⟩ := h
  obtain ⟨facts, hstated, hnodup⟩ := toOption_any hfacts
  refine ⟨facts, hstated, of_decide_eq_true hnodup, toOption_any hwitness, hpools, ?_, ?_⟩
  · intro aux haux
    exact toOption_any (hevidence aux haux).2
  · intro aux haux o ho
    have hnone := List.isEmpty_iff.mp (hevidence aux haux).1
    rw [hnone] at ho
    cases ho

/-- What a sample node's block is fetched as, but for the time. -/
theorem FetchedFrom.materialized
    (h : FetchedFrom (sampleRefreshing d) (chainAnswers chain) b indexed)
    (hk : KeepsChain (sampleRefreshing d) (chainAnswers chain) chain) (hb : b ∈ chain) :
    ∃ made, WcashExplorer.materialized b = .ok made ∧
      indexed = { made with fetchedAt := indexed.fetchedAt } := by
  obtain ⟨block, auxpow, fetchedAt, rawBlock, raw⟩ := indexed
  obtain ⟨hblock, hraw, hrawBlock, hevidence⟩ := h
  obtain rfl : block = b.block := hblock
  obtain rfl : raw = b.raw := hraw
  change EvidenceFrom _ _ b.block rawBlock auxpow at hevidence
  simp only [WcashExplorer.materialized, Result.bind_eq_ok]
  cases hevidence with
  | native found => exact ⟨_, ⟨rawBlock, hrawBlock, none, found, rfl⟩, rfl⟩
  | @verified proofBytes coinbase proof status observations found answered observed =>
    obtain rfl : observations = [] := by
      refine List.eq_nil_iff_forall_not_mem.mpr ?_
      intro o ho
      have hsource := (observed o ho).source
      cases hsource
    obtain rfl : status = .bestChain 1 := by
      obtain ⟨n, hn⟩ := hk.status b hb _ answered
      obtain rfl := Except.ok.inj hn
      have hnode : Except.ok (.bestChain n) = nodeAnswer sampleNetwork chain 0
          (.auxBlockStatus b.block.hash b.block.solution) := answered
      rw [nodeAnswer] at hnode
      split at hnode
      · exact Except.ok.inj hnode
      · cases hnode
    exact ⟨_, ⟨rawBlock, hrawBlock, some (proofBytes, proof, coinbase), found, rfl⟩, rfl⟩

/-- A sample chain that passes the checks conforms to the ledger of its blocks and of others. -/
theorem sampleChecks_conforming (h : sampleChecks chain others = true) :
    Conforming (Ledger.ofBlocks (sampleEntries (chain ++ others))) (sampleRefreshing d)
      (chainAnswers chain) chain := by
  simp only [sampleChecks, Bool.and_eq_true, decide_eq_true_eq, List.all_eq_true] at h
  obtain ⟨⟨⟨⟨⟨⟨hheights, hprevious⟩, hgenesis⟩, hhashes⟩, hblocks⟩, hnodup⟩, hinstances⟩ := h
  have hk : KeepsChain (sampleRefreshing d) (chainAnswers chain) chain :=
    KeepsChain.ofNode (fun q a ha => ha) hhashes
  refine ⟨⟨?_, ?_, ?_⟩, hk, ?_, ?_⟩
  · intro h b hat
    have hheight := congrArg (fun heights => heights[h]?) hheights
    simp only [List.getElem?_map, hat, Option.map_some] at hheight
    obtain ⟨hlt, hvalue⟩ := List.getElem?_eq_some_iff.mp hheight.symm
    rw [List.getElem_range] at hvalue
    exact hvalue.symm
  · cases chain with
    | nil => cases hprevious
    | cons b rest =>
      refine ⟨b, rfl, Option.some.inj hgenesis, .inl ?_⟩
      exact (List.cons.inj hprevious).1
  · intro h a b ha hb
    have hnext := congrArg (fun previous => previous[h + 1]?) hprevious
    simp only [List.getElem?_map, hb, Option.map_some, List.getElem?_cons_succ,
      List.getElem?_dropLast, hashes_length] at hnext
    obtain ⟨hlt, -⟩ := List.getElem?_eq_some_iff.mp hb
    rw [if_pos (by omega), hashes_getElem?, ha] at hnext
    exact Option.some.inj hnext
  · intro b hb
    obtain ⟨hhash, hfits⟩ := hblocks b hb
    obtain ⟨made, hmade, -⟩ := toOption_any hfits
    simp only [WcashExplorer.materialized, Result.bind_eq_ok] at hmade
    obtain ⟨rawBlock, hraw, evidence, hfound, -⟩ := hmade
    exact ⟨hhash, rawBlock, hraw, evidence, hfound⟩
  · intro b hb indexed hfetched
    obtain ⟨made, hmade, hindexed⟩ := hfetched.materialized hk hb
    obtain ⟨made', hmade', hfits⟩ := toOption_any (hblocks b hb).2
    obtain rfl := Except.ok.inj (hmade.symm.trans hmade')
    obtain ⟨facts, hfits⟩ := fits_of_fitsTables hfits
    have hentry : sampleEntry b = .ok (made.block.hash, witnessHash sampleCrate made, facts) := by
      simp only [sampleEntry, Result.bind_eq_ok]
      exact ⟨made, hmade, facts, hfits.stated, rfl⟩
    have hmem : (made.block.hash, witnessHash sampleCrate made, facts) ∈
        sampleEntries (chain ++ others) := by
      refine List.mem_filterMap.mpr ⟨b, List.mem_append_left _ hb, ?_⟩
      rw [hentry]
      rfl
    rw [hindexed]
    exact ⟨facts, hfits.fetchedAt _, Ledger.ofBlocks_describes hnodup hinstances hmem⟩

/-- A store has no transactions, and its headers are those the sample blocks state. -/
def headersListed (blocks : List NodeBlock) (db : Db) : Bool :=
  db.transactionInstances.rows.isEmpty && db.blockTransactions.rows.isEmpty &&
  db.blocks.rows.all fun r => ((Ledger.ofBlocks (sampleEntries blocks)).header r.blockHash).any
    fun stated => stated.blockHash = r.blockHash && immutableBlockMatches stated r

/-- The header a ledger of sample blocks has is one that was compared. -/
theorem sampleEntries_compared {blocks : List NodeBlock} {hash : Text} {stated : BlockRow}
    (h : (Ledger.ofBlocks (sampleEntries blocks)).header hash = some stated) :
    stated.compared = stated := by
  obtain ⟨entry, hfind, rfl⟩ := Option.map_eq_some_iff.mp h
  obtain ⟨b, -, hb⟩ := List.mem_filterMap.mp (List.mem_of_find?_eq_some hfind)
  cases hentry : sampleEntry b with
  | error e =>
    rw [hentry] at hb
    cases hb
  | ok entry' =>
    rw [hentry] at hb
    obtain rfl := Option.some.inj hb
    simp only [sampleEntry, Result.bind_eq_ok] at hentry
    obtain ⟨made, -, facts, hfacts, hentry⟩ := hentry
    obtain rfl := Except.ok.inj hentry
    obtain ⟨row, -, -, hheader, -⟩ := blockFacts_ok hfacts
    change facts.header.compared = facts.header
    rw [hheader]
    rfl

/-- A store without transactions agrees with a ledger that has its headers. -/
theorem agreesWith_of_headersListed {blocks : List NodeBlock} (h : headersListed blocks db = true) :
    (Ledger.ofBlocks (sampleEntries blocks)).AgreesWith db := by
  simp only [headersListed, Bool.and_eq_true, List.isEmpty_iff] at h
  obtain ⟨⟨hinstances, hplacements⟩, hheaders⟩ := h
  refine ⟨?_, by simp [hinstances], by simp [hplacements]⟩
  intro r hr
  obtain ⟨stated, hstated, hmatches⟩ := (Option.any_eq_true _ _).mp (List.all_eq_true.mp hheaders r hr)
  simp only [Bool.and_eq_true, decide_eq_true_eq] at hmatches
  have hcompared := (immutableBlockMatches_iff hmatches.1).mp hmatches.2
  rw [hstated, ← hcompared, sampleEntries_compared hstated]

/-- The store has the blocks named `3` and `4` above the first, where the node has `2`. -/
theorem sync_once_converges_reorganized : ∃ outcome,
    ((sampleIndexer 10).pass (steadyNode ['1', '2']) (sampleDb [['1', '3', '4']])).2.1 = .ok outcome ∧
      outcome.reorgDepth = 2 ∧ outcome.indexedBlocks = 1 ∧
      ∀ h, storedHash sampleNetwork ((sampleIndexer 10).pass (steadyNode ['1', '2'])
        (sampleDb [['1', '3', '4']])).2.2 h =
          [sampleHash '0', sampleHash '1', sampleHash '2'][h]? := by
  let others := (sampleChain ['1', '3', '4']).drop 2
  have hfilled : Filled sampleCrate sampleNetwork (sampleDb [['1', '3', '4']]) :=
    (Filled.initial sampleNetwork).round rfl
  have hchecks : sampleChecks (sampleChain ['1', '2']) others = true := by decide +kernel
  have hchain : Conforming _ (sampleRefreshing 10) _ _ := sampleChecks_conforming hchecks
  have hlisted : headersListed (sampleChain ['1', '2'] ++ others)
      (sampleDb [['1', '3', '4']]) = true := by decide +kernel
  have hagrees := agreesWith_of_headersListed hlisted
  have hordered : ∀ b ∈ sampleChain ['1', '2'], OutputsOrdered b.block := by
    unfold OutputsOrdered
    decide +kernel
  have hdepth : (sampleRefreshing 10).evidenceRefreshDepth ≤ i64Max := by decide +kernel
  have hhashes : hashes (sampleChain ['1', '2']) =
      [sampleHash '0', sampleHash '1', sampleHash '2'] := by decide +kernel
  have hfork : ForkWithin 10 sampleNetwork (sampleDb [['1', '3', '4']]) (sampleChain ['1', '2']) 2 := by
    have hwithin : (canonicalTip (sampleDb [['1', '3', '4']]) sampleNetwork).any
        (fun tip => tip.height ≤ 11) = true := by decide +kernel
    obtain ⟨tip, htip, hheight⟩ := (Option.any_eq_true _ _).mp hwithin
    refine .fork htip ⟨⟨sampleHash '1', by decide +kernel, by decide +kernel⟩, ?_⟩
      (of_decide_eq_true hheight)
    rintro h ⟨hash, hstored, hserved⟩
    obtain ⟨hlt, -⟩ := List.getElem?_eq_some_iff.mp hserved
    have hdiffer : storedHash sampleNetwork (sampleDb [['1', '3', '4']]) 2 ≠
        (hashes (sampleChain ['1', '2']))[2]? := by decide +kernel
    rw [hhashes] at hlt
    simp only [List.length_cons, List.length_nil] at hlt
    by_contra hgt
    obtain rfl : h = 2 := by omega
    exact hdiffer (hstored.trans hserved.symm)
  have hkeeps : ∀ tr q, chainAnswers (sampleChain ['1', '2']) q
      ((steadyNode ['1', '2']).answer tr q) := fun tr q => rfl
  obtain ⟨outcome, hok, hreorg, hindexed, hstored, -⟩ :=
    sync_once_converges hfilled hagrees hchain hordered hdepth hfork hkeeps
  have hsame : sampleRefreshing 10 = sampleIndexer 10 := rfl
  rw [hsame] at hok hstored
  rw [hhashes] at hstored
  refine ⟨outcome, hok, ?_, ?_, hstored⟩
  · rw [hreorg]
    decide +kernel
  · rw [hindexed]
    decide +kernel

/-- Every pass ends well against a conforming node, if its indexer and its chain have a property. -/
def PassesEndWell (P : Indexer sampleCrate → List NodeBlock → Prop) : Prop :=
  ∀ (indexer : Indexer sampleCrate) (ledger : Ledger) (answers : Answers) (chain : List NodeBlock)
    (db : Db) (k : Nat) (env : Environment explorer World), P indexer chain →
    Filled sampleCrate indexer.network.id db → ledger.AgreesWith db →
    Conforming ledger indexer answers chain →
    ForkWithin indexer.maxReorgDepth indexer.network.id db chain k →
    (∀ tr q, answers q (env.answer tr q)) → ∃ outcome, (indexer.pass env db).2.1 = .ok outcome

/-- A genesis block whose transaction lists its outputs against the order of their numbers. -/
def sampleUnordered : NodeBlock :=
  let output (n : Nat) : RpcOutput := { n, valueZat := 5, scriptPubKey := {} }
  let b := sampleBlock 0 '0' none 0
  { b with block := { b.block with
      tx := [{ sampleTransaction [sampleCoinbase] with vout := [output 1, output 0] }] } }

/-- A first pass over one block does not end well where the run against it shows an error. -/
theorem not_passesEndWell {P : Indexer sampleCrate → List NodeBlock → Prop}
    (hP : P (sampleRefreshing d) [b]) (hchecks : sampleChecks [b] [] = true)
    (hfails : ((sampleRefreshing d).pass (nodeEnvironment sampleNetwork (fun _ => [b])
      { now := 0 }) (initialDb sampleNetwork)).2.1.isOk = false) : ¬ PassesEndWell P := by
  intro h
  have hagrees : (Ledger.ofBlocks (sampleEntries ([b] ++ []))).AgreesWith (initialDb sampleNetwork) :=
    agreesWith_of_headersListed rfl
  obtain ⟨outcome, hok⟩ := h (sampleRefreshing d) _ _ [b] (initialDb sampleNetwork) 0
    (nodeEnvironment sampleNetwork (fun _ => [b]) { now := 0 }) hP (Filled.initial sampleNetwork)
    hagrees (sampleChecks_conforming hchecks) (.empty rfl) fun tr q => rfl
  rw [hok] at hfails
  cases hfails

/-- A refresh depth beyond the range of the height columns fails the pass, and so do outputs that
are not listed in the order they are read back in. -/
theorem sync_once_fails :
    ¬ PassesEndWell (fun _ chain => ∀ b ∈ chain, OutputsOrdered b.block) ∧
    ¬ PassesEndWell (fun indexer _ => indexer.evidenceRefreshDepth ≤ i64Max) := by
  constructor
  · refine not_passesEndWell (b := sampleBlock 0 '0' none 0) (d := 2 ^ 63) ?_ ?_ ?_
    · unfold OutputsOrdered
      decide +kernel
    · decide +kernel
    · decide +kernel
  · refine not_passesEndWell (b := sampleUnordered) (d := 10) ?_ ?_ ?_ <;> decide +kernel

end Sample

end WcashExplorer
