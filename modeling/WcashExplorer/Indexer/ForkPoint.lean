import WcashExplorer.Chain.Fork
import WcashExplorer.Indexer.Overlap

/-! The backward search against a node that keeps its chain: it ends at the fork point. -/
namespace WcashExplorer

open Effects Relational

variable {lib : AuxPowCrate} {self : Indexer lib} {C : Contract explorer Db World} {tr : Trace}
  {db db' : Db} {xs ys : List Text} {networkId hash : Text} {examined height f : Nat}

/-- The hashes selected for a network, without a gap from height zero. -/
structure StoredChain (networkId : Text) (db : Db) (xs : List Text) : Prop where
  represents : ∀ h, storedHash networkId db h = xs[h]?
  bounded : xs.length ≤ i64Max + 1

/-- Asked for the block at a height of the chain, the node answers with the chain's. -/
def Serves (allow : (q : RpcCall) → q.Answer → Prop) (ys : List Text) : Prop :=
  ∀ h hash a, ys[h]? = some hash → allow (.blockHash h) a → a = .ok hash

/-- The program ends with an outcome and leaves the store alone. -/
def Ends {α : Type} (db : Db) (o : Result α) : Post explorer Db World α :=
  fun _ o' db' => db' = db ∧ o' = o

/-- A program that ends well hands its result on. -/
theorem Ends.bind {α β : Type} {p : Action α} {g : α → Action β} {a : α}
    {R : Post explorer Db World β} (h : p.Ensures C (Ends db (.ok a)) tr db)
    (hg : ∀ tr', (g a).Ensures C R tr' db) : (p >>= g).Ensures C R tr db := by
  refine Prog.Ensures.bind h ?_ ?_
  · rintro tr' b s ⟨rfl, ho⟩
    obtain rfl := Except.ok.inj ho
    exact hg tr'
  · rintro tr' e s ⟨-, ho⟩
    cases ho

/-- A failure is the failure of what follows. -/
theorem Ends.bind_error {α β : Type} {p : Action α} {g : α → Action β} {e : ExplorerError}
    (h : p.Ensures C (Ends db (.error e)) tr db) :
    (p >>= g).Ensures C (Ends db (.error e)) tr db := by
  refine Prog.Ensures.bind h ?_ ?_
  · rintro tr' b s ⟨-, ho⟩
    cases ho
  · rintro tr' e' s ⟨rfl, ho⟩
    obtain rfl := Except.error.inj ho
    exact ⟨rfl, rfl⟩

/-- The failure of a search that went too deep. -/
def depthError (d : Nat) : ExplorerError :=
  .notReady s!"chain divergence exceeds MAX_REORG_DEPTH ({d})"

def genesisError : ExplorerError := .config "stored and node genesis blocks differ"

theorem canonicalHash_eq (h : height ≤ i64Max) :
    canonicalHash db networkId height = .ok (storedHash networkId db height) := by
  rw [canonicalHash, toI64, if_pos h]
  rfl

/-- Beyond the limit a height is not examined. -/
theorem examineHeight_tooDeep (hd : self.maxReorgDepth < examined) :
    (self.examineHeight examined height).Ensures C
      (Ends db (.error (depthError self.maxReorgDepth))) tr db := by
  have hguard : ensure (examined ≤ self.maxReorgDepth)
      (depthError self.maxReorgDepth) = .error (depthError self.maxReorgDepth) := by
    rw [ensure, decide_eq_false (by omega)]
    rfl
  rw [depthError] at hguard
  rw [Indexer.examineHeight, hguard]
  exact ⟨rfl, rfl⟩

/-- Within the limit the two hashes of a height are compared. -/
theorem examineHeight_served (tr : Trace) (hexec : C.exec = exec lib)
    (hc : ∀ tr db h, C.check tr db (.canonicalHash self.network.id h))
    (hstored : StoredChain self.network.id db xs) (hserves : Serves C.allow ys)
    (hd : examined ≤ self.maxReorgDepth) (hx : height < xs.length) (hy : ys[height]? = some hash) :
    (self.examineHeight examined height).Ensures C
      (Ends db (.ok (if xs[height]? = some hash then some (height, hash) else none))) tr db := by
  have hle : height ≤ i64Max := by
    have := hstored.bounded
    omega
  have hguard : ∀ e, ensure (examined ≤ self.maxReorgDepth) e = .ok () := by
    intro e
    rw [ensure, decide_eq_true hd]
    rfl
  rw [Indexer.examineHeight, hguard]
  refine Prog.ensures_bind.mpr (Prog.ensures_bind.mpr (Prog.Ensures.txn (hc _ _ _) ?_ ?_))
  · intro w stored db' hread
    rw [hexec] at hread
    obtain ⟨hread, rfl⟩ := reading_ok.mp hread
    rw [canonicalHash_eq hle] at hread
    obtain rfl := Except.ok.inj hread
    intro a ha
    obtain rfl := hserves height hash a hy ha
    rw [hstored.represents]
    exact ⟨rfl, rfl⟩
  · intro w e hread
    rw [hexec] at hread
    have hok : exec lib w (.canonicalHash self.network.id height) db =
        .ok (storedHash self.network.id db height, db) := reading_ok.mpr ⟨canonicalHash_eq hle, rfl⟩
    cases hok.symm.trans hread

/-- The chains have the same hash at a height exactly where it is common. -/
theorem mem_commonHeights_iff (hy : ys[height]? = some hash) :
    height ∈ Chain.commonHeights xs ys ↔ xs[height]? = some hash := by
  constructor
  · rintro ⟨a, hxa, hya⟩
    rw [hxa, ← hya, hy]
  · intro hx
    exact ⟨hash, hx, hy⟩

section Search

variable (hexec : C.exec = exec lib)
  (hc : ∀ tr db h, C.check tr db (.canonicalHash self.network.id h))
  (hstored : StoredChain self.network.id db xs) (hserves : Serves C.allow ys)

include hexec hc hstored hserves

/-- The search ends at the highest common height, where the limit lets it go down to there. -/
theorem searchAncestor_common (hx : height < xs.length) (hy : height < ys.length)
    (hf : ys[f]? = some hash) (hcommon : f ∈ Chain.commonHeights xs ys) (hle : f ≤ height)
    (hdiffer : ∀ k, f < k → k ≤ height → k ∉ Chain.commonHeights xs ys)
    (hd : examined + (height - f) ≤ self.maxReorgDepth) :
    (self.searchAncestor examined height).Ensures C (Ends db (.ok (f, hash))) tr db := by
  induction height generalizing examined tr with
  | zero =>
    obtain rfl : f = 0 := by omega
    have hexamine := examineHeight_served tr hexec hc hstored hserves
      (by omega : examined ≤ self.maxReorgDepth) hx hf
    rw [if_pos ((mem_commonHeights_iff hf).mp hcommon)] at hexamine
    exact Ends.bind hexamine fun _ => ⟨rfl, rfl⟩
  | succ height ih =>
    have hhash : ys[height + 1]? = some ys[height + 1] := List.getElem?_eq_getElem hy
    have hexamine := examineHeight_served tr hexec hc hstored hserves
      (by omega : examined ≤ self.maxReorgDepth) hx hhash
    by_cases htop : f = height + 1
    · subst htop
      obtain rfl := Option.some.inj (hf.symm.trans hhash)
      rw [if_pos ((mem_commonHeights_iff hf).mp hcommon)] at hexamine
      exact Ends.bind hexamine fun _ => ⟨rfl, rfl⟩
    · have habove := hdiffer (height + 1) (by omega) (Nat.le_refl _)
      rw [if_neg fun h => habove ((mem_commonHeights_iff hhash).mpr h)] at hexamine
      refine Ends.bind hexamine fun _ => ih (by omega) (by omega) (by omega) ?_ (by omega)
      intro k hk hkh
      exact hdiffer k hk (by omega)

/-- The search fails where every common height lies beyond the limit and the genesis does, too. -/
theorem searchAncestor_tooDeep (hx : height < xs.length) (hy : height < ys.length)
    (hdeep : ∀ k ∈ Chain.commonHeights xs ys, k ≤ height →
      self.maxReorgDepth < examined + (height - k))
    (hd : self.maxReorgDepth < examined + height) :
    (self.searchAncestor examined height).Ensures C
      (Ends db (.error (depthError self.maxReorgDepth))) tr db := by
  induction height generalizing examined tr with
  | zero => exact Ends.bind_error (examineHeight_tooDeep (by omega))
  | succ height ih =>
    by_cases hlimit : examined ≤ self.maxReorgDepth
    · have hhash : ys[height + 1]? = some ys[height + 1] := List.getElem?_eq_getElem hy
      have hexamine := examineHeight_served tr hexec hc hstored hserves hlimit hx hhash
      have hne : xs[height + 1]? ≠ some ys[height + 1] := by
        intro h
        have := hdeep (height + 1) ((mem_commonHeights_iff hhash).mpr h) (Nat.le_refl _)
        omega
      rw [if_neg hne] at hexamine
      refine Ends.bind hexamine fun _ => ih (by omega) (by omega) ?_ (by omega)
      intro k hk hkh
      have := hdeep k hk (by omega)
      omega
    · exact Ends.bind_error (examineHeight_tooDeep (by omega))

/-- The search fails at height zero where the limit lets it go there and nothing is common. -/
theorem searchAncestor_genesis (hx : height < xs.length) (hy : height < ys.length)
    (hdisjoint : ∀ k, k ∉ Chain.commonHeights xs ys)
    (hd : examined + height ≤ self.maxReorgDepth) :
    (self.searchAncestor examined height).Ensures C (Ends db (.error genesisError)) tr db := by
  induction height generalizing examined tr with
  | zero =>
    have hhash : ys[0]? = some ys[0] := List.getElem?_eq_getElem hy
    have hexamine := examineHeight_served tr hexec hc hstored hserves
      (by omega : examined ≤ self.maxReorgDepth) hx hhash
    rw [if_neg fun h => hdisjoint 0 ((mem_commonHeights_iff hhash).mpr h)] at hexamine
    exact Ends.bind hexamine fun _ => ⟨rfl, rfl⟩
  | succ height ih =>
    have hhash : ys[height + 1]? = some ys[height + 1] := List.getElem?_eq_getElem hy
    have hexamine := examineHeight_served tr hexec hc hstored hserves
      (by omega : examined ≤ self.maxReorgDepth) hx hhash
    rw [if_neg fun h => hdisjoint (height + 1) ((mem_commonHeights_iff hhash).mpr h)] at hexamine
    exact Ends.bind hexamine fun _ => ih (by omega) (by omega) (by omega)

end Search

section Genesis

variable {row : CanonicalRow}

/-- The row selected at height zero. -/
def GenesisRow (networkId : Text) (row : CanonicalRow) (db : Db) : Prop :=
  db.canonicalChain.find? (networkId, 0) = some row

theorem GenesisRow.of_eq (h : GenesisRow networkId row db)
    (heq : db'.canonicalChain = db.canonicalChain) : GenesisRow networkId row db' := by
  rw [GenesisRow, heq]
  exact h

theorem GenesisRow.insertCanonicalSelector {n : Text} {indexed : IndexedBlock}
    (h : GenesisRow networkId row db) (hok : insertCanonicalSelector lib n indexed db = .ok db') :
    GenesisRow networkId row db' := by
  obtain ⟨-, ⟨-, rfl⟩ | ⟨-, -, rfl⟩⟩ := insertCanonicalSelector_ok hok
  · exact h
  · exact Table.find?_insertNew_of_find? h

theorem GenesisRow.insertSelectors {n : Text} {blocks : List IndexedBlock}
    (h : GenesisRow networkId row db) (hok : insertSelectors lib n blocks db = .ok db') :
    GenesisRow networkId row db' := by
  induction blocks generalizing db with
  | nil =>
    cases hok
    exact h
  | cons indexed rest ih =>
    simp only [WcashExplorer.insertSelectors, Result.bind_eq_ok] at hok
    obtain ⟨db₁, hselect, hrest⟩ := hok
    exact ih (h.insertCanonicalSelector hselect) hrest

/-- Only rows above an ancestor are detached, and none of them is the genesis row. -/
theorem GenesisRow.detach {n : Text} (a : Nat) (h : GenesisRow networkId row db) :
    GenesisRow networkId row (detach n (some a) db) := by
  have hheight : row.height = 0 := congrArg Prod.snd (Table.key_of_find? h)
  rw [GenesisRow, WcashExplorer.detach, Table.find?_deleteWhere, h]
  simp [hheight]

/-- No transaction of a writer removes a genesis row. -/
theorem GenesisRow.exec {w : World} {t : DbCall} {r : t.Result} (h : GenesisRow networkId row db)
    (ht : t.keepsGenesis) (hexec : exec lib w t db = .ok (r, db')) :
    GenesisRow networkId row db' := by
  have hstatus : StatusOnly db db' → GenesisRow networkId row db' := by
    rintro ⟨_, _, _, -, rfl⟩
    exact h.of_eq rfl
  cases t with
  | canonicalTip n => exact (reading_ok.mp hexec).2 ▸ h
  | canonicalHash n height => exact (reading_ok.mp hexec).2 ▸ h
  | evidenceRefreshCandidate n depth => exact (reading_ok.mp hexec).2 ▸ h
  | commitBlock n indexed =>
    obtain ⟨db₁, db₂, hins, hsel, -, rfl⟩ := commitBlock_ok (writing_ok.mp hexec)
    have h₁ := h.of_eq (insertBlock_inserts hins).canonicalChain
    exact (h₁.insertCanonicalSelector hsel).of_eq rfl
  | refreshBlockEvidence n indexed =>
    exact h.of_eq (insertBlock_inserts (writing_ok.mp hexec)).canonicalChain
  | replaceCanonicalBranch n oldTip ancestor blocks =>
    obtain ⟨a, rfl⟩ := Option.isSome_iff_exists.mp ht
    obtain ⟨db₁, db₂, -, -, -, hins, hsel, rfl⟩ := replaceCanonicalBranch_ok (writing_ok.mp hexec)
    have h₁ := h.of_eq (insertBlocks_recorded hins).1.canonicalChain
    refine GenesisRow.of_eq (GenesisRow.insertSelectors ?_ hsel) rfl
    exact GenesisRow.detach a.1 (h₁.of_eq rfl)
  | observeNodeTip n height hash => exact hstatus (observeNodeTip_ok (writing_ok.mp hexec))
  | updateNodeTip n height hash status error => exact hstatus (updateNodeTip_ok (writing_ok.mp hexec))
  | markIndexerError n error => exact hstatus (markIndexerError_ok (writing_ok.mp hexec))

/-- However writers are interleaved, a genesis row stays selected. -/
theorem genesis_stays {ι : Type} [DecidableEq ι] {writers : ι → Indexer lib} {rounds : ι → Nat}
    {rest : ι → Action Unit} {log : List (ι × Event explorer World)}
    {guard : Db → Event explorer World → Prop}
    (run : Effects.Interleaved (exec lib) guard (fun i => (writers i).rounds (rounds i), db) log
      (rest, db'))
    (h : GenesisRow networkId row db) : GenesisRow networkId row db' := by
  refine run.invariant (P := DbCall.keepsGenesis) ?_ ?_ h
  · intro i
    exact (rounds_issues (rounds i)).mono fun _ ht => ht.2
  · intro w t r s s' ht _ hexec hs
    exact hs.exec ht hexec

end Genesis

/-- A search never comes back without an ancestor, whatever the node answers. -/
theorem findCommonAncestor_ne_none (storedTip : ChainTip) (n : Nat)
    (env : Environment explorer World) (tr : Trace) (db : Db) :
    ((self.findCommonAncestor storedTip n).runWith (exec lib) env tr db).2.1 ≠ .ok none := by
  rw [Indexer.findCommonAncestor, Prog.runWith_bind]
  split
  · intro h
    cases h
  · intro h
    cases h

/-- The outcome of a search on a store against a node. -/
def Indexer.search (self : Indexer lib) (env : Environment explorer World) (db : Db)
    (storedTip : ChainTip) (nodeHeight : Nat) : Result (Option (Nat × Text)) :=
  ((self.findCommonAncestor storedTip nodeHeight).runWith (exec lib) env [] db).2.1

section Claim

variable {p : Text → Option Text} {storedTip : ChainTip} {n : Nat} {env : Environment explorer World}

/-- What the search ensures, its run against the environment yields. -/
theorem search_eq {o : Result (Nat × Text)}
    (h : (self.searchAncestor 0 (min storedTip.height n)).Ensures (env.contract (exec lib))
      (Ends db o) [] db) : self.search env db storedTip n = o.map some := by
  have hrun := (h.against).2
  rw [Indexer.search, Indexer.findCommonAncestor, Prog.runWith_bind]
  split
  · rename_i hsplit
    rw [hsplit] at hrun
    rw [← hrun]
    rfl
  · rename_i hsplit
    rw [hsplit] at hrun
    rw [← hrun]
    rfl

/-- Over a gap-free store and a node that keeps its chain, both hash-linked over one parent map,
the search ends at the true fork point if that is within the limit of the lower tip, and fails
otherwise. It never comes back without an ancestor, and so no writer ever removes the row
selected at height zero. -/
theorem ancestor_search_finds_fork_point (hstored : StoredChain self.network.id db xs)
    (htip : storedTip.height + 1 = xs.length) (hn : n + 1 = ys.length)
    (hserves : ∀ tr h hash, ys[h]? = some hash → env.answer tr (.blockHash h) = .ok hash)
    (hx : Chain.Rooted p xs) (hy : Chain.Rooted p ys) :
    ((∃ a ∈ xs, a ∈ ys) → ∃ f, IsGreatest (Chain.commonHeights xs ys) f ∧
      (min storedTip.height n ≤ f + self.maxReorgDepth →
        (∃ hash, self.search env db storedTip n = .ok (some (f, hash)) ∧ xs[f]? = some hash) ∧
        (∀ k ≤ f, xs[k]? = ys[k]?) ∧
        ∀ k, f < k → k ≤ min storedTip.height n → xs[k]? ≠ ys[k]?) ∧
      (f + self.maxReorgDepth < min storedTip.height n →
        self.search env db storedTip n = .error (depthError self.maxReorgDepth))) ∧
    ((∀ a ∈ xs, a ∉ ys) →
      (self.maxReorgDepth < min storedTip.height n →
        self.search env db storedTip n = .error (depthError self.maxReorgDepth)) ∧
      (min storedTip.height n ≤ self.maxReorgDepth →
        self.search env db storedTip n = .error genesisError)) ∧
    (∀ env db storedTip n, self.search env db storedTip n ≠ .ok none) ∧
    ∀ (ι : Type) (_ : DecidableEq ι) (writers : ι → Indexer lib) (rounds : ι → Nat)
      (rest : ι → Action Unit) (log : List (ι × Event explorer World)) (db db' : Db)
      (networkId : Text) (row : CanonicalRow),
      Effects.Interleaved (exec lib) (fun _ _ => True) (fun i => (writers i).rounds (rounds i), db) log
        (rest, db') → GenesisRow networkId row db → GenesisRow networkId row db' := by
  have hanswers : Serves (env.contract (exec lib)).allow ys := by
    rintro h hash a hhash ⟨tr, rfl⟩
    exact hserves tr h hash hhash
  have hlow : min storedTip.height n < xs.length := by omega
  have hlow' : min storedTip.height n < ys.length := by omega
  refine ⟨?_, ?_, ?_, ?_⟩
  · intro hshared
    obtain ⟨f, hf⟩ := Chain.exists_isGreatest_commonHeights
      ((hx.commonHeights_nonempty hy).mpr hshared)
    have hbelow := Chain.commonHeights_lt hf.1
    refine ⟨f, hf, ?_, ?_⟩
    · intro hd
      obtain ⟨hash, hxf, hyf⟩ := hf.1
      refine ⟨⟨hash, ?_, hxf⟩, fun k => Chain.agree_upTo hx.linked hy.linked hf.1, ?_⟩
      · refine search_eq (searchAncestor_common rfl (fun _ _ _ => trivial) hstored hanswers hlow hlow'
          hyf hf.1 (by omega) ?_ (by omega))
        intro k hk _ hcommon
        have := hf.2 hcommon
        omega
      · intro k hk hkm
        exact Chain.differ_above hf hk (by omega)
    · intro hd
      refine search_eq (searchAncestor_tooDeep rfl (fun _ _ _ => trivial) hstored hanswers hlow hlow'
        ?_ (by omega))
      intro k hk hkm
      have := hf.2 hk
      omega
  · intro hdisjoint
    have hnone : ∀ k, k ∉ Chain.commonHeights xs ys := by
      intro k hk
      obtain ⟨a, hxa, hya⟩ := (hx.commonHeights_nonempty hy).mp ⟨k, hk⟩
      exact hdisjoint a hxa hya
    refine ⟨?_, ?_⟩
    · intro hd
      exact search_eq (searchAncestor_tooDeep rfl (fun _ _ _ => trivial) hstored hanswers hlow hlow'
        (fun k hk _ => (hnone k hk).elim) (by omega))
    · intro hd
      exact search_eq (searchAncestor_genesis rfl (fun _ _ _ => trivial) hstored hanswers hlow hlow'
        hnone (by omega))
  · intro env db storedTip n
    exact findCommonAncestor_ne_none storedTip n env [] db
  · intro ι _ writers rounds rest log db db' networkId row run hrow
    exact genesis_stays run hrow

end Claim

section Sample

/-- The predecessors of the sample blocks: a fork over the first of them. -/
def samplePredecessor (hash : Text) : Option Text :=
  if hash = sampleHash '4' then some (sampleHash '3')
  else if hash = sampleHash '3' then some (sampleHash '1')
  else if hash = sampleHash '2' then some (sampleHash '1')
  else if hash = sampleHash '1' then some (sampleHash '0')
  else none

theorem sampleDb_stored : StoredChain sampleNetwork (sampleDb [['1', '3', '4']])
    [sampleHash '0', sampleHash '1', sampleHash '3', sampleHash '4'] where
  represents := by
    have hlow : ∀ h : Fin 4, storedHash sampleNetwork (sampleDb [['1', '3', '4']]) h =
        [sampleHash '0', sampleHash '1', sampleHash '3', sampleHash '4'][h.val]? := by
      decide +kernel
    have hall : ∀ r ∈ (sampleDb [['1', '3', '4']]).canonicalChain.rows, r.height < 4 := by
      decide +kernel
    intro h
    by_cases hlt : h < 4
    · exact hlow ⟨h, hlt⟩
    · have hnone : (sampleDb [['1', '3', '4']]).canonicalChain.find? (sampleNetwork, h) = none := by
        refine Table.find?_eq_none.mpr ?_
        intro r hr hk
        have hheight : r.height = h := congrArg Prod.snd hk
        have := hall r hr
        omega
      rw [storedHash, hnone, List.getElem?_eq_none (by simp; omega)]
      rfl
  bounded := by decide

theorem steadyNode_serves (digits : List Char) (tr : Trace) (h : Nat) (hash : Text)
    (hhash : ((sampleChain digits).map fun b => b.block.hash)[h]? = some hash) :
    (steadyNode digits).answer tr (.blockHash h) = .ok hash := by
  rw [List.getElem?_map] at hhash
  obtain ⟨b, hb, rfl⟩ := Option.map_eq_some_iff.mp hhash
  change nodeAnswer sampleNetwork (sampleChain digits) 0 (.blockHash h) = .ok b.block.hash
  rw [nodeAnswer, hb]

/-- The store and the node agree up to the first block over the genesis. -/
theorem ancestor_search_finds_fork_point_sample :
    (sampleIndexer 10).search (steadyNode ['1', '2']) (sampleDb [['1', '3', '4']])
      ⟨3, sampleHash '4', []⟩ 2 = .ok (some (1, sampleHash '1')) := by
  have hlinked : ∀ xs : List Text, xs = [sampleHash '0', sampleHash '1', sampleHash '3',
      sampleHash '4'] ∨ xs = [sampleHash '0', sampleHash '1', sampleHash '2'] →
      Chain.Rooted samplePredecessor xs := by
    rintro xs (rfl | rfl)
    · exact ⟨by unfold Chain.Linked; decide +kernel, by decide +kernel⟩
    · exact ⟨by unfold Chain.Linked; decide +kernel, by decide +kernel⟩
  have hstored : StoredChain (sampleIndexer 10).network.id _ _ := sampleDb_stored
  have htip : (⟨3, sampleHash '4', []⟩ : ChainTip).height + 1 = [sampleHash '0', sampleHash '1',
      sampleHash '3', sampleHash '4'].length := rfl
  have hnode : 2 + 1 = [sampleHash '0', sampleHash '1', sampleHash '2'].length := rfl
  obtain ⟨hshared, -⟩ := ancestor_search_finds_fork_point hstored htip hnode
    (fun tr h hash hhash => steadyNode_serves ['1', '2'] tr h hash hhash) (hlinked _ (.inl rfl))
    (hlinked _ (.inr rfl))
  obtain ⟨f, hf, hfound, -⟩ := hshared ⟨sampleHash '0', by simp, by simp⟩
  obtain ⟨⟨hash, hsearch, hhash⟩, -⟩ := hfound (by simp [sampleIndexer])
  obtain rfl : f = 1 := by
    have hone : 1 ≤ f := hf.2 ⟨sampleHash '1', rfl, rfl⟩
    obtain ⟨a, hxa, hya⟩ := hf.1
    obtain ⟨hlt, -⟩ := List.getElem?_eq_some_iff.mp hya
    have htwo : f ≠ 2 := by
      rintro rfl
      have hne := hxa.trans hya.symm
      revert hne
      decide +kernel
    simp only [List.length_cons, List.length_nil] at hlt
    omega
  obtain rfl := Option.some.inj hhash
  exact hsearch

end Sample

end WcashExplorer
