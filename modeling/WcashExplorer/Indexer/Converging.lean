import WcashExplorer.Indexer.Filled
import WcashExplorer.Indexer.Keeping

/-! One pass against a node that keeps its chain: the selector becomes that chain. -/
namespace WcashExplorer

open Effects Relational

variable {lib : AuxPowCrate} {indexer : Indexer lib} {answers : Answers} {chain : List NodeBlock}
  {ledger : Ledger} {xs : List CanonicalRow} {b : NodeBlock} {h f k n count : Nat} {tr : Trace}
  {db db' : Db} {info : BlockchainInfo} {tipHash : Text}

/-- The node keeps a chain whose blocks pass verification, fit the schema with whatever evidence
is fetched, and state the ledger's facts. -/
structure Serving (ledger : Ledger) (indexer : Indexer lib) (answers : Answers)
    (chain : List NodeBlock) : Prop where
  linked : NodeChain indexer chain
  keeps : KeepsChain indexer answers chain
  verifies : ∀ b ∈ chain, Verifies indexer b
  acceptable : ∀ b ∈ chain, ∀ indexed, FetchedFrom indexer answers b indexed →
    Acceptable lib ledger indexer.network.id indexed

/-- The hashes of a served chain, by height. -/
def hashes (chain : List NodeBlock) : List Text := chain.map fun b => b.block.hash

/-- The hash below a height. -/
def predecessor (chain : List NodeBlock) : Nat → Option Text
  | 0 => none
  | below + 1 => (hashes chain)[below]?

/-- The predecessor the ledger gives a block hash. -/
def Ledger.parentOf (ledger : Ledger) (hash : Text) : Option Text :=
  (ledger.header hash).bind fun r => r.previousBlockHash

@[simp] theorem hashes_length : (hashes chain).length = chain.length := List.length_map _

theorem hashes_getElem? : (hashes chain)[h]? = chain[h]?.map fun b => b.block.hash :=
  List.getElem?_map

/-- Every height of a chain has a hash. -/
theorem exists_hash (h : n < chain.length) : ∃ hash, (hashes chain)[n]? = some hash := by
  refine ⟨_, List.getElem?_eq_getElem ?_⟩
  rwa [hashes_length]

/-- Rows with the hashes of a chain are as many. -/
theorem length_of_hashes (hall : xs.map CanonicalRow.blockHash = hashes chain) :
    xs.length = chain.length := by
  have hlen := congrArg List.length hall
  rwa [List.length_map, hashes_length] at hlen

theorem NodeChain.length_pos (hc : NodeChain indexer chain) : 0 < chain.length := by
  obtain ⟨b, hb, -⟩ := hc.genesis
  exact (List.getElem?_eq_some_iff.mp hb).1

theorem NodeChain.previousMatches (hc : NodeChain indexer chain) (hat : chain[h]? = some b) :
    Indexer.previousMatches h b.block (predecessor chain h) = true := by
  cases h with
  | zero =>
    obtain ⟨g, hg, -, hroot⟩ := hc.genesis
    obtain rfl := Option.some.inj (hg.symm.trans hat)
    simpa [Indexer.previousMatches] using hroot
  | succ below =>
    obtain ⟨hlt, -⟩ := List.getElem?_eq_some_iff.mp hat
    have hbelow : chain[below]? = some chain[below] := List.getElem?_eq_getElem (by omega)
    have hlink := hc.linked below _ b hbelow hat
    simp [Indexer.previousMatches, predecessor, hashes_getElem?, hbelow, hlink]

namespace Serving

theorem fetch (hs : Serving ledger indexer answers chain) (hat : chain[h]? = some b) :
    (indexer.fetchIndexedBlock h (predecessor chain h)).Ensures (keepingTo lib answers)
      (Prog.succeeds fun indexed db' => db' = db ∧ indexed.block = b.block ∧
        Acceptable lib ledger indexer.network.id indexed) tr db := by
  refine (fetchIndexedBlock_succeeds hs.linked hs.keeps hs.verifies hat
    (hs.linked.previousMatches hat)).mono ?_
  rintro tr o s ⟨indexed, rfl, rfl, hfetched⟩
  exact ⟨indexed, rfl, rfl, hfetched.block,
    hs.acceptable b (List.mem_of_getElem? hat) indexed hfetched⟩

/-- Where every question has an answer, every block of the chain can be fetched. -/
theorem exists_acceptable (hs : Serving ledger indexer answers chain)
    (hanswers : ∀ q, ∃ a, answers q a) (hb : b ∈ chain) :
    ∃ indexed, indexed.block = b.block ∧ Acceptable lib ledger indexer.network.id indexed := by
  obtain ⟨-, rawBlock, hraw, evidence, hfound⟩ := hs.verifies b hb
  obtain ⟨auxpow, hauxpow⟩ : ∃ auxpow, EvidenceFrom indexer answers b.block rawBlock auxpow := by
    cases evidence with
    | none => exact ⟨none, .native hfound⟩
    | some found =>
      obtain ⟨proofBytes, proof, coinbase⟩ := found
      obtain ⟨a, ha⟩ := hanswers (.auxBlockStatus b.block.hash b.block.solution)
      obtain ⟨n, rfl⟩ := hs.keeps.status b hb a ha
      have hnone : ∀ o ∈ ([] : List ParentObservation), ObservedFrom indexer answers o := by simp
      exact ⟨_, .verified hfound ha hnone⟩
  let indexed : IndexedBlock := { block := b.block, auxpow, fetchedAt := 0, rawBlock, raw := b.raw }
  exact ⟨indexed, rfl, hs.acceptable b hb indexed ⟨rfl, rfl, hraw, hauxpow⟩⟩

/-- The node's tip is within the range of the height columns. -/
theorem length_le (hs : Serving ledger indexer answers chain) (hanswers : ∀ q, ∃ a, answers q a) :
    chain.length ≤ i64Max + 1 := by
  have hpos := hs.linked.length_pos
  have hlast : chain[chain.length - 1]? = some chain[chain.length - 1] :=
    List.getElem?_eq_getElem (by omega)
  obtain ⟨indexed, hblock, hok⟩ := hs.exists_acceptable hanswers (List.mem_of_getElem? hlast)
  have hheight := hs.linked.height _ _ hlast
  have hle := hok.height.1
  rw [hblock, hheight] at hle
  omega

/-- The chain is linked over the ledger's predecessors. -/
theorem hashes_linked (hs : Serving ledger indexer answers chain)
    (hanswers : ∀ q, ∃ a, answers q a) : Chain.Linked ledger.parentOf (hashes chain) := by
  refine Chain.linked_of_parent ?_
  intro m a c ha hc
  rw [hashes_getElem?] at ha hc
  obtain ⟨below, hbelow, rfl⟩ := Option.map_eq_some_iff.mp ha
  obtain ⟨b, hat, rfl⟩ := Option.map_eq_some_iff.mp hc
  obtain ⟨indexed, hblock, ⟨facts, hfits, hl⟩, -⟩ :=
    hs.exists_acceptable hanswers (List.mem_of_getElem? hat)
  obtain ⟨row, hrow, -, hheader, -⟩ := blockFacts_ok hfits.stated
  have hprevious : row.previousBlockHash = b.block.previousblockhash := by
    rw [← hblock]
    exact (blockRow_ok hrow).2.2.2
  rw [← hblock, Ledger.parentOf, hl.header, hheader]
  exact hprevious.trans (hs.linked.linked m below b hbelow hat)

end Serving

/-- So is the chain that is selected. -/
theorem Holds.linked {networkId : Text} (hx : Holds ledger networkId xs db) :
    Chain.Linked ledger.parentOf (xs.map CanonicalRow.blockHash) := by
  refine hx.selected.linked.congr ?_
  intro a ha
  obtain ⟨r, hr, rfl⟩ := List.mem_map.mp ha
  obtain ⟨b, hb, -⟩ := hx.selected.stored r hr
  have hheader := hx.agrees.blocks b (Table.mem_of_find? hb)
  rw [Table.key_of_find? hb] at hheader
  rw [storedParent, hb, Ledger.parentOf, hheader]
  rfl

/-- The hash of a chain's last row is the predecessor of the next height. -/
theorem getLast?_eq_predecessor (hbegins : xs.map CanonicalRow.blockHash <+: hashes chain) :
    xs.getLast?.map CanonicalRow.blockHash = predecessor chain xs.length := by
  cases hlen : xs.length with
  | zero =>
    obtain rfl := List.length_eq_zero_iff.mp hlen
    rfl
  | succ below =>
    have hlt : below < xs.length := by omega
    have hat : (xs.map CanonicalRow.blockHash)[below]? = (hashes chain)[below]? := by
      obtain ⟨rest, hrest⟩ := hbegins
      rw [← hrest, List.getElem?_append_left (by simpa using hlt)]
    rw [predecessor, ← hat, List.getLast?_eq_getElem?, hlen, List.getElem?_map]
    rfl

section Loops

/-- The next block of the chain is committed on top of what is stored of it. -/
theorem commitNext_succeeds {indexed : IndexedBlock} (hs : Serving ledger indexer answers chain)
    (hx : Holds ledger indexer.network.id xs db)
    (hbegins : xs.map CanonicalRow.blockHash <+: hashes chain) (hat : chain[xs.length]? = some b)
    (hblock : indexed.block = b.block) (hok : Acceptable lib ledger indexer.network.id indexed) :
    (Database.commitBlock indexer.network.id indexed).Ensures (keepingTo lib answers)
      (Prog.succeeds fun _ db' =>
        Holds ledger indexer.network.id (xs ++ [canonicalRow lib indexer.network.id indexed]) db' ∧
        (xs ++ [canonicalRow lib indexer.network.id indexed]).map CanonicalRow.blockHash <+:
          hashes chain) tr db := by
  have hheight : indexed.block.height = xs.length := by
    rw [hblock]
    exact hs.linked.height _ _ hat
  have hhash : (hashes chain)[xs.length]? = some indexed.block.hash := by
    rw [hashes_getElem?, hat, hblock, Option.map_some]
  have hprevious : ∀ r ∈ xs.getLast?, indexed.block.previousblockhash = some r.blockHash := by
    intro r hr
    have hpred := getLast?_eq_predecessor hbegins
    rw [hr, Option.map_some] at hpred
    have hmatches := hs.linked.previousMatches hat
    rw [← hpred, ← hblock] at hmatches
    have hne : xs.length ≠ 0 := by
      intro hnil
      rw [List.length_eq_zero_iff.mp hnil] at hr
      cases hr
    simpa [Indexer.previousMatches, hne] using hmatches
  refine Prog.Ensures.txn_succeeds trivial fun w => ?_
  obtain ⟨db', hcommit, hx'⟩ := hx.commitBlock hok hheight hprevious
  refine ⟨(), db', writing_ok.mpr hcommit, hx', ?_⟩
  rw [List.map_append]
  refine Chain.concat_prefix hbegins ?_
  rw [List.length_map]
  exact hhash

/-- The next blocks of the chain are appended one by one. -/
theorem appendBlocks_succeeds (hs : Serving ledger indexer answers chain)
    (hx : Holds ledger indexer.network.id xs db)
    (hbegins : xs.map CanonicalRow.blockHash <+: hashes chain)
    (hcount : xs.length + count ≤ chain.length) :
    (indexer.appendBlocks count xs.length (predecessor chain xs.length)).Ensures
      (keepingTo lib answers) (Prog.succeeds fun n db' => n = count ∧ (count = 0 → db' = db) ∧
        ∃ ys, Holds ledger indexer.network.id ys db' ∧
          ys.map CanonicalRow.blockHash = (hashes chain).take (xs.length + count)) tr db := by
  induction count generalizing xs db tr with
  | zero =>
    refine ⟨0, rfl, rfl, fun _ => rfl, xs, hx, ?_⟩
    have htake := List.prefix_iff_eq_take.mp hbegins
    rwa [List.length_map] at htake
  | succ count ih =>
    obtain ⟨b, hat⟩ : ∃ b, chain[xs.length]? = some b :=
      ⟨_, List.getElem?_eq_getElem (by omega)⟩
    refine Prog.Ensures.bind_succeeds (hs.fetch hat) ?_
    rintro tr indexed s ⟨rfl, hblock, hok⟩
    refine Prog.Ensures.bind_succeeds (commitNext_succeeds hs hx hbegins hat hblock hok) ?_
    rintro tr - s' ⟨hx', hbegins'⟩
    have hlen : (xs ++ [canonicalRow lib indexer.network.id indexed]).length = xs.length + 1 := by
      simp
    have hpred : predecessor chain (xs.length + 1) = some indexed.block.hash := by
      rw [predecessor, hashes_getElem?, hat, hblock, Option.map_some]
    have hnext := @ih _ tr _ hx' hbegins' (by omega)
    rw [hlen, hpred] at hnext
    refine Prog.Ensures.bind_succeeds hnext ?_
    rintro tr m s'' ⟨rfl, -, ys, hy, hys⟩
    refine ⟨_, rfl, rfl, ?_, ys, hy, ?_⟩
    · intro hzero
      cases hzero
    · rw [hys]
      congr 1
      omega

/-- The blocks above a height of the chain are staged as a contiguous branch. -/
theorem stageBranch_succeeds {hash : Text} (hs : Serving ledger indexer answers chain)
    (hat : (hashes chain)[h]? = some hash) (hcount : h + 1 + count ≤ chain.length) :
    (indexer.stageBranch count (h + 1) (some hash)).Ensures (keepingTo lib answers)
      (Prog.succeeds fun blocks db' => db' = db ∧
        blocks.map (fun b => b.block.hash) = ((hashes chain).drop (h + 1)).take count ∧
        (∀ b ∈ blocks, Acceptable lib ledger indexer.network.id b) ∧
        contiguousFrom (h + 1) (some hash) blocks = true) tr db := by
  induction count generalizing h hash tr with
  | zero => exact ⟨[], rfl, rfl, rfl, by simp, rfl⟩
  | succ count ih =>
    obtain ⟨b, hb⟩ : ∃ b, chain[h + 1]? = some b := ⟨_, List.getElem?_eq_getElem (by omega)⟩
    rw [← hat]
    refine Prog.Ensures.bind_succeeds (hs.fetch hb) ?_
    rintro tr indexed s ⟨rfl, hblock, hok⟩
    have hheight : indexed.block.height = h + 1 := by
      rw [hblock]
      exact hs.linked.height _ _ hb
    have hhash : (hashes chain)[h + 1]? = some indexed.block.hash := by
      rw [hashes_getElem?, hb, hblock, Option.map_some]
    have hprevious : indexed.block.previousblockhash = (hashes chain)[h]? := by
      have hmatches := hs.linked.previousMatches hb
      rw [← hblock] at hmatches
      rw [Indexer.previousMatches, if_neg (by omega)] at hmatches
      exact of_decide_eq_true hmatches
    refine Prog.Ensures.bind_succeeds (ih hhash (by omega)) ?_
    rintro tr blocks s ⟨rfl, hblocks, hacceptable, hcontiguous⟩
    refine ⟨_, rfl, rfl, ?_, ?_, ?_⟩
    · have hlt : h + 1 < (hashes chain).length := by
        rw [hashes_length]
        omega
      rw [List.map_cons, hblocks, List.drop_eq_getElem_cons hlt, List.take_succ_cons]
      congr 1
      rw [List.getElem?_eq_getElem hlt] at hhash
      exact (Option.some.inj hhash).symm
    · intro b' hb'
      rcases List.mem_cons.mp hb' with rfl | hb'
      · exact hok
      · exact hacceptable b' hb'
    · have hsat : saturatingAdd (h + 1) 1 = h + 1 + 1 := by
        have hle := hok.height.1
        rw [hheight] at hle
        exact saturatingAdd_one hle
      simp only [contiguousFrom, Bool.and_eq_true, decide_eq_true_eq, hsat]
      exact ⟨⟨hheight, hprevious⟩, hcontiguous⟩

end Loops

section Advance

theorem Selected.storedChain {networkId : Text} (hx : Selected networkId db xs) :
    StoredChain networkId db (xs.map CanonicalRow.blockHash) where
  represents := by
    intro h
    rw [hx.storedHash_eq, List.getElem?_map]
  bounded := by
    rw [List.length_map]
    cases hl : xs.getLast? with
    | none => simp [List.getLast?_eq_none_iff.mp hl]
    | some l =>
      have hlast := hx.last_height hl
      have hle := hx.bounded l (List.mem_of_getLast? hl)
      omega

theorem Serving.serves (hs : Serving ledger indexer answers chain) :
    Serves (keepingTo lib answers).allow (hashes chain) := by
  intro h hash a hat ha
  rw [hashes_getElem?] at hat
  obtain ⟨b, hb, rfl⟩ := Option.map_eq_some_iff.mp hat
  exact hs.keeps.hash h b a hb ha

theorem Serving.blockHash {hash : Text} (hs : Serving ledger indexer answers chain)
    (hat : (hashes chain)[h]? = some hash) :
    (Wcash.blockHash h).Ensures (keepingTo lib answers) (Ends db (.ok hash)) tr db := by
  intro a ha
  obtain rfl := hs.serves h hash a hat ha
  exact ⟨rfl, rfl⟩

theorem canonicalTip_succeeds {networkId : Text} (hx : Selected networkId db xs) :
    (Database.canonicalTip networkId).Ensures (keepingTo lib answers)
      (Ends db (.ok (xs.getLast?.map CanonicalRow.tip))) tr db := by
  refine (Prog.Ensures.txn_succeeds (P := fun tip db' => db' = db ∧
    tip = xs.getLast?.map CanonicalRow.tip) trivial fun w => ?_).mono ?_
  · exact ⟨_, db, reading_ok.mpr ⟨rfl, rfl⟩, rfl, hx.canonicalTip_eq⟩
  · rintro tr o s ⟨tip, rfl, rfl, rfl⟩
    exact ⟨rfl, rfl⟩

/-- The search ends at the fork point. -/
theorem findCommonAncestor_succeeds {hash : Text} {l : CanonicalRow}
    (hs : Serving ledger indexer answers chain) (hx : Holds ledger indexer.network.id xs db)
    (hl : xs.getLast? = some l)
    (hfork : IsGreatest (Chain.commonHeights (xs.map CanonicalRow.blockHash) (hashes chain)) f)
    (hdepth : l.height ≤ f + indexer.maxReorgDepth) (hat : (hashes chain)[f]? = some hash) :
    (indexer.findCommonAncestor l.tip (chain.length - 1)).Ensures (keepingTo lib answers)
      (Ends db (.ok (some (f, hash)))) tr db := by
  have hpos := hs.linked.length_pos
  have hlast := hx.selected.last_height hl
  have htip : l.tip.height = l.height := rfl
  obtain ⟨hfx, hfy⟩ := Chain.commonHeights_lt hfork.1
  rw [List.length_map] at hfx
  rw [hashes_length] at hfy
  have hlow : min l.height (chain.length - 1) < (xs.map CanonicalRow.blockHash).length := by
    rw [List.length_map]
    omega
  have hlow' : min l.height (chain.length - 1) < (hashes chain).length := by
    rw [hashes_length]
    omega
  refine Ends.bind (searchAncestor_common rfl (fun _ _ _ => trivial) hx.selected.storedChain
    hs.serves hlow hlow' hat hfork.1 (by rw [htip]; omega) ?_ ?_) fun _ => ⟨rfl, rfl⟩
  · intro m hm _ hcommon
    have hle := hfork.2 hcommon
    omega
  · rw [htip]
    omega

/-- A branch staged from the chain served is confirmed against it. -/
theorem confirmSnapshot_succeeds {hash : Text} (hs : Serving ledger indexer answers chain)
    (htip : (hashes chain)[chain.length - 1]? = some tipHash)
    (hat : (hashes chain)[f]? = some hash) :
    (Indexer.confirmSnapshot (chain.length - 1) tipHash (some (f, hash))).Ensures
      (keepingTo lib answers) (Ends db (.ok ())) tr db := by
  unfold Indexer.confirmSnapshot
  refine Ends.bind (hs.blockHash htip) fun tr => ?_
  refine ensure_bind (decide_eq_true rfl) ?_
  refine Ends.bind (hs.blockHash hat) fun tr => ?_
  exact Prog.Ensures.ofExcept ⟨rfl, ensure_eq_ok.mpr (decide_eq_true rfl)⟩

/-- Whatever the clock says, an acceptable branch takes the place of the rows above the fork. -/
theorem replaceCanonicalBranch_succeeds {r l : CanonicalRow} {blocks : List IndexedBlock}
    (hx : Holds ledger indexer.network.id xs db) (hr : xs[f]? = some r)
    (hl : xs.getLast? = some l) (hblocks : ∀ b ∈ blocks, Acceptable lib ledger indexer.network.id b)
    (hc : contiguousFrom (f + 1) (some r.blockHash) blocks = true) :
    (Database.replaceCanonicalBranch indexer.network.id l.tip (some (f, r.blockHash))
      blocks).Ensures (keepingTo lib answers)
      (Prog.succeeds fun _ db' => Holds ledger indexer.network.id
        (xs.take (f + 1) ++ blocks.map (canonicalRow lib indexer.network.id)) db') tr db := by
  refine Prog.Ensures.txn_succeeds trivial fun w => ?_
  obtain ⟨db', hok, hx'⟩ := hx.replaceCanonicalBranch hr hl hblocks hc
  exact ⟨(), db', writing_ok.mpr hok, hx'⟩

/-- A diverged chain is replaced above the fork point. -/
theorem reorganize_succeeds {l : CanonicalRow} (hs : Serving ledger indexer answers chain)
    (hanswers : ∀ q, ∃ a, answers q a) (hx : Holds ledger indexer.network.id xs db)
    (hl : xs.getLast? = some l) (hinfo : info.blocks = chain.length - 1)
    (htip : (hashes chain)[chain.length - 1]? = some tipHash)
    (hfork : IsGreatest (Chain.commonHeights (xs.map CanonicalRow.blockHash) (hashes chain)) f)
    (hdepth : l.height ≤ f + indexer.maxReorgDepth) :
    (indexer.reorganize info tipHash l.tip).Ensures (keepingTo lib answers)
      (Prog.succeeds fun r db' => r = (chain.length - (f + 1), l.height - f) ∧
        ∃ ys, Holds ledger indexer.network.id ys db' ∧
          ys.map CanonicalRow.blockHash = hashes chain) tr db := by
  obtain ⟨hfx, hfy⟩ := Chain.commonHeights_lt hfork.1
  obtain ⟨hash, hxf, hat⟩ := hfork.1
  obtain ⟨r, hr, rfl⟩ := Option.map_eq_some_iff.mp (List.getElem?_map.symm.trans hxf)
  rw [List.length_map] at hfx
  rw [hashes_length] at hfy
  have hpos := hs.linked.length_pos
  have hle := hs.length_le hanswers
  have hsat : saturatingAdd f 1 = f + 1 := saturatingAdd_one (by omega)
  have hcount : f + 1 + Indexer.heightCount (f + 1) (chain.length - 1) = chain.length := by
    unfold Indexer.heightCount
    omega
  unfold Indexer.reorganize
  rw [hinfo]
  refine Ends.bind (findCommonAncestor_succeeds hs hx hl hfork hdepth hat) fun tr => ?_
  simp only [Option.map_some, Indexer.nextHeight, hsat]
  refine Prog.Ensures.bind_succeeds (stageBranch_succeeds hs hat (Nat.le_of_eq hcount)) ?_
  rintro tr blocks s ⟨rfl, hblocks, hacceptable, hcontiguous⟩
  refine Ends.bind (confirmSnapshot_succeeds hs htip hat) fun tr => ?_
  refine Prog.Ensures.bind_succeeds
    (replaceCanonicalBranch_succeeds hx hr hl hacceptable hcontiguous) ?_
  rintro tr - s' hx'
  refine Ends.bind (canonicalTip_succeeds hx'.selected) fun tr => ?_
  refine ⟨_, rfl, ?_, _, hx', ?_⟩
  · have hlen := congrArg List.length hblocks
    simp only [List.length_map, List.length_take, List.length_drop, hashes_length] at hlen
    refine Prod.ext ?_ rfl
    change blocks.length = chain.length - (f + 1)
    omega
  · have hrows : blocks.map (fun b => (canonicalRow lib indexer.network.id b).blockHash) =
        (hashes chain).drop (f + 1) := by
      refine hblocks.trans (List.take_of_length_le ?_)
      rw [List.length_drop, hashes_length]
      omega
    have hagree := Chain.take_eq_of_agree hx.linked (hs.hashes_linked hanswers) hxf hat
    rw [List.map_append, List.map_take, hagree, List.map_map]
    exact (congrArg _ hrows).trans (List.take_append_drop _ _)

/-- What is missing of the chain is appended to a prefix of it. -/
theorem append_succeeds (hs : Serving ledger indexer answers chain)
    (hx : Holds ledger indexer.network.id xs db) (hinfo : info.blocks = chain.length - 1)
    (hbegins : xs.map CanonicalRow.blockHash <+: hashes chain) :
    (indexer.append info (xs.getLast?.map CanonicalRow.tip)).Ensures (keepingTo lib answers)
      (Prog.succeeds fun r db' => r = (chain.length - xs.length, 0) ∧
        (xs.length = chain.length → db' = db) ∧ ∃ ys, Holds ledger indexer.network.id ys db' ∧
          ys.map CanonicalRow.blockHash = hashes chain) tr db := by
  have hpos := hs.linked.length_pos
  have hle : xs.length ≤ chain.length := by
    have hlen := hbegins.length_le
    rwa [List.length_map, hashes_length] at hlen
  have hcount : Indexer.heightCount xs.length (chain.length - 1) = chain.length - xs.length := by
    unfold Indexer.heightCount
    omega
  unfold Indexer.append
  rw [hx.selected.nextHeight_eq]
  simp only [hinfo, hcount, Option.map_map]
  have hprevious : xs.getLast?.map ((fun tip : ChainTip => tip.blockHash) ∘ CanonicalRow.tip) =
      predecessor chain xs.length := getLast?_eq_predecessor hbegins
  rw [hprevious]
  refine Prog.Ensures.bind_succeeds (appendBlocks_succeeds hs hx hbegins (by omega)) ?_
  rintro tr n s ⟨rfl, hnone, ys, hy, hys⟩
  refine ⟨_, rfl, rfl, fun hfull => hnone (by omega), ys, hy, ?_⟩
  rw [hys]
  refine List.take_of_length_le ?_
  rw [hashes_length]
  omega

/-- The chain selected and the chain served share their first `k` blocks and no more, and the
stored tip is within the limit of the last of them. -/
def SharedPrefix (limit : Nat) (xs : List CanonicalRow) (chain : List NodeBlock) (k : Nat) : Prop :=
  (xs = [] ∧ k = 0) ∨ ∃ f, k = f + 1 ∧
    IsGreatest (Chain.commonHeights (xs.map CanonicalRow.blockHash) (hashes chain)) f ∧
    xs.length ≤ f + 1 + limit

theorem Holds.tip_hash {networkId : Text} {l : CanonicalRow} (hx : Holds ledger networkId xs db)
    (hl : xs.getLast? = some l) : (xs.map CanonicalRow.blockHash)[l.height]? = some l.blockHash := by
  have hlast := hx.selected.last_height hl
  rw [List.getLast?_eq_getElem?, show xs.length - 1 = l.height by omega] at hl
  rw [List.getElem?_map, hl, Option.map_some]

/-- The stored tip is the node's exactly if it is the fork point. -/
theorem canonicalMatches_succeeds {l : CanonicalRow} (hs : Serving ledger indexer answers chain)
    (hx : Holds ledger indexer.network.id xs db) (hl : xs.getLast? = some l)
    (hfork : IsGreatest (Chain.commonHeights (xs.map CanonicalRow.blockHash) (hashes chain)) f) :
    (Indexer.canonicalMatches l.tip (chain.length - 1)).Ensures (keepingTo lib answers)
      (Ends db (.ok (decide (f = l.height)))) tr db := by
  obtain ⟨hfx, hfy⟩ := Chain.commonHeights_lt hfork.1
  rw [List.length_map] at hfx
  rw [hashes_length] at hfy
  have hlast := hx.selected.last_height hl
  have hlat := hx.tip_hash hl
  have htip : l.tip.height = l.height := rfl
  unfold Indexer.canonicalMatches
  rw [htip]
  by_cases hle : l.height ≤ chain.length - 1
  · obtain ⟨hash, hat⟩ := exists_hash (by omega : l.height < chain.length)
    rw [if_pos hle]
    refine Ends.bind (hs.blockHash hat) fun tr => ⟨rfl, congrArg Except.ok ?_⟩
    refine decide_eq_decide.mpr ?_
    constructor
    · rintro rfl
      have hle := hfork.2 ⟨_, hlat, hat⟩
      omega
    · rintro rfl
      obtain ⟨hash', hxf, hyf⟩ := hfork.1
      exact Option.some.inj (hat.symm.trans (hyf.trans (hxf.symm.trans hlat)))
  · rw [if_neg hle]
    refine ⟨rfl, ?_⟩
    rw [decide_eq_false (by omega)]

/-- The selector is brought to the node's chain, by appending to it or by a replacement. -/
theorem advance_succeeds (hs : Serving ledger indexer answers chain)
    (hanswers : ∀ q, ∃ a, answers q a) (hx : Holds ledger indexer.network.id xs db)
    (hinfo : info.blocks = chain.length - 1)
    (htip : (hashes chain)[chain.length - 1]? = some tipHash)
    (hshared : SharedPrefix indexer.maxReorgDepth xs chain k) :
    (indexer.advance info tipHash (xs.getLast?.map CanonicalRow.tip)).Ensures
      (keepingTo lib answers) (Prog.succeeds fun r db' => r = (chain.length - k, xs.length - k) ∧
        (xs.map CanonicalRow.blockHash = hashes chain → db' = db) ∧
        ∃ ys, Holds ledger indexer.network.id ys db' ∧
          ys.map CanonicalRow.blockHash = hashes chain) tr db := by
  have hpos := hs.linked.length_pos
  rcases hshared with ⟨rfl, rfl⟩ | ⟨f, rfl, hfork, hdepth⟩
  · refine (append_succeeds hs hx hinfo (List.nil_prefix)).mono ?_
    rintro tr o s ⟨r, rfl, rfl, hnone, hy⟩
    exact ⟨_, rfl, rfl, fun heq => hnone (length_of_hashes heq), hy⟩
  · obtain ⟨hfx, hfy⟩ := Chain.commonHeights_lt hfork.1
    rw [List.length_map] at hfx
    rw [hashes_length] at hfy
    have hne : xs ≠ [] := List.ne_nil_of_length_pos (by omega)
    obtain ⟨l, hl⟩ := Option.isSome_iff_exists.mp (List.getLast?_isSome.mpr hne)
    have hlast := hx.selected.last_height hl
    have hlat := hx.tip_hash hl
    rw [hl, Option.map_some]
    unfold Indexer.advance
    simp only [hinfo]
    refine Ends.bind (canonicalMatches_succeeds hs hx hl hfork) fun tr => ?_
    by_cases hsame : f = l.height
    · have hbegins : xs.map CanonicalRow.blockHash <+: hashes chain := by
        obtain ⟨hash, hxf, hyf⟩ := hfork.1
        have hagree := Chain.take_eq_of_agree hx.linked (hs.hashes_linked hanswers) hxf hyf
        rw [List.take_of_length_le (by rw [List.length_map]; omega)] at hagree
        rw [hagree]
        exact List.take_prefix _ _
      rw [decide_eq_true hsame, if_pos rfl]
      have hback : some l.tip = xs.getLast?.map CanonicalRow.tip := by rw [hl, Option.map_some]
      rw [hback]
      refine (append_succeeds hs hx hinfo hbegins).mono ?_
      rintro tr o s ⟨r, rfl, rfl, hnone, hy⟩
      refine ⟨_, rfl, ?_, fun heq => hnone (length_of_hashes heq), hy⟩
      refine Prod.ext ?_ ?_
      · change chain.length - xs.length = chain.length - (f + 1)
        omega
      · change 0 = xs.length - (f + 1)
        omega
    · rw [decide_eq_false hsame, if_neg nofun]
      refine (reorganize_succeeds hs hanswers hx hl hinfo htip hfork (by omega)).mono ?_
      rintro tr o s ⟨r, rfl, rfl, hy⟩
      refine ⟨_, rfl, ?_, ?_, hy⟩
      · refine Prod.ext rfl ?_
        change l.height - f = xs.length - (f + 1)
        omega
      · intro heq
        have hle := hfork.2 ⟨_, hlat, heq ▸ hlat⟩
        omega

end Advance

section Pass

/-- The node's hash of the height below. -/
theorem servedPredecessor_succeeds (hs : Serving ledger indexer answers chain)
    (hlt : h < chain.length) : (Indexer.servedPredecessor h).Ensures (keepingTo lib answers)
      (Ends db (.ok (predecessor chain h))) tr db := by
  cases h with
  | zero => exact ⟨rfl, rfl⟩
  | succ below =>
    obtain ⟨hash, hat⟩ := exists_hash (by omega : below < chain.length)
    refine Ends.bind (hs.blockHash hat) fun tr => ⟨rfl, ?_⟩
    rw [predecessor, hat]

/-- The refresh of a selected block leaves the selector alone. -/
theorem refreshEvidence_succeeds (hs : Serving ledger indexer answers chain)
    (hx : Holds ledger indexer.network.id xs db)
    (hall : xs.map CanonicalRow.blockHash = hashes chain)
    (hdepth : indexer.evidenceRefreshDepth ≤ i64Max) :
    (indexer.refreshEvidence).Ensures (keepingTo lib answers)
      (Prog.succeeds fun _ db' => db'.canonicalChain = db.canonicalChain ∧
        Holds ledger indexer.network.id xs db') tr db := by
  have hlen := length_of_hashes hall
  have hcandidate : (Database.evidenceRefreshCandidate indexer.network.id
      indexer.evidenceRefreshDepth).Ensures (keepingTo lib answers)
      (Prog.succeeds fun found db' => db' = db ∧ ∀ c ∈ found, c.1 < chain.length) tr db := by
    refine Prog.Ensures.txn_succeeds trivial fun w => ?_
    obtain ⟨found, hfound⟩ : ∃ found, evidenceRefreshCandidate db indexer.network.id
        indexer.evidenceRefreshDepth w = .ok found := by
      rw [evidenceRefreshCandidate, toI64, if_pos hdepth]
      exact ⟨_, rfl⟩
    refine ⟨found, db, reading_ok.mpr ⟨hfound, rfl⟩, rfl, ?_⟩
    rintro ⟨height, hash⟩ rfl
    obtain ⟨r, since, hdue, rfl, -⟩ := evidenceRefreshCandidate_ok hfound
    have hr := hx.selected.mem_canonicalRows.mp (mem_staleEvidence.mp hdue).1
    obtain ⟨i, hi⟩ := List.mem_iff_getElem?.mp hr
    obtain ⟨hlt, -⟩ := List.getElem?_eq_some_iff.mp hi
    rw [(hx.selected.key_eq hi).2, ← hlen]
    exact hlt
  refine Prog.Ensures.bind_succeeds hcandidate ?_
  rintro tr found s ⟨rfl, hbelow⟩
  cases found with
  | none => exact ⟨_, rfl, rfl, hx⟩
  | some c =>
    obtain ⟨height, hash⟩ := c
    have hlt : height < chain.length := hbelow (height, hash) rfl
    obtain ⟨b, hat⟩ : ∃ b, chain[height]? = some b := ⟨_, List.getElem?_eq_getElem hlt⟩
    refine Ends.bind (servedPredecessor_succeeds hs hlt) fun tr => ?_
    refine Prog.Ensures.bind_succeeds (hs.fetch hat) ?_
    rintro tr indexed s' ⟨rfl, -, hok⟩
    refine Prog.Ensures.txn_succeeds trivial fun w => ?_
    obtain ⟨db', hinsert, ha, hsound⟩ := hok.inserts hx.agrees hx.sound
    have hi := insertBlock_inserts hinsert
    exact ⟨(), db', writing_ok.mpr hinsert, hi.canonicalChain, hx.of_inserts hi ha hsound⟩

theorem storable_of_isHash {hash : Text} (h : isHash hash = true) : hash.storable = true := by
  simp only [isHash, Bool.and_eq_true, List.all_eq_true] at h
  refine List.all_eq_true.mpr ?_
  intro c hc
  have hdigit := h.2 c hc
  rw [bne_iff_ne]
  rintro rfl
  revert hdigit
  decide

/-- The node's tip is observed and recorded. -/
theorem Serving.tip (hs : Serving ledger indexer answers chain) (hanswers : ∀ q, ∃ a, answers q a) :
    ∃ hash, (hashes chain)[chain.length - 1]? = some hash ∧ hash.storable = true ∧
      chain.length - 1 ≤ i64Max := by
  have hpos := hs.linked.length_pos
  have hle := hs.length_le hanswers
  have hlast : chain[chain.length - 1]? = some chain[chain.length - 1] :=
    List.getElem?_eq_getElem (by omega)
  refine ⟨chain[chain.length - 1].block.hash, ?_, ?_, by omega⟩
  · rw [hashes_getElem?, hlast, Option.map_some]
  · exact storable_of_isHash (hs.verifies _ (List.mem_of_getElem? hlast)).hash

theorem observeNodeTip_succeeds (hx : Holds ledger indexer.network.id xs db)
    (hn : n ≤ i64Max) (hstorable : tipHash.storable = true) :
    (Database.observeNodeTip indexer.network.id n tipHash).Ensures (keepingTo lib answers)
      (Prog.succeeds fun _ db' => db'.canonicalChain = db.canonicalChain ∧
        Holds ledger indexer.network.id xs db') tr db := by
  refine Prog.Ensures.txn_succeeds trivial fun w => ?_
  obtain ⟨db', hok⟩ : ∃ db', observeNodeTip indexer.network.id n tipHash w.now db = .ok db' := by
    simp only [observeNodeTip, Result.bind_eq_ok, checked, ensure_eq_ok]
    exact ⟨_, _, toI64_eq_ok.mpr ⟨hn, rfl⟩, (), hstorable, rfl⟩
  have hstatus := observeNodeTip_ok hok
  refine ⟨(), db', writing_ok.mpr hok, ?_, hx.of_status hstatus⟩
  obtain ⟨_, _, _, -, rfl⟩ := hstatus
  rfl

/-- The pass is recorded as having reached the node's tip. -/
theorem finish_succeeds {depth indexedBlocks : Nat} (hs : Serving ledger indexer answers chain)
    (hanswers : ∀ q, ∃ a, answers q a) (hx : Holds ledger indexer.network.id xs db)
    (hall : xs.map CanonicalRow.blockHash = hashes chain) (hinfo : info.blocks = chain.length - 1)
    (hstorable : tipHash.storable = true) :
    (indexer.finish info tipHash indexedBlocks depth).Ensures (keepingTo lib answers)
      (Prog.succeeds fun outcome db' => outcome = {
          indexedBlocks
          indexedHeight := chain.length - 1
          nodeHeight := chain.length - 1
          reorgDepth := depth } ∧ db'.canonicalChain = db.canonicalChain ∧
        Holds ledger indexer.network.id xs db') tr db := by
  have hpos := hs.linked.length_pos
  obtain ⟨-, -, -, hn⟩ := hs.tip hanswers
  have hlen := length_of_hashes hall
  have hne : xs ≠ [] := List.ne_nil_of_length_pos (by omega)
  obtain ⟨l, hl⟩ := Option.isSome_iff_exists.mp (List.getLast?_isSome.mpr hne)
  have hheight : l.height = chain.length - 1 := by
    have hlast := hx.selected.last_height hl
    omega
  refine Ends.bind (canonicalTip_succeeds hx.selected) fun tr => ?_
  simp only [hl, Option.map_some, Option.getD_some, hinfo]
  have hupdate (status : ChainStatus) : (Database.updateNodeTip indexer.network.id
      (chain.length - 1) tipHash status none).Ensures (keepingTo lib answers)
      (Prog.succeeds fun _ db' => db'.canonicalChain = db.canonicalChain ∧
        Holds ledger indexer.network.id xs db') tr db := by
    refine Prog.Ensures.txn_succeeds trivial fun w => ?_
    obtain ⟨db', hok⟩ : ∃ db', updateNodeTip indexer.network.id (chain.length - 1) tipHash status
        none w.now db = .ok db' := by
      simp only [updateNodeTip, Result.bind_eq_ok, checked, ensure_eq_ok]
      exact ⟨_, _, toI64_eq_ok.mpr ⟨hn, rfl⟩, (), by simp [hstorable], rfl⟩
    have hstatus := updateNodeTip_ok hok
    refine ⟨(), db', writing_ok.mpr hok, ?_, hx.of_status hstatus⟩
    obtain ⟨_, _, _, -, rfl⟩ := hstatus
    rfl
  refine Prog.Ensures.bind_succeeds (hupdate _) ?_
  rintro tr - s ⟨hchain, hx'⟩
  refine ⟨_, rfl, ?_, hchain, hx'⟩
  change SyncOutcome.mk indexedBlocks l.height _ _ = _
  rw [hheight]

end Pass

end WcashExplorer
