import WcashExplorer.Db.Calls
import WcashExplorer.Effects.Interleaving
import WcashExplorer.Indexer.Tip

/-! Overlapping writers: what their transactions must find for the chain to stay a chain. -/
namespace WcashExplorer

open Effects Relational

variable {lib : AuxPowCrate} {networkId : Text} {db db' : Db} {xs : List CanonicalRow}
  {indexed : IndexedBlock}

/-- A block continues a recorded tip: it names it as its predecessor, or is that very block, or
is a first one where nothing is recorded. -/
def ContinuesTip (block : RpcBlock) (c : ChainStateRow) : Prop :=
  match c.indexedHeight with
  | none => block.height = 0
  | some height =>
    (block.height = height + 1 ∧ block.previousblockhash = c.indexedHash) ∨
      (block.height = height ∧ some block.hash = c.indexedHash)

instance (block : RpcBlock) (c : ChainStateRow) : Decidable (ContinuesTip block c) := by
  unfold ContinuesTip
  split <;> infer_instance

/-- A committed append finds the tip it was fetched for, and a committed replacement finds its
ancestor selected. -/
def FindsItsChain (networkId : Text) (db : Db) : Event explorer World → Prop
  | .done _ (.commitBlock _ indexed) (.ok _) =>
      ∃ c ∈ db.chainState.find? networkId, ContinuesTip indexed.block c
  | .done _ (.replaceCanonicalBranch _ _ ancestor _) (.ok _) =>
      ∃ a ∈ ancestor, storedHash networkId db a.1 = some a.2
  | _ => True

instance (ev : Event explorer World) : Decidable (FindsItsChain networkId db ev) := by
  unfold FindsItsChain
  split <;> infer_instance

theorem TipRecorded.initialized (h : TipRecorded networkId db xs) : Initialized networkId db := by
  obtain ⟨c, hc, -⟩ := h
  exact Option.isSome_of_mem hc

theorem TipRecorded.of_recordedTip_eq (h : TipRecorded networkId db xs)
    (heq : recordedTip networkId db' = recordedTip networkId db) :
    TipRecorded networkId db' xs := by
  rw [tipRecorded_iff, heq]
  exact tipRecorded_iff.mp h

/-- An append that continues the recorded tip keeps the chain sound. -/
theorem SoundChain.commitBlock {now : Timestamp} (h : SoundChain networkId db)
    (hcontinues : ∃ c ∈ db.chainState.find? networkId, ContinuesTip indexed.block c)
    (hcommit : commitBlock lib networkId indexed now db = .ok db') : SoundChain networkId db' := by
  obtain ⟨xs, hx, htip⟩ := h
  have hinit := htip.initialized
  obtain ⟨c, hc, hcases⟩ := hcontinues
  obtain ⟨c', hc', hheight, hhash⟩ := htip
  obtain rfl := Option.some.inj (hc.symm.trans hc')
  have happend : indexed.block.height = xs.length →
      (∀ s ∈ xs.getLast?, indexed.block.previousblockhash = some s.blockHash) →
      SoundChain networkId db' := by
    intro hlen hprevious
    obtain ⟨hx', htip'⟩ := hx.commitBlock hinit hlen hprevious hcommit
    refine ⟨_, hx', tipRecorded_iff.mpr ⟨some (witnessHash lib indexed), ?_⟩⟩
    rw [htip', List.getLast?_concat]
    rfl
  cases hl : xs.getLast? with
  | none =>
    obtain rfl := List.getLast?_eq_none_iff.mp hl
    rw [ContinuesTip, hheight, hl] at hcases
    exact happend hcases nofun
  | some l =>
    have hlast := hx.last_height hl
    rw [ContinuesTip, hheight, hhash, hl] at hcases
    rcases hcases with ⟨hnext, hprevious⟩ | ⟨hsame, hblock⟩
    · refine happend (by omega) ?_
      intro s hs
      obtain rfl := Option.some.inj (hl.symm.trans hs)
      exact hprevious
    · have hlt : indexed.block.height < xs.length := by omega
      obtain ⟨hx', -, htip'⟩ := hx.commitBlock_again hinit hlt hcommit
      refine ⟨xs, hx', tipRecorded_iff.mpr ⟨some (witnessHash lib indexed), ?_⟩⟩
      rw [htip', hl, hsame, Option.map_some, Option.map_some, hblock]
      rfl

/-- A replacement over a selected ancestor keeps the chain sound. -/
theorem SoundChain.replaceCanonicalBranch {oldTip : ChainTip} {ancestor : Option (Nat × Text)}
    {blocks : List IndexedBlock} {now : Timestamp} (h : SoundChain networkId db)
    (hancestor : ∃ a ∈ ancestor, storedHash networkId db a.1 = some a.2)
    (hreplace : replaceCanonicalBranch lib networkId oldTip ancestor blocks now db = .ok db') :
    SoundChain networkId db' := by
  obtain ⟨xs, hx, htip⟩ := h
  obtain ⟨⟨a, hash⟩, rfl, hstored⟩ := hancestor
  obtain ⟨r, hr, hhash⟩ := Option.map_eq_some_iff.mp (hx.storedHash_eq.symm.trans hstored)
  have htip' := recordedTip_replaceCanonicalBranch htip.initialized hreplace
  refine ⟨_, hx.replaceCanonicalBranch hr hhash hreplace,
    tipRecorded_iff.mpr ⟨blocks.getLast?.map (witnessHash lib), ?_⟩⟩
  have hlast : (xs.take (a + 1)).getLast? = some r := by
    rw [List.getLast?_take]
    simp [hr]
  have hheight : r.height = a := (hx.key_eq hr).2
  rw [htip', List.getLast?_append, hlast, List.getLast?_map]
  cases blocks.getLast? with
  | none => simp [hheight, hhash]
  | some b => rfl

/-- Every transaction that finds its chain keeps the chain sound. -/
theorem SoundChain.exec {w : World} {t : DbCall} {r : t.Result} (h : SoundChain networkId db)
    (hn : t.networkId = networkId) (hfinds : FindsItsChain networkId db (done w t (.ok r)))
    (hexec : exec lib w t db = .ok (r, db')) : SoundChain networkId db' := by
  have hstatus : StatusOnly db db' → SoundChain networkId db' := by
    intro hs
    obtain ⟨xs, hx, htip⟩ := h
    exact ⟨xs, hs.selected hx, htip.of_recordedTip_eq (hs.recordedTip_eq networkId)⟩
  cases t with
  | canonicalTip n => exact (reading_ok.mp hexec).2 ▸ h
  | canonicalHash n height => exact (reading_ok.mp hexec).2 ▸ h
  | evidenceRefreshCandidate n depth => exact (reading_ok.mp hexec).2 ▸ h
  | commitBlock n indexed =>
    obtain rfl : n = networkId := hn
    exact h.commitBlock hfinds (writing_ok.mp hexec)
  | refreshBlockEvidence n indexed =>
    have hi := insertBlock_inserts (writing_ok.mp hexec)
    obtain ⟨xs, hx, htip⟩ := h
    exact ⟨xs, hx.of_inserts hi, htip.of_recordedTip_eq (recordedTip_of_inserts hi)⟩
  | replaceCanonicalBranch n oldTip ancestor blocks =>
    obtain rfl : n = networkId := hn
    exact h.replaceCanonicalBranch hfinds (writing_ok.mp hexec)
  | observeNodeTip n height hash => exact hstatus (observeNodeTip_ok (writing_ok.mp hexec))
  | updateNodeTip n height hash status error => exact hstatus (updateNodeTip_ok (writing_ok.mp hexec))
  | markIndexerError n error => exact hstatus (markIndexerError_ok (writing_ok.mp hexec))

section Rounds

/-- Any number of rounds of one writer, one after the other. -/
def Indexer.rounds (self : Indexer lib) : Nat → Action Unit
  | 0 => .ret ()
  | n + 1 => self.tick >>= fun _ => self.rounds n

variable {self : Indexer lib}

/-- The transaction is about the writer's network. -/
def OnNetwork (networkId : Text) (t : DbCall) : Prop := t.networkId = networkId

/-- The transaction never detaches a chain down to its genesis. -/
def DbCall.keepsGenesis : DbCall → Prop
  | .replaceCanonicalBranch _ _ ancestor _ => ancestor.isSome = true
  | _ => True

/-- A transaction as a writer of the network issues it. -/
def OwnCall (networkId : Text) (t : DbCall) : Prop := OnNetwork networkId t ∧ t.keepsGenesis

theorem orFail_issues {α : Type} {P : DbCall → Prop} {r : Result α} : (orFail r).Issues P :=
  Prog.Issues.ofExcept

theorem issue_issues {t : DbCall} (h : OwnCall networkId t) :
    (issue t).Issues (OwnCall networkId) := Prog.Issues.txn h

theorem blockHash_issues {P : DbCall → Prop} (height : Nat) : (Wcash.blockHash height).Issues P :=
  fun _ => orFail_issues

theorem examineHeight_issues (examined height : Nat) :
    (self.examineHeight examined height).Issues (OwnCall self.network.id) := by
  refine orFail_issues.bind fun _ => (issue_issues ⟨rfl, by trivial⟩).bind fun _ => ?_
  exact (blockHash_issues height).bind fun _ => trivial

theorem searchAncestor_issues (examined height : Nat) :
    (self.searchAncestor examined height).Issues (OwnCall self.network.id) := by
  induction height generalizing examined with
  | zero =>
    refine (examineHeight_issues examined 0).bind fun found => ?_
    cases found <;> exact trivial
  | succ below ih =>
    refine (examineHeight_issues examined (below + 1)).bind fun found => ?_
    cases found with
    | none => exact ih (examined + 1)
    | some ancestor => exact trivial

theorem stageBranch_issues {P : DbCall → Prop} (count height : Nat) (previous : Option Text) :
    (self.stageBranch count height previous).Issues P := by
  induction count generalizing height previous with
  | zero => exact trivial
  | succ count ih =>
    exact (fetchIndexedBlock_asksOnly self height previous).issues.bind fun _ =>
      (ih _ _).bind fun _ => trivial

theorem appendBlocks_issues (count height : Nat) (previous : Option Text) :
    (self.appendBlocks count height previous).Issues (OwnCall self.network.id) := by
  induction count generalizing height previous with
  | zero => exact trivial
  | succ count ih =>
    exact (fetchIndexedBlock_asksOnly self height previous).issues.bind fun _ =>
      (issue_issues ⟨rfl, by trivial⟩).bind fun _ => (ih _ _).bind fun _ => trivial

theorem reorganize_issues (info : BlockchainInfo) (tipHash : Text) (storedTip : ChainTip) :
    (self.reorganize info tipHash storedTip).Issues (OwnCall self.network.id) := by
  rw [Indexer.reorganize, Indexer.findCommonAncestor, Prog.bind_assoc]
  -- the search never comes back without an ancestor
  refine (searchAncestor_issues _ _).bind fun ancestor => ?_
  refine (stageBranch_issues _ _ _).bind fun replacement => Prog.Issues.bind ?_ fun _ => ?_
  · refine (blockHash_issues _).bind fun _ => orFail_issues.bind fun _ => ?_
    exact (blockHash_issues _).bind fun _ => orFail_issues
  · exact (issue_issues ⟨rfl, by rfl⟩).bind fun _ => (issue_issues ⟨rfl, by trivial⟩).bind fun _ => trivial

theorem advance_issues (info : BlockchainInfo) (tipHash : Text) (tip : Option ChainTip) :
    (self.advance info tipHash tip).Issues (OwnCall self.network.id) := by
  have happend : ∀ tip, (self.append info tip).Issues (OwnCall self.network.id) := fun tip =>
    (appendBlocks_issues _ _ _).bind fun _ => trivial
  cases tip with
  | none => exact happend none
  | some storedTip =>
    refine Prog.Issues.bind ?_ fun found => ?_
    · unfold Indexer.canonicalMatches
      split
      · exact (blockHash_issues _).bind fun _ => trivial
      · exact trivial
    · cases found with
      | false => exact reorganize_issues info tipHash storedTip
      | true => exact happend (some storedTip)

theorem refreshEvidence_issues : self.refreshEvidence.Issues (OwnCall self.network.id) := by
  refine (issue_issues ⟨rfl, by trivial⟩).bind fun candidate => ?_
  cases candidate with
  | none => exact trivial
  | some c =>
    exact (servedPredecessor_asksOnly c.1).issues.bind fun previous =>
      (fetchIndexedBlock_asksOnly self c.1 previous).issues.bind fun _ => issue_issues ⟨rfl, by trivial⟩

theorem syncOnce_issues : self.syncOnce.Issues (OwnCall self.network.id) := by
  refine Prog.Issues.bind (fun _ => orFail_issues) fun info => ?_
  refine (blockHash_issues _).bind fun tipHash => ?_
  refine (validateIdentity_asksOnly info.chain).issues.bind fun _ => ?_
  refine (issue_issues ⟨rfl, by trivial⟩).bind fun tip => (issue_issues ⟨rfl, by trivial⟩).bind fun _ => ?_
  refine (advance_issues info tipHash tip).bind fun moved => refreshEvidence_issues.bind fun _ => ?_
  exact (issue_issues ⟨rfl, by trivial⟩).bind fun _ => (issue_issues ⟨rfl, by trivial⟩).bind fun _ => trivial

/-- A writer issues transactions about its own network only. -/
theorem rounds_issues (n : Nat) : (self.rounds n).Issues (OwnCall self.network.id) := by
  induction n with
  | zero => exact trivial
  | succ n ih =>
    refine Prog.Issues.bind ?_ fun _ => ih
    refine Prog.Issues.handle (syncOnce_issues.bind fun _ => trivial) fun e => ?_
    exact Prog.Issues.handle (issue_issues ⟨rfl, by trivial⟩) fun _ => trivial

end Rounds

/-- However the interactions of any writers of one network are interleaved, and whatever their
nodes answer, the chain stays sound as long as every committed append or replacement finds the
chain it was made for. -/
theorem overlapping_writers_keep_chain {ι : Type} [DecidableEq ι] {writers : ι → Indexer lib}
    {rounds : ι → Nat} {rest : ι → Action Unit} {tr : List (ι × Event explorer World)}
    (hnetwork : ∀ i, (writers i).network.id = networkId) (hdb : SoundChain networkId db)
    (run : Interleaved (exec lib) (FindsItsChain networkId)
      (fun i => (writers i).rounds (rounds i), db) tr (rest, db')) :
    SoundChain networkId db' := by
  refine run.invariant (P := OwnCall networkId) ?_ ?_ hdb
  · intro i
    have hissues : ((writers i).rounds (rounds i)).Issues (OwnCall (writers i).network.id) :=
      rounds_issues (rounds i)
    rwa [hnetwork i] at hissues
  · intro w t r s s' ht hfinds hexec hs
    exact hs.exec ht.1 hfinds hexec

section Sample

/-- The store after two writers of the sample network took turns on it, each with a node of its
own. -/
def overlapDb (guard : Db → Event explorer World → Bool) (first second : List Char)
    (schedule : List Bool) (db : Db) : Db :=
  (interleave (exec sampleCrate) guard
    (fun i => if i then steadyNode first else steadyNode second) schedule
    (fun _ => (sampleIndexer 10).rounds 1) (fun _ => []) db).2

theorem overlapDb_interleaved (guard : Db → Event explorer World → Bool) (first second : List Char)
    (schedule : List Bool) (db : Db) :
    ∃ rest tr, Interleaved (exec sampleCrate) (fun db ev => guard db ev = true)
      (fun _ : Bool => (sampleIndexer 10).rounds 1, db) tr
      (rest, overlapDb guard first second schedule db) := by
  obtain ⟨tr, run⟩ := interleave_interleaved (exec sampleCrate) guard
    (fun i : Bool => if i then steadyNode first else steadyNode second) schedule
    (fun _ => (sampleIndexer 10).rounds 1) (fun _ => []) db
  exact ⟨_, tr, run⟩

/-- Turns in which the second writer's round falls between the first one's fetch of a block and
its commit. -/
def staleAppend : List Bool := List.replicate 12 true ++ List.replicate 30 false ++ [true]

/-- The second writer moves to a sibling branch while the first one appends to the old one; where
an append passes only on its own chain, the chain stays sound. -/
theorem overlapping_writers_keep_chain_guarded : SoundChain sampleNetwork
    (overlapDb (fun db ev => decide (FindsItsChain sampleNetwork db ev)) ['1', '2'] ['3'] staleAppend
      (sampleDb [['1']])) := by
  obtain ⟨rest, tr, run⟩ := overlapDb_interleaved
    (fun db ev => decide (FindsItsChain sampleNetwork db ev)) ['1', '2'] ['3'] staleAppend
    (sampleDb [['1']])
  simp only [decide_eq_true_eq] at run
  exact overlapping_writers_keep_chain (fun _ => rfl) (sampleDb_reachable _).soundChain run

/-- Otherwise the stale append lands on the sibling branch and the chain is linked no more. -/
theorem stale_append_breaks_chain : ¬ ∀ (db db' : Db) (rest : Bool → Action Unit)
    (tr : List (Bool × Event explorer World)), Reachable sampleCrate sampleNetwork db →
    Interleaved (exec sampleCrate) (fun _ _ => True) (fun _ => (sampleIndexer 10).rounds 1, db) tr
      (rest, db') → SoundChain sampleNetwork db' := by
  intro h
  obtain ⟨rest, tr, run⟩ := overlapDb_interleaved (fun _ _ => true) ['1', '2'] ['3'] staleAppend
    (sampleDb [['1']])
  simp only at run
  obtain ⟨xs, hx, -⟩ := h _ _ rest tr (sampleDb_reachable [['1']]) run
  have hrows : ∀ height, (xs.map CanonicalRow.blockHash)[height]? = storedHash sampleNetwork
      (overlapDb (fun _ _ => true) ['1', '2'] ['3'] staleAppend (sampleDb [['1']])) height := by
    intro height
    rw [hx.storedHash_eq, List.getElem?_map]
  have hlinked := hx.linked.parent (a := sampleHash '3') (b := sampleHash '2') (n := 1)
    ((hrows 1).trans (by decide +kernel)) ((hrows 2).trans (by decide +kernel))
  revert hlinked
  decide +kernel

end Sample

end WcashExplorer
