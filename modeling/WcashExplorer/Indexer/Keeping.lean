import WcashExplorer.Db.Accepting
import WcashExplorer.Indexer.ForkPoint

/-! A node that keeps one verified chain, and fetching from it. -/
namespace WcashExplorer

open Effects Relational

/-- The answers an environment may give. -/
abbrev Answers : Type := (q : RpcCall) → q.Answer → Prop

/-- Every environment that keeps to some answers. -/
def keepingTo (lib : AuxPowCrate) (answers : Answers) : Contract explorer Db World where
  exec := exec lib
  allow := answers
  check := fun _ _ _ => True

variable {lib : AuxPowCrate} (indexer : Indexer lib) (answers : Answers)

/-- An observation made by one of the configured parents, of a block it answered with. -/
structure ObservedFrom (observation : ParentObservation) : Prop where
  source : observation.source ∈ indexer.auxpow.parents
  block : ∀ block ∈ observation.block, ∃ parent hash, answers (.parentBlock parent hash) (.ok block)

/-- The evidence a block's proof gives, with the node's verdict and the parents' observations. -/
inductive EvidenceFrom (block : RpcBlock) (rawBlock : Bytes) : Option VerifiedAuxPow → Prop
  | native (found : localEvidence lib indexer.auxpow block rawBlock = .ok none) :
      EvidenceFrom block rawBlock none
  | verified {proofBytes coinbase : Bytes} {proof : lib.Proof} {status : AuxStatus}
      {observations : List ParentObservation}
      (found : localEvidence lib indexer.auxpow block rawBlock =
        .ok (some (proofBytes, proof, coinbase)))
      (answered : answers (.auxBlockStatus block.hash block.solution) (.ok status))
      (observed : ∀ o ∈ observations, ObservedFrom indexer answers o) :
      EvidenceFrom block rawBlock
        (some (verifiedAuxPow lib rawBlock proofBytes proof coinbase status observations))

/-- What fetching a served block hands on. -/
structure FetchedFrom (served : NodeBlock) (indexed : IndexedBlock) : Prop where
  block : indexed.block = served.block
  raw : indexed.raw = served.raw
  rawBlock : decodeHexBounded "raw block" served.encoded (maxRpcResponseBytes / 2) =
    .ok indexed.rawBlock
  evidence : EvidenceFrom indexer answers served.block indexed.rawBlock indexed.auxpow

/-- A served block passes the checks of the client and of the local verification. -/
structure Verifies (served : NodeBlock) : Prop where
  hash : isHash served.block.hash = true
  decodes : ∃ rawBlock, decodeHexBounded "raw block" served.encoded (maxRpcResponseBytes / 2) =
    .ok rawBlock ∧ ∃ evidence, localEvidence lib indexer.auxpow served.block rawBlock = .ok evidence

/-- A chain of served blocks, hash-linked from the configured genesis on. -/
structure NodeChain (chain : List NodeBlock) : Prop where
  height : ∀ (h : Nat) (b : NodeBlock), chain[h]? = some b → b.block.height = h
  genesis : ∃ b, chain[0]? = some b ∧ b.block.hash = indexer.network.genesisHash ∧
    (b.block.previousblockhash = none ∨ b.block.previousblockhash = some zeroHash)
  linked : ∀ (h : Nat) (a b : NodeBlock), chain[h]? = some a → chain[h + 1]? = some b →
    b.block.previousblockhash = some a.block.hash

/-- The node keeps the chain: whatever it answers for it is the chain's. -/
structure KeepsChain (chain : List NodeBlock) : Prop where
  info : ∀ a, answers .blockchainInfo a →
    a = .ok { chain := indexer.expectedChain, blocks := chain.length - 1 }
  hash : ∀ (h : Nat) (b : NodeBlock) a, chain[h]? = some b → answers (.blockHash h) a →
    a = .ok b.block.hash
  verbose : ∀ b ∈ chain, ∀ a, answers (.blockVerbose b.block.hash) a → a = .ok (b.block, b.raw)
  raw : ∀ b ∈ chain, ∀ a, answers (.blockRaw b.block.hash) a → a = .ok b.encoded
  status : ∀ b ∈ chain, ∀ a, answers (.auxBlockStatus b.block.hash b.block.solution) a →
    ∃ n, a = .ok (.bestChain n)

variable {indexer answers} {chain : List NodeBlock} {b : NodeBlock} {h n : Nat} {tr : Trace} {db : Db}
  {previous : Option Text} {block : RpcBlock} {rawBlock : Bytes} {hash : Text}

/-- A check that passes is passed. -/
theorem ensure_bind {α : Type} {c : Bool} {e : ExplorerError} {f : Unit → Action α}
    {C : Contract explorer Db World} {R : Post explorer Db World α} (hc : c = true)
    (hf : (f ()).Ensures C R tr db) : (orFail (ensure c e) >>= f).Ensures C R tr db :=
  Prog.Ensures.ofExcept_bind (ensure_eq_ok.mpr hc) hf

/-- The node's hash at a height of the chain. -/
theorem KeepsChain.blockHash (hk : KeepsChain indexer answers chain) (hat : chain[h]? = some b) :
    (Wcash.blockHash h).Ensures (keepingTo lib answers) (Ends db (.ok b.block.hash)) tr db := by
  intro a ha
  obtain rfl := hk.hash h b a hat ha
  exact ⟨rfl, rfl⟩

/-- A node of the configured network that answers from one chain, no hash of which occurs twice,
keeps it. -/
theorem KeepsChain.ofNode {answers : Answers} {now : Timestamp}
    (hanswers : ∀ q a, answers q a → a = nodeAnswer indexer.expectedChain chain now q)
    (hnodup : (chain.map fun b => b.block.hash).Nodup) : KeepsChain indexer answers chain := by
  have hfind {b : NodeBlock} (hb : b ∈ chain) :
      chain.find? (fun c => c.block.hash = b.block.hash) = some b :=
    find?_of_nodup_map hnodup hb (by simp) fun c _ hc => by simpa using hc
  constructor
  · intro a ha
    rw [hanswers _ a ha, nodeAnswer]
  · intro h b a hat ha
    rw [hanswers _ a ha, nodeAnswer, hat]
  · intro b hb a ha
    rw [hanswers _ a ha, nodeAnswer, hfind hb]
  · intro b hb a ha
    rw [hanswers _ a ha, nodeAnswer, hfind hb]
  · intro b hb a ha
    have hsome : chain.find? (fun c => c.block.hash = b.block.hash &&
        c.block.solution = b.block.solution) = some b := by
      refine find?_of_nodup_map hnodup hb (by simp) ?_
      intro c _ hc
      simp only [Bool.and_eq_true, decide_eq_true_eq] at hc
      exact hc.1
    refine ⟨1, ?_⟩
    rw [hanswers _ a ha, nodeAnswer, hsome]

/-- The local evidence bounds the proof that is sent to the node. -/
theorem localEvidence_solution {evidence : Option (Bytes × lib.Proof × Bytes)}
    (hfound : localEvidence lib indexer.auxpow block rawBlock = .ok evidence) :
    (block.solution.len ≤ 512 * 1024 && block.solution.len % 2 = 0) = true := by
  simp only [localEvidence, Result.bind_eq_ok] at hfound
  obtain ⟨rules, -, proofBytes, hdecode, -⟩ := hfound
  unfold decodeSolutionHex at hdecode
  split at hdecode
  · cases hdecode
  · rename_i hlen
    simp only [Bool.or_eq_true, decide_eq_true_eq, not_or, not_not, Nat.not_lt] at hlen
    simp only [Bool.and_eq_true, decide_eq_true_eq]
    omega

theorem parentLookups_answered (parent : Nat) :
    (parentLookups parent hash).Ensures (keepingTo lib answers)
      (Prog.onOk fun _ a _ => ∃ parent hash, answers (.parentBlock parent hash) (.ok a.1)) tr db := by
  refine Prog.Ensures.bind_onOk (P := fun _ block _ =>
    ∃ parent hash, answers (.parentBlock parent hash) (.ok block)) ?_ ?_
  · refine Prog.Ensures.ofExcept_bind_onOk fun _ _ => ?_
    intro a ha
    refine Prog.Ensures.ofExcept_onOk ?_
    rintro block rfl
    exact ⟨parent, hash, ha⟩
  · rintro tr block db hblock
    refine Prog.Ensures.bind_onOk (P := fun _ _ _ => True) ?_ fun _ _ _ _ => ?_
    · refine Prog.Ensures.ofExcept_bind_onOk fun _ _ => ?_
      refine Prog.Ensures.bind_onOk (P := fun _ _ _ => True) ?_ fun _ _ _ _ => ?_
      · intro a _
        exact Prog.Ensures.ofExcept_onOk fun _ _ => trivial
      · exact Prog.Ensures.ofExcept_onOk fun _ _ => trivial
    · exact Prog.Ensures.ret_onOk hblock

/-- Observing never fails, and what is observed is what a parent answered. -/
theorem observeParent_succeeds {source : Text} (hsource : source ∈ indexer.auxpow.parents)
    (parent : Nat) (header : Bytes) :
    (observeParent lib parent source hash header).Ensures (keepingTo lib answers)
      (Prog.succeeds fun o db' => db' = db ∧ ObservedFrom indexer answers o) tr db := by
  intro checkedAt _
  refine Prog.ensures_handle.mpr ?_
  refine Prog.Ensures.bind (Q := fun _ o s => s = db ∧ ∀ a, o = .ok a →
    ∃ parent hash, answers (.parentBlock parent hash) (.ok a.1)) ?_ ?_ ?_
  · refine ((parentLookups_answered parent).and (parentLookups_asksOnly parent hash).ensures).mono ?_
    rintro tr o s ⟨hanswered, rfl, -⟩
    exact ⟨rfl, hanswered⟩
  · rintro tr ⟨block, raw⟩ s ⟨rfl, hanswered⟩
    refine ⟨_, rfl, rfl, hsource, ?_⟩
    intro block' hblock'
    obtain rfl : block = block' := by simpa [foundObservation] using hblock'
    exact hanswered (block, raw) rfl
  · rintro tr e s ⟨rfl, -⟩
    refine ⟨_, rfl, rfl, hsource, ?_⟩
    intro block hblock
    simp [failedObservation] at hblock

theorem observeParents_succeeds {sources : List Text} (parent : Nat) (header : Bytes)
    (hsources : ∀ source ∈ sources, source ∈ indexer.auxpow.parents) :
    (observeParents lib hash header parent sources).Ensures (keepingTo lib answers)
      (Prog.succeeds fun os db' => db' = db ∧ ∀ o ∈ os, ObservedFrom indexer answers o) tr db := by
  induction sources generalizing parent tr with
  | nil => exact ⟨_, rfl, rfl, by simp⟩
  | cons source rest ih =>
    refine Prog.Ensures.bind_succeeds
      (observeParent_succeeds (hsources source (by simp)) parent header) ?_
    rintro tr o s ⟨rfl, ho⟩
    refine Prog.Ensures.bind_succeeds
      (ih (parent + 1) fun source hs => hsources source (by simp [hs])) ?_
    rintro tr os s ⟨rfl, hos⟩
    refine ⟨_, rfl, rfl, ?_⟩
    intro o' ho'
    rcases List.mem_cons.mp ho' with rfl | ho'
    · exact ho
    · exact hos o' ho'

/-- Verification of a chain's block ends well. -/
theorem verify_succeeds (hk : KeepsChain indexer answers chain) (hb : b ∈ chain)
    (hhash : isHash b.block.hash = true) {evidence : Option (Bytes × lib.Proof × Bytes)}
    (hfound : localEvidence lib indexer.auxpow b.block rawBlock = .ok evidence) :
    (verify lib indexer.auxpow b.block rawBlock).Ensures (keepingTo lib answers)
      (Prog.succeeds fun aux db' => db' = db ∧ EvidenceFrom indexer answers b.block rawBlock aux)
      tr db := by
  refine Prog.Ensures.ofExcept_bind hfound ?_
  cases evidence with
  | none => exact ⟨_, rfl, rfl, .native hfound⟩
  | some found =>
    obtain ⟨proofBytes, proof, coinbase⟩ := found
    have hstatus : (Wcash.auxBlockStatus b.block.hash b.block.solution).Ensures
        (keepingTo lib answers) (Prog.succeeds fun status db' => db' = db ∧
          (∃ n, status = .bestChain n) ∧
          answers (.auxBlockStatus b.block.hash b.block.solution) (.ok status)) tr db := by
      refine ensure_bind hhash ?_
      refine ensure_bind (localEvidence_solution hfound) ?_
      intro a ha
      obtain ⟨n, rfl⟩ := hk.status b hb a ha
      exact ⟨_, rfl, rfl, ⟨n, rfl⟩, ha⟩
    refine Prog.Ensures.bind_succeeds hstatus ?_
    rintro tr status s ⟨rfl, ⟨n, rfl⟩, ha⟩
    refine Prog.Ensures.ofExcept_bind (a := ()) rfl ?_
    refine Prog.Ensures.bind_succeeds (observeParents_succeeds 0 _ fun _ hs => hs) ?_
    rintro tr observations s ⟨rfl, hobserved⟩
    exact ⟨_, rfl, rfl, .verified hfound ha hobserved⟩

/-- Fetching a block of the chain ends well. -/
theorem fetchIndexedBlock_succeeds (hc : NodeChain indexer chain)
    (hk : KeepsChain indexer answers chain) (hv : ∀ b ∈ chain, Verifies indexer b) (hat : chain[h]? = some b)
    (hprevious : Indexer.previousMatches h b.block previous = true) :
    (indexer.fetchIndexedBlock h previous).Ensures (keepingTo lib answers)
      (Prog.succeeds fun indexed db' => db' = db ∧ FetchedFrom indexer answers b indexed) tr db := by
  have hb : b ∈ chain := List.mem_of_getElem? hat
  obtain ⟨hhash, rawBlock, hraw, evidence, hfound⟩ := hv b hb
  refine Ends.bind (hk.blockHash hat) fun tr => ?_
  have hrawBlock : (Wcash.blockRaw b.block.hash).Ensures (keepingTo lib answers)
      (Ends db (.ok rawBlock)) tr db := by
    refine ensure_bind hhash ?_
    intro a ha
    obtain rfl := hk.raw b hb a ha
    refine Prog.Ensures.ofExcept ?_
    exact ⟨rfl, hraw⟩
  refine Ends.bind hrawBlock fun tr => ?_
  have hverbose : (Wcash.blockVerbose b.block.hash).Ensures (keepingTo lib answers)
      (Ends db (.ok (b.block, b.raw))) tr db := by
    refine ensure_bind hhash ?_
    intro a ha
    obtain rfl := hk.verbose b hb a ha
    exact ⟨rfl, rfl⟩
  refine Ends.bind hverbose fun tr => ?_
  have hidentity : (b.block.hash = b.block.hash && b.block.height = h) = true := by
    simp [hc.height h b hat]
  refine ensure_bind hidentity ?_
  refine ensure_bind hprevious ?_
  refine Prog.Ensures.bind_succeeds (verify_succeeds hk hb hhash hfound) ?_
  rintro tr auxpow s ⟨rfl, hevidence⟩
  refine Ends.bind (hk.blockHash hat) fun tr => ?_
  refine ensure_bind (decide_eq_true rfl) ?_
  intro fetchedAt _
  exact ⟨_, rfl, rfl, rfl, rfl, hraw, hevidence⟩

end WcashExplorer
