import WcashExplorer.Indexer.Node
import WcashExplorer.Indexer.Vetted

/-! Two forms of one block: what verification compares of the raw bytes with the verbose block. -/
namespace WcashExplorer

open Effects Relational

variable {lib : AuxPowCrate} {verifier : AuxPowVerifier lib} {block : RpcBlock}
  {rawBlock header : Bytes}

/-- The raw bytes under another fixed header. -/
def withHeader (header rawBlock : Bytes) : Bytes := header ++ rawBlock.drop solutionOffset

theorem drop_withHeader (hlen : header.length = solutionOffset) (n : Nat) :
    (withHeader header rawBlock).drop (solutionOffset + n) = rawBlock.drop (solutionOffset + n) := by
  have hself : (withHeader header rawBlock).drop solutionOffset = rawBlock.drop solutionOffset := by
    rw [withHeader, ← hlen, List.drop_left]
  rw [← List.drop_drop, ← List.drop_drop, hself]

theorem length_withHeader (hlen : header.length = solutionOffset)
    (hraw : solutionOffset ≤ rawBlock.length) :
    (withHeader header rawBlock).length = rawBlock.length := by
  rw [withHeader, List.length_append, List.length_drop, hlen]
  omega

/-- The solution is found behind the fixed header, whatever that holds. -/
theorem solutionFromRawBlock_withHeader (hlen : header.length = solutionOffset) {solution : Bytes}
    (h : solutionFromRawBlock rawBlock = .ok solution) :
    solutionFromRawBlock (withHeader header rawBlock) = .ok solution := by
  have hraw : solutionOffset ≤ rawBlock.length := by
    by_contra hshort
    rw [solutionFromRawBlock, if_pos (by omega)] at h
    cases h
  have hdrop := @drop_withHeader rawBlock _ hlen 0
  have hlong : ¬ rawBlock.length < solutionOffset := by omega
  rw [Nat.add_zero] at hdrop
  rw [solutionFromRawBlock, if_neg hlong] at h
  rw [solutionFromRawBlock, length_withHeader hlen hraw, if_neg hlong, hdrop, ← h]
  refine congrArg _ (funext fun p => ?_)
  simp only [Nat.add_assoc, drop_withHeader hlen]

theorem localEvidence_withHeader (hlen : header.length = solutionOffset)
    {evidence : Option (Bytes × lib.Proof × Bytes)}
    (h : localEvidence lib verifier block rawBlock = .ok evidence) :
    localEvidence lib verifier block (withHeader header rawBlock) = .ok evidence := by
  simp only [localEvidence, Result.bind_eq_ok] at h ⊢
  obtain ⟨rules, hrules, proofBytes, hproof, solution, hsolution, h⟩ := h
  exact ⟨rules, hrules, proofBytes, hproof, solution,
    solutionFromRawBlock_withHeader hlen hsolution, h⟩

theorem verifiedAuxPow_withHeader (rawBlock rawBlock' : Bytes) {proofBytes coinbase : Bytes}
    {proof : lib.Proof} {status : AuxStatus} {observations : List ParentObservation} :
    verifiedAuxPow lib rawBlock' proofBytes proof coinbase status observations =
      { verifiedAuxPow lib rawBlock proofBytes proof coinbase status observations with
        witnessHash := blockWitnessHash lib rawBlock' } := by
  simp only [verifiedAuxPow]

/-- Under another header verification goes the same way and names another witness. -/
theorem verify_withHeader (hlen : header.length = solutionOffset)
    {evidence : Option (Bytes × lib.Proof × Bytes)}
    (h : localEvidence lib verifier block rawBlock = .ok evidence) :
    verify lib verifier block (withHeader header rawBlock) =
      verify lib verifier block rawBlock >>= fun auxpow => .ret (auxpow.map fun aux =>
        { aux with witnessHash := blockWitnessHash lib (withHeader header rawBlock) }) := by
  unfold verify
  rw [h, localEvidence_withHeader hlen h]
  cases evidence with
  | none => rfl
  | some found =>
    obtain ⟨proofBytes, proof, coinbase⟩ := found
    change (Wcash.auxBlockStatus block.hash block.solution >>= fun _ => _) =
      (Wcash.auxBlockStatus block.hash block.solution >>= fun _ => _) >>= _
    simp only [Prog.bind_assoc]
    refine congrArg (Prog.bind _) (funext fun status => congrArg (Prog.bind _) (funext fun _ =>
      congrArg (Prog.bind _) (funext fun observations => ?_)))
    exact congrArg (fun aux => Prog.ret (some aux)) (verifiedAuxPow_withHeader _ _)

/-- The header fields of a serialized block, in their display order. -/
def rawPreviousHash (rawBlock : Bytes) : Text := displayHash ((rawBlock.drop 4).take 32)

def rawMerkleRoot (rawBlock : Bytes) : Text := displayHash ((rawBlock.drop 36).take 32)

def rawBits (rawBlock : Bytes) : Text := hexEncode ((rawBlock.drop 104).take 4).reverse

/-- What verification compares of the two forms of a block: the raw bytes carry the verbose
solution, and the proof in it commits to the verbose hash and meets the verbose target. -/
structure SolutionCompared (lib : AuxPowCrate) (block : RpcBlock) (rawBlock : Bytes)
    (aux : VerifiedAuxPow) : Prop where
  witnessHash : aux.witnessHash = blockWitnessHash lib rawBlock
  validated : ∃ proofBytes proof childHash target rules coinbase,
    solutionFromRawBlock rawBlock = .ok proofBytes ∧
    hexDecode block.solution = .ok proofBytes ∧
    lib.decode proofBytes = .ok proof ∧
    parseDisplayHash block.hash = .ok childHash ∧
    compactTarget lib block.bits = .ok target ∧
    lib.validateWithParentRules proof childHash target rules = .ok coinbase

theorem decodeSolutionHex_eq_ok {label : String} {value : Text} {maximumBytes : Nat}
    {bytes : Bytes} (h : decodeSolutionHex label value maximumBytes = .ok bytes) :
    hexDecode value = .ok bytes := by
  unfold decodeSolutionHex at h
  split at h
  · cases h
  · split at h
    · next hdecoded => rwa [Except.ok.inj h] at hdecoded
    · cases h

theorem asInvalidAuxPow_eq_ok {α : Type} {r : Except String α} {a : α}
    (h : asInvalidAuxPow r = .ok a) : r = .ok a := by
  cases r with
  | ok b => exact congrArg _ (Except.ok.inj h)
  | error message => cases h

theorem SolutionCompared.of_localEvidence {proofBytes : Bytes} {proof : lib.Proof}
    {coinbase : Bytes} {aux : VerifiedAuxPow} (hhash : aux.witnessHash = blockWitnessHash lib rawBlock)
    (h : localEvidence lib verifier block rawBlock = .ok (some (proofBytes, proof, coinbase))) :
    SolutionCompared lib block rawBlock aux := by
  simp only [localEvidence, Result.bind_eq_ok] at h
  obtain ⟨rules, -, proofBytes, hproof, solution, hsolution, h⟩ := h
  split at h
  · cases h
  · next hsame =>
    obtain rfl : solution = proofBytes := not_not.mp hsame
    split at h
    · split at h <;> cases h
    · simp only [Result.bind_eq_ok] at h
      obtain ⟨proof, hdecode, childHash, hchild, target, htarget, coinbase, hvalid, -⟩ := h
      exact ⟨hhash, solution, proof, childHash, target, rules, coinbase, hsolution,
        decodeSolutionHex_eq_ok hproof, asInvalidAuxPow_eq_ok hdecode, hchild, htarget,
        asInvalidAuxPow_eq_ok hvalid⟩

variable {env : Environment explorer World} {tr tr' : Trace} {db db' : Db}
  {auxpow : Option VerifiedAuxPow}

/-- Of an accepted block above genesis the raw bytes carry the verbose solution, validated for the
verbose hash and target. The fixed header before it is not read: under any other one the block is
accepted all the same, and only the witness identity changes. -/
theorem accepted_raw_block_carries_solution (hheight : block.height ≠ 0)
    (h : (verify lib verifier block rawBlock).runWith (exec lib) env tr db =
      (tr', .ok auxpow, db')) :
    ∃ aux, auxpow = some aux ∧ SolutionCompared lib block rawBlock aux ∧
      ∀ header, header.length = solutionOffset →
        (verify lib verifier block (withHeader header rawBlock)).runWith (exec lib) env tr db =
          (tr', .ok (some { aux with
            witnessHash := blockWitnessHash lib (withHeader header rawBlock) }), db') := by
  have hyield : Verified lib verifier block rawBlock auxpow := by
    obtain ⟨seg, -, hrun⟩ := Prog.runWith_run (exec lib) env (verify lib verifier block rawBlock) tr db
    rw [h] at hrun
    exact ((verify_yields (Q := fun _ => True)).run hrun).1
  cases auxpow with
  | none => exact absurd (localEvidence_none hyield) hheight
  | some aux =>
    obtain ⟨proofBytes, proof, coinbase, confirmations, observations, hlocal, -, haux⟩ := hyield
    refine ⟨aux, rfl, .of_localEvidence (by rw [haux]; rfl) hlocal, fun header hlen => ?_⟩
    rw [verify_withHeader hlen hlocal, Prog.runWith_bind, h]
    rfl

section Sample

/-- The sample block at height one behind a header of another chain. -/
def sampleForeignRaw : Bytes :=
  withHeader (List.replicate 140 0xff) (sampleRaw [0x57, 0x43, 0x41, 0x5a, 1, 1] 1)

def sampleFirst : RpcBlock := (sampleBlock 1 '1' (some '0') 1).block

/-- Verification of the sample block, as the node serves it, with raw bytes of choice. -/
def sampleVerify (rawBlock : Bytes) :
    Trace × Except ExplorerError (Option VerifiedAuxPow) × Db :=
  (verify sampleCrate (sampleIndexer 10).auxpow sampleFirst rawBlock).runWith (exec sampleCrate)
    (nodeEnvironment sampleNetwork (fun _ => [sampleBlock 1 '1' (some '0') 1]) { now := 0 }) []
    (initialDb sampleNetwork)

theorem sampleVerify_accepts : ∃ aux, (sampleVerify sampleForeignRaw).2.1 = .ok (some aux) := by
  have haccepted : ((sampleVerify sampleForeignRaw).2.1.toOption.bind id).isSome := by
    decide +kernel
  rcases hresult : (sampleVerify sampleForeignRaw).2.1 with error | found
  · rw [hresult] at haccepted
    cases haccepted
  · rcases found with - | aux
    · rw [hresult] at haccepted
      cases haccepted
    · exact ⟨aux, rfl⟩

/-- A block above genesis is accepted although its raw header names another predecessor, other
transactions and another target than its verbose form. -/
theorem accepted_headers_disagree : sampleFirst.height ≠ 0 ∧
    (∃ aux, (sampleVerify sampleForeignRaw).2.1 = .ok (some aux)) ∧
    sampleFirst.previousblockhash ≠ some (rawPreviousHash sampleForeignRaw) ∧
    sampleFirst.merkleroot ≠ rawMerkleRoot sampleForeignRaw ∧
    sampleFirst.bits ≠ rawBits sampleForeignRaw := by
  refine ⟨by decide, sampleVerify_accepts, ?_⟩
  decide +kernel

/-- The statement at that block. -/
theorem accepted_raw_block_carries_solution_first : ∃ aux,
    (sampleVerify sampleForeignRaw).2.1 = .ok (some aux) ∧
    SolutionCompared sampleCrate sampleFirst sampleForeignRaw aux := by
  obtain ⟨aux, haux⟩ := sampleVerify_accepts
  rcases hrun : sampleVerify sampleForeignRaw with ⟨tr, r, db⟩
  rw [hrun] at haux
  obtain rfl : r = .ok (some aux) := haux
  obtain ⟨aux', hsome, hcompared, -⟩ := accepted_raw_block_carries_solution (by decide) hrun
  cases hsome
  exact ⟨aux, rfl, hcompared⟩

end Sample

end WcashExplorer
