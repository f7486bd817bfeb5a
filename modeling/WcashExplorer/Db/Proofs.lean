import WcashExplorer.Db.Complete
import WcashExplorer.Indexer.Fetch
import WcashExplorer.Indexer.Vetted

/-! What the store keeps of verification: every witness above genesis has its verified proof. -/
namespace WcashExplorer

open Effects Relational

variable {lib : AuxPowCrate} {verifier : AuxPowVerifier lib} {networkId : Text}
  {indexed : IndexedBlock} {start db db' : Db} {log : List DbCall} {k : Text × Text}

/-- The evidence of a witness that was verified: on the best chain, with a linked proof whose
verdict is that of some observations. -/
structure Proved (e : Evidence) : Prop where
  bestChain : e.exactWitnessState = some .bestChain
  verified : e.localValidationState = some .auxpowVerified
  link : ∃ link, e.link = some link ∧ ∃ observations,
    classifyObservations observations = (link.parentLookupState, link.parentSourcesAgree)

/-- A sound store in which the witnesses of the blocks above genesis are proved. -/
structure ProofsStored (db : Db) : Prop where
  sound : StoreSound db
  proved : ∀ k b, (db.blockWitnesses.find? k).isSome → db.blocks.find? k.1 = some b →
    0 < b.height → Proved (evidence db k)

theorem NoBlocks.proofsStored (h : NoBlocks db) : ProofsStored db where
  sound := h.sound
  proved := by
    intro k b hk
    simp [Table.find?, h.blockWitnesses] at hk

/-- A vetted block above genesis offers a verified proof. -/
theorem Vetted.pass (hv : Vetted lib verifier indexed) (hheight : indexed.block.height ≠ 0)
    {p : Pass} (hp : passOf lib indexed = .ok p) :
    p.row.exactWitnessState = .bestChain ∧ p.row.localValidationState = .auxpowVerified ∧
      ∃ link rows, p.verified = some (link, rows) ∧ ∃ observations,
        classifyObservations observations = (link.parentLookupState, link.parentSourcesAgree) := by
  unfold Vetted at hv
  simp only [passOf, Result.bind_eq_ok] at hp
  obtain ⟨row, hrow, verified, hverified, hp⟩ := hp
  cases hp
  cases haux : indexed.auxpow with
  | none =>
    rw [haux] at hv
    exact absurd (localEvidence_none hv) hheight
  | some aux =>
    rw [haux] at hv
    obtain ⟨proofBytes, proof, coinbase, confirmations, observations, -, -, rfl⟩ := hv
    rw [haux] at hverified
    simp only [optional, Result.bind_eq_ok] at hverified
    obtain ⟨_, ⟨link, hlink, rows, -, h⟩, hverified⟩ := hverified
    cases h
    cases hverified
    simp only [blockWitnessRow, haux, Result.bind_eq_ok] at hrow
    obtain ⟨bytes, -, hrow⟩ := hrow
    cases hrow
    refine ⟨rfl, rfl, link, rows, rfl, observations, ?_⟩
    simp only [auxpowLinkRow, Result.bind_eq_ok] at hlink
    obtain ⟨_, -, _, -, _, -, _, -, hlink⟩ := hlink
    cases hlink
    rfl

/-- A pass over a witness, proved before if it was stored, leaves it proved. -/
theorem Vetted.proved (hv : Vetted lib verifier indexed) (hheight : indexed.block.height ≠ 0)
    {p : Pass} (hp : passOf lib indexed = .ok p) {e : Evidence}
    (he : e.localValidationState = none ∨ e.localValidationState = some .auxpowVerified) :
    Proved (p.over k e) := by
  obtain ⟨hbest, hvalid, link, rows, hverified, observations, hverdict⟩ := hv.pass hheight hp
  refine ⟨by rw [Pass.over, hbest], ?_, ?_⟩
  · rcases he with he | he <;> simp [Pass.over, he, hvalid]
  · simp only [Pass.over, hverified]
    refine ⟨_, rfl, observations, ?_⟩
    rw [hverdict]
    cases e.link <;> rfl

theorem ProofsStored.insertBlock (hs : ProofsStored db) (hv : Vetted lib verifier indexed)
    (h : insertBlock lib networkId indexed db = .ok db') : ProofsStored db' := by
  refine ⟨hs.sound.insertBlock h, fun k b hk hb hheight => ?_⟩
  have hblocks := (insertBlock_inserts h).blocks
  -- a witness stored before has the same block as before
  have hbefore (hold : (db.blockWitnesses.find? k).isSome) : Proved (evidence db k) := by
    obtain ⟨b₀, hb₀, -⟩ := (hs.sound.witnesses k hold).block
    obtain rfl := Option.some.inj ((Table.find?_of_prefix hblocks hb₀).symm.trans hb)
    exact hs.proved k b₀ hold hb₀ hheight
  by_cases hown : k = (indexed.block.hash, witnessHash lib indexed)
  · obtain ⟨p, hp, heq⟩ := insertBlock_evidence_own h hown
    obtain ⟨-, ids, hrecorded⟩ := insertBlock_recordedFacts hs.sound.facts h
    obtain ⟨row, stored, hrow, -, hstored, hsame⟩ := hrecorded.header
    have hrowHeight : row.height = indexed.block.height := (blockRow_ok hrow).2.2.1
    have hstoredHeight : stored.height = row.height := by
      have hheights : stored.compared.height = row.compared.height := congrArg _ hsame
      exact hheights
    rw [hown] at hb
    obtain rfl := Option.some.inj (hstored.symm.trans hb)
    rw [heq]
    refine hv.proved (by omega) hp ?_
    cases hold : db.blockWitnesses.find? k with
    | none => exact .inl (by simp [evidence, hold])
    | some w => exact .inr (hbefore (by simp [hold])).verified
  · rw [insertBlock_evidence_other h hown]
    exact hbefore (insertBlock_other_witnesses h hown ▸ hk)

theorem ProofsStored.insertBlocks {blocks : List IndexedBlock} (hs : ProofsStored db)
    (hv : ∀ b ∈ blocks, ∃ verifier, Vetted lib verifier b)
    (h : insertBlocks lib networkId blocks db = .ok db') : ProofsStored db' := by
  induction blocks generalizing db with
  | nil =>
    cases h
    exact hs
  | cons first rest ih =>
    obtain ⟨db₁, hfirst, hrest⟩ := insertBlocks_cons h
    obtain ⟨verifier, hvetted⟩ := hv first (by simp)
    exact ih (hs.insertBlock hvetted hfirst) (fun b hb => hv b (by simp [hb])) hrest

/-- Every state of any sequence of methods that store vetted blocks keeps the proofs. -/
theorem Calls.proofsStored (h : Calls lib (someVetted lib) start log db) (hs : ProofsStored start) :
    ProofsStored db := by
  refine h.invariant hs fun d w t r d' hp hd hx => ?_
  obtain ⟨d₁, hins, hd'⟩ := exec_insertBlocks hx
  have hproofs := hd.insertBlocks hp hins
  have hevidence (k : Text × Text) : evidence d' k = evidence d₁ k := by
    rw [hd']
    rfl
  refine ⟨hd.sound.exec hx, fun k b hk hb hheight => ?_⟩
  rw [hd'] at hk hb
  rw [hevidence]
  exact hproofs.proved k b hk hb hheight

end WcashExplorer
