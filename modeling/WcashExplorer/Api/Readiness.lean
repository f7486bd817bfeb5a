import Mathlib.Data.List.Dedup
import WcashExplorer.Db.ParentVerdict
import WcashExplorer.Indexer.Vetted

/-! The readiness check of the parent evidence, and what it says about the stored observations. -/
namespace WcashExplorer

open Effects Relational

variable {lib : AuxPowCrate} {networkId hash : Text} {height : Nat} {k : Text × Text}
  {start db : Db} {log : List DbCall} {now : Timestamp}

/-- `PARENT_EVIDENCE_MAX_AGE_SECONDS`. -/
def parentEvidenceMaxAgeSeconds : Int := parentEvidenceRefreshIntervalSeconds * 2

/-- The whole seconds since a time, none for a time to come. -/
def ageSeconds (now at_ : Timestamp) : Int := max ((now - at_).tdiv microsPerSecond) 0

structure ParentEvidenceReadiness where
  exactWitnessState : Option WitnessState := none
  localValidationState : Option ValidationState := none
  parentLookupState : Option ParentLookupState := none
  parentSourcesAgree : Option Bool := none
  parentHashMeetsClaimedTarget : Option Bool := none
  verifiedAt : Option Timestamp := none
  sourceCount : Nat := 0
  canonicalMatchingSourceCount : Nat := 0
  oldestObservationAt : Option Timestamp := none
  exempt : Bool := false

/-- `is_ready`. -/
def ParentEvidenceReadiness.isReady (r : ParentEvidenceReadiness) (now : Timestamp) : Bool :=
  r.exempt ||
    (r.exactWitnessState = some .bestChain && r.localValidationState = some .auxpowVerified &&
      r.parentLookupState = some .canonical && r.parentSourcesAgree = some true &&
      r.parentHashMeetsClaimedTarget = some true && 2 ≤ r.sourceCount &&
      r.canonicalMatchingSourceCount = r.sourceCount &&
      (r.verifiedAt.any fun t => ageSeconds now t ≤ parentEvidenceMaxAgeSeconds) &&
      r.oldestObservationAt.any fun t => ageSeconds now t ≤ parentEvidenceMaxAgeSeconds)

/-- The observation found the parent on its source's best chain, under the proof's own header. -/
def ParentObservationRow.canonicalMatching (bits : Text) (o : ParentObservationRow) : Bool :=
  o.observationState = .canonical && o.embeddedHeaderMatches = some true &&
    o.parentHeight.isSome && (o.parentConfirmations.any fun c => 0 ≤ c) && o.parentBits = some bits

/-- `COUNT(DISTINCT source_name)`. -/
def countSources (rows : List ParentObservationRow) : Nat :=
  (rows.map ParentObservationRow.sourceName).dedup.length

/-- `load_parent_evidence_readiness`: the row of the canonical block, if it has a proof. -/
def loadParentEvidenceReadiness (db : Db) (networkId : Text) (height : Nat) (hash : Text) :
    Option ParentEvidenceReadiness := do
  let c ← db.canonicalChain.find? (networkId, height)
  if c.blockHash ≠ hash then none
  else
    let w ← db.blockWitnesses.find? (c.blockHash, c.witnessHash)
    let a ← db.auxpowLinks.find? (c.blockHash, c.witnessHash)
    let o := storedObservations db (c.blockHash, c.witnessHash)
    some
      { exactWitnessState := some w.exactWitnessState
        localValidationState := some w.localValidationState
        parentLookupState := some a.parentLookupState
        parentSourcesAgree := some a.parentSourcesAgree
        parentHashMeetsClaimedTarget := some a.parentHashMeetsClaimedTarget
        verifiedAt := some a.verifiedAt
        sourceCount := countSources o
        canonicalMatchingSourceCount :=
          countSources (o.filter (ParentObservationRow.canonicalMatching a.parentHeaderBits))
        oldestObservationAt := (o.map ParentObservationRow.checkedAt).min? }

theorem countSources_stored : countSources (storedObservations db k) =
    (storedObservations db k).length := by
  rw [countSources, storedObservations_nodup.2.dedup, List.length_map]

theorem countSources_filter (p : ParentObservationRow → Bool) :
    countSources ((storedObservations db k).filter p) =
      ((storedObservations db k).filter p).length := by
  have hnodup : (((storedObservations db k).filter p).map ParentObservationRow.sourceName).Nodup :=
    (List.filter_sublist.map _).nodup storedObservations_nodup.2
  rw [countSources, hnodup.dedup, List.length_map]

theorem ageSeconds_le_of_le {t t' : Timestamp} {limit : Int} (ht : t ≤ t')
    (h : ageSeconds now t ≤ limit) : ageSeconds now t' ≤ limit := by
  have hmono : (now - t').tdiv microsPerSecond ≤ (now - t).tdiv microsPerSecond :=
    Int.tdiv_le_tdiv (by decide) (Int.sub_le_sub_left ht now)
  unfold ageSeconds at *
  omega

/-- What strict readiness says about the observations stored for a witness. -/
structure Quorum (db : Db) (k : Text × Text) (now : Timestamp) : Prop where
  sources : ∃ o ∈ storedObservations db k, ∃ o' ∈ storedObservations db k,
    o.sourceName ≠ o'.sourceName
  canonical : ∀ o ∈ storedObservations db k, o.observationState = .canonical ∧
    o.embeddedHeaderMatches = some true
  fresh : ∀ o ∈ storedObservations db k, ageSeconds now o.checkedAt ≤ parentEvidenceMaxAgeSeconds

/-- A row that is ready, and the stored rows it was made from. -/
theorem loadParentEvidenceReadiness_ready {r : ParentEvidenceReadiness}
    (hload : loadParentEvidenceReadiness db networkId height hash = some r)
    (hready : r.isReady now = true) : ∃ c, db.canonicalChain.find? (networkId, height) = some c ∧
      c.blockHash = hash ∧ Quorum db (c.blockHash, c.witnessHash) now := by
  simp only [loadParentEvidenceReadiness, Option.bind_eq_bind, Option.bind_eq_some_iff] at hload
  obtain ⟨c, hc, hload⟩ := hload
  split at hload
  · cases hload
  · rename_i hhash
    simp only [Option.bind_eq_some_iff, Option.some.injEq] at hload
    obtain ⟨w, -, a, -, rfl⟩ := hload
    simp only [ParentEvidenceReadiness.isReady, Bool.false_or, Bool.and_eq_true,
      decide_eq_true_eq, countSources_stored, countSources_filter, Option.any_eq_true] at hready
    obtain ⟨⟨⟨⟨-, hcount⟩, hmatching⟩, -⟩, oldest, holdest, hage⟩ := hready
    refine ⟨c, hc, not_not.mp hhash, ?_, ?_, ?_⟩
    · have hdistinct : ((storedObservations db (c.blockHash, c.witnessHash)).map
          ParentObservationRow.sourceName).Nodup := storedObservations_nodup.2
      match hrows : storedObservations db (c.blockHash, c.witnessHash), hcount, hdistinct with
      | o :: o' :: rest, _, hdistinct =>
        simp only [List.map_cons, List.nodup_cons, List.mem_cons, not_or] at hdistinct
        exact ⟨o, by simp, o', by simp, hdistinct.1.1⟩
      | [o], hcount, _ => simp at hcount
      | [], hcount, _ => simp at hcount
    · intro o ho
      have hall := List.length_filter_eq_length_iff.mp hmatching o ho
      simp only [ParentObservationRow.canonicalMatching, Bool.and_eq_true,
        decide_eq_true_eq] at hall
      exact ⟨hall.1.1.1.1, hall.1.1.1.2⟩
    · intro o ho
      have hleast := (List.min?_eq_some_iff.mp holdest).2 o.checkedAt (List.mem_map_of_mem ho)
      exact ageSeconds_le_of_le hleast hage

/-- A vetted block carries the verdict of its own observations. -/
theorem Vetted.classified {verifier : AuxPowVerifier lib} {indexed : IndexedBlock}
    (h : Vetted lib verifier indexed) (hlabels : verifier.parents.Nodup) :
    ∀ aux ∈ indexed.auxpow, Classified aux := by
  intro aux haux
  rw [Vetted, Option.mem_def.mp haux] at h
  obtain ⟨proofBytes, proof, coinbase, c, observations, -, hsources, rfl⟩ := h
  exact ⟨rfl, hsources ▸ hlabels⟩

/-- The stored verdict of every proof is what the classifier makes of the observations stored for
it, read in any order; and strict readiness is a fresh quorum of the stored sources. -/
theorem stored_verdict_matches_observations (hstart : start.auxpowLinks.rows = [])
    (h : Calls lib storesClassified start log db) :
    (∀ link ∈ db.auxpowLinks.rows, ∀ rows : List ParentObservationRow,
      rows.Perm (storedObservations db link.key) →
      classifyObservations (rows.map ParentObservationRow.observation) =
        (link.parentLookupState, link.parentSourcesAgree)) ∧
    ∀ networkId height hash now r,
      loadParentEvidenceReadiness db networkId height hash = some r → r.isReady now = true →
      ∃ c, db.canonicalChain.find? (networkId, height) = some c ∧ c.blockHash = hash ∧
        Quorum db (c.blockHash, c.witnessHash) now := by
  refine ⟨fun link hlink rows hrows => ?_, fun networkId height hash now r hload hready =>
    loadParentEvidenceReadiness_ready hload hready⟩
  exact (h.verdictStored hstart link.key).classify (Table.find?_of_mem hlink) hrows

section Sample

/-- A pass that found the parent on the best chains of two sources. -/
def sampleQuorum : IndexedBlock :=
  let found (source : Text) : ParentObservation :=
    { source, state := .canonical, embeddedHeaderMatches := some true, checkedAt := 0 }
  let observations := [found ['p'], found ['q']]
  let b := samplePass ['1'] []
  { b with
    auxpow := b.auxpow.map fun aux => { aux with
      parentObservations := observations
      parentLookupState := (classifyObservations observations).1
      parentSourcesAgree := (classifyObservations observations).2 } }

theorem stored_verdict_matches_observations_quorum :
    ∃ link ∈ (sampleFirstPass sampleQuorum).auxpowLinks.rows,
      classifyObservations ((storedObservations (sampleFirstPass sampleQuorum) link.key).map
        ParentObservationRow.observation) = (link.parentLookupState, link.parentSourcesAgree) := by
  have h₁ : Calls sampleCrate storesClassified (initialDb sampleNetwork) [sampleGenesisCommit] _ :=
    (Calls.nil _).next (w := { now := 0 }) (by simp [storesClassified, sampleGenesisCommit,
      DbCall.blocks, sampleIndexed]) (by decide +kernel)
  have h₂ := h₁.next (w := { now := 0 }) (t := .commitBlock sampleNetwork sampleQuorum) (by
    intro b hb aux haux
    obtain rfl := List.mem_singleton.mp hb
    obtain rfl := Option.some.inj haux
    exact ⟨rfl, by decide⟩) (by decide +kernel)
  have hstored : (sampleFirstPass sampleQuorum).auxpowLinks.rows.length = 1 := by decide +kernel
  obtain ⟨link, hlinks⟩ := List.length_eq_one_iff.mp hstored
  have hlink : link ∈ (sampleFirstPass sampleQuorum).auxpowLinks.rows := by simp [hlinks]
  exact ⟨link, hlink, (stored_verdict_matches_observations rfl h₂).1 link hlink _ (.refl _)⟩

end Sample

end WcashExplorer
