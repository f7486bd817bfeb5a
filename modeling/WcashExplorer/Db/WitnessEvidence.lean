import WcashExplorer.Db.Calls
import WcashExplorer.Relational.Upserts

/-! The readable evidence of a witness, and what one verification pass makes of it. -/
namespace WcashExplorer

open Effects Relational

variable {lib : AuxPowCrate} {networkId blockHash witness : Text} {indexed : IndexedBlock}
  {db db₁ db₂ db' : Db} {k : Text × Text}

/-- What can be read about one witness after a pass over it. -/
@[ext] structure Evidence where
  exactWitnessState : Option WitnessState
  witnessConfirmations : Option (Option Nat)
  localValidationState : Option ValidationState
  verifierVersion : Option (Option Text)
  link : Option AuxpowLinkRow
  observations : Text → Option ParentObservationRow
  pools : Text → Option ValuePoolSnapshotRow

/-- The evidence stored for a (block hash, witness hash). -/
def evidence (db : Db) (k : Text × Text) : Evidence :=
  let row := db.blockWitnesses.find? k
  { exactWitnessState := row.map BlockWitnessRow.exactWitnessState
    witnessConfirmations := row.map BlockWitnessRow.witnessConfirmations
    localValidationState := row.map BlockWitnessRow.localValidationState
    verifierVersion := row.map BlockWitnessRow.verifierVersion
    link := db.auxpowLinks.find? k
    observations := fun source => db.parentChainObservations.find? (k.1, k.2, source)
    pools := fun pool => db.valuePoolSnapshots.find? (k.1, k.2, pool) }

section Writes

theorem insertValuePools_find? {pools : List ValuePool}
    (h : insertValuePools blockHash witness pools db = .ok db') (k : Text × Text × Text) :
    db'.valuePoolSnapshots.find? k =
      (lastOf ValuePoolSnapshotRow.key (pools.map (valuePoolRow blockHash witness)) k).or
        (db.valuePoolSnapshots.find? k) := by
  induction pools generalizing db with
  | nil =>
    cases h
    rfl
  | cons pool rest ih =>
    simp only [insertValuePools, Result.bind_eq_ok] at h
    obtain ⟨-, -, h⟩ := h
    rw [ih h, Table.find?_upsert_replacing, List.map_cons, lastOf_cons, Option.or_assoc]
    intro s hs
    cases s
    simp_all [ValuePoolSnapshotRow.key, ValuePoolSnapshotRow.refreshedBy]

/-- The rows the observations of one pass are stored as. -/
def observationRows (blockHash witness : Text) (observations : List ParentObservation) :
    Result (List ParentObservationRow) :=
  observations.mapM (parentObservationRow blockHash witness)

theorem insertObservations_find? {observations : List ParentObservation}
    (h : insertObservations blockHash witness observations db = .ok db') :
    ∃ rows, observationRows blockHash witness observations = .ok rows ∧ ∀ k,
      db'.parentChainObservations.find? k =
        (lastOf ParentObservationRow.key rows k).or (db.parentChainObservations.find? k) := by
  induction observations generalizing db with
  | nil =>
    cases h
    exact ⟨[], rfl, fun k => rfl⟩
  | cons observation rest ih =>
    simp only [insertObservations, Result.bind_eq_ok] at h
    obtain ⟨row, hrow, -, -, h⟩ := h
    obtain ⟨rows, hrows, hfind⟩ := ih h
    refine ⟨row :: rows, ?_, fun k => ?_⟩
    · simp only [observationRows, List.mapM_cons, Result.bind_eq_ok]
      exact ⟨row, hrow, rows, hrows, rfl⟩
    · rw [hfind, Table.find?_upsert_replacing, lastOf_cons, Option.or_assoc]
      intro s hs
      cases s
      simp_all [ParentObservationRow.key, ParentObservationRow.refreshedBy]

end Writes

/-- What one verification pass over a witness offers to the evidence tables. -/
structure Pass where
  row : BlockWitnessRow
  verified : Option (AuxpowLinkRow × List ParentObservationRow)
  pools : List ValuePoolSnapshotRow

/-- The pass a materialized block stands for. -/
def passOf (lib : AuxPowCrate) (indexed : IndexedBlock) : Result Pass := do
  let blockHash := indexed.block.hash
  let witness := witnessHash lib indexed
  let row ← blockWitnessRow lib indexed
  let verified ← optional (fun aux : VerifiedAuxPow => do
    let link ← auxpowLinkRow blockHash witness indexed.fetchedAt aux
    let rows ← observationRows blockHash witness aux.parentObservations
    .ok (link, rows)) indexed.auxpow
  .ok { row, verified, pools := indexed.block.valuePools.map (valuePoolRow blockHash witness) }

/-- The evidence after a pass, from the evidence before it. -/
def Pass.over (p : Pass) (k : Text × Text) (e : Evidence) : Evidence where
  exactWitnessState := some p.row.exactWitnessState
  witnessConfirmations := some p.row.witnessConfirmations
  localValidationState := some (e.localValidationState.getD p.row.localValidationState)
  verifierVersion := some (e.verifierVersion.getD p.row.verifierVersion)
  link := match p.verified with
    | some (link, _) => some (e.link.elim link link.refreshedBy)
    | none => e.link
  observations := match p.verified with
    | some (_, rows) => fun source => lastOf ParentObservationRow.key rows (k.1, k.2, source)
    | none => e.observations
  pools := fun pool => (lastOf ValuePoolSnapshotRow.key p.pools (k.1, k.2, pool)).or (e.pools pool)

theorem observationRows_own {observations : List ParentObservation}
    {rows : List ParentObservationRow}
    (h : observationRows blockHash witness observations = .ok rows) :
    ∀ r ∈ rows, r.blockHash = blockHash ∧ r.witnessHash = witness := by
  induction observations generalizing rows with
  | nil =>
    cases h
    simp
  | cons observation rest ih =>
    simp only [observationRows, List.mapM_cons, Result.bind_eq_ok] at h
    obtain ⟨row, hrow, rows, hrows, h⟩ := h
    cases h
    intro r hr
    rcases List.mem_cons.mp hr with rfl | hr
    · simp only [parentObservationRow, Result.bind_eq_ok] at hrow
      obtain ⟨height, -, hrow⟩ := hrow
      cases hrow
      exact ⟨rfl, rfl⟩
    · exact ih hrows r hr

theorem lastOf_observations_other {rows : List ParentObservationRow} {source : Text}
    (hown : ∀ r ∈ rows, r.blockHash = blockHash ∧ r.witnessHash = witness)
    (hk : k ≠ (blockHash, witness)) :
    lastOf ParentObservationRow.key rows (k.1, k.2, source) = none := by
  refine lastOf_eq_none.mpr fun r hr hkey => hk ?_
  obtain ⟨hb, hw⟩ := hown r hr
  simp only [ParentObservationRow.key, hb, hw, Prod.mk.injEq] at hkey
  exact Prod.ext hkey.1.symm hkey.2.1.symm

theorem lastOf_pools_other {pools : List ValuePool} {pool : Text} (hk : k ≠ (blockHash, witness)) :
    lastOf ValuePoolSnapshotRow.key (pools.map (valuePoolRow blockHash witness))
      (k.1, k.2, pool) = none := by
  refine lastOf_eq_none.mpr fun r hr hkey => hk ?_
  obtain ⟨p, -, rfl⟩ := List.mem_map.mp hr
  simp only [ValuePoolSnapshotRow.key, valuePoolRow, Prod.mk.injEq] at hkey
  exact Prod.ext hkey.1.symm hkey.2.1.symm

/-- The observations of a witness after a pass are those of the pass alone. -/
theorem insertEvidence_observations {fetchedAt : Timestamp} {aux : VerifiedAuxPow}
    (h : insertEvidence blockHash witness fetchedAt (some aux) db = .ok db') :
    ∃ rows, observationRows blockHash witness aux.parentObservations = .ok rows ∧
      ∀ k source, db'.parentChainObservations.find? (k.1, k.2, source) =
        if k = (blockHash, witness) then lastOf ParentObservationRow.key rows (k.1, k.2, source)
        else db.parentChainObservations.find? (k.1, k.2, source) := by
  simp only [insertEvidence, Result.bind_eq_ok] at h
  obtain ⟨link, -, -, -, h⟩ := h
  obtain ⟨rows, hrows, hfind⟩ := insertObservations_find? h
  refine ⟨rows, hrows, fun k source => ?_⟩
  rw [hfind, Table.find?_deleteWhere]
  by_cases hk : k = (blockHash, witness)
  · subst hk
    have hnone : ((db.parentChainObservations.find? (blockHash, witness, source)).filter fun r =>
        !(decide (r.blockHash = blockHash) && decide (r.witnessHash = witness))) = none := by
      cases hold : db.parentChainObservations.find? (blockHash, witness, source) with
      | none => rfl
      | some r =>
        have hkey := Table.key_of_find? hold
        simp only [ParentObservationRow.key, Prod.mk.injEq] at hkey
        simp [hkey.1, hkey.2.1]
    rw [if_pos rfl, hnone, Option.or_none]
  · rw [if_neg hk, lastOf_observations_other (observationRows_own hrows) hk, Option.none_or]
    cases hold : db.parentChainObservations.find? (k.1, k.2, source) with
    | none => rfl
    | some r =>
      have hkey := Table.key_of_find? hold
      simp only [ParentObservationRow.key, Prod.mk.injEq] at hkey
      have hne : ¬ (r.blockHash = blockHash ∧ r.witnessHash = witness) := by
        rintro ⟨hb, hw⟩
        exact hk (Prod.ext (hkey.1.symm.trans hb) (hkey.2.1.symm.trans hw))
      simp only [Option.filter_some, Bool.not_eq_true', Bool.and_eq_false_iff,
        decide_eq_false_iff_not]
      rw [if_pos (not_and_or.mp hne)]

/-- `insert_block` stores the pools it is given over the stored ones. -/
theorem insertBlock_pools (h : insertBlock lib networkId indexed db = .ok db')
    (key : Text × Text × Text) : db'.valuePoolSnapshots.find? key =
      (lastOf ValuePoolSnapshotRow.key (indexed.block.valuePools.map
        (valuePoolRow indexed.block.hash (witnessHash lib indexed))) key).or
          (db.valuePoolSnapshots.find? key) := by
  obtain ⟨db₁, db₂, db₃, db₄, h₁, h₂, h₃, h₄, h₅⟩ := insertBlock_ok h
  obtain ⟨block, -, -, -, rfl, -⟩ := insertBlockFacts_ok h₁
  obtain ⟨row, -, -, rfl⟩ := insertWitness_ok h₂
  have hafter : db'.valuePoolSnapshots = db₄.valuePoolSnapshots := by
    rw [insertEvidence_frame h₅]
  have hbefore : db₃.valuePoolSnapshots = db.valuePoolSnapshots := by
    rw [insertBlockTransactions_only h₃]
  rw [hafter, insertValuePools_find? h₄, hbefore]

/-- Its observations replace the stored ones, if it has a proof. -/
theorem insertBlock_observations (h : insertBlock lib networkId indexed db = .ok db') :
    (indexed.auxpow = none ∧ db'.parentChainObservations = db.parentChainObservations) ∨
      ∃ aux rows, indexed.auxpow = some aux ∧
        observationRows indexed.block.hash (witnessHash lib indexed) aux.parentObservations =
          .ok rows ∧
        ∀ k source, db'.parentChainObservations.find? (k.1, k.2, source) =
          if k = (indexed.block.hash, witnessHash lib indexed) then
            lastOf ParentObservationRow.key rows (k.1, k.2, source)
          else db.parentChainObservations.find? (k.1, k.2, source) := by
  obtain ⟨db₁, db₂, db₃, db₄, h₁, h₂, h₃, h₄, h₅⟩ := insertBlock_ok h
  obtain ⟨block, -, -, -, rfl, -⟩ := insertBlockFacts_ok h₁
  obtain ⟨row, -, -, rfl⟩ := insertWitness_ok h₂
  have hbefore : db₄.parentChainObservations = db.parentChainObservations := by
    rw [insertValuePools_frame h₄, insertBlockTransactions_only h₃]
  cases haux : indexed.auxpow with
  | none =>
    rw [haux] at h₅
    cases h₅
    exact .inl ⟨rfl, hbefore⟩
  | some aux =>
    rw [haux] at h₅
    obtain ⟨rows, hrows, hfind⟩ := insertEvidence_observations h₅
    rw [hbefore] at hfind
    exact .inr ⟨aux, rows, rfl, hrows, hfind⟩

theorem insertBlock_other_witnesses (h : insertBlock lib networkId indexed db = .ok db')
    (hk : k ≠ (indexed.block.hash, witnessHash lib indexed)) :
    db'.blockWitnesses.find? k = db.blockWitnesses.find? k := by
  obtain ⟨row, hrow, heq⟩ := insertBlock_witnesses h
  rw [heq, Table.find?_upsert_of_ne]
  rw [(blockWitnessRow_ok hrow).1]
  exact hk.symm

/-- The evidence of other witnesses stays as it is. -/
theorem insertBlock_evidence_other (h : insertBlock lib networkId indexed db = .ok db')
    (hk : k ≠ (indexed.block.hash, witnessHash lib indexed)) : evidence db' k = evidence db k := by
  have hobservations : ∀ source, db'.parentChainObservations.find? (k.1, k.2, source) =
      db.parentChainObservations.find? (k.1, k.2, source) := fun source => by
    rcases insertBlock_observations h with ⟨-, heq⟩ | ⟨aux, rows, -, -, hfind⟩
    · rw [heq]
    · rw [hfind, if_neg hk]
  have hpools : ∀ pool, db'.valuePoolSnapshots.find? (k.1, k.2, pool) =
      db.valuePoolSnapshots.find? (k.1, k.2, pool) := fun pool => by
    rw [insertBlock_pools h, lastOf_pools_other hk, Option.none_or]
  simp only [evidence, insertBlock_other_witnesses h hk, insertBlock_other_links h hk,
    hobservations, hpools]

/-- The evidence of the block's own witness changes by one pass. -/
theorem insertBlock_evidence_own (h : insertBlock lib networkId indexed db = .ok db')
    (hk : k = (indexed.block.hash, witnessHash lib indexed)) :
    ∃ p, passOf lib indexed = .ok p ∧ evidence db' k = p.over k (evidence db k) := by
  obtain ⟨row, hrow, hwitnesses⟩ := insertBlock_witnesses h
  have hkey : row.key = k := (blockWitnessRow_ok hrow).1.trans hk.symm
  have hwitness : db'.blockWitnesses.find? k =
      some ((db.blockWitnesses.find? k).elim row row.refreshedBy) := by
    rw [hwitnesses, ← hkey, Table.find?_upsert_self]
  have hpools := insertBlock_pools h
  let pools := indexed.block.valuePools.map
    (valuePoolRow indexed.block.hash (witnessHash lib indexed))
  rcases insertBlock_links h with ⟨hnone, hlinks⟩ | ⟨aux, link, haux, hlink, hlinks⟩
  · rcases insertBlock_observations h with ⟨-, hobservations⟩ | ⟨aux, rows, haux, -⟩
    · refine ⟨{ row, verified := none, pools }, ?_, ?_⟩
      · simp only [passOf, Result.bind_eq_ok]
        exact ⟨row, hrow, none, by rw [hnone]; rfl, rfl⟩
      · simp only [evidence, Pass.over, hwitness, hlinks, hobservations, hpools]
        cases db.blockWitnesses.find? k <;> rfl
    · rw [hnone] at haux
      cases haux
  · rcases insertBlock_observations h with ⟨hnone, -⟩ | ⟨aux', rows, haux', hrows, hobservations⟩
    · rw [haux] at hnone
      cases hnone
    · obtain rfl := Option.some.inj (haux.symm.trans haux')
      have hlinkKey : link.key = k := (auxpowLinkRow_ok hlink).1.trans hk.symm
      have hlinkAfter : db'.auxpowLinks.find? k =
          some ((db.auxpowLinks.find? k).elim link link.refreshedBy) := by
        rw [hlinks, ← hlinkKey, Table.find?_upsert_self]
      refine ⟨{ row, verified := some (link, rows), pools }, ?_, ?_⟩
      · simp only [passOf, Result.bind_eq_ok]
        refine ⟨row, hrow, some (link, rows), ?_, rfl⟩
        refine optional_eq_ok.mpr (.inr ⟨aux, _, haux, rfl, ?_⟩)
        simp only [Result.bind_eq_ok]
        exact ⟨link, hlink, rows, hrows, rfl⟩
      · simp only [evidence, Pass.over, hwitness, hlinkAfter, hobservations, hpools, if_pos hk]
        cases db.blockWitnesses.find? k <;> rfl

end WcashExplorer
