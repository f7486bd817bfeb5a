import WcashExplorer.Db.AppendOnly
import WcashExplorer.Db.WitnessEvidence

/-! Several passes over one witness: which of them the evidence shows afterwards. -/
namespace WcashExplorer

open Effects Relational

variable {lib : AuxPowCrate} {networkId : Text} {indexed : IndexedBlock} {k : Text × Text}
  {start db db₁ db₂ db' : Db} {log : List DbCall} {P : Db → DbCall → Prop}

/-- No evidence is stored for a witness. -/
def Evidence.none : Evidence where
  exactWitnessState := .none
  witnessConfirmations := .none
  localValidationState := .none
  verifierVersion := .none
  link := .none
  observations := fun _ => .none
  pools := fun _ => .none

/-- The blocks among some that are stored under a witness. -/
def passesOver (lib : AuxPowCrate) (k : Text × Text) (blocks : List IndexedBlock) :
    List IndexedBlock := blocks.filter fun b => (b.block.hash, witnessHash lib b) = k

/-- The evidence after passes one after the other. -/
def afterPasses (k : Text × Text) (e : Evidence) (ps : List Pass) : Evidence :=
  ps.foldl (fun e p => p.over k e) e

section Runs

/-- Inserting blocks changes the evidence of a witness by the passes over it. -/
theorem insertBlocks_evidence {blocks : List IndexedBlock}
    (h : insertBlocks lib networkId blocks db = .ok db') :
    ∃ ps, List.Forall₂ (fun b p => passOf lib b = .ok p) (passesOver lib k blocks) ps ∧
      evidence db' k = afterPasses k (evidence db k) ps := by
  induction blocks generalizing db with
  | nil =>
    cases h
    exact ⟨[], .nil, rfl⟩
  | cons first rest ih =>
    obtain ⟨db₁, hfirst, hrest⟩ := insertBlocks_cons h
    obtain ⟨ps, hps, hevidence⟩ := ih hrest
    by_cases hk : k = (first.block.hash, witnessHash lib first)
    · obtain ⟨p, hp, hown⟩ := insertBlock_evidence_own hfirst hk
      refine ⟨p :: ps, ?_, ?_⟩
      · rw [passesOver, List.filter_cons_of_pos (by simp [hk])]
        exact .cons hp hps
      · rw [hevidence, hown]
        rfl
    · refine ⟨ps, ?_, ?_⟩
      · rw [passesOver, List.filter_cons_of_neg (by simpa using fun h => hk h.symm)]
        exact hps
      · rw [hevidence, insertBlock_evidence_other hfirst hk]

/-- After any sequence of calls the evidence of a witness is that of the accepted passes over it. -/
theorem Calls.evidence_eq (h : Calls lib P start log db) :
    ∃ ps, List.Forall₂ (fun b p => passOf lib b = .ok p)
        (passesOver lib k (log.flatMap DbCall.blocks)) ps ∧
      evidence db k = afterPasses k (evidence start k) ps := by
  induction h with
  | nil => exact ⟨[], .nil, rfl⟩
  | @accepted db₁ db₂ log w t r _ _ hx ih =>
    obtain ⟨ps, hps, hevidence⟩ := ih
    obtain ⟨db₃, hins, hdb₂⟩ := exec_insertBlocks hx
    obtain ⟨qs, hqs, hmore⟩ := insertBlocks_evidence (k := k) hins
    refine ⟨ps ++ qs, ?_, ?_⟩
    · rw [List.flatMap_append, passesOver, List.filter_append]
      refine List.rel_append hps ?_
      simpa [passesOver] using hqs
    · have hframe : evidence db₂ k = evidence db₃ k := by
        rw [hdb₂]
        rfl
      rw [hframe, hmore, hevidence, afterPasses, afterPasses, afterPasses, List.foldl_append]
  | rejected _ _ ih => exact ih

end Runs

section Folds

variable {e : Evidence} {ps : List Pass}

/-- The first pass over a witness decides its validation state and its verifier version. -/
theorem afterPasses_first : (afterPasses k e ps).localValidationState =
      e.localValidationState.or (ps.head?.map fun p => p.row.localValidationState) ∧
    (afterPasses k e ps).verifierVersion =
      e.verifierVersion.or (ps.head?.map fun p => p.row.verifierVersion) := by
  induction ps generalizing e with
  | nil => simp [afterPasses]
  | cons p rest ih =>
    obtain ⟨hvalidation, hversion⟩ := ih (e := p.over k e)
    rw [afterPasses, List.foldl_cons]
    refine ⟨hvalidation.trans ?_, hversion.trans ?_⟩
    · cases h : e.localValidationState <;> simp [Pass.over, h]
    · cases h : e.verifierVersion <;> simp [Pass.over, h]

/-- Every pool that any pass reported is still stored, as it was reported last. -/
theorem afterPasses_pools (pool : Text) : (afterPasses k e ps).pools pool =
    (lastOf ValuePoolSnapshotRow.key (ps.flatMap Pass.pools) (k.1, k.2, pool)).or (e.pools pool) := by
  induction ps generalizing e with
  | nil => rfl
  | cons p rest ih =>
    rw [afterPasses, List.foldl_cons, List.flatMap_cons, lastOf_append, Option.or_assoc]
    exact ih

/-- The columns of a link that no later pass updates. -/
def AuxpowLinkRow.proof (r : AuxpowLinkRow) : AuxpowLinkRow :=
  { r with parentLookupState := .notConfigured, parentSourcesAgree := false, verifiedAt := 0 }

theorem AuxpowLinkRow.refreshedBy_eq {r s : AuxpowLinkRow} (h : s.proof = r.proof) :
    r.refreshedBy s = r := by
  cases r
  cases s
  simp_all [AuxpowLinkRow.proof, AuxpowLinkRow.refreshedBy]

/-- Passes over one proof keep one proof linked. -/
theorem afterPasses_link {q : AuxpowLinkRow} (he : ∀ l, e.link = some l → l.proof = q)
    (hps : ∀ p ∈ ps, ∀ l rows, p.verified = some (l, rows) → l.proof = q) :
    ∀ l, (afterPasses k e ps).link = some l → l.proof = q := by
  induction ps generalizing e with
  | nil => exact he
  | cons p rest ih =>
    refine ih (e := p.over k e) (fun l hl => ?_) fun p' hp' => hps p' (by simp [hp'])
    cases hverified : p.verified with
    | none =>
      simp only [Pass.over, hverified] at hl
      exact he l hl
    | some v =>
      have hp := hps p (by simp) v.1 v.2 hverified
      simp only [Pass.over, hverified, Option.some.injEq] at hl
      cases hold : e.link with
      | none =>
        rw [hold, Option.elim_none] at hl
        rw [← hl]
        exact hp
      | some s =>
        rw [hold, Option.elim_some, AuxpowLinkRow.refreshedBy_eq ((he s hold).trans hp.symm)] at hl
        rw [← hl]
        exact hp

theorem afterPasses_unverified (hps : ∀ p ∈ ps, p.verified = none) :
    (afterPasses k e ps).link = e.link ∧ (afterPasses k e ps).observations = e.observations := by
  induction ps generalizing e with
  | nil => exact ⟨rfl, rfl⟩
  | cons p rest ih =>
    obtain ⟨hlink, hobservations⟩ := ih (e := p.over k e) fun p' hp' => hps p' (by simp [hp'])
    have hp := hps p (by simp)
    rw [afterPasses, List.foldl_cons]
    refine ⟨hlink.trans ?_, hobservations.trans ?_⟩ <;> simp [Pass.over, hp]

end Folds

section LastPass

/-- What a proof says that no later pass may say differently. -/
def VerifiedAuxPow.proof (aux : VerifiedAuxPow) : VerifiedAuxPow :=
  { aux with
    verifierVersion := []
    exactWitnessState := .unknown
    witnessConfirmations := none
    parentObservations := []
    parentLookupState := .notConfigured
    parentSourcesAgree := false }

/-- Two passes verified the same proof: they may differ in the verifier's version, in what the
nodes answered, and in the pools reported. -/
def SameProof (b b' : IndexedBlock) : Prop :=
  b.auxpow.map VerifiedAuxPow.proof = b'.auxpow.map VerifiedAuxPow.proof

/-- The last pass used the verifier of the first one and reports every pool of the earlier ones. -/
structure LastCovers (earlier : List IndexedBlock) (last : IndexedBlock) : Prop where
  verifier : ∀ first ∈ earlier.head?, first.auxpow.map VerifiedAuxPow.verifierVersion =
    last.auxpow.map VerifiedAuxPow.verifierVersion
  pools : ∀ b ∈ earlier, ∀ pool ∈ b.block.valuePools, ∃ pool' ∈ last.block.valuePools,
    pool'.id = pool.id

/-- The parts of a pass, by whether the block has a proof. -/
theorem passOf_ok {p : Pass} (h : passOf lib indexed = .ok p) :
    blockWitnessRow lib indexed = .ok p.row ∧
    p.pools = indexed.block.valuePools.map
      (valuePoolRow indexed.block.hash (witnessHash lib indexed)) ∧
    ((indexed.auxpow = none ∧ p.verified = none) ∨ ∃ aux link rows, indexed.auxpow = some aux ∧
      auxpowLinkRow indexed.block.hash (witnessHash lib indexed) indexed.fetchedAt aux = .ok link ∧
      observationRows indexed.block.hash (witnessHash lib indexed) aux.parentObservations =
        .ok rows ∧ p.verified = some (link, rows)) := by
  simp only [passOf, Result.bind_eq_ok, optional_eq_ok] at h
  obtain ⟨row, hrow, verified, hverified, h⟩ := h
  cases h
  refine ⟨hrow, rfl, ?_⟩
  rcases hverified with ⟨hnone, rfl⟩ | ⟨aux, v, haux, rfl, hv⟩
  · exact .inl ⟨hnone, rfl⟩
  · obtain ⟨link, hlink, rows, hrows, hv⟩ := hv
    cases hv
    exact .inr ⟨aux, link, rows, haux, hlink, hrows, rfl⟩

theorem blockWitnessRow_state {row : BlockWitnessRow} (h : blockWitnessRow lib indexed = .ok row) :
    row.verifierVersion = indexed.auxpow.map VerifiedAuxPow.verifierVersion ∧
      row.localValidationState = (indexed.auxpow.map VerifiedAuxPow.verificationState).getD
        .genesis := by
  unfold blockWitnessRow at h
  split at h
  · rename_i aux haux
    simp only [Result.bind_eq_ok] at h
    obtain ⟨bytes, -, h⟩ := h
    cases h
    simp [haux]
  · rename_i hnone
    cases h
    simp [hnone]

/-- One proof is linked by one set of columns. -/
theorem auxpowLinkRow_proof {blockHash witness : Text} {at_ at' : Timestamp}
    {aux aux' : VerifiedAuxPow} {r r' : AuxpowLinkRow} (hsame : aux.proof = aux'.proof)
    (h : auxpowLinkRow blockHash witness at_ aux = .ok r)
    (h' : auxpowLinkRow blockHash witness at' aux' = .ok r') : r.proof = r'.proof := by
  simp only [auxpowLinkRow, Result.bind_eq_ok, toI64_eq_ok, asI32_eq_ok] at h h'
  obtain ⟨_, ⟨-, rfl⟩, _, ⟨-, rfl⟩, _, ⟨-, rfl⟩, _, ⟨-, rfl⟩, h⟩ := h
  obtain ⟨_, ⟨-, rfl⟩, _, ⟨-, rfl⟩, _, ⟨-, rfl⟩, _, ⟨-, rfl⟩, h'⟩ := h'
  cases h
  cases h'
  simp only [VerifiedAuxPow.proof, VerifiedAuxPow.mk.injEq] at hsame
  simp [AuxpowLinkRow.proof, hsame]

/-- Pools leave nothing behind exactly if the later ones cover the earlier ones. -/
theorem lastOf_pools_covers {blockHash witness : Text} {pools later : List ValuePool} :
    (∀ pool : Text,
      (lastOf ValuePoolSnapshotRow.key (later.map (valuePoolRow blockHash witness))
        (blockHash, witness, pool)).or (lastOf ValuePoolSnapshotRow.key
          (pools.map (valuePoolRow blockHash witness)) (blockHash, witness, pool)) =
      lastOf ValuePoolSnapshotRow.key (later.map (valuePoolRow blockHash witness))
        (blockHash, witness, pool)) ↔
    ∀ pool ∈ pools, ∃ pool' ∈ later, pool'.id = pool.id := by
  have hnone (ps : List ValuePool) (pool : Text) : lastOf ValuePoolSnapshotRow.key
      (ps.map (valuePoolRow blockHash witness)) (blockHash, witness, pool) = none ↔
        ∀ p ∈ ps, p.id ≠ pool := by
    simp [lastOf_eq_none, ValuePoolSnapshotRow.key, valuePoolRow]
  constructor
  · intro h pool hpool
    by_contra hmissing
    push Not at hmissing
    have hlater := (hnone later pool.id).mpr hmissing
    have hearlier := h pool.id
    rw [hlater, Option.none_or, hnone] at hearlier
    exact hearlier pool hpool rfl
  · intro h pool
    cases hlater : lastOf ValuePoolSnapshotRow.key (later.map (valuePoolRow blockHash witness))
        (blockHash, witness, pool) with
    | some r => rfl
    | none =>
      rw [Option.none_or, hnone]
      intro p hp hid
      obtain ⟨p', hp', hid'⟩ := h p hp
      exact (hnone later pool).mp hlater p' hp' (hid'.trans hid)

theorem pools_of_passes {earlier : List IndexedBlock} {ps : List Pass}
    (hps : List.Forall₂ (fun b p => passOf lib b = .ok p) earlier ps)
    (hown : ∀ b ∈ earlier, (b.block.hash, witnessHash lib b) = k) :
    ps.flatMap Pass.pools =
      (earlier.flatMap fun b => b.block.valuePools).map (valuePoolRow k.1 k.2) := by
  induction hps with
  | nil => rfl
  | @cons b p bs ps hb _ ih =>
    obtain ⟨-, hpools, -⟩ := passOf_ok hb
    obtain rfl := hown b (by simp)
    rw [List.flatMap_cons, List.flatMap_cons, List.map_append, hpools,
      ih fun b' hb' => hown b' (by simp [hb'])]

theorem forall₂_concat {α β : Type} {R : α → β → Prop} {xs : List α} {x : α} {ys : List β}
    (h : List.Forall₂ R (xs ++ [x]) ys) :
    ∃ ys' y, ys = ys' ++ [y] ∧ List.Forall₂ R xs ys' ∧ R x y := by
  induction xs generalizing ys with
  | nil =>
    cases h with
    | cons hx hnil =>
      cases hnil
      exact ⟨[], _, rfl, .nil, hx⟩
  | cons z rest ih =>
    cases h with
    | cons hz hrest =>
      obtain ⟨ys', y, rfl, hys, hy⟩ := ih hrest
      exact ⟨_ :: ys', y, rfl, .cons hz hys, hy⟩

section Covers

variable {earlier : List IndexedBlock} {last : IndexedBlock} {ps : List Pass} {p : Pass}

/-- What earlier passes leave in the validation columns is what the last one would write, if it
used the same verifier. -/
theorem validation_covers (hps : List.Forall₂ (fun b p => passOf lib b = .ok p) earlier ps)
    (hp : passOf lib last = .ok p) (hsame : ∀ b ∈ earlier, SameProof b last) :
    ((ps.head?.map fun q => q.row.localValidationState).getD p.row.localValidationState =
      p.row.localValidationState) ∧
    ((ps.head?.map fun q => q.row.verifierVersion).getD p.row.verifierVersion =
      p.row.verifierVersion ↔ ∀ first ∈ earlier.head?,
        first.auxpow.map VerifiedAuxPow.verifierVersion =
          last.auxpow.map VerifiedAuxPow.verifierVersion) := by
  obtain ⟨hversion, hstate⟩ := blockWitnessRow_state (passOf_ok hp).1
  cases hps with
  | nil => simp
  | @cons b q bs qs hb _ =>
    obtain ⟨hversion', hstate'⟩ := blockWitnessRow_state (passOf_ok hb).1
    have hproof := congrArg (Option.map VerifiedAuxPow.verificationState) (hsame b (by simp))
    rw [Option.map_map, Option.map_map] at hproof
    have hverification : b.auxpow.map VerifiedAuxPow.verificationState =
        last.auxpow.map VerifiedAuxPow.verificationState := hproof
    simp [hversion, hstate, hversion', hstate', hverification]

/-- The links of passes over one proof carry one proof. -/
theorem links_of_passes (hps : List.Forall₂ (fun b p => passOf lib b = .ok p) earlier ps)
    (hown : ∀ b ∈ earlier, (b.block.hash, witnessHash lib b) = k)
    (hlastOwn : (last.block.hash, witnessHash lib last) = k)
    (hsame : ∀ b ∈ earlier, SameProof b last) {link : AuxpowLinkRow}
    {rows : List ParentObservationRow} (hp : passOf lib last = .ok p)
    (hverified : p.verified = some (link, rows)) :
    ∀ q ∈ ps, ∀ l rs, q.verified = some (l, rs) → l.proof = link.proof := by
  induction hps with
  | nil => simp
  | @cons b q bs qs hb _ ih =>
    intro q' hq' l rs hl
    rcases List.mem_cons.mp hq' with rfl | hq'
    · rcases (passOf_ok hp).2.2 with ⟨-, hnone⟩ | ⟨aux, link', rows', haux, hlink, -, hsome⟩
      · rw [hverified] at hnone
        cases hnone
      rcases (passOf_ok hb).2.2 with ⟨-, hnone⟩ | ⟨aux', l', rs', haux', hl', -, hsome'⟩
      · rw [hl] at hnone
        cases hnone
      rw [hverified] at hsome
      rw [hl] at hsome'
      cases hsome
      cases hsome'
      have hproof := hsame b (by simp)
      rw [SameProof, haux, haux'] at hproof
      have hb := hown b (by simp)
      simp only [← hlastOwn, Prod.mk.injEq] at hb
      rw [hb.1, hb.2] at hl'
      exact auxpowLinkRow_proof (Option.some.inj hproof) hl' hlink
    · exact ih (fun b' hb' => hown b' (by simp [hb'])) (fun b' hb' => hsame b' (by simp [hb']))
        q' hq' l rs hl

/-- Passes over a block without a proof verify nothing. -/
theorem unverified_passes (hps : List.Forall₂ (fun b p => passOf lib b = .ok p) earlier ps)
    (hsame : ∀ b ∈ earlier, SameProof b last) (hp : passOf lib last = .ok p)
    (hverified : p.verified = none) : ∀ q ∈ ps, q.verified = none := by
  have hnone : last.auxpow = none := by
    rcases (passOf_ok hp).2.2 with ⟨hnone, -⟩ | ⟨aux, link, rows, -, -, -, hsome⟩
    · exact hnone
    · rw [hverified] at hsome
      cases hsome
  induction hps with
  | nil => simp
  | @cons b q bs qs hb _ ih =>
    intro q' hq'
    rcases List.mem_cons.mp hq' with rfl | hq'
    · have hproof := hsame b (by simp)
      rw [SameProof, hnone, Option.map_none, Option.map_eq_none_iff] at hproof
      rcases (passOf_ok hb).2.2 with ⟨-, hq⟩ | ⟨aux, link, rows, haux, -⟩
      · exact hq
      · rw [hproof] at haux
        cases haux
    · exact ih (fun b' hb' => hsame b' (by simp [hb'])) q' hq'

end Covers

/-- The evidence after several passes over one proof is what the last of them alone would have
written exactly if the last pass covers the earlier ones. -/
theorem last_pass_decides_iff {earlier : List IndexedBlock} {last : IndexedBlock} {fresh alone : Db}
    (h : Calls lib P start log db) (hnone : evidence start k = .none)
    (hpasses : passesOver lib k (log.flatMap DbCall.blocks) = earlier ++ [last])
    (hsame : ∀ b ∈ earlier, SameProof b last) (hfresh : evidence fresh k = .none)
    (hlast : insertBlock lib networkId last fresh = .ok alone) :
    evidence db k = evidence alone k ↔ LastCovers earlier last := by
  have hown : ∀ b ∈ earlier ++ [last], (b.block.hash, witnessHash lib b) = k := fun b hb => by
    rw [← hpasses] at hb
    simpa [passesOver] using (List.mem_filter.mp hb).2
  have hearlierOwn : ∀ b ∈ earlier, (b.block.hash, witnessHash lib b) = k := fun b hb =>
    hown b (by simp [hb])
  have hlastOwn : (last.block.hash, witnessHash lib last) = k := hown last (by simp)
  obtain ⟨qs, hqs, hrun⟩ := h.evidence_eq (k := k)
  rw [hpasses] at hqs
  obtain ⟨ps, p, rfl, hps, hp⟩ := forall₂_concat hqs
  obtain ⟨p', hp', halone⟩ := insertBlock_evidence_own hlast hlastOwn.symm
  obtain rfl := Except.ok.inj (hp.symm.trans hp')
  have hstate : (afterPasses k .none ps).localValidationState =
      ps.head?.map fun p => p.row.localValidationState :=
    afterPasses_first.1.trans Option.none_or
  have hversion : (afterPasses k .none ps).verifierVersion =
      ps.head?.map fun p => p.row.verifierVersion :=
    afterPasses_first.2.trans Option.none_or
  have hpools (pool : Text) : (afterPasses k .none ps).pools pool =
      lastOf ValuePoolSnapshotRow.key (ps.flatMap Pass.pools) (k.1, k.2, pool) :=
    (afterPasses_pools pool).trans Option.or_none
  rw [pools_of_passes hps hearlierOwn] at hpools
  obtain ⟨hvalidation, hverifier⟩ := validation_covers hps hp hsame
  have hlink (link : AuxpowLinkRow) (rows : List ParentObservationRow)
      (hverified : p.verified = some (link, rows)) :=
    afterPasses_link (k := k) (e := .none) (q := link.proof) (fun l hl => by cases hl)
      (links_of_passes hps hearlierOwn hlastOwn hsame hp hverified)
  have hunverified (hverified : p.verified = none) :=
    afterPasses_unverified (k := k) (e := .none) (unverified_passes hps hsame hp hverified)
  have hlater : (last.block.valuePools.map (valuePoolRow k.1 k.2)) = p.pools := by
    rw [(passOf_ok hp).2.1, ← hlastOwn]
  have hcovers := @lastOf_pools_covers k.1 k.2 (earlier.flatMap fun b => b.block.valuePools)
    last.block.valuePools
  rw [hlater] at hcovers
  rw [hrun, halone, hfresh, hnone, afterPasses, List.foldl_append]
  change p.over k (afterPasses k .none ps) = p.over k .none ↔ _
  generalize afterPasses k .none ps = e at *
  constructor
  · intro heq
    refine ⟨hverifier.mp ?_, fun b hb pool hpool => ?_⟩
    · have hversions := congrArg Evidence.verifierVersion heq
      rw [← hversion]
      exact Option.some.inj hversions
    · refine hcovers.mp (fun pool => ?_) pool (List.mem_flatMap.mpr ⟨b, hb, hpool⟩)
      have hshown := congrFun (congrArg Evidence.pools heq) pool
      rw [← hpools]
      exact hshown.trans Option.or_none
  · intro hlastCovers
    ext1
    · rfl
    · rfl
    · refine congrArg some ?_
      rw [hstate]
      exact hvalidation
    · refine congrArg some ?_
      rw [hversion]
      exact hverifier.mpr hlastCovers.verifier
    · cases hverified : p.verified with
      | none =>
        simp only [Pass.over, hverified]
        exact (hunverified hverified).1
      | some v =>
        simp only [Pass.over, hverified, Option.some.injEq]
        cases hold : e.link with
        | none => rfl
        | some s =>
          exact AuxpowLinkRow.refreshedBy_eq (hlink v.1 v.2 hverified s hold)
    · cases hverified : p.verified with
      | none =>
        simp only [Pass.over, hverified]
        exact (hunverified hverified).2
      | some v => simp only [Pass.over, hverified]
    · funext pool
      have hpool := hcovers.mpr (fun pool hpool => by
        obtain ⟨b, hb, hmem⟩ := List.mem_flatMap.mp hpool
        exact hlastCovers.pools b hb pool hmem) pool
      rw [← hpools] at hpool
      exact hpool.trans Option.or_none.symm

end LastPass

section Sample

/-- A pass over the sample block 1, by some version of the verifier, with the pools the node
reported. -/
def samplePass (version : Text) (pools : List Text) : IndexedBlock :=
  let b := sampleIndexed 1 '1' (some '0') []
  { b with
    block := { b.block with valuePools := pools.map fun id => { id } }
    auxpow := b.auxpow.map fun aux => { aux with verifierVersion := version } }

example : (passOf sampleCrate (samplePass ['1'] [['t']])).toOption.map (fun p => p.pools.length) =
    some 1 := by decide +kernel

def sampleWitness : Text × Text := (sampleHash '1', witnessHash sampleCrate (samplePass [] []))

/-- The genesis block, and then a pass over block 1. -/
def sampleFirstPass (first : IndexedBlock) : Db :=
  stateAfter sampleCrate { now := 0 }
    (stateAfter sampleCrate { now := 0 } (initialDb sampleNetwork) sampleGenesisCommit)
    (.commitBlock sampleNetwork first)

/-- A second pass refreshes the evidence. -/
def sampleSecondPass (first last : IndexedBlock) : Db :=
  stateAfter sampleCrate { now := 0 } (sampleFirstPass first)
    (.refreshBlockEvidence sampleNetwork last)

theorem sampleGenesis_calls : Calls sampleCrate (fun _ _ => True) (initialDb sampleNetwork)
    [sampleGenesisCommit]
    (stateAfter sampleCrate { now := 0 } (initialDb sampleNetwork) sampleGenesisCommit) :=
  (Calls.nil _).next (w := { now := 0 }) trivial (by decide +kernel)

/-- The genesis block leaves no evidence for the witness of block 1. -/
theorem sampleGenesis_evidence :
    evidence (stateAfter sampleCrate { now := 0 } (initialDb sampleNetwork) sampleGenesisCommit)
      sampleWitness = .none := by
  obtain ⟨ps, hps, hevidence⟩ := sampleGenesis_calls.evidence_eq (k := sampleWitness)
  have hnone : passesOver sampleCrate sampleWitness
      ([sampleGenesisCommit].flatMap DbCall.blocks) = [] :=
    List.filter_cons_of_neg (by decide +kernel)
  rw [hnone, List.forall₂_nil_left_iff] at hps
  rw [hevidence, hps]
  rfl

theorem sampleSecondPass_calls {first last : IndexedBlock}
    (hfirst : (exec sampleCrate { now := 0 } (.commitBlock sampleNetwork first)
      (stateAfter sampleCrate { now := 0 } (initialDb sampleNetwork) sampleGenesisCommit)).isOk)
    (hlast : (exec sampleCrate { now := 0 } (.refreshBlockEvidence sampleNetwork last)
      (sampleFirstPass first)).isOk) :
    Calls sampleCrate (fun _ _ => True) (initialDb sampleNetwork)
      [sampleGenesisCommit, .commitBlock sampleNetwork first,
        .refreshBlockEvidence sampleNetwork last] (sampleSecondPass first last) :=
  (sampleGenesis_calls.next trivial hfirst).next trivial hlast

/-- After an upgrade of the verifier the version of the first pass stays beside the time of the
last one. -/
theorem upgraded_verifier_keeps_version :
    Calls sampleCrate (fun _ _ => True) (initialDb sampleNetwork)
      [sampleGenesisCommit, .commitBlock sampleNetwork (samplePass ['1'] []),
        .refreshBlockEvidence sampleNetwork (samplePass ['2'] [])]
      (sampleSecondPass (samplePass ['1'] []) (samplePass ['2'] [])) ∧
    evidence (sampleSecondPass (samplePass ['1'] []) (samplePass ['2'] [])) sampleWitness ≠
      evidence (sampleFirstPass (samplePass ['2'] [])) sampleWitness := by
  refine ⟨sampleSecondPass_calls (by decide +kernel) (by decide +kernel), fun heq => ?_⟩
  have hversion := congrArg Evidence.verifierVersion heq
  have hkept : (evidence (sampleSecondPass (samplePass ['1'] []) (samplePass ['2'] []))
      sampleWitness).verifierVersion = some (some ['1']) := by decide +kernel
  have halone : (evidence (sampleFirstPass (samplePass ['2'] [])) sampleWitness).verifierVersion =
      some (some ['2']) := by decide +kernel
  rw [hkept, halone] at hversion
  cases hversion

/-- A last pass that covers the first one shows as if it had been alone. -/
theorem last_pass_decides_iff_covering : ∃ alone,
    insertBlock sampleCrate sampleNetwork (samplePass ['1'] [['t'], ['i']])
      (stateAfter sampleCrate { now := 0 } (initialDb sampleNetwork) sampleGenesisCommit) =
        .ok alone ∧
    evidence (sampleSecondPass (samplePass ['1'] [['t']]) (samplePass ['1'] [['t'], ['i']]))
      sampleWitness = evidence alone sampleWitness := by
  cases halone : insertBlock sampleCrate sampleNetwork (samplePass ['1'] [['t'], ['i']])
      (stateAfter sampleCrate { now := 0 } (initialDb sampleNetwork) sampleGenesisCommit) with
  | error e =>
    have hok : (insertBlock sampleCrate sampleNetwork (samplePass ['1'] [['t'], ['i']])
      (stateAfter sampleCrate { now := 0 } (initialDb sampleNetwork)
        sampleGenesisCommit)).isOk = true := by decide +kernel
    rw [halone] at hok
    cases hok
  | ok alone =>
    refine ⟨alone, rfl, ?_⟩
    have hrun := @sampleSecondPass_calls (samplePass ['1'] [['t']])
      (samplePass ['1'] [['t'], ['i']]) (by decide +kernel) (by decide +kernel)
    have hpasses : passesOver sampleCrate sampleWitness (List.flatMap DbCall.blocks
        [sampleGenesisCommit, .commitBlock sampleNetwork (samplePass ['1'] [['t']]),
          .refreshBlockEvidence sampleNetwork (samplePass ['1'] [['t'], ['i']])]) =
        [samplePass ['1'] [['t']]] ++ [samplePass ['1'] [['t'], ['i']]] := by
      change List.filter _ [_, _, _] = _
      rw [List.filter_cons_of_neg (by decide +kernel), List.filter_cons_of_pos (by decide +kernel),
        List.filter_cons_of_pos (by decide +kernel)]
      rfl
    refine (last_pass_decides_iff hrun rfl hpasses ?_ sampleGenesis_evidence halone).mpr ⟨?_, ?_⟩
    · simp [SameProof, samplePass]
    · simp [samplePass]
    · simp [samplePass]

end Sample

end WcashExplorer
