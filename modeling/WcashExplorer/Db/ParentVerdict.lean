import WcashExplorer.Db.LastPass

/-! The stored parent verdict is the verdict of the stored observations, in whatever order. -/
namespace WcashExplorer

open Effects Relational

variable {lib : AuxPowCrate} {networkId blockHash witness : Text} {indexed : IndexedBlock}
  {k : Text × Text} {start db db' : Db} {log : List DbCall}

section Classifier

variable {states states' : List ParentLookupState}

/-- The classifier, on the states alone. -/
def classifyStates (states : List ParentLookupState) : ParentLookupState × Bool :=
  match states with
  | [] => (.notConfigured, false)
  | first :: _ =>
    let sourcesAgree := states.length ≥ 2 && states.all fun s => s = first
    let classified : ParentLookupState :=
      if .disagreement ∈ states ∨ (.canonical ∈ states ∧ (.notFound ∈ states ∨ .orphaned ∈ states))
      then .disagreement
      else if .canonical ∈ states then .canonical
      else if .orphaned ∈ states then .orphaned
      else if .notFound ∈ states then .notFound
      else .unavailable
    (classified, sourcesAgree)

/-- The classifier looks at nothing but the states. -/
theorem classifyObservations_eq (observations : List ParentObservation) :
    classifyObservations observations =
      classifyStates (observations.map ParentObservation.state) := by
  have hany (state : ParentLookupState) : (observations.any fun o => o.state = state) = true ↔
      state ∈ observations.map ParentObservation.state := by
    simp [List.any_eq_true]
  cases observations with
  | nil => rfl
  | cons first rest =>
    simp only [classifyObservations, classifyStates, Bool.or_eq_true, Bool.and_eq_true, hany]
    simp [List.all_map, Function.comp_def]

theorem classifyStates_agree : (classifyStates states).2 = true ↔
    2 ≤ states.length ∧ ∀ s ∈ states, ∀ s' ∈ states, s = s' := by
  cases states with
  | nil => simp [classifyStates]
  | cons first rest =>
    simp only [classifyStates, Bool.and_eq_true, decide_eq_true_eq, List.all_eq_true, ge_iff_le]
    refine and_congr_right fun _ => ⟨fun h s hs s' hs' => ?_, fun h s hs => h s hs first (by simp)⟩
    rw [h s hs, h s' hs']

/-- Nor does their order matter, or which of them comes first. -/
theorem classifyStates_perm (h : states.Perm states') :
    classifyStates states = classifyStates states' := by
  have hagree : (classifyStates states).2 = (classifyStates states').2 := by
    rw [Bool.eq_iff_iff, classifyStates_agree, classifyStates_agree, h.length_eq]
    simp only [h.mem_iff]
  refine Prod.ext ?_ hagree
  cases states with
  | nil => rw [List.nil_perm.mp h]
  | cons s rest =>
    cases states' with
    | nil => exact absurd h.length_eq (by simp)
    | cons s' rest' => simp only [classifyStates, h.mem_iff]

theorem classifyObservations_perm {observations observations' : List ParentObservation}
    (h : observations.Perm observations') :
    classifyObservations observations = classifyObservations observations' := by
  rw [classifyObservations_eq, classifyObservations_eq,
    classifyStates_perm (h.map ParentObservation.state)]

end Classifier

section Stored

/-- The observations stored for a witness, in storage order. -/
def storedObservations (db : Db) (k : Text × Text) : List ParentObservationRow :=
  db.parentChainObservations.rows.filter fun r => r.blockHash = k.1 && r.witnessHash = k.2

/-- A stored observation as the classifier takes one; it does not read the parent's block. -/
def ParentObservationRow.observation (r : ParentObservationRow) : ParentObservation where
  source := r.sourceName
  state := r.observationState
  embeddedHeaderMatches := r.embeddedHeaderMatches
  checkedAt := r.checkedAt

/-- A proof with the verdict of its own observations, of which each source made one. -/
structure Classified (aux : VerifiedAuxPow) : Prop where
  verdict : (aux.parentLookupState, aux.parentSourcesAgree) =
    classifyObservations aux.parentObservations
  distinct : (aux.parentObservations.map ParentObservation.source).Nodup

/-- Every proof a method stores carries the verdict of its own observations. -/
def storesClassified (_ : Db) (t : DbCall) : Prop :=
  ∀ b ∈ t.blocks, ∀ aux ∈ b.auxpow, Classified aux

/-- A linked verdict is that of some observations, and exactly those are stored. -/
def VerdictStored (k : Text × Text) (e : Evidence) : Prop :=
  ∀ link, e.link = some link → ∃ observations rows,
    (observations.map ParentObservation.source).Nodup ∧
    classifyObservations observations = (link.parentLookupState, link.parentSourcesAgree) ∧
    observationRows k.1 k.2 observations = .ok rows ∧
    ∀ source, e.observations source = lastOf ParentObservationRow.key rows (k.1, k.2, source)

theorem VerdictStored.over {p : Pass} {e : Evidence} (h : VerdictStored k e)
    (hp : passOf lib indexed = .ok p) (hk : k = (indexed.block.hash, witnessHash lib indexed))
    (hclassified : ∀ aux ∈ indexed.auxpow, Classified aux) : VerdictStored k (p.over k e) := by
  rcases (passOf_ok hp).2.2 with ⟨-, hnone⟩ | ⟨aux, link, rows, haux, hlink, hrows, hsome⟩
  · simp only [VerdictStored, Pass.over, hnone]
    exact h
  · obtain ⟨hverdict, hdistinct⟩ := hclassified aux haux
    intro l hl
    simp only [Pass.over, hsome, Option.some.injEq] at hl
    have hcolumns : (link.parentLookupState, link.parentSourcesAgree) =
        (aux.parentLookupState, aux.parentSourcesAgree) := by
      simp only [auxpowLinkRow, Result.bind_eq_ok] at hlink
      obtain ⟨_, -, _, -, _, -, _, -, hlink⟩ := hlink
      cases hlink
      rfl
    have hl' : (l.parentLookupState, l.parentSourcesAgree) =
        (link.parentLookupState, link.parentSourcesAgree) := by
      rw [← hl]
      cases e.link <;> rfl
    refine ⟨aux.parentObservations, rows, hdistinct, ?_, ?_, ?_⟩
    · rw [hl', hcolumns, hverdict]
    · rw [hk]
      exact hrows
    · intro source
      simp only [Pass.over, hsome]

theorem insertBlocks_verdict {blocks : List IndexedBlock}
    (hclassified : ∀ b ∈ blocks, ∀ aux ∈ b.auxpow, Classified aux)
    (hdb : ∀ k, VerdictStored k (evidence db k))
    (h : insertBlocks lib networkId blocks db = .ok db') :
    ∀ k, VerdictStored k (evidence db' k) := by
  induction blocks generalizing db with
  | nil =>
    cases h
    exact hdb
  | cons first rest ih =>
    obtain ⟨db₁, hfirst, hrest⟩ := insertBlocks_cons h
    refine ih (fun b hb => hclassified b (by simp [hb])) (fun k => ?_) hrest
    by_cases hk : k = (first.block.hash, witnessHash lib first)
    · obtain ⟨p, hp, hown⟩ := insertBlock_evidence_own hfirst hk
      rw [hown]
      exact (hdb k).over hp hk (hclassified first (by simp))
    · rw [insertBlock_evidence_other hfirst hk]
      exact hdb k

/-- After any sequence of methods every linked verdict is that of the stored observations. -/
theorem Calls.verdictStored (h : Calls lib storesClassified start log db)
    (hstart : start.auxpowLinks.rows = []) : ∀ k, VerdictStored k (evidence db k) := by
  refine h.invariant (I := fun d => ∀ k, VerdictStored k (evidence d k)) ?_ ?_
  · intro k link hlink
    have hnone : start.auxpowLinks.find? k = none :=
      Table.find?_eq_none.mpr fun r hr => by simp [hstart] at hr
    have hlink' : start.auxpowLinks.find? k = some link := hlink
    rw [hnone] at hlink'
    cases hlink'
  · intro d w t r d' hp hd hx k
    obtain ⟨d₁, hins, hd'⟩ := exec_insertBlocks hx
    have hframe : evidence d' k = evidence d₁ k := by
      rw [hd']
      rfl
    rw [hframe]
    exact insertBlocks_verdict hp hd hins k

theorem observationRows_columns {observations : List ParentObservation}
    {rows : List ParentObservationRow}
    (h : observationRows blockHash witness observations = .ok rows) :
    rows.map ParentObservationRow.observationState = observations.map ParentObservation.state ∧
      rows.map ParentObservationRow.sourceName = observations.map ParentObservation.source := by
  induction observations generalizing rows with
  | nil =>
    cases h
    exact ⟨rfl, rfl⟩
  | cons observation rest ih =>
    simp only [observationRows, List.mapM_cons, Result.bind_eq_ok] at h
    obtain ⟨row, hrow, rows, hrows, h⟩ := h
    cases h
    obtain ⟨hstates, hsources⟩ := ih hrows
    simp only [parentObservationRow, Result.bind_eq_ok] at hrow
    obtain ⟨_, -, hrow⟩ := hrow
    cases hrow
    exact ⟨by rw [List.map_cons, List.map_cons, hstates], by
      rw [List.map_cons, List.map_cons, hsources]⟩

theorem mem_storedObservations {r : ParentObservationRow} : r ∈ storedObservations db k ↔
    r ∈ db.parentChainObservations.rows ∧ r.blockHash = k.1 ∧ r.witnessHash = k.2 := by
  simp [storedObservations]

/-- Each source has one row among those stored for a witness. -/
theorem storedObservations_nodup : (storedObservations db k).Nodup ∧
    ((storedObservations db k).map ParentObservationRow.sourceName).Nodup := by
  have hrows : (storedObservations db k).Nodup :=
    (List.Nodup.of_map _ db.parentChainObservations.nodup).filter _
  refine ⟨hrows, List.Nodup.map_on ?_ hrows⟩
  intro r hr s hs hsource
  obtain ⟨hr, hb, hw⟩ := mem_storedObservations.mp hr
  obtain ⟨hs, hb', hw'⟩ := mem_storedObservations.mp hs
  refine List.inj_on_of_nodup_map db.parentChainObservations.nodup hr hs ?_
  simp only [ParentObservationRow.key, hb, hw, hb', hw', hsource]

/-- The rows an evidence looks up by source are the stored ones. -/
theorem storedObservations_perm {rows : List ParentObservationRow}
    (hdistinct : (rows.map ParentObservationRow.sourceName).Nodup)
    (hown : ∀ r ∈ rows, r.blockHash = k.1 ∧ r.witnessHash = k.2)
    (h : ∀ source, (evidence db k).observations source =
      lastOf ParentObservationRow.key rows (k.1, k.2, source)) :
    (storedObservations db k).Perm rows := by
  have hkeys : (rows.map ParentObservationRow.key).Nodup := by
    refine List.Nodup.map_on ?_ (List.Nodup.of_map _ hdistinct)
    intro r hr s hs hkey
    simp only [ParentObservationRow.key, Prod.mk.injEq] at hkey
    exact List.inj_on_of_nodup_map hdistinct hr hs hkey.2.2
  refine (List.perm_ext_iff_of_nodup storedObservations_nodup.1
    (List.Nodup.of_map _ hdistinct)).mpr fun r => ?_
  have hlookup (hb : r.blockHash = k.1) (hw : r.witnessHash = k.2) :
      r ∈ db.parentChainObservations.rows ↔ r ∈ rows := by
    have hfind : db.parentChainObservations.find? (k.1, k.2, r.sourceName) =
        lastOf ParentObservationRow.key rows (k.1, k.2, r.sourceName) := h r.sourceName
    have hkey : ParentObservationRow.key r = (k.1, k.2, r.sourceName) := by
      rw [ParentObservationRow.key, hb, hw]
    constructor
    · intro hr
      have hsome := Table.find?_of_mem hr
      rw [hkey, hfind] at hsome
      exact (mem_of_lastOf hsome).1
    · intro hr
      have hsome := (lastOf_eq_some hkeys).mpr ⟨hr, hkey⟩
      rw [← hfind] at hsome
      exact Table.mem_of_find? hsome
  constructor
  · intro hr
    obtain ⟨hr, hb, hw⟩ := mem_storedObservations.mp hr
    exact (hlookup hb hw).mp hr
  · intro hr
    obtain ⟨hb, hw⟩ := hown r hr
    exact mem_storedObservations.mpr ⟨(hlookup hb hw).mpr hr, hb, hw⟩

/-- A stored verdict is what the classifier makes of the stored observations, in any order. -/
theorem VerdictStored.classify (h : VerdictStored k (evidence db k)) {link : AuxpowLinkRow}
    (hlink : db.auxpowLinks.find? k = some link) {rows : List ParentObservationRow}
    (hrows : rows.Perm (storedObservations db k)) :
    classifyObservations (rows.map ParentObservationRow.observation) =
      (link.parentLookupState, link.parentSourcesAgree) := by
  obtain ⟨observations, stored, hdistinct, hclassify, hstored, hfind⟩ := h link hlink
  obtain ⟨hstates, hsources⟩ := observationRows_columns hstored
  have hperm := storedObservations_perm (hsources ▸ hdistinct) (observationRows_own hstored) hfind
  rw [← hclassify, classifyObservations_eq, classifyObservations_eq, ← hstates]
  refine classifyStates_perm ?_
  rw [List.map_map]
  exact (hrows.trans hperm).map ParentObservationRow.observationState

end Stored

end WcashExplorer
