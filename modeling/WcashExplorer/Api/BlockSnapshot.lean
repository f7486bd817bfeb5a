import WcashExplorer.Api.Resolution
import WcashExplorer.Api.SameFacts
import WcashExplorer.Db.BlockRows
import WcashExplorer.Db.Proofs

/-! One page of a block read by several statements, while the indexer commits in between. -/
namespace WcashExplorer

open Effects Relational

variable {lib : AuxPowCrate} {networkId id : Text} {opening db db₁ db' : Db} {c : CanonicalRow}
  {last i : Nat} {log : List DbCall}

section Condition

/-- The row a request for a block asks for. -/
def Names (id : Text) (c : CanonicalRow) : Prop :=
  parseU64 id = some c.height ∨ (parseU64 id = none ∧ id = c.blockHash)

def CanonicalRow.witness (c : CanonicalRow) : Text × Text := (c.blockHash, c.witnessHash)

/-- The evidence a page shows, apart from the pools. -/
def Evidence.shown (e : Evidence) : Evidence :=
  { e with witnessConfirmations := .none, pools := fun _ => .none }

def tipHeight (db : Db) (networkId : Text) : Option Nat :=
  (tipRow db networkId).map CanonicalRow.height

/-- A statement after the `i`-th reads whether the block is selected: the one that finds it, and
the `last`, which reads its proof, if it has one. -/
def ReadsChain (last i : Nat) (c : CanonicalRow) (db : Db) : Prop :=
  i = 0 ∨ (i < last ∧ (evidence db c.witness).link.isSome)

/-- A change of the store that leaves what the statements after the `i`-th read of a block. -/
structure Spared (networkId : Text) (last i : Nat) (c : CanonicalRow) (db db' : Db) : Prop where
  selected : ReadsChain last i c db → c ∈ canonicalRows db networkId →
    c ∈ canonicalRows db' networkId
  tip : ReadsChain last i c db → tipHeight db' networkId = tipHeight db networkId
  neighbours : i = 0 → ∀ height, height + 1 = c.height ∨ height = c.height + 1 →
    storedHash networkId db' height = storedHash networkId db height
  evidence : ReadsChain last i c db →
    (evidence db' c.witness).shown = (evidence db c.witness).shown
  unproved : i < last → (WcashExplorer.evidence db c.witness).link = none →
    (WcashExplorer.evidence db' c.witness).link = none
  observations : i ≤ last → (WcashExplorer.evidence db' c.witness).observations =
    (WcashExplorer.evidence db c.witness).observations
  pools : i + 2 < last → (WcashExplorer.evidence db' c.witness).pools =
    (WcashExplorer.evidence db c.witness).pools
  transactions : i + 1 < last → ∀ r ∈ witnessPlacements db c,
    readInstance db' r.transactionInstanceId = readInstance db r.transactionInstanceId

namespace Spared

theorem refl (db : Db) : Spared networkId last i c db db where
  selected := fun _ hc => hc
  tip := fun _ => rfl
  neighbours := fun _ _ _ => rfl
  evidence := fun _ => rfl
  unproved := fun _ hnone => hnone
  observations := fun _ => rfl
  pools := fun _ => rfl
  transactions := fun _ _ _ => rfl

/-- Later statements read less. -/
theorem succ (h : Spared networkId last i c db db') : Spared networkId last (i + 1) c db db' := by
  have hreads (hr : ReadsChain last (i + 1) c db) : ReadsChain last i c db := by
    rcases hr with hzero | ⟨hlt, hlink⟩
    · omega
    · exact Or.inr ⟨by omega, hlink⟩
  exact
    { selected := fun hr => h.selected (hreads hr)
      tip := fun hr => h.tip (hreads hr)
      neighbours := fun hzero => by omega
      evidence := fun hr => h.evidence (hreads hr)
      unproved := fun hlt => h.unproved (by omega)
      observations := fun hle => h.observations (by omega)
      pools := fun hlt => h.pools (by omega)
      transactions := fun hlt => h.transactions (by omega) }

theorem link (h : Spared networkId last i c db db') (hr : ReadsChain last i c db) :
    (WcashExplorer.evidence db' c.witness).link = (WcashExplorer.evidence db c.witness).link := by
  have hlink : (WcashExplorer.evidence db' c.witness).shown.link =
      (WcashExplorer.evidence db c.witness).shown.link := congrArg _ (h.evidence hr)
  exact hlink

theorem reads (h : Spared networkId last i c db db') (hr : ReadsChain last i c db) :
    ReadsChain last i c db' := by
  rcases hr with hzero | ⟨hlt, hlink⟩
  · exact Or.inl hzero
  · refine Or.inr ⟨hlt, ?_⟩
    rw [h.link (Or.inr ⟨hlt, hlink⟩)]
    exact hlink

theorem trans (h : Spared networkId last i c db db₁) (h' : Spared networkId last i c db₁ db')
    (happends : AppendsFacts db db₁) : Spared networkId last i c db db' where
  selected := fun hr hc => h'.selected (h.reads hr) (h.selected hr hc)
  tip := fun hr => (h'.tip (h.reads hr)).trans (h.tip hr)
  neighbours := fun hzero height hheight =>
    (h'.neighbours hzero height hheight).trans (h.neighbours hzero height hheight)
  evidence := fun hr => (h'.evidence (h.reads hr)).trans (h.evidence hr)
  unproved := fun hlt hnone => h'.unproved hlt (h.unproved hlt hnone)
  observations := fun hle => (h'.observations hle).trans (h.observations hle)
  pools := fun hlt => (h'.pools hlt).trans (h.pools hlt)
  transactions := fun hlt r hr => by
    obtain ⟨hmem, hb, hw⟩ := mem_witnessPlacements.mp hr
    have hlater : r ∈ witnessPlacements db₁ c :=
      mem_witnessPlacements.mpr ⟨happends.blockTransactions.subset hmem, hb, hw⟩
    exact (h'.transactions hlt r hlater).trans (h.transactions hlt r hr)

end Spared

/-- A method that, whenever it is committed, leaves what a request in progress still has to read of
the block it asks for. Before the block is found it brings none in its place. -/
def spares (lib : AuxPowCrate) (networkId id : Text) (opening : Db) (last i : Nat) (db : Db)
    (t : DbCall) : Prop :=
  ∀ w r db', exec lib w t db = .ok (r, db') →
    (∀ c ∈ canonicalRows opening networkId, Names id c → Spared networkId last i c db db') ∧
    (i = 0 → ∀ c ∈ canonicalRows db' networkId, Names id c → c ∈ canonicalRows db networkId)

/-- The states the statements of a request see, from the committed state the first one sees, with
what is committed between two of them. -/
structure Interleaved (lib : AuxPowCrate) (networkId id : Text) (last : Nat) (seen : ℕ → Db) :
    Prop where
  opening : Filled lib networkId (seen 0)
  next : ∀ i, ∃ log, Calls lib (spares lib networkId id (seen 0) last i) (seen i) log (seen (i + 1))

end Condition

section Runs

theorem Calls.spared (h : Calls lib (spares lib networkId id opening last i) db log db')
    (hc : c ∈ canonicalRows opening networkId) (hid : Names id c) :
    Spared networkId last i c db db' := by
  have hrun : AppendsFacts db db' ∧ Spared networkId last i c db db' := by
    refine h.invariant (I := fun d => AppendsFacts db d ∧ Spared networkId last i c db d)
      ⟨.refl db, .refl db⟩ fun d w t r d' hp hd hx => ?_
    have hstep := (hp w r d' hx).1 c hc hid
    exact ⟨hd.1.trans (exec_appendsFacts hx), hd.2.trans hstep hd.1⟩
  exact hrun.2

/-- No other block takes the place of the one that is asked for. -/
theorem Calls.named (h : Calls lib (spares lib networkId id opening last 0) db log db') :
    ∀ c ∈ canonicalRows db' networkId, Names id c → c ∈ canonicalRows db networkId :=
  h.invariant (I := fun d => ∀ c ∈ canonicalRows d networkId, Names id c →
      c ∈ canonicalRows db networkId) (fun _ hc _ => hc)
    fun _ w _ r d' hp hd hx c hc hid => hd c ((hp w r d' hx).2 rfl c hc hid) hid

namespace Interleaved

variable {seen : ℕ → Db} (h : Interleaved lib networkId id last seen)
include h

/-- Between the first statement and any later one, what is still to be read is left. -/
theorem spared (hc : c ∈ canonicalRows (seen 0) networkId) (hid : Names id c) (i : ℕ) :
    AppendsFacts (seen 0) (seen (i + 1)) ∧ Spared networkId last i c (seen 0) (seen (i + 1)) := by
  induction i with
  | zero =>
    obtain ⟨log, hlog⟩ := h.next 0
    exact ⟨hlog.appendsFacts, hlog.spared hc hid⟩
  | succ i ih =>
    obtain ⟨log, hlog⟩ := h.next (i + 1)
    exact ⟨ih.1.trans hlog.appendsFacts, ih.2.succ.trans (hlog.spared hc hid) ih.1⟩

theorem sound (i : ℕ) : StoreSound (seen i) ∧ SelectedStored (seen i) := by
  induction i with
  | zero => exact ⟨h.opening.sound, h.opening.selectedStored⟩
  | succ i ih =>
    obtain ⟨log, hlog⟩ := h.next i
    exact ⟨hlog.sound ih.1, hlog.selectedStored ih.2⟩

end Interleaved

end Runs

section Readings

variable {network : NetworkProfile} {collation : LinearOrder Text} {explorer : ParentExplorer}

theorem names_of_arguments {height : Option Nat} {hash : Option Text}
    (h : blockArguments id = .ok (height, hash)) :
    (height = some c.height ∨ hash = some c.blockHash) ↔ Names id c := by
  rcases blockArguments_eq_ok h with ⟨hparse, rfl⟩ | ⟨hparse, rfl, rfl⟩
  · cases height with
    | none =>
      rw [blockArguments, hparse] at h
      cases hvalid : requestHash "block hash" id with
      | error error => simp [hvalid, Except.map] at h
      | ok => simp [hvalid, Except.map] at h
    | some n => simp [Names, hparse]
  · simp [Names, hparse]

/-- A request asks for one block. -/
theorem SelectedStored.eq_of_names {d : CanonicalRow} (hs : SelectedStored db)
    (hd : d ∈ canonicalRows db networkId) (hc : c ∈ canonicalRows db networkId) (hid : Names id d)
    (hid' : Names id c) : d = c := by
  rcases hid with hparse | ⟨hparse, hhash⟩
  · rcases hid' with hparse' | ⟨hparse', -⟩
    · refine List.inj_on_of_nodup_map canonicalRows_nodup hd hc ?_
      exact Option.some.inj (hparse.symm.trans hparse')
    · rw [hparse] at hparse'
      cases hparse'
  · rcases hid' with hparse' | ⟨-, hhash'⟩
    · rw [hparse] at hparse'
      cases hparse'
    · exact hs.eq_of_hash hd hc (hhash.symm.trans hhash')

theorem blockDetailRow_witness {x : ChainBlock} {row : BlockDetailRow}
    (h : blockDetailRow db x = .ok row) : row.summary.witnessHash = x.1.witnessHash := by
  simp only [blockDetailRow, blockSummaryRow, Result.bind_eq_ok, Except.ok.injEq] at h
  obtain ⟨summary, ⟨_, -, _, -, rfl⟩, _, -, rfl⟩ := h
  rfl

theorem witnessPlacements_of_appends (hs : StoreSound db) (hs' : StoreSound db')
    (ha : AppendsFacts db db') (hc : c ∈ canonicalRows db networkId) :
    witnessPlacements db' c = witnessPlacements db c := by
  have hstored := hs.canonical c (mem_canonicalRows.mp hc).1
  obtain ⟨added, hadded⟩ := ha.blockTransactions
  have hnodup : (db.blockTransactions.rows ++ added).Nodup :=
    hadded ▸ List.Nodup.of_map _ db'.blockTransactions.nodup
  have hnone : added.filter (fun r => r.blockHash = c.blockHash && r.witnessHash = c.witnessHash) =
      [] := by
    refine List.filter_eq_nil_iff.mpr fun r hr hown => ?_
    simp only [Bool.and_eq_true, decide_eq_true_eq] at hown
    have hlater : r ∈ db'.blockTransactions.rows := by
      rw [← hadded]
      exact List.mem_append_right _ hr
    have hold := (mem_placements_of_appends hs hs' ha hstored hown.1 hown.2).mp hlater
    exact List.disjoint_of_nodup_append hnodup hold hr
  rw [witnessPlacements, witnessPlacements, ← hadded, List.filter_append, hnone, List.append_nil]

/-- A stored block keeps its facts, as long as its transactions keep theirs. -/
theorem sameBlock_of_appends (hs : StoreSound db) (hs' : StoreSound db') (ha : AppendsFacts db db')
    (hc : c ∈ canonicalRows db networkId) (hkept : ∀ r ∈ witnessPlacements db c,
      readInstance db' r.transactionInstanceId = readInstance db r.transactionInstanceId) :
    SameBlock db' db c where
  header := by
    obtain ⟨b, hb, -⟩ := (hs.witnesses _ (hs.canonical c (mem_canonicalRows.mp hc).1)).block
    rw [hb, Table.find?_of_prefix ha.blocks hb]
  placements := by
    rw [witnessPlacements_of_appends hs hs' ha hc]
    refine List.map_congr_left fun r hr => ?_
    rw [placedFacts, placedFacts, hkept r hr]

theorem chainConfirmations_of_tip (hc : c ∈ canonicalRows db networkId)
    (h : tipHeight db' networkId = tipHeight db networkId) :
    chainConfirmations db' c = chainConfirmations db c := by
  obtain ⟨-, rfl⟩ := mem_canonicalRows.mp hc
  unfold tipHeight at h
  rw [chainConfirmations, chainConfirmations, h]

theorem previousSupply_of_storedHash (hs : StoreSound db) (ha : AppendsFacts db db')
    (h : ∀ below, below + 1 = c.height →
      storedHash c.networkId db' below = storedHash c.networkId db below) :
    previousSupply db' c = previousSupply db c := by
  cases hheight : c.height with
  | zero =>
    unfold previousSupply
    rw [hheight]
  | succ below =>
    have hhash := h below hheight.symm
    rw [previousSupply_eq hheight, previousSupply_eq hheight, reportedSupply, reportedSupply]
    unfold storedHash at hhash
    cases hrow : db.canonicalChain.find? (c.networkId, below) with
    | none =>
      rw [hrow] at hhash
      rw [Option.map_eq_none_iff.mp hhash]
      rfl
    | some r =>
      rw [hrow] at hhash
      obtain ⟨r', hrow', hsame⟩ := Option.map_eq_some_iff.mp hhash
      obtain ⟨b, hb, -⟩ := (hs.witnesses _ (hs.canonical r (Table.mem_of_find? hrow))).block
      have hlater := Table.find?_of_prefix ha.blocks hb
      simp only [hrow', Option.bind_eq_bind, Option.bind_some, hsame, hb, hlater]

theorem witnessObservations_perm
    (h : (evidence db' c.witness).observations = (evidence db c.witness).observations)
    (p : ParentObservationRow → Bool) : (db'.parentChainObservations.rows.filter fun r =>
      r.blockHash = c.blockHash && r.witnessHash = c.witnessHash && p r).Perm
        (db.parentChainObservations.rows.filter fun r =>
          r.blockHash = c.blockHash && r.witnessHash = c.witnessHash && p r) := by
  refine Table.filter_perm fun r hr => ?_
  simp only [Bool.and_eq_true, decide_eq_true_eq] at hr
  have hkey : ParentObservationRow.key r = (c.witness.1, c.witness.2, r.sourceName) := by
    rw [ParentObservationRow.key, hr.1.1, hr.1.2]
    rfl
  rw [hkey]
  exact congrFun h r.sourceName

theorem witnessObservations_of_evidence
    (h : (evidence db' c.witness).observations = (evidence db c.witness).observations) :
    witnessObservations collation db' c.blockHash c.witnessHash =
      witnessObservations collation db c.blockHash c.witnessHash := by
  let _ := collation
  refine orderBy_perm_eq ?_ ?_
  · simpa using witnessObservations_perm h fun _ => true
  · refine (List.Nodup.of_map _ db'.parentChainObservations.nodup).filter _ |>.map_on ?_
    intro r hr s hs hsource
    simp only [List.mem_filter, Bool.and_eq_true, decide_eq_true_eq] at hr hs
    refine List.inj_on_of_nodup_map db'.parentChainObservations.nodup hr.1 hs.1 ?_
    rw [ParentObservationRow.key, ParentObservationRow.key, hr.2.1, hr.2.2, hs.2.1, hs.2.2, hsource]

theorem selectorOf_eq (hs : SelectedStored db) (hc : c ∈ canonicalRows db networkId) :
    selectorOf db networkId c.blockHash c.witnessHash = some c := by
  have hsome : (selectorOf db networkId c.blockHash c.witnessHash).isSome :=
    List.find?_isSome.mpr ⟨c, hc, by simp⟩
  obtain ⟨d, hd⟩ := Option.isSome_iff_exists.mp hsome
  have hsame := List.find?_some hd
  simp only [Bool.and_eq_true, decide_eq_true_eq] at hsame
  rw [hd, hs.eq_of_hash (List.mem_of_find?_eq_some hd) hc hsame.1]

/-- The statement that finds the block reads the same row, if what it reads was left. -/
theorem blockDetailRow_spared {x y : ChainBlock} (hs : StoreSound db) (hs' : StoreSound db')
    (ha : AppendsFacts db db') (hlast : 1 < last) (h : Spared networkId last 0 y.1 db db')
    (hy : y ∈ chainBlocks db networkId) (hx : x ∈ chainBlocks db' networkId) (hsame : x.1 = y.1) :
    blockDetailRow db' x = blockDetailRow db y := by
  obtain ⟨c, b, w⟩ := y
  obtain ⟨c', b', w'⟩ := x
  obtain rfl : c' = c := hsame
  rename' c' => c
  obtain ⟨hc, hb, hw⟩ := mem_chainBlocks.mp hy
  obtain ⟨-, hb', hw'⟩ := mem_chainBlocks.mp hx
  obtain rfl : b = b' := Option.some.inj ((Table.find?_of_prefix ha.blocks hb).symm.trans hb')
  have hnetwork : c.networkId = networkId := (mem_canonicalRows.mp hc).2
  have hreads : ReadsChain last 0 c db := Or.inl rfl
  have hblock := sameBlock_of_appends hs hs' ha hc (h.transactions (by omega))
  have hprevious : previousSupply db' c = previousSupply db c :=
    previousSupply_of_storedHash hs ha fun below hbelow => by
      rw [hnetwork]
      exact h.neighbours rfl below (Or.inl hbelow)
  have hnext : storedHash c.networkId db' (c.height + 1) = storedHash c.networkId db (c.height + 1) := by
    rw [hnetwork]
    exact h.neighbours rfl _ (Or.inr rfl)
  have hshown := h.evidence hreads
  simp only [Evidence.shown, evidence, CanonicalRow.witness, hw, hw', Option.map_some,
    Evidence.mk.injEq, Option.some.injEq] at hshown
  obtain ⟨hexact, -, hvalidation, -, hlink, -, -⟩ := hshown
  have hobservations : (canonicalObservations db' c).Perm (canonicalObservations db c) := by
    exact witnessObservations_perm (h.observations (by omega)) fun r =>
      r.observationState = .canonical
  rw [blockDetailRow_eq, blockDetailRow_eq, hnext, blockSummaryRow_congr rfl
    (hblock.rewardZat rfl hprevious) (chainConfirmations_of_tip hc (h.tip hreads)) hexact
    hvalidation hlink hobservations]

theorem findBlock_spared {row : BlockDetailRow} (hs : StoreSound db) (hs' : StoreSound db')
    (hselected : SelectedStored db) (ha : AppendsFacts db db') (hlast : 1 < last)
    (hspared : ∀ c ∈ canonicalRows db network.id, Names id c → Spared network.id last 0 c db db')
    (hnamed : ∀ c ∈ canonicalRows db' network.id, Names id c → c ∈ canonicalRows db network.id)
    (h : findBlock network.toNetworkConfig id db' = .ok row) :
    findBlock network.toNetworkConfig id db = .ok row ∧
      ∃ c ∈ canonicalRows db network.id, Names id c ∧ row.summary.height = c.height ∧
        row.summary.hash = c.blockHash ∧ row.summary.witnessHash = c.witnessHash := by
  simp only [findBlock, Result.bind_eq_ok, orNotFound_eq_ok] at h
  obtain ⟨⟨height, hash⟩, harguments, _, hquery, rfl⟩ := h
  obtain ⟨x, hx, hfound, hrow⟩ := blockDetailQuery_eq_ok hquery
  have hid : Names id x.1 := (names_of_arguments harguments).mp hfound
  have hc : x.1 ∈ canonicalRows db network.id := hnamed x.1 (mem_chainBlocks.mp hx).1 hid
  have hjoined : x.1 ∈ (chainBlocks db network.id).map Prod.fst := by
    rw [chainBlocks_selectors hs]
    exact hc
  obtain ⟨y, hy, hsame⟩ := List.mem_map.mp hjoined
  have hrow' : blockDetailRow db y = .ok row := by
    rw [← blockDetailRow_spared hs hs' ha hlast (hsame ▸ hspared x.1 hc hid) hy hx hsame.symm]
    exact hrow
  have honly : ∀ z ∈ chainBlocks db network.id,
      (height = some z.1.height ∨ hash = some z.1.blockHash) → z = y := by
    intro z hz hfound'
    refine chainBlocks_unique hz hy ?_
    rw [hsame]
    exact hselected.eq_of_names (mem_chainBlocks.mp hz).1 hc
      ((names_of_arguments harguments).mp hfound') hid
  obtain ⟨hheight, hhash⟩ := blockDetailRow_selector hrow
  refine ⟨findBlock_of_arguments harguments ?_, x.1, hc, hid, hheight, hhash,
    blockDetailRow_witness hrow⟩
  rw [blockDetailQuery_unique hy (hsame ▸ hfound) honly, hrow']
  rfl

/-- The statement that reads the proof reads the same one. -/
theorem auxpowQuery_spared (hs : StoreSound db) (hselected : SelectedStored db)
    (hselected' : SelectedStored db') (hi : i < last) (hc : c ∈ canonicalRows db networkId)
    (h : Spared networkId last i c db db') :
    auxpowQuery db' networkId c.blockHash c.witnessHash =
      auxpowQuery db networkId c.blockHash c.witnessHash := by
  cases hlink : (evidence db c.witness).link with
  | none =>
    have hbefore : db.auxpowLinks.find? (c.blockHash, c.witnessHash) = none := hlink
    have hafter : db'.auxpowLinks.find? (c.blockHash, c.witnessHash) = none := h.unproved hi hlink
    rw [auxpowQuery, auxpowQuery, hbefore, hafter]
  | some a =>
    have hreads : ReadsChain last i c db := Or.inr ⟨hi, by rw [hlink]; rfl⟩
    have hc' := h.selected hreads hc
    obtain ⟨w, hw⟩ := Option.isSome_iff_exists.mp (hs.canonical c (mem_canonicalRows.mp hc).1)
    have hshown := h.evidence hreads
    simp only [Evidence.shown, evidence, CanonicalRow.witness, hw, Option.map_some,
      Evidence.mk.injEq] at hshown
    obtain ⟨hexact, -, hvalidation, hversion, hlink', -, -⟩ := hshown
    obtain ⟨w', hw', hexact⟩ := Option.map_eq_some_iff.mp hexact
    rw [hw', Option.map_some, Option.some.injEq] at hvalidation hversion
    have hlinked : db.auxpowLinks.find? (c.blockHash, c.witnessHash) = some a := hlink
    rw [auxpowQuery, auxpowQuery, hlink', hlinked, hw, hw', selectorOf_eq hselected hc,
      selectorOf_eq hselected' hc']
    simp only [chainConfirmations_of_tip hc (h.tip hreads), auxPowRow, hexact, hvalidation, hversion]

end Readings

section Pages

variable {network : NetworkProfile} {collation : LinearOrder Text} {explorer : ParentExplorer}
  {seen : ℕ → Db} {now : Timestamp}

theorem Filled.proofsStored (h : Filled lib networkId db) : ProofsStored db := by
  obtain ⟨start, -, hblocks, hhistory⟩ := h
  obtain ⟨log, hcalls⟩ := hhistory.calls
  exact hcalls.proofsStored hblocks.proofsStored

/-- In one state a selected block above genesis is read with its proof. -/
theorem auxpowQuery_isSome (hs : ProofsStored db) (hselected : SelectedStored db)
    (hc : c ∈ canonicalRows db networkId) (hheight : 0 < c.height) {found : Option AuxPowRow}
    (h : auxpowQuery db networkId c.blockHash c.witnessHash = .ok found) : found.isSome := by
  have hmem := (mem_canonicalRows.mp hc).1
  have hstored := hs.sound.canonical c hmem
  obtain ⟨b, hb, hheight', -⟩ := hselected c hmem
  obtain ⟨link, hlink, -⟩ := (hs.proved _ b hstored hb (by omega)).link
  obtain ⟨w, hw⟩ := Option.isSome_iff_exists.mp hstored
  have hlinked : db.auxpowLinks.find? (c.blockHash, c.witnessHash) = some link := hlink
  rw [auxpowQuery, hlinked, hw, selectorOf_eq hselected hc] at h
  simp only [Result.bind_eq_ok] at h
  obtain ⟨confirmations, -, h⟩ := h
  obtain rfl := Except.ok.inj h
  rfl

namespace Interleaved

theorem named (h : Interleaved lib networkId id last seen) :
    ∀ c ∈ canonicalRows (seen 1) networkId, Names id c → c ∈ canonicalRows (seen 0) networkId := by
  obtain ⟨log, hlog⟩ := h.next 0
  exact hlog.named

/-- The block that is found is the one of the first state. -/
theorem found (h : Interleaved lib network.id id last seen) (hlast : 1 < last) {row : BlockDetailRow}
    (hrow : findBlock network.toNetworkConfig id (seen 1) = .ok row) :
    findBlock network.toNetworkConfig id (seen 0) = .ok row ∧
      ∃ c ∈ canonicalRows (seen 0) network.id, Names id c ∧ row.summary.height = c.height ∧
        row.summary.hash = c.blockHash ∧ row.summary.witnessHash = c.witnessHash := by
  obtain ⟨log, hlog⟩ := h.next 0
  exact findBlock_spared h.opening.sound (h.sound 1).1 h.opening.selectedStored hlog.appendsFacts hlast
    (fun c hc hid => (h.spared hc hid 0).2) h.named hrow

/-- Its proof is read as it was in the first state, and with it what the parent nodes said. -/
theorem proof (h : Interleaved lib network.id id (i + 1) seen)
    (hc : c ∈ canonicalRows (seen 0) network.id) (hid : Names id c) :
    loadAuxpow collation network explorer c.blockHash c.witnessHash (seen (i + 1)) (seen (i + 2)) =
      loadAuxpow collation network explorer c.blockHash c.witnessHash (seen 0) (seen 0) := by
  have hproof := (h.spared hc hid i).2
  have hobservations := (h.spared hc hid (i + 1)).2.observations (Nat.le_refl _)
  rw [loadAuxpow, loadAuxpow, auxpowQuery_spared h.opening.sound h.opening.selectedStored
    (h.sound (i + 1)).2 (Nat.lt_succ_self i) hc hproof,
    witnessObservations_of_evidence hobservations]

theorem loadAuxpow_isSome (h : Interleaved lib network.id id last seen)
    (hc : c ∈ canonicalRows (seen 0) network.id) (hheight : 0 < c.height) {view : Option AuxPowView}
    (hview : loadAuxpow collation network explorer c.blockHash c.witnessHash (seen 0) (seen 0) =
      .ok view) : view.isSome := by
  simp only [loadAuxpow, Result.bind_eq_ok] at hview
  obtain ⟨found, hfound, hview⟩ := hview
  obtain rfl := Except.ok.inj hview
  rw [Option.isSome_map]
  exact auxpowQuery_isSome h.opening.proofsStored h.opening.selectedStored hc hheight hfound

end Interleaved

/-- Where whatever is committed during a request leaves what the request still has to read of its
block, a page that is served is the one of the state the request began on, and a block above
genesis has its proof on it. -/
theorem pages_read_one_state :
    (Interleaved lib network.id id 4 seen → ∀ answer,
      block collation network explorer id seen now = .ok answer →
        block collation network explorer id (fun _ => seen 0) now = .ok answer ∧
          (0 < answer.data.summary.height → answer.data.auxpow.isSome)) ∧
    (Interleaved lib network.id id 2 seen → ∀ answer,
      blockAuxpow collation network explorer id seen now = .ok answer →
        blockAuxpow collation network explorer id (fun _ => seen 0) now = .ok answer ∧
          ∀ c ∈ canonicalRows (seen 0) network.id, Names id c → 0 < c.height →
            answer.data.isSome) := by
  constructor
  · intro h answer hanswer
    simp only [block, Result.bind_eq_ok] at hanswer
    obtain ⟨chain, hchain, row, hrow, txs, htxs, auxpow, hauxpow, hanswer⟩ := hanswer
    obtain ⟨hfound, c, hc, hid, hheight, hhash, hwitness⟩ := h.found (by omega) hrow
    have hshown : (BlockSummary.fromRow network row.summary).hash = c.blockHash := hhash
    have hshown' : (BlockSummary.fromRow network row.summary).witnessHash = c.witnessHash := hwitness
    obtain ⟨happends, hspared⟩ := h.spared hc hid 2
    have hpools : witnessPools collation (seen 2) c.blockHash c.witnessHash =
        witnessPools collation (seen 0) c.blockHash c.witnessHash :=
      witnessPools_eq (congrFun ((h.spared hc hid 1).2.pools (by omega)))
    have hblock := sameBlock_of_appends h.opening.sound (h.sound 3).1 happends hc
      (hspared.transactions (by omega))
    rw [hshown, hshown', hblock.transactionRows] at htxs
    rw [hshown, hshown', h.proof hc hid] at hauxpow
    rw [hshown, hshown', hpools] at hanswer
    constructor
    · simp only [block, Result.bind_eq_ok]
      refine ⟨chain, hchain, row, hfound, txs, ?_, auxpow, ?_, ?_⟩
      · rw [hshown, hshown']
        exact htxs
      · rw [hshown, hshown']
        exact hauxpow
      · rw [hshown, hshown']
        exact hanswer
    · obtain rfl := Except.ok.inj hanswer
      intro hpos
      have hpos : 0 < row.summary.height := hpos
      exact h.loadAuxpow_isSome hc (by omega) hauxpow
  · intro h answer hanswer
    simp only [blockAuxpow, Result.bind_eq_ok] at hanswer
    obtain ⟨chain, hchain, row, hrow, view, hview, hanswer⟩ := hanswer
    obtain ⟨hfound, c, hc, hid, hheight, hhash, hwitness⟩ := h.found (by omega) hrow
    rw [hhash, hwitness, h.proof hc hid] at hview
    constructor
    · simp only [blockAuxpow, Result.bind_eq_ok]
      refine ⟨chain, hchain, row, hfound, view, ?_, hanswer⟩
      rw [hhash, hwitness]
      exact hview
    · obtain rfl := Except.ok.inj hanswer
      intro d hd hid' hpos
      rw [h.opening.selectedStored.eq_of_names hd hc hid' hid] at hpos
      exact h.loadAuxpow_isSome hc hpos hview

end Pages

section Sample

/-- The node's chain became shorter: its last block is displaced and nothing takes its place. -/
def sampleTruncation : DbCall :=
  .replaceCanonicalBranch sampleNetwork
    { height := 2
      blockHash := sampleHash '2'
      witnessHash := "3232015a41435706".toList ++ List.replicate 48 '0' }
    (some (1, sampleHash '1')) []

def sampleTruncated : Db :=
  stateAfter sampleCrate { now := 0 } (sampleDb [['1', '2']]) sampleTruncation

/-- The first statements of a request see three blocks, and the others see two. -/
def sampleSeen (before : ℕ) (i : ℕ) : Db :=
  if i < before then sampleDb [['1', '2']] else sampleTruncated

theorem sampleSeen_early {before : Nat} (h : i < before) : sampleSeen before i = sampleDb [['1', '2']] :=
  if_pos h

theorem sampleSeen_late {before : Nat} (h : before ≤ i) : sampleSeen before i = sampleTruncated :=
  if_neg (Nat.not_lt.mpr h)

def sampleExplorer : ParentExplorer := ⟨"https://parent/{hash}".toList, []⟩

theorem sampleDb_filled : Filled sampleCrate sampleNetwork (sampleDb [['1', '2']]) :=
  (Filled.initial sampleNetwork).round rfl

/-- A method that stores no block moves no evidence. -/
theorem evidence_of_noBlocks {w : World} {t : DbCall} {r : t.Result} (ht : t.blocks = [])
    (h : exec lib w t db = .ok (r, db')) (k : Text × Text) : evidence db' k = evidence db k := by
  obtain ⟨db₁, hins, hdb'⟩ := exec_insertBlocks h
  rw [ht] at hins
  obtain rfl := Except.ok.inj hins
  rw [hdb']
  rfl

/-- What is committed after the proof was read is not seen any more. -/
theorem interleaved_sampleSeen (id : Text) (hlast : 0 < last) :
    Interleaved sampleCrate sampleNetwork id last (sampleSeen (last + 1)) where
  opening := by
    rw [sampleSeen_early (Nat.succ_pos last)]
    exact sampleDb_filled
  next := by
    intro i
    rcases Nat.lt_trichotomy i last with hlt | rfl | hlt
    · rw [sampleSeen_early (i := i) (by omega), sampleSeen_early (i := i + 1) (by omega)]
      exact ⟨[], Calls.nil _⟩
    · rw [sampleSeen_early (i := 0) (by omega), sampleSeen_early (i := i) (by omega),
        sampleSeen_late (i := i + 1) (by omega)]
      refine ⟨_, (Calls.nil _).next (t := sampleTruncation) ?_ (by decide +kernel)⟩
      intro w r db' hx
      refine ⟨fun c _ _ => ?_, fun hzero => by omega⟩
      have hnot : ¬ ReadsChain i i c (sampleDb [['1', '2']]) := by
        rintro (hzero | ⟨hself, -⟩) <;> omega
      exact
        { selected := fun hr => absurd hr hnot
          tip := fun hr => absurd hr hnot
          neighbours := fun hzero => by omega
          evidence := fun hr => absurd hr hnot
          unproved := fun hself => by omega
          observations := fun _ => by rw [evidence_of_noBlocks rfl hx]
          pools := fun hself => by omega
          transactions := fun hself => by omega }
    · rw [sampleSeen_late (i := i) (by omega), sampleSeen_late (i := i + 1) (by omega)]
      exact ⟨[], Calls.nil _⟩

theorem pages_read_one_state_late :
    (∃ answer, block inferInstance sampleProfile sampleExplorer ['2'] (sampleSeen 5) 0 = .ok answer ∧
      block inferInstance sampleProfile sampleExplorer ['2'] (fun _ => sampleDb [['1', '2']]) 0 =
        .ok answer ∧ answer.data.auxpow.isSome) ∧
    ∃ answer, blockAuxpow inferInstance sampleProfile sampleExplorer ['2'] (sampleSeen 3) 0 =
        .ok answer ∧
      blockAuxpow inferInstance sampleProfile sampleExplorer ['2'] (fun _ => sampleDb [['1', '2']]) 0 =
        .ok answer := by
  have hheight : (block inferInstance sampleProfile sampleExplorer ['2'] (sampleSeen 5) 0).map
      (fun answer => answer.data.summary.height) = .ok 2 := by decide +kernel
  have hproof : (blockAuxpow inferInstance sampleProfile sampleExplorer ['2'] (sampleSeen 3)
      0).map (fun answer => answer.data.isSome) = .ok true := by decide +kernel
  constructor
  · cases hanswer : block inferInstance sampleProfile sampleExplorer ['2'] (sampleSeen 5) 0 with
    | error error =>
      rw [hanswer] at hheight
      cases hheight
    | ok answer =>
      rw [hanswer] at hheight
      obtain ⟨hone, hsome⟩ := pages_read_one_state.1
        (interleaved_sampleSeen ['2'] (by decide)) answer hanswer
      have htwo : answer.data.summary.height = 2 := Except.ok.inj hheight
      exact ⟨answer, rfl, hone, hsome (by omega)⟩
  · cases hanswer : blockAuxpow inferInstance sampleProfile sampleExplorer ['2'] (sampleSeen 3) 0 with
    | error error =>
      rw [hanswer] at hproof
      cases hproof
    | ok answer =>
      exact ⟨answer, rfl, (pages_read_one_state.2
        (interleaved_sampleSeen ['2'] (by decide)) answer hanswer).1⟩

/-- A branch that is replaced between two statements: the block was found while it was canonical, and
its proof is looked for when it no longer is. -/
theorem displaced_block_without_proof :
    Filled sampleCrate sampleNetwork (sampleDb [['1', '2']]) ∧
    (∃ log, Calls sampleCrate (fun _ t => t = sampleTruncation) (sampleDb [['1', '2']]) log
      sampleTruncated) ∧
    (block inferInstance sampleProfile sampleExplorer ['2'] (sampleSeen 4) 0).map
      (fun answer => (answer.data.summary.height, answer.data.auxpow.isSome)) = .ok (2, false) ∧
    (blockAuxpow inferInstance sampleProfile sampleExplorer ['2'] (sampleSeen 2) 0).map
      (fun answer => answer.data.isSome) = .ok false :=
  ⟨sampleDb_filled, ⟨_, (Calls.nil _).next rfl (by decide +kernel)⟩, by decide +kernel,
    by decide +kernel⟩

end Sample

end WcashExplorer
