import WcashExplorer.Db.Evidence
import WcashExplorer.Indexer.Node

/-! The evidence refresh of a pass against the witness that is selected. -/
namespace WcashExplorer

open Effects Relational

variable {lib : AuxPowCrate} {self indexer : Indexer lib} {networkId : Text} {db db' queue : Db}
  {tr seg : Trace} {xs opening : List CanonicalRow} {r : CanonicalRow} {indexed : IndexedBlock}
  {depth : Nat} {now : Timestamp}

/-- The evidence of a selected row carries the time of a verification and what the node said
about the proof in it, and the row is not due for a refresh any more. -/
structure EvidenceCurrent (networkId : Text) (depth : Nat) (db : Db) (r : CanonicalRow)
    (indexed : IndexedBlock) (seg : Trace) (now : Timestamp) : Prop where
  link : ∃ a, db.auxpowLinks.find? (r.blockHash, r.witnessHash) = some a ∧
    a.verifiedAt = indexed.fetchedAt
  witness : ∃ b c, db.blockWitnesses.find? (r.blockHash, r.witnessHash) = some b ∧
    b.indexedAt = indexed.fetchedAt ∧ b.exactWitnessState = .bestChain ∧
    b.witnessConfirmations = some c ∧
    asked (.auxBlockStatus indexed.block.hash indexed.block.solution) (.ok (.bestChain c)) ∈ seg
  settled : ∀ since, (r, since) ∉ staleEvidence db networkId depth now

/-- Storing fetched evidence settles a due row of the same block exactly if it is the row's own
witness that was fetched, by a clock within the interval of the queue's. -/
theorem evidenceCurrent_iff {height : Nat} {previous : Option Text} {since : Timestamp}
    (hx : Selected networkId queue xs) (hx' : Selected networkId db' xs)
    (hdue : (r, since) ∈ staleEvidence queue networkId depth now) (hheight : r.height = height)
    (hfetched : Fetched lib height previous seg indexed) (hsame : indexed.block.hash = r.blockHash)
    (hstored : insertBlock lib networkId indexed queue = .ok db)
    (hlinks : db'.auxpowLinks = db.auxpowLinks) (hwitnesses : db'.blockWitnesses = db.blockWitnesses) :
    EvidenceCurrent networkId depth db' r indexed seg now ↔
      witnessHash lib indexed = r.witnessHash ∧
        now - parentEvidenceRefreshIntervalSeconds * microsPerSecond ≤ indexed.fetchedAt := by
  obtain ⟨hr, hwithin, hold, a₀, ha₀, hsince⟩ := mem_staleEvidence.mp hdue
  have htip : tipRow db' networkId = tipRow queue networkId := by
    rw [hx'.tipRow_eq, hx.tipRow_eq]
  have hr' : r ∈ canonicalRows db' networkId :=
    hx'.mem_canonicalRows.mpr (hx.mem_canonicalRows.mp hr)
  constructor
  · rintro ⟨⟨a, ha, htime⟩, -, hsettled⟩
    refine ⟨?_, ?_⟩
    · by_contra hne
      have hkey : (r.blockHash, r.witnessHash) ≠ (indexed.block.hash, witnessHash lib indexed) :=
        fun he => hne (Prod.mk.inj he).2.symm
      have hkept := insertBlock_other_links hstored hkey
      refine hsettled since (mem_staleEvidence.mpr ⟨hr', htip ▸ hwithin, hold, a₀, ?_, hsince⟩)
      rw [hlinks, hkept, ha₀]
    · by_contra hlt
      refine hsettled indexed.fetchedAt (mem_staleEvidence.mpr ⟨hr', htip ▸ hwithin, ?_, a, ha, htime⟩)
      exact not_le.mp hlt
  · rintro ⟨hwitness, hclock⟩
    have hevidenced := hfetched.evidenced
    cases haux : indexed.auxpow with
    | none =>
      rw [haux] at hevidenced
      have hzero : indexed.block.height = 0 := hevidenced
      have hat := hfetched.atHeight
      omega
    | some aux =>
      rw [haux] at hevidenced
      obtain ⟨-, hstate, c, hconfirmations, hanswer⟩ := hevidenced
      obtain ⟨a, ha, htime⟩ := insertBlock_own_link hstored haux
      obtain ⟨b, hb, hindexed, hbstate, hbconfirmations⟩ := insertBlock_own_witness hstored haux
      rw [hwitness, hsame, ← hlinks] at ha
      rw [hwitness, hsame, ← hwitnesses] at hb
      refine ⟨⟨a, ha, htime⟩, ⟨b, c, hb, hindexed, hbstate.trans hstate,
        hbconfirmations.trans hconfirmations, hanswer⟩, ?_⟩
      intro since' hstale
      obtain ⟨-, -, hold', a', ha', hsince'⟩ := mem_staleEvidence.mp hstale
      obtain rfl := Option.some.inj (ha.symm.trans ha')
      have htimes : indexed.fetchedAt = since' := htime.symm.trans hsince'
      exact not_le.mpr hold' (htimes ▸ hclock)

/-- In every pass that ends well after its queue yielded a height, one block was fetched there for
the refresh. If the node still served the selected hash, the selected witness has come out of it
verified, with the node's answer and settled, exactly if it is the witness that was fetched (by a
clock not more than the refresh interval behind the queue's). -/
theorem refresh_reaches_selected_witness {outcome : SyncOutcome} {w : World} {height : Nat}
    {hash : Text} (hreach : Reachable lib networkId db) (hn : indexer.network.id = networkId)
    (run : Run (exec lib) (indexer.syncOnce, db) tr (.ret outcome, db'))
    (hcandidate : done w (.evidenceRefreshCandidate networkId indexer.evidenceRefreshDepth)
      (.ok (some (height, hash))) ∈ tr) :
    ∃ r indexed previous seg, db'.canonicalChain.find? (networkId, height) = some r ∧
      r.blockHash = hash ∧ seg <:+: tr ∧ Fetched lib height previous seg indexed ∧
      (∃ w', done w' (.refreshBlockEvidence networkId indexed) (.ok ()) ∈ tr) ∧
      (indexed.block.hash = hash →
        (EvidenceCurrent networkId indexer.evidenceRefreshDepth db' r indexed seg w.now ↔
          witnessHash lib indexed = r.witnessHash ∧
            w.now - parentEvidenceRefreshIntervalSeconds * microsPerSecond ≤ indexed.fetchedAt)) := by
  subst hn
  obtain ⟨⟨xs₀, hx₀⟩, hinit⟩ := hreach.chainInvariant
  have hallowed : ∀ ev ∈ tr, ev.Allowed (passContract indexer xs₀) := by
    intro ev _
    cases ev <;> exact trivial
  have hcompleted := (syncOnce_justified hx₀ hinit).run hallowed run outcome rfl
  obtain ⟨front, w₀, found, rest, last, queue, xs, db₁, htr, hx, hqueue, hrefreshed, hstatus, hfront,
    hrest, hlast⟩ := hcompleted.refreshed
  rw [List.nil_append] at htr
  subst htr
  have hevent : done w (.evidenceRefreshCandidate indexer.network.id indexer.evidenceRefreshDepth)
      (.ok (some (height, hash))) = done w₀ (.evidenceRefreshCandidate indexer.network.id
        indexer.evidenceRefreshDepth) (.ok found) := by
    simp only [List.append_assoc, List.cons_append, List.mem_append, List.mem_cons] at hcandidate
    rcases hcandidate with h | h | h | h
    · cases hfront _ h
    · exact h
    · cases hrest _ h
    · cases hlast _ h
  cases hevent
  have hx' := hstatus.selected (hrefreshed.selected hx)
  obtain ⟨r, since, hdue, hheight, rfl⟩ := evidenceRefreshCandidate_ok hqueue
  have hmem := hx'.mem_canonicalRows.mpr (hx.mem_canonicalRows.mp (mem_staleEvidence.mp hdue).1)
  obtain ⟨hr, hrn⟩ : r ∈ db'.canonicalChain.rows ∧ r.networkId = indexer.network.id := by
    simpa [canonicalRows] using hmem
  cases hrefreshed with
  | @fetched _ _ previous asks seg indexed w' _ hfetched hstored =>
    refine ⟨r, indexed, previous, seg, ?_, rfl, ?_, hfetched, ⟨w', by simp⟩, ?_⟩
    · have hkey : r.key = (indexer.network.id, height) := by simp [CanonicalRow.key, hrn, hheight]
      exact hkey ▸ Table.find?_of_mem hr
    · refine ⟨front ++ done w (.evidenceRefreshCandidate indexer.network.id
        indexer.evidenceRefreshDepth) (.ok (some (height, r.blockHash))) :: asks,
        done w' (.refreshBlockEvidence indexer.network.id indexed) (.ok ()) :: last, ?_⟩
      simp only [List.append_assoc, List.cons_append, List.nil_append]
    · intro hsame
      obtain ⟨_, _, _, -, rfl⟩ := hstatus
      exact evidenceCurrent_iff hx hx' hdue hheight hfetched hsame hstored rfl rfl

section Sample

/-- A minute after the sample store was written. -/
def laterNode (chain : List NodeBlock) : Environment explorer World :=
  nodeEnvironment sampleNetwork (fun _ => chain) { now := 60 * microsPerSecond }

/-- The queue yielded a height and hash to the sample network, at a time. -/
def isSampleCandidate (height : Nat) (hash : Text) (now : Timestamp) :
    Event explorer World → Bool
  | .done w (.evidenceRefreshCandidate n depth) (.ok (some c)) =>
    n = sampleNetwork && depth = 10 && c = (height, hash) && w.now = now
  | _ => false

example : isSampleCandidate 1 (sampleHash '1') 0 (.done { now := 0 }
    (.evidenceRefreshCandidate sampleNetwork 10) (.ok (some (1, sampleHash '1')))) = true := by
  decide +kernel

theorem candidate_of_any {height : Nat} {hash : Text}
    (h : tr.any (isSampleCandidate height hash now) = true) :
    ∃ w, w.now = now ∧ done w (.evidenceRefreshCandidate sampleNetwork 10)
      (.ok (some (height, hash))) ∈ tr := by
  obtain ⟨ev, hev, hcandidate⟩ := List.any_eq_true.mp h
  unfold isSampleCandidate at hcandidate
  split at hcandidate
  · simp only [Bool.and_eq_true, decide_eq_true_eq] at hcandidate
    obtain ⟨⟨⟨rfl, rfl⟩, rfl⟩, hnow⟩ := hcandidate
    exact ⟨_, hnow, hev⟩
  · cases hcandidate

/-- A pass of the sample synchronizer that ends well and whose queue yielded a candidate. -/
theorem pass_with_candidate (env : Environment explorer World) (db : Db) (height : Nat)
    (hash : Text) (now : Timestamp)
    (hok : ((sampleIndexer 10).pass env db).2.1.isOk = true)
    (h : ((sampleIndexer 10).pass env db).1.any (isSampleCandidate height hash now) = true) :
    ∃ outcome w, w.now = now ∧
      Run (exec sampleCrate) ((sampleIndexer 10).syncOnce, db) ((sampleIndexer 10).pass env db).1
        (.ret outcome, ((sampleIndexer 10).pass env db).2.2) ∧
      done w (.evidenceRefreshCandidate sampleNetwork 10) (.ok (some (height, hash))) ∈
        ((sampleIndexer 10).pass env db).1 := by
  obtain ⟨w, hnow, hmem⟩ := candidate_of_any h
  have hrun := (sampleIndexer 10).pass_run env db
  cases ho : ((sampleIndexer 10).pass env db).2.1 with
  | ok outcome =>
    rw [ho] at hrun
    exact ⟨outcome, w, hnow, hrun, hmem⟩
  | error e =>
    rw [ho] at hok
    cases hok

/-- The same witness served again: the pass fetches it for the refresh. -/
theorem refresh_reaches_selected_witness_again :
    ∃ r indexed previous seg, ((sampleIndexer 10).pass (laterNode (sampleChain ['1']))
        (sampleDb [['1']])).2.2.canonicalChain.find? (sampleNetwork, 1) = some r ∧
      r.blockHash = sampleHash '1' ∧ Fetched sampleCrate 1 previous seg indexed := by
  obtain ⟨outcome, w, -, run, hcandidate⟩ := pass_with_candidate
    (laterNode (sampleChain ['1'])) (sampleDb [['1']]) 1 (sampleHash '1') (60 * microsPerSecond)
    (by decide +kernel) (by decide +kernel)
  obtain ⟨r, indexed, previous, seg, hr, hhash, -, hfetched, -⟩ :=
    refresh_reaches_selected_witness (sampleDb_reachable [['1']]) rfl run hcandidate
  exact ⟨r, indexed, previous, seg, hr, hhash, hfetched⟩

/-- The sample chain of one block, whose block now carries another witness. -/
def rewitnessedChain : List NodeBlock := [sampleBlock 0 '0' none 0, sampleBlock 1 '1' (some '0') 7]

/-- The selected witness then stays due, although the pass ended well and the node served the
selected hash throughout. -/
theorem rewitnessed_block_stays_due : ¬ ∀ (db db' : Db) (tr : Trace) (outcome : SyncOutcome)
    (w : World) (height : Nat) (hash : Text), Reachable sampleCrate sampleNetwork db →
    Run (exec sampleCrate) ((sampleIndexer 10).syncOnce, db) tr (.ret outcome, db') →
    done w (.evidenceRefreshCandidate sampleNetwork 10) (.ok (some (height, hash))) ∈ tr →
    (∀ a, asked (.blockHash height) a ∈ tr → a = .ok hash) →
    ∀ x ∈ staleEvidence db' sampleNetwork 10 w.now, x.1.height ≠ height := by
  intro h
  obtain ⟨outcome, w, hnow, run, hcandidate⟩ := pass_with_candidate (laterNode rewitnessedChain)
    (sampleDb [['1']]) 1 (sampleHash '1') (60 * microsPerSecond) (by decide +kernel)
    (by decide +kernel)
  have hserved : ((sampleIndexer 10).pass (laterNode rewitnessedChain) (sampleDb [['1']])).1.all
      (keepsTo 1 (sampleHash '1')) = true := by decide +kernel
  have hsettled := h _ _ _ outcome w 1 (sampleHash '1') (sampleDb_reachable [['1']]) run hcandidate
    (answers_of_keepsTo hserved)
  rw [hnow] at hsettled
  revert hsettled
  decide +kernel

end Sample

end WcashExplorer
