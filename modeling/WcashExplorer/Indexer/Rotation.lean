import Mathlib.Data.Finset.Card
import Mathlib.Order.Interval.Finset.Nat
import WcashExplorer.Effects.Serial
import WcashExplorer.Indexer.Refresh
import WcashExplorer.Indexer.Vouched

/-! The rotation of the evidence refresh: how often a record that waits for it is overtaken. -/
namespace WcashExplorer

open Effects Relational

variable {lib : AuxPowCrate} {indexer : Indexer lib} {networkId : Text} {depth floor lowest n : Nat}
  {db db₁ db' queue : Db} {tr : Trace} {since : Timestamp} {r c x : CanonicalRow}
  {indexed : IndexedBlock} {outcome : SyncOutcome} {w : World}

section Queue

/-- No due row goes before the one that the queue yields. -/
theorem evidenceRefreshCandidate_first {height : Nat} {hash : Text}
    (h : evidenceRefreshCandidate db networkId depth w = .ok (some (height, hash))) :
    ∃ x ∈ staleEvidence db networkId depth w.now, x.1.height = height ∧
      ∀ y ∈ staleEvidence db networkId depth w.now,
        refreshBefore (((tipRow db networkId).map fun r => r.height).getD 0) y x = false := by
  simp only [evidenceRefreshCandidate, Result.bind_eq_ok, toI64_eq_ok] at h
  obtain ⟨_, ⟨-, rfl⟩, h⟩ := h
  obtain ⟨x, hx, hpair⟩ := Option.map_eq_some_iff.mp (Except.ok.inj h)
  obtain ⟨hmem, hfirst⟩ := List.mem_filter.mp (List.mem_of_getElem? hx)
  refine ⟨x, hmem, (Prod.mk.inj hpair).1, fun y hy => ?_⟩
  simpa using List.all_eq_true.mp hfirst y hy

/-- Below the tip, the longest unverified row goes first. -/
theorem le_of_not_refreshBefore {tip : Nat} {y x : CanonicalRow × Timestamp}
    (h : refreshBefore tip y x = false) (hx : x.1.height ≠ tip) : x.2 ≤ y.2 := by
  simp only [refreshBefore, Bool.or_eq_false_iff] at h
  obtain ⟨hy, hlater⟩ := h
  have hbelow : y.1.height ≠ tip := by simpa [hx] using hy
  simpa [hx, hbelow] using hlater

end Queue

section Aged

/-- The evidence of a row was last verified at a time or before it. -/
def isAged (db : Db) (since : Timestamp) (c : CanonicalRow) : Bool :=
  (db.auxpowLinks.find? (c.blockHash, c.witnessHash)).any fun a => a.verifiedAt ≤ since

/-- The selected rows from a height on whose evidence has aged. -/
def agedRows (db : Db) (networkId : Text) (floor : Nat) (since : Timestamp) :
    Finset CanonicalRow :=
  ((canonicalRows db networkId).filter fun c => floor ≤ c.height && isAged db since c).toFinset

theorem mem_agedRows : c ∈ agedRows db networkId floor since ↔
    c ∈ canonicalRows db networkId ∧ floor ≤ c.height ∧ isAged db since c = true := by
  simp [agedRows]

theorem isAged_iff : isAged db since c = true ↔
    ∃ a, db.auxpowLinks.find? (c.blockHash, c.witnessHash) = some a ∧ a.verifiedAt ≤ since := by
  simp [isAged, Option.any_eq_true]

/-- What a stored block leaves aged was so before it, and is not its own evidence. -/
theorem insertBlock_aged (h : insertBlock lib networkId indexed db = .ok db')
    (hafter : since < indexed.fetchedAt) (haged : isAged db' since c = true) :
    isAged db since c = true ∧ ((c.blockHash, c.witnessHash) =
      (indexed.block.hash, witnessHash lib indexed) → indexed.auxpow = none) := by
  cases haux : indexed.auxpow with
  | none =>
    rcases insertBlock_links h with ⟨-, heq⟩ | ⟨aux, _, hsome, -⟩
    · rw [isAged, heq] at haged
      exact ⟨haged, fun _ => rfl⟩
    · cases haux.symm.trans hsome
  | some aux =>
    by_cases hkey : (c.blockHash, c.witnessHash) = (indexed.block.hash, witnessHash lib indexed)
    · obtain ⟨a, ha, htime⟩ := insertBlock_own_link h haux
      obtain ⟨a', ha', hle⟩ := isAged_iff.mp haged
      rw [hkey, ha] at ha'
      cases ha'
      exact absurd hle (not_le.mpr (htime ▸ hafter))
    · rw [isAged, insertBlock_other_links h hkey] at haged
      exact ⟨haged, fun he => absurd he hkey⟩

theorem insertBlocks_aged {blocks : List IndexedBlock}
    (h : insertBlocks lib networkId blocks db = .ok db') (hafter : ∀ b ∈ blocks, since < b.fetchedAt)
    (haged : isAged db' since c = true) :
    isAged db since c = true ∧ ∀ b ∈ blocks, (c.blockHash, c.witnessHash) =
      (b.block.hash, witnessHash lib b) → b.auxpow = none := by
  induction blocks generalizing db with
  | nil =>
    cases h
    exact ⟨haged, by simp⟩
  | cons first rest ih =>
    obtain ⟨db₁, hfirst, hrest⟩ := insertBlocks_cons h
    obtain ⟨hmid, hothers⟩ := ih hrest fun b hb => hafter b (List.mem_cons_of_mem _ hb)
    obtain ⟨hbefore, hown⟩ := insertBlock_aged hfirst (hafter first List.mem_cons_self) hmid
    refine ⟨hbefore, fun b hb => ?_⟩
    rcases List.mem_cons.mp hb with rfl | hb
    · exact hown
    · exact hothers b hb

/-- Below the tip, the row that the queue yields has waited as long as one that is due with it. -/
theorem candidate_aged {tip : CanonicalRow} {due : Timestamp}
    (h : evidenceRefreshCandidate queue networkId depth w = .ok (some (x.height, x.blockHash)))
    (htip : tipRow queue networkId = some tip) (hx : x ∈ canonicalRows queue networkId)
    (hbelow : x.height ≠ tip.height) (hr : (r, due) ∈ staleEvidence queue networkId depth w.now)
    (hdue : due ≤ since) : max 1 (tip.height - depth) ≤ x.height ∧ isAged queue since x = true := by
  obtain ⟨y, hy, hheight, hfirst⟩ := evidenceRefreshCandidate_first h
  obtain ⟨hyrow, hwithin, -, b, hb, htime⟩ := mem_staleEvidence.mp hy
  obtain rfl : y.1 = x := List.inj_on_of_nodup_map canonicalRows_nodup hyrow hx hheight
  rw [htip, Option.map_some, Option.getD_some] at hwithin hfirst
  have hwaited : y.2 ≤ due := le_of_not_refreshBefore (hfirst _ hr) hbelow
  exact ⟨hwithin, isAged_iff.mpr ⟨b, hb, htime.trans_le (hwaited.trans hdue)⟩⟩

end Aged

section Rounds

/-- Every block that was stored had been fetched after a time. -/
def StoresAfter (since : Timestamp) (tr : Trace) : Prop :=
  ∀ w t r, .done w t r ∈ tr → ∀ b ∈ t.blocks, since < b.fetchedAt

/-- The process read its clock at later times only. -/
def ClockAfter (since : Timestamp) (tr : Trace) : Prop :=
  ∀ now, asked .utcNow now ∈ tr → since < now

/-- Rounds that read their clock at later times only. -/
def clockAfter (lib : AuxPowCrate) (since : Timestamp) : PassProperty lib :=
  fun _ _ tr => ClockAfter since tr

/-- Rounds that store blocks fetched after a time. -/
def storesAfter (lib : AuxPowCrate) (since : Timestamp) : PassProperty lib :=
  fun _ _ tr => StoresAfter since tr

/-- Rounds that store vetted blocks fetched after a time. -/
def vettedAfter (lib : AuxPowCrate) (since : Timestamp) : PassProperty lib :=
  fun indexer _ tr => StoresAfter since tr ∧
    ∀ w t r, .done w t r ∈ tr → storesVetted indexer.auxpow t

/-- A block that is stored was fetched when the clock was read. -/
theorem ClockAfter.stored {rest : Action Unit} (h : ClockAfter since tr)
    (run : Run (exec lib) (indexer.tick, db) tr (rest, db')) : StoresAfter since tr := by
  intro w t r hdone b hb
  exact h _ (tick_vouched run hdone b hb).clocked

theorem History.storedAfter (h : History lib networkId (clockAfter lib since) db db') :
    History lib networkId (storesAfter lib since) db db' := by
  induction h with
  | refl => exact .refl _
  | pass _ network run holds ih => exact .pass ih network run (ClockAfter.stored holds run)

theorem History.vettedAfter (h : History lib networkId (storesAfter lib since) db db') :
    History lib networkId (vettedAfter lib since) db db' := by
  induction h with
  | refl => exact .refl _
  | pass _ network run holds ih => exact .pass ih network run ⟨holds, (tick_yields.run run).2⟩

/-- A selected row above genesis does not come to be aged. -/
theorem History.agedRows_subset (h : History lib networkId (storesAfter lib since) db db')
    (hc : ChainInvariant networkId db) (floor : Nat) (hfloor : 1 ≤ floor) :
    ChainInvariant networkId db' ∧
      agedRows db' networkId floor since ⊆ agedRows db networkId floor since := by
  refine h.vettedAfter.invariant
    (I := fun d => agedRows d networkId floor since ⊆ agedRows db networkId floor since) ?_ hc
    fun _ hr => hr
  intro indexer start full pre w t r d d' opening xs ys hn hP _ hpre _ hx hy hstep hexec hd c hmem
  refine hd (mem_agedRows.mpr ?_)
  obtain ⟨hselected, hheight, haged⟩ := mem_agedRows.mp hmem
  have hevent : .done w t (.ok r) ∈ full := hpre.subset (by simp)
  obtain ⟨d₁, hins, hd'⟩ := exec_insertBlocks hexec
  have hlinks : d'.auxpowLinks = d₁.auxpowLinks := by rw [hd']
  rw [isAged, hlinks] at haged
  obtain ⟨hbefore, hunproved⟩ := insertBlocks_aged hins (hP.1 w t _ hevent) haged
  have hnew : ∀ b ∈ t.blocks, c ≠ canonicalRow lib networkId b := by
    rintro b hb rfl
    have hnone : b.auxpow = none := hunproved b hb rfl
    have hvetted : Vetted lib indexer.auxpow b := hP.2 w t _ hevent b hb
    rw [Vetted, hnone] at hvetted
    have hzero : b.block.height = 0 := localEvidence_none hvetted
    have hrow : (canonicalRow lib networkId b).height = b.block.height := rfl
    omega
  refine ⟨hx.mem_canonicalRows.mpr ?_, hheight, hbefore⟩
  have hys := hy.mem_canonicalRows.mp hselected
  cases hstep with
  | unchanged _ => exact hys
  | append call _ =>
    subst call
    rcases List.mem_append.mp hys with h | h
    · exact h
    · exact absurd (List.mem_singleton.mp h) (hnew _ List.mem_cons_self)
  | replace call _ _ =>
    subst call
    rcases List.mem_append.mp hys with h | h
    · exact List.mem_of_mem_take h
    · obtain ⟨b, hb, rfl⟩ := List.mem_map.mp h
      exact absurd rfl (hnew b hb)

end Rounds

section Pass

theorem refreshEvidence_run {u : Unit}
    (run : Run (exec lib) (indexer.refreshEvidence, queue) tr (.ret u, db')) :
    ∃ w found, done w (.evidenceRefreshCandidate indexer.network.id indexer.evidenceRefreshDepth)
        (.ok found) ∈ tr ∧
      evidenceRefreshCandidate queue indexer.network.id indexer.evidenceRefreshDepth w = .ok found ∧
      (db' = queue ∨ ∃ w' indexed,
        done w' (.refreshBlockEvidence indexer.network.id indexed) (.ok ()) ∈ tr ∧
        insertBlock lib indexer.network.id indexed queue = .ok db') := by
  have hstays {α : Type} {P : RpcCall → Prop} {p : Action α} {a : α} {seg : Trace} {d d' : Db}
      (hp : p.AsksOnly P) (h : Run (exec lib) (p, d) seg (.ret a, d')) : d' = d :=
    Run.invariant (P := fun _ => False) (I := fun s => s = d) hp.issues
      (fun _ _ _ _ _ h => h.elim) h rfl
  obtain ⟨found, tr₁, tr₂, _, rfl, read, rest⟩ := Run.of_bind run
  obtain ⟨w, rfl, hread⟩ := read.of_txn
  obtain ⟨hfound, rfl⟩ := reading_ok.mp hread
  refine ⟨w, found, by simp, hfound, ?_⟩
  cases found with
  | none => exact .inl (Run.of_ret rest).2.2
  | some due =>
    obtain ⟨previous, _, _, _, rfl, before, rest'⟩ := Run.of_bind rest
    obtain rfl := hstays (servedPredecessor_asksOnly due.1) before
    obtain ⟨indexed, _, _, _, rfl, fetch, write⟩ := Run.of_bind rest'
    obtain rfl := hstays (fetchIndexedBlock_asksOnly indexer due.1 previous) fetch
    obtain ⟨w', rfl, hwrite⟩ := write.of_txn
    exact .inr ⟨w', indexed, by simp, writing_ok.mp hwrite⟩

/-- A pass that ends well is a round up to its queue, at most one stored refresh, and its record. -/
theorem syncOnce_queue (run : Run (exec lib) (indexer.syncOnce, db) tr (.ret outcome, db')) :
    ∃ before rest queue w found, before <+: tr ∧
      Run (exec lib) (indexer.tick, db) before (rest, queue) ∧
      done w (.evidenceRefreshCandidate indexer.network.id indexer.evidenceRefreshDepth)
        (.ok found) ∈ tr ∧
      evidenceRefreshCandidate queue indexer.network.id indexer.evidenceRefreshDepth w = .ok found ∧
      ∃ db₁, StatusOnly db₁ db' ∧ (db₁ = queue ∨ ∃ w' indexed,
        done w' (.refreshBlockEvidence indexer.network.id indexed) (.ok ()) ∈ tr ∧
        insertBlock lib indexer.network.id indexed queue = .ok db₁) := by
  obtain ⟨info, tr₁, _, _, rfl, run₁, rest₁⟩ := Run.of_bind run
  obtain ⟨hash, tr₂, _, _, rfl, run₂, rest₂⟩ := Run.of_bind rest₁
  obtain ⟨_, tr₃, _, _, rfl, run₃, rest₃⟩ := Run.of_bind rest₂
  obtain ⟨tip, tr₄, _, _, rfl, run₄, rest₄⟩ := Run.of_bind rest₃
  obtain ⟨_, tr₅, _, _, rfl, run₅, rest₅⟩ := Run.of_bind rest₄
  obtain ⟨counts, tr₆, _, queue, rfl, run₆, rest₆⟩ := Run.of_bind rest₅
  obtain ⟨_, tr₇, tr₈, db₁, rfl, refresh, rest₇⟩ := Run.of_bind rest₆
  have hstart : tr₁ ++ (tr₂ ++ (tr₃ ++ (tr₄ ++ (tr₅ ++ (tr₆ ++ []))))) <+:
      tr₁ ++ (tr₂ ++ (tr₃ ++ (tr₄ ++ (tr₅ ++ (tr₆ ++ (tr₇ ++ tr₈)))))) := ⟨tr₇ ++ tr₈, by simp⟩
  have before : Run (exec lib) (indexer.syncOnce, db)
      (tr₁ ++ (tr₂ ++ (tr₃ ++ (tr₄ ++ (tr₅ ++ (tr₆ ++ []))))))
      (indexer.refreshEvidence >>= fun _ => indexer.finish info hash counts.1 counts.2, queue) := by
    refine run₁.andThen ?_
    refine run₂.andThen ?_
    refine run₃.andThen ?_
    refine run₄.andThen ?_
    refine run₅.andThen ?_
    exact run₆.andThen (.refl _)
  obtain ⟨w, found, hread, hfound, hstored⟩ := refreshEvidence_run refresh
  obtain ⟨_, _, _, _, rfl, read, rest₈⟩ := Run.of_bind rest₇
  obtain ⟨_, _, _, _, rfl, write, rest₉⟩ := Run.of_bind rest₈
  obtain ⟨_, rfl, hlast⟩ := read.of_txn
  obtain ⟨-, rfl⟩ := reading_ok.mp hlast
  obtain ⟨_, rfl, hwrite⟩ := write.of_txn
  obtain ⟨rfl, -, rfl⟩ := rest₉.of_ret
  refine ⟨_, _, queue, w, found, hstart, (before.bind _).handle _, by simp [hread],
    hfound, _, updateNodeTip_ok (writing_ok.mp hwrite), hstored.imp id ?_⟩
  rintro ⟨w', indexed, hdone, hins⟩
  exact ⟨w', indexed, by simp [hdone], hins⟩

/-- After the queue was read, a pass keeps the selection, and no evidence comes to be aged. -/
theorem queue_aged (hstatus : StatusOnly db₁ db') (hafter : StoresAfter since tr)
    (hstored : db₁ = queue ∨ ∃ w' indexed,
      done w' (.refreshBlockEvidence networkId indexed) (.ok ()) ∈ tr ∧
      insertBlock lib networkId indexed queue = .ok db₁) :
    db'.canonicalChain = queue.canonicalChain ∧
      ∀ c, isAged db' since c = true → isAged queue since c = true := by
  obtain ⟨_, _, _, -, rfl⟩ := hstatus
  rcases hstored with rfl | ⟨w₁, indexed, hdone, hins⟩
  · exact ⟨rfl, fun _ hc => hc⟩
  · have hfresh : since < indexed.fetchedAt := hafter _ _ _ hdone indexed List.mem_cons_self
    exact ⟨(insertBlock_inserts hins).canonicalChain, fun _ hc =>
      (insertBlock_aged hins hfresh hc).1⟩

/-- The queue is read once in a pass that ends well. -/
theorem Completed.candidate_unique {opening : List CanonicalRow} {ev ev' : Event explorer World}
    (h : Completed indexer opening tr db') (hev : ev ∈ tr) (hread : isCandidateRead ev = true)
    (hev' : ev' ∈ tr) (hread' : isCandidateRead ev' = true) : ev = ev' := by
  obtain ⟨front, w, found, rest, last, -, -, -, rfl, -, -, -, -, hfront, hrest, hlast⟩ := h.refreshed
  have honly : ∀ ev ∈ front ++ done w (.evidenceRefreshCandidate indexer.network.id
      indexer.evidenceRefreshDepth) (.ok found) :: rest ++ last, isCandidateRead ev = true →
      ev = done w (.evidenceRefreshCandidate indexer.network.id indexer.evidenceRefreshDepth)
        (.ok found) := by
    intro ev hev hread
    simp only [List.append_assoc, List.cons_append, List.mem_append, List.mem_cons] at hev
    rcases hev with hev | rfl | hev | hev
    · exact absurd hread (Bool.eq_false_iff.mp (hfront _ hev))
    · rfl
    · exact absurd hread (Bool.eq_false_iff.mp (hrest _ hev))
    · exact absurd hread (Bool.eq_false_iff.mp (hlast _ hev))
  exact (honly ev hev hread).trans (honly ev' hev' hread').symm

end Pass

section Waiting

/-- A pass has renewed the evidence of a row below the tip and left another one due. -/
structure Overtakes (networkId : Text) (depth : Nat) (r : CanonicalRow) (since : Timestamp)
    (tr : Trace) (db' : Db) (w : World) (x : CanonicalRow) : Prop where
  yielded : done w (.evidenceRefreshCandidate networkId depth)
    (.ok (some (x.height, x.blockHash))) ∈ tr
  selected : x ∈ canonicalRows db' networkId
  below : ∀ tip ∈ canonicalTip db' networkId, x.height ≠ tip.height
  renewed : isAged db' since x = false
  waits : (r, since) ∈ staleEvidence db' networkId depth w.now

/-- The row that overtakes had waited as long, and is not among the aged rows any more. -/
theorem Overtakes.agedRows_ssubset (hc : ChainInvariant networkId db)
    (hn : indexer.network.id = networkId) (hdepth : indexer.evidenceRefreshDepth = depth)
    (run : Run (exec lib) (indexer.syncOnce, db) tr (.ret outcome, db'))
    (hafter : StoresAfter since tr) (h : Overtakes networkId depth r since tr db' w x)
    (hlowest : ∀ tip ∈ canonicalTip db' networkId, lowest ≤ tip.height) :
    ChainInvariant networkId db' ∧ r ∈ agedRows db' networkId (max 1 (lowest - depth)) since ∧
      agedRows db' networkId (max 1 (lowest - depth)) since ⊂
        agedRows db networkId (max 1 (lowest - depth)) since := by
  subst hn hdepth
  obtain ⟨before, rest, queue, w', found, hstart, hround, hread, hfound, db₁, hstatus, hstored⟩ :=
    syncOnce_queue run
  obtain ⟨⟨xs, hx⟩, hinit⟩ := hc
  have hcompleted : Completed indexer xs tr db' :=
    (syncOnce_justified hx hinit).run (fun ev _ => by cases ev <;> exact trivial) run outcome rfl
  cases hcompleted.candidate_unique h.yielded rfl hread rfl
  have hhistory : History lib indexer.network.id (storesAfter lib since) db queue :=
    .pass (.refl db) rfl hround fun w t r hev => hafter w t r (hstart.subset hev)
  obtain ⟨hqueue, hsubset⟩ := hhistory.agedRows_subset ⟨⟨xs, hx⟩, hinit⟩
    (max 1 (lowest - indexer.evidenceRefreshDepth)) (le_max_left _ _)
  have hkept := queue_aged hstatus hafter hstored
  have hrows : canonicalRows db' indexer.network.id = canonicalRows queue indexer.network.id := by
    rw [canonicalRows, canonicalRows, hkept.1]
  have htips : tipRow db' indexer.network.id = tipRow queue indexer.network.id := by
    rw [tipRow, tipRow, hrows]
  obtain ⟨tip, htip⟩ : ∃ tip, tipRow queue indexer.network.id = some tip := by
    refine Option.ne_none_iff_exists'.mp fun hnone => ?_
    have hempty : canonicalRows queue indexer.network.id = [] := List.argmax_eq_none.mp hnone
    have hselected := hrows ▸ h.selected
    simp [hempty] at hselected
  have hcanonical : tip.tip ∈ canonicalTip db' indexer.network.id := by
    rw [canonicalTip, htips, htip]
    rfl
  have hbelow : x.height ≠ tip.height := h.below _ hcanonical
  have hlow : lowest ≤ tip.height := hlowest _ hcanonical
  -- The row that waits was due when the queue was read.
  obtain ⟨hr, hwithin, hold, a, ha, htime⟩ := mem_staleEvidence.mp h.waits
  rw [htips, htip, Option.map_some, Option.getD_some] at hwithin
  have hraged : isAged db' since r = true := isAged_iff.mpr ⟨a, ha, htime.le⟩
  obtain ⟨a', ha', hle⟩ := isAged_iff.mp (hkept.2 r hraged)
  have hdue : (r, a'.verifiedAt) ∈ staleEvidence queue indexer.network.id
      indexer.evidenceRefreshDepth w.now := by
    refine mem_staleEvidence.mpr ⟨hrows ▸ hr, ?_, hle.trans_lt hold, a', ha', rfl⟩
    rw [htip, Option.map_some, Option.getD_some]
    exact hwithin
  -- So the one that was yielded had waited as long.
  have hselected : x ∈ canonicalRows queue indexer.network.id := hrows ▸ h.selected
  obtain ⟨hxwithin, hxaged⟩ := candidate_aged hfound htip hselected hbelow hdue hle
  have hwaited : x ∈ agedRows queue indexer.network.id
      (max 1 (lowest - indexer.evidenceRefreshDepth)) since :=
    mem_agedRows.mpr ⟨hselected, by omega, hxaged⟩
  have hround' : Run (exec lib) (indexer.tick, db) tr (_, db') := (run.bind _).handle _
  have hhistory' : History lib indexer.network.id (storesAfter lib since) db db' :=
    .pass (.refl db) rfl hround' hafter
  refine ⟨hhistory'.chainInvariant ⟨⟨xs, hx⟩, hinit⟩, mem_agedRows.mpr ⟨hr, by omega, hraged⟩, ?_⟩
  refine (Finset.ssubset_iff_of_subset fun c hc => ?_).mpr ⟨x, hsubset hwaited, fun hc => ?_⟩
  · obtain ⟨hrow, hfloor, hcaged⟩ := mem_agedRows.mp hc
    exact hsubset (mem_agedRows.mpr ⟨hrows ▸ hrow, hfloor, hkept.2 c hcaged⟩)
  · exact Bool.false_ne_true (h.renewed.symm.trans (mem_agedRows.mp hc).2.2)

/-- Rounds of a single writer that read its clock after a time only, and the number of passes among
them that overtook a row due since that time. -/
inductive Overtaken (lib : AuxPowCrate) (networkId : Text) (depth lowest : Nat) (r : CanonicalRow)
    (since : Timestamp) : Db → Nat → Db → Prop
  | refl (db : Db) : Overtaken lib networkId depth lowest r since db 0 db
  | rounds {db db₁ db₂ : Db} {n : Nat} (h : Overtaken lib networkId depth lowest r since db n db₁)
      (rounds : History lib networkId (clockAfter lib since) db₁ db₂) :
      Overtaken lib networkId depth lowest r since db n db₂
  | pass {db db₁ db₂ : Db} {n : Nat} {indexer : Indexer lib} {tr : Trace} {outcome : SyncOutcome}
      {w : World} {x : CanonicalRow} (h : Overtaken lib networkId depth lowest r since db n db₁)
      (network : indexer.network.id = networkId) (depth_eq : indexer.evidenceRefreshDepth = depth)
      (run : Run (exec lib) (indexer.syncOnce, db₁) tr (.ret outcome, db₂))
      (clock : ClockAfter since tr) (overtakes : Overtakes networkId depth r since tr db₂ w x)
      (tip : ∀ tip ∈ canonicalTip db₂ networkId, lowest ≤ tip.height) :
      Overtaken lib networkId depth lowest r since db (n + 1) db₂

theorem Overtaken.card_le (h : Overtaken lib networkId depth lowest r since db n db')
    (hc : ChainInvariant networkId db) :
    ChainInvariant networkId db' ∧
      (n = 0 ∨ n < (agedRows db networkId (max 1 (lowest - depth)) since).card) ∧
      n + (agedRows db' networkId (max 1 (lowest - depth)) since).card ≤
        (agedRows db networkId (max 1 (lowest - depth)) since).card := by
  induction h with
  | refl => exact ⟨hc, .inl rfl, by omega⟩
  | rounds _ rounds ih =>
    obtain ⟨hc₁, hpositive, hle⟩ := ih
    obtain ⟨hc₂, hsubset⟩ :=
      rounds.storedAfter.agedRows_subset hc₁ (max 1 (lowest - depth)) (le_max_left _ _)
    have hcard := Finset.card_le_card hsubset
    exact ⟨hc₂, hpositive, by omega⟩
  | pass _ network depth_eq run clock overtakes tip ih =>
    obtain ⟨hc₁, -, hle⟩ := ih
    have hafter := clock.stored ((run.bind _).handle _)
    obtain ⟨hc₂, hr, hssubset⟩ := overtakes.agedRows_ssubset hc₁ network depth_eq run hafter tip
    have hcard := Finset.card_lt_card hssubset
    have hpos := Finset.card_pos.mpr ⟨r, hr⟩
    exact ⟨hc₂, .inr (by omega), by omega⟩

theorem card_agedRows_le {start : ChainTip} (hc : ChainInvariant networkId db)
    (htip : canonicalTip db networkId = some start) (floor : Nat) (since : Timestamp) :
    (agedRows db networkId floor since).card ≤ start.height + 1 - floor := by
  obtain ⟨⟨xs, hx⟩, -⟩ := hc
  obtain ⟨l, hl, rfl⟩ := Option.map_eq_some_iff.mp (hx.canonicalTip_eq.symm.trans htip)
  have hlast := hx.last_height hl
  have hheights : (agedRows db networkId floor since).card ≤ (Finset.Icc floor l.height).card := by
    refine Finset.card_le_card_of_injOn CanonicalRow.height ?_ ?_
    · intro c hc
      obtain ⟨hrow, hfloor, -⟩ := mem_agedRows.mp hc
      obtain ⟨h, hh⟩ := List.mem_iff_getElem?.mp (hx.mem_canonicalRows.mp hrow)
      obtain ⟨hlt, -⟩ := List.getElem?_eq_some_iff.mp hh
      have hheight := (hx.key_eq hh).2
      exact Finset.mem_coe.mpr (Finset.mem_Icc.mpr ⟨hfloor, by omega⟩)
    · intro c hc d hd hheight
      exact List.inj_on_of_nodup_map canonicalRows_nodup (mem_agedRows.mp hc).1
        (mem_agedRows.mp hd).1 hheight
  rw [Nat.card_Icc] at hheights
  exact hheights

/-- While a record is left due and the clock reads after its last verification, the passes that
renew another one below the tip are at most as many as the refresh depth and the heights that the
chain rolls back below its tip at the start: each of them renews a record that had waited as
long. -/
theorem refresh_overtaken_boundedly {start : ChainTip} {rollback : Nat}
    (hreach : Reachable lib networkId db) (htip : canonicalTip db networkId = some start)
    (h : Overtaken lib networkId depth (start.height - rollback) r since db n db') :
    n ≤ depth + rollback := by
  obtain ⟨-, hpositive, -⟩ := h.card_le hreach.chainInvariant
  have hcard := card_agedRows_le hreach.chainInvariant htip
    (max 1 (start.height - rollback - depth)) since
  omega

theorem clockAfter_of_all (h : (tr.all fun ev => match ev with
    | .asked .utcNow (now : Timestamp) => since < now
    | _ => true) = true) : ClockAfter since tr := by
  intro (now : Timestamp) hev
  have hread : decide (since < now) = true := List.all_eq_true.mp h _ hev
  exact of_decide_eq_true hread

/-- Blocks `1` and `2` are due when the pass commits block `3`: it renews the first of them. -/
theorem refresh_overtaken_boundedly_once : ∃ r db',
    Overtaken sampleCrate sampleNetwork 10 (2 - 0) r 0 (sampleDb [['1', '2']]) 1 db' ∧
      1 ≤ 10 + 0 := by
  obtain ⟨outcome, w, hnow, run, hcandidate⟩ := pass_with_candidate
    (laterNode (sampleChain ['1', '2', '3'])) (sampleDb [['1', '2']]) 1 (sampleHash '1')
    (60 * microsPerSecond) (by decide +kernel) (by decide +kernel)
  have hclock : ClockAfter 0
      ((sampleIndexer 10).pass (laterNode (sampleChain ['1', '2', '3'])) (sampleDb [['1', '2']])).1 :=
    clockAfter_of_all (by decide +kernel)
  have hend : let db' := ((sampleIndexer 10).pass (laterNode (sampleChain ['1', '2', '3']))
        (sampleDb [['1', '2']])).2.2
      (canonicalTip db' sampleNetwork).map (fun tip => tip.height) = some 3 ∧
      ((canonicalRows db' sampleNetwork).any fun x =>
        x.height = 1 && x.blockHash = sampleHash '1' && !isAged db' 0 x) = true ∧
      ((staleEvidence db' sampleNetwork 10 (60 * microsPerSecond)).any fun p => p.2 = 0) = true := by
    decide +kernel
  revert run hclock hend
  generalize ((sampleIndexer 10).pass (laterNode (sampleChain ['1', '2', '3']))
    (sampleDb [['1', '2']])).2.2 = db'
  intro run hclock ⟨htip, hrenewed, hwaits⟩
  obtain ⟨x, hx, hname⟩ := List.any_eq_true.mp hrenewed
  simp only [Bool.and_eq_true, decide_eq_true_eq, Bool.not_eq_true'] at hname
  obtain ⟨⟨hheight, hhash⟩, hrenewed⟩ := hname
  obtain ⟨⟨r, since⟩, hr, hsince⟩ := List.any_eq_true.mp hwaits
  obtain rfl : since = 0 := of_decide_eq_true hsince
  have hthree : ∀ tip ∈ canonicalTip db' sampleNetwork, tip.height = 3 := by
    intro tip hmem
    rw [hmem] at htip
    exact Option.some.inj htip
  have hovertakes : Overtakes sampleNetwork 10 r 0 _ db' w x :=
    { yielded := by
        rw [hheight, hhash]
        exact hcandidate
      selected := hx
      below := fun tip hmem => by
        rw [hthree tip hmem, hheight]
        decide
      renewed := hrenewed
      waits := hnow ▸ hr }
  have hstart : (canonicalTip (sampleDb [['1', '2']]) sampleNetwork).map (fun tip => tip.height) =
      some 2 := by decide +kernel
  obtain ⟨start, hstart, hheight₂⟩ := Option.map_eq_some_iff.mp hstart
  have hrun : Overtaken sampleCrate sampleNetwork 10 (start.height - 0) r 0
      (sampleDb [['1', '2']]) 1 db' :=
    .pass (.refl _) rfl rfl run hclock hovertakes fun tip hmem => by
      rw [hthree tip hmem, hheight₂]
      decide
  have hbound := refresh_overtaken_boundedly (sampleDb_reachable [['1', '2']]) hstart hrun
  rw [hheight₂] at hrun
  exact ⟨r, db', hrun, hbound⟩

end Waiting

end WcashExplorer
