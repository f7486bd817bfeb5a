import WcashExplorer.Indexer.Search

/-! What each transaction of a pass is entitled to when it is issued. -/
namespace WcashExplorer

open Effects

variable {lib : AuxPowCrate} {self : Indexer lib} {tr seg : Trace} {db db' : Db}
  {xs : List CanonicalRow}

/-- The node snapshot a pass observed first: its tip height and the hash it gave for it. -/
def snapshotOf : Trace → Option (Nat × Text)
  | .asked .blockchainInfo (.ok info) :: .asked (.blockHash _) (.ok hash) :: _ =>
      some (info.blocks, hash)
  | _ => none

theorem snapshotOf_append {snapshot : Nat × Text} (h : snapshotOf tr = some snapshot) :
    snapshotOf (tr ++ seg) = some snapshot := by
  unfold snapshotOf at h
  split at h
  · exact h
  · cases h

/-- A read of a selected hash, or the observation that opens the pass. -/
def isSearchMark : Event explorer World → Bool
  | .done _ (.canonicalHash _ _) _ => true
  | .done _ (.observeNodeTip _ _ _) _ => true
  | _ => false

def isCandidateRead : Event explorer World → Bool
  | .done _ (.evidenceRefreshCandidate _ _) _ => true
  | _ => false

/-- What happened after the last comparison with the selected chain and before the refresh
queue was read: the stretch in which the final tip is settled. -/
def settlingEvents (tr : Trace) : Trace :=
  (tr.takeWhile fun ev => !isCandidateRead ev).reverse.takeWhile fun ev => !isSearchMark ev

theorem settlingEvents_eq {front rest : Trace} {mark candidate : Event explorer World}
    (hfront : ∀ ev ∈ front ++ mark :: seg, isCandidateRead ev = false)
    (hmark : isSearchMark mark = true) (hseg : ∀ ev ∈ seg, isSearchMark ev = false)
    (hcandidate : isCandidateRead candidate = true) :
    settlingEvents (front ++ mark :: seg ++ candidate :: rest) = seg.reverse := by
  have htake : (front ++ mark :: seg ++ candidate :: rest).takeWhile
      (fun ev => !isCandidateRead ev) = front ++ mark :: seg := by
    rw [List.takeWhile_append_of_pos (by simpa using hfront)]
    simp [hcandidate]
  rw [settlingEvents, htake, List.reverse_append, List.reverse_cons, List.append_assoc,
    List.takeWhile_append_of_pos (by simpa using hseg)]
  simp [hmark]

/-- While its final tip was being settled, the node never answered for the snapshot's height
with another hash than the snapshot's. -/
def SnapshotStable (tr : Trace) : Prop :=
  ∀ n hash, snapshotOf tr = some (n, hash) →
    ∀ r, asked (.blockHash n) r ∈ settlingEvents tr → r = .ok hash

/-- The chain tip a row stands for. -/
def CanonicalRow.tip (r : CanonicalRow) : ChainTip where
  height := r.height
  blockHash := r.blockHash
  witnessHash := r.witnessHash

/-- The chain a pass opened on is empty, or the node confirmed its tip. -/
def Continues (opening : List CanonicalRow) (tr : Trace) : Prop :=
  ∀ l ∈ opening.getLast?, asked (.blockHash l.height) (.ok l.blockHash) ∈ tr

/-- A replacement is issued over the tip of the chain the pass opened on, for an ancestor on it
that the search has found. -/
structure Replaces (indexer : Indexer lib) (opening : List CanonicalRow) (tr : Trace) (db : Db)
    (oldTip : ChainTip) (ancestor : Option (Nat × Text)) : Prop where
  selected : Selected indexer.network.id db opening
  found : ∃ t n tipHash a hash, opening.getLast? = some t ∧ oldTip = t.tip ∧
    snapshotOf tr = some (n, tipHash) ∧ ancestor = some (a, hash) ∧ a ≤ min t.height n ∧
    min t.height n - a ≤ indexer.maxReorgDepth ∧
    storedHash indexer.network.id db a = some hash ∧
    Verdict indexer.network.id db tr a (min t.height n)

/-- A pass is finished at the height of its snapshot, on the snapshot's hash exactly if the
snapshot was stable, whatever happens later. -/
structure Finishes (networkId : Text) (tr : Trace) (db : Db) (nodeHeight : Nat) (nodeHash : Text)
    (status : ChainStatus) : Prop where
  snapshot : snapshotOf tr = some (nodeHeight, nodeHash)
  ready : status = .ready
  settled : ∃ xs l, Selected networkId db xs ∧ xs.getLast? = some l ∧ l.height = nodeHeight ∧
    ∀ rest, l.blockHash = nodeHash ↔ SnapshotStable (tr ++ rest)

/-- The node tip recorded in the network's row of `chain_state`. -/
def recordedNodeTip (networkId : Text) (db : Db) : Option (Option Nat × Option Text) :=
  (db.chainState.find? networkId).map fun c => (c.nodeHeight, c.nodeHash)

/-- What holds of the history and the store whenever a pass issues a transaction. -/
def Justified (indexer : Indexer lib) (opening : List CanonicalRow) (tr : Trace) (db : Db) :
    DbCall → Prop
  | .canonicalTip n => n = indexer.network.id
  | .canonicalHash n _ => n = indexer.network.id
  | .evidenceRefreshCandidate n _ => n = indexer.network.id
  | .commitBlock n indexed =>
      n = indexer.network.id ∧ Extends n db indexed ∧ Continues opening tr
  | .refreshBlockEvidence n _ => n = indexer.network.id
  | .replaceCanonicalBranch n oldTip ancestor _ =>
      n = indexer.network.id ∧ Replaces indexer opening tr db oldTip ancestor
  | .observeNodeTip n _ _ => n = indexer.network.id
  | .updateNodeTip n nodeHeight nodeHash status _ =>
      n = indexer.network.id ∧ Finishes n tr db nodeHeight nodeHash status
  | .markIndexerError n _ => n = indexer.network.id

/-- The contract of a pass: any answers at all, and every transaction justified. -/
def passContract (indexer : Indexer lib) (opening : List CanonicalRow) :
    Contract explorer Db World where
  exec := exec lib
  allow := fun _ _ => True
  check := Justified indexer opening

/-- What advancing adds to the history once its search is over. -/
def IsSettlingEvent : Event explorer World → Prop
  | .asked _ _ => True
  | .done _ (.commitBlock _ _) _ => True
  | .done _ (.replaceCanonicalBranch _ _ _ _) _ => True
  | .done _ (.canonicalTip _) _ => True
  | .done _ _ _ => False

theorem IsSettlingEvent.quiet {ev : Event explorer World} (h : IsSettlingEvent ev) :
    isSearchMark ev = false ∧ isCandidateRead ev = false := by
  cases ev with
  | asked q a => exact ⟨rfl, rfl⟩
  | done w t r => cases t <;> first | exact ⟨rfl, rfl⟩ | exact h.elim

theorem IsFetchEvent.settling {ev : Event explorer World} (h : IsFetchEvent ev) :
    IsSettlingEvent ev := by
  cases ev with
  | asked q a => exact trivial
  | done w t r => cases t <;> first | exact trivial | exact h.elim

theorem IsSearchEvent.not_candidate {ev : Event explorer World} (h : IsSearchEvent ev) :
    isCandidateRead ev = false := by
  cases ev with
  | asked q a => rfl
  | done w t r => cases t <;> first | rfl | exact h.elim

/-- In this stretch the node named the tip's hash for its height, and nothing else but that
and the snapshot's hash. -/
def SettledOn (seg : Trace) (height : Nat) (hash tipHash : Text) : Prop :=
  asked (.blockHash height) (.ok hash) ∈ seg ∧
    ∀ r, asked (.blockHash height) r ∈ seg → r = .ok hash ∨ r = .ok tipHash

theorem ServedAt.settledOn {height : Nat} {hash tipHash : Text} (h : ServedAt seg height hash) :
    SettledOn seg height hash tipHash :=
  ⟨h.1, fun r hr => .inl (h.2 r hr)⟩

/-- Settled on a hash, the node was stable exactly if that hash is the snapshot's. -/
theorem SettledOn.stable_iff {height : Nat} {hash tipHash : Text}
    (h : SettledOn seg height hash tipHash) :
    (∀ r, asked (.blockHash height) r ∈ seg → r = .ok tipHash) ↔ hash = tipHash := by
  constructor
  · intro hall
    exact Except.ok.inj (hall _ h.1)
  · rintro rfl r hr
    simpa using h.2 r hr

/-- How a pass got from the chain it opened on to the node's tip: by appending to it, or by a
replacement it was entitled to. -/
def Moved (indexer : Indexer lib) (opening : List CanonicalRow) (tr : Trace) : Prop :=
  Continues opening tr ∨ ∃ db oldTip ancestor, Replaces indexer opening tr db oldTip ancestor

theorem Continues.append_right {opening : List CanonicalRow} (h : Continues opening tr) :
    Continues opening (tr ++ seg) := fun l hl => List.mem_append_left _ (h l hl)

theorem Replaces.append_right {opening : List CanonicalRow} {oldTip : ChainTip}
    {ancestor : Option (Nat × Text)} (h : Replaces self opening tr db oldTip ancestor) :
    Replaces self opening (tr ++ seg) db oldTip ancestor := by
  obtain ⟨hx, t, n, tipHash, a, hash, ht, htip, hsnap, ha, hle, hbound, hselected, hverdict⟩ := h
  exact ⟨hx, t, n, tipHash, a, hash, ht, htip, snapshotOf_append hsnap, ha, hle, hbound, hselected,
    hverdict.append_right⟩

theorem Moved.append_right {opening : List CanonicalRow} (h : Moved self opening tr) :
    Moved self opening (tr ++ seg) := by
  rcases h with h | ⟨db, oldTip, ancestor, h⟩
  · exact .inl h.append_right
  · exact .inr ⟨db, oldTip, ancestor, h.append_right⟩

/-- What advancing from the history `tr` has established. -/
structure Advanced (indexer : Indexer lib) (opening : List CanonicalRow) (n : Nat) (tipHash : Text)
    (tr tr' : Trace) (db' : Db) : Prop where
  initialized : Initialized indexer.network.id db'
  moved : Moved indexer opening tr'
  settled : ∃ xs l search seg, Selected indexer.network.id db' xs ∧ xs.getLast? = some l ∧
    l.height = n ∧ tr' = tr ++ search ++ seg ∧ (∀ ev ∈ search, IsSearchEvent ev) ∧
    (∀ mark ∈ search.getLast?, isSearchMark mark = true) ∧ (∀ ev ∈ seg, IsSettlingEvent ev) ∧
    SettledOn seg n l.blockHash tipHash

theorem Selected.canonicalTip_eq {networkId : Text} (hx : Selected networkId db xs) :
    canonicalTip db networkId = xs.getLast?.map CanonicalRow.tip := by
  rw [canonicalTip, hx.tipRow_eq]
  rfl

theorem canonicalTip_onOk {opening : List CanonicalRow} (hx : Selected self.network.id db xs) :
    (Database.canonicalTip self.network.id).Ensures (passContract self opening)
      (Prog.onOk fun tr' tip db' => db' = db ∧ tip = xs.getLast?.map CanonicalRow.tip ∧
        ∃ w r, tr' = tr ++ [done w (.canonicalTip self.network.id) r]) tr db := by
  refine (issue_onOk rfl).mono ?_
  rintro tr' o db' h tip rfl
  obtain ⟨w, hexecuted, rfl⟩ := h tip rfl
  obtain ⟨hread, rfl⟩ := reading_ok.mp hexecuted
  cases hread
  exact ⟨rfl, hx.canonicalTip_eq, _, _, rfl⟩

section Advance

variable {info : BlockchainInfo} {tipHash : Text} {storedTip : ChainTip} {l : CanonicalRow}

theorem confirmSnapshot_onOk {C : Contract explorer Db World} {n a : Nat} {hash : Text} :
    (Indexer.confirmSnapshot n tipHash (some (a, hash))).Ensures C
      (Prog.onOk fun tr' _ db' => db' = db ∧ tr' = tr ++ [asked (.blockHash n) (.ok tipHash),
        asked (.blockHash a) (.ok hash)]) tr db := by
  refine Prog.Ensures.bind_onOk blockHash_onOk ?_
  rintro _ h₁ _ ⟨rfl, rfl⟩
  refine Prog.Ensures.ofExcept_bind_onOk fun _ htip => ?_
  refine Prog.Ensures.bind_onOk blockHash_onOk ?_
  rintro _ h₂ _ ⟨rfl, rfl⟩
  refine Prog.Ensures.ofExcept_onOk fun _ hancestor => ?_
  simp only [ensure_eq_ok, decide_eq_true_eq] at htip hancestor
  subst htip hancestor
  exact ⟨rfl, List.append_assoc _ _ _⟩

theorem replaceCanonicalBranch_exec {networkId : Text} {oldTip : ChainTip}
    {ancestor : Option (Nat × Text)} {blocks : List IndexedBlock} {w : World} {u : Unit}
    (h : exec lib w (.replaceCanonicalBranch networkId oldTip ancestor blocks) db = .ok (u, db')) :
    replaceCanonicalBranch lib networkId oldTip ancestor blocks w.now db = .ok db' :=
  writing_ok.mp h

/-- The height above a selected chain's tip is the chain's length. -/
theorem Selected.nextHeight_eq {networkId : Text} (hx : Selected networkId db xs) :
    Indexer.nextHeight ((xs.getLast?.map CanonicalRow.tip).map fun tip => tip.height) =
      xs.length := by
  cases hl : xs.getLast? with
  | none =>
    obtain rfl := List.getLast?_eq_none_iff.mp hl
    rfl
  | some l =>
    have hle := hx.bounded l (List.mem_of_getLast? hl)
    have hlast := hx.last_height hl
    simp only [Option.map_some, Indexer.nextHeight, CanonicalRow.tip]
    rw [saturatingAdd_one hle, hlast]

/-- Appending up to the snapshot's height settles the tip there. -/
theorem append_onOk {tr₁ : Trace} (htr : tr₁ = tr ++ seg) (hx : Selected self.network.id db xs)
    (hcontinues : Continues xs tr₁)
    (hinit : Initialized self.network.id db) (hbound : xs.length ≤ info.blocks + 1)
    (hseg : ∀ ev ∈ seg, IsSettlingEvent ev)
    (hlast : ∀ r ∈ xs.getLast?, r.height = info.blocks →
      SettledOn seg info.blocks r.blockHash tipHash)
    (hnone : xs.length ≠ info.blocks + 1 → ∀ r, asked (.blockHash info.blocks) r ∉ seg) :
    (self.append info (xs.getLast?.map CanonicalRow.tip)).Ensures (passContract self xs)
      (Prog.onOk fun tr' _ db' =>
        Advanced self xs info.blocks tipHash tr tr' db') tr₁ db := by
  subst htr
  unfold Indexer.append
  rw [hx.nextHeight_eq, Option.map_map]
  refine Prog.Ensures.bind_onOk (appendBlocks_onOk rfl
    (fun _ _ _ h => ⟨rfl, h, hcontinues.append_right⟩) hx hinit rfl rfl) ?_
  rintro _ n db₁ ⟨rfl, seg', ys, rfl, happ⟩
  have hall : ∀ ev ∈ seg ++ seg', IsSettlingEvent ev := by
    intro ev hev
    rcases List.mem_append.mp hev with hev | hev
    · exact hseg ev hev
    · exact (happ.events ev hev).settling
  have hlen : ys.length = info.blocks + 1 - xs.length := happ.length
  have hcount : xs.length + Indexer.heightCount xs.length info.blocks = info.blocks + 1 := by
    unfold Indexer.heightCount
    omega
  cases hys : ys.getLast? with
  | none =>
    obtain rfl := List.getLast?_eq_none_iff.mp hys
    have hfull : xs.length = info.blocks + 1 := by
      simp only [List.length_nil] at hlen
      omega
    have hne : xs ≠ [] := List.ne_nil_of_length_pos (by omega)
    obtain ⟨l, hl⟩ := Option.isSome_iff_exists.mp (List.getLast?_isSome.mpr hne)
    have hheight := hx.last_height hl
    refine Prog.Ensures.ret_onOk ⟨happ.initialized, .inl hcontinues.append_right, xs ++ [], l, [],
      seg ++ seg', happ.selected, by simpa using hl, by omega, by simp, by simp, by simp, hall, ?_⟩
    have hs := hlast l hl (by omega)
    refine ⟨List.mem_append_left _ hs.1, ?_⟩
    intro r hr
    rcases List.mem_append.mp hr with hr | hr
    · exact hs.2 r hr
    · have := happ.within _ r hr
      omega
  | some l =>
    have hl : (xs ++ ys).getLast? = some l := by simp [List.getLast?_append, hys]
    have hheight := happ.selected.last_height hl
    have hne : ys ≠ [] := by
      rintro rfl
      cases hys
    have hpos := List.length_pos_of_ne_nil hne
    rw [List.length_append] at hheight
    have hn : l.height = info.blocks := by omega
    refine Prog.Ensures.ret_onOk ⟨happ.initialized, .inl hcontinues.append_right, xs ++ ys, l, [],
      seg ++ seg', happ.selected, hl, hn, by simp, by simp, by simp, hall, ?_⟩
    have hserved := happ.top l hys
    rw [hn] at hserved
    exact (hserved.append_left (hnone (by omega))).settledOn

/-- The settling stretch of a reorganization: the search's last answer, the staged blocks, and
the two confirmations. -/
theorem settledOn_reorganized {stage rest : Trace} {a n : Nat} {hash x : Text}
    (h : (a = n ∧ x = hash ∧ ∀ r, asked (.blockHash n) r ∉ stage) ∨
      (a ≠ n ∧ ServedAt stage n x))
    (hrest : ∀ r, asked (.blockHash n) r ∉ rest) :
    SettledOn (asked (.blockHash a) (.ok hash) :: stage ++ [asked (.blockHash n) (.ok tipHash),
      asked (.blockHash a) (.ok hash)] ++ rest) n x tipHash := by
  rcases h with ⟨rfl, rfl, hstage⟩ | ⟨hne, hserved⟩
  · refine ⟨by simp, ?_⟩
    intro r hr
    simp only [List.cons_append, List.append_assoc, List.mem_cons, List.mem_append, hstage, hrest,
      List.not_mem_nil, or_false, false_or] at hr
    rcases hr with hr | hr | hr
    · cases hr
      exact .inl rfl
    · cases hr
      exact .inr rfl
    · cases hr
      exact .inl rfl
  · have hother : ∀ r, asked (.blockHash n) r ≠ asked (.blockHash a) (.ok hash) := by
      intro r he
      cases he
      exact hne rfl
    refine ⟨by simp [hserved.1], ?_⟩
    intro r hr
    simp only [List.cons_append, List.append_assoc, List.mem_cons, List.mem_append, hrest, hother,
      List.not_mem_nil, or_false, false_or] at hr
    rcases hr with hr | hr
    · exact .inl (hserved.2 r hr)
    · cases hr
      exact .inr rfl

/-- The last row of a replaced chain: the ancestor, where nothing was staged, or a served block. -/
theorem Staged.top_row {a count n : Nat} {stage : Trace} {blocks : List IndexedBlock} {r : CanonicalRow}
    (h : Staged (a + 1) count stage blocks) (networkId : Text) (hr : xs[a]? = some r)
    (hra : r.height = a) (hcount : a + 1 + count = n + 1) :
    ∃ l, (xs.take (a + 1) ++ blocks.map (canonicalRow lib networkId)).getLast? = some l ∧
      l.height = n ∧ ((a = n ∧ l.blockHash = r.blockHash ∧
        ∀ served, asked (.blockHash n) served ∉ stage) ∨
        (a ≠ n ∧ ServedAt stage n l.blockHash)) := by
  cases hb : blocks.getLast? with
  | none =>
    obtain rfl := List.getLast?_eq_none_iff.mp hb
    have hlen := h.length
    rw [List.length_nil] at hlen
    refine ⟨r, ?_, by omega, .inl ⟨by omega, rfl, ?_⟩⟩
    · rw [List.map_nil, List.append_nil, List.getLast?_take]
      simp [hr]
    · intro served hserved
      have := h.within _ served hserved
      omega
  | some b =>
    obtain ⟨hheight, hserved⟩ := h.top b hb
    have hn : b.block.height = n := by omega
    have hrange := h.within _ _ hserved.1
    rw [hn] at hserved
    exact ⟨canonicalRow lib networkId b, by simp [hb], hn, .inr ⟨by omega, hserved⟩⟩

/-- Publishing the node's branch above the found ancestor settles the tip at its last block. -/
theorem reorganize_onOk {tr₁ pre : Trace} (htr : tr₁ = tr ++ pre)
    (hpre : ∀ ev ∈ pre, IsSearchEvent ev) (hx : Selected self.network.id db xs)
    (hinit : Initialized self.network.id db) (hl : xs.getLast? = some l)
    (hsnap : snapshotOf tr = some (info.blocks, tipHash)) :
    (self.reorganize info tipHash l.tip).Ensures (passContract self xs)
      (Prog.onOk fun tr' _ db' =>
        Advanced self xs info.blocks tipHash tr tr' db') tr₁ db := by
  subst htr
  refine Prog.Ensures.bind_onOk (findCommonAncestor_onOk rfl fun _ _ _ => rfl) ?_
  rintro _ _ _ ⟨rfl, ⟨a, hash⟩, rfl, hfound⟩
  obtain ⟨hbelow, hbounded, hselected, hverdict, search, w, read, hsearch, rfl⟩ := hfound
  simp only [CanonicalRow.tip, Nat.zero_add] at hbelow hbounded hverdict
  obtain ⟨r, hr, rfl⟩ := Option.map_eq_some_iff.mp (hx.storedHash_eq.symm.trans hselected)
  have hra : r.height = a := (hx.key_eq hr).2
  have hnext : Indexer.nextHeight (some a) = a + 1 :=
    saturatingAdd_one (hra ▸ hx.bounded r (List.mem_of_getElem? hr))
  have hcount : a + 1 + Indexer.heightCount (a + 1) info.blocks = info.blocks + 1 := by
    unfold Indexer.heightCount
    omega
  simp only [Option.map_some, hnext]
  refine Prog.Ensures.bind_onOk stageBranch_onOk ?_
  rintro _ blocks _ ⟨rfl, stage, rfl, hstaged⟩
  refine Prog.Ensures.bind_onOk confirmSnapshot_onOk ?_
  rintro _ _ _ ⟨rfl, rfl⟩
  have hreplaces : Replaces self xs (tr ++ pre ++ search ++ [done w (.canonicalHash self.network.id a)
      read, asked (.blockHash a) (.ok r.blockHash)]) ‹Db› l.tip (some (a, r.blockHash)) := by
    refine ⟨hx, l, info.blocks, tipHash, a, r.blockHash, hl, rfl, ?_, rfl, hbelow, hbounded,
      hselected, hverdict⟩
    simp only [List.append_assoc]
    exact snapshotOf_append hsnap
  refine Prog.Ensures.bind_onOk (issue_onOk ⟨rfl, hreplaces.append_right.append_right⟩) ?_
  rintro _ _ db₁ ⟨w₁, hexecuted, rfl⟩
  have hrep := replaceCanonicalBranch_exec hexecuted
  have hx₁ := hx.replaceCanonicalBranch hr rfl hrep
  have hinit₁ := initialized_of_recordedTip (recordedTip_replaceCanonicalBranch hinit hrep)
  refine Prog.Ensures.bind_onOk (canonicalTip_onOk hx₁) ?_
  rintro _ _ _ ⟨rfl, -, w₂, r₂, rfl⟩
  have hread : isSearchMark (done w (.canonicalHash self.network.id a) read) = true := rfl
  have hevents : ∀ ev ∈ asked (.blockHash a) (.ok r.blockHash) :: stage ++
      [asked (.blockHash info.blocks) (.ok tipHash), asked (.blockHash a) (.ok r.blockHash)] ++
      [done w₁ (.replaceCanonicalBranch self.network.id l.tip (some (a, r.blockHash)) blocks) (.ok ()),
        done w₂ (.canonicalTip self.network.id) r₂], IsSettlingEvent ev := by
    intro ev hev
    simp only [List.cons_append, List.append_assoc, List.nil_append, List.mem_cons,
      List.mem_append, List.not_mem_nil, or_false] at hev
    rcases hev with rfl | hev | rfl | rfl | rfl | rfl
    · exact trivial
    · exact (hstaged.events ev hev).settling
    all_goals exact trivial
  obtain ⟨l', hl', hn, hcases⟩ := hstaged.top_row self.network.id hr hra hcount
  refine Prog.Ensures.ret_onOk ⟨hinit₁, .inr ⟨_, _, _,
    hreplaces.append_right.append_right.append_right.append_right⟩, _, l',
    pre ++ search ++ [done w (.canonicalHash self.network.id a) read], _, hx₁, hl', hn, ?_, ?_, ?_,
    hevents, ?_⟩
  · simp
  · intro ev hev
    rcases List.mem_append.mp hev with hev | hev
    · rcases List.mem_append.mp hev with hev | hev
      · exact hpre ev hev
      · exact hsearch ev hev
    · obtain rfl := List.mem_singleton.mp hev
      exact trivial
  · intro mark hmark
    rw [List.getLast?_concat] at hmark
    cases hmark
    exact hread
  · exact settledOn_reorganized hcases (by simp)

theorem canonicalMatches_onOk {C : Contract explorer Db World} {n : Nat} :
    (Indexer.canonicalMatches storedTip n).Ensures C
      (Prog.onOk fun tr' found db' => db' = db ∧ ∃ seg, tr' = tr ++ seg ∧
        (∀ ev ∈ seg, IsSearchEvent ev ∧ IsSettlingEvent ev) ∧ (found = true → storedTip.height ≤ n ∧
          seg = [asked (.blockHash storedTip.height) (.ok storedTip.blockHash)])) tr db := by
  unfold Indexer.canonicalMatches
  split
  · rename_i hle
    refine Prog.Ensures.bind_onOk blockHash_onOk ?_
    rintro _ hash _ ⟨rfl, rfl⟩
    refine Prog.Ensures.ret_onOk ⟨rfl, _, rfl, ?_, ?_⟩
    · intro ev hev
      obtain rfl := List.mem_singleton.mp hev
      exact ⟨trivial, trivial⟩
    · intro hmatch
      obtain rfl := of_decide_eq_true hmatch
      exact ⟨hle, rfl⟩
  · exact Prog.Ensures.ret_onOk ⟨rfl, [], by simp, by simp, by simp⟩

/-- Advancing settles the tip at the snapshot's height, whichever way it goes. -/
theorem advance_onOk (hx : Selected self.network.id db xs)
    (hinit : Initialized self.network.id db)
    (hsnap : snapshotOf tr = some (info.blocks, tipHash)) :
    (self.advance info tipHash (xs.getLast?.map CanonicalRow.tip)).Ensures (passContract self xs)
      (Prog.onOk fun tr' _ db' =>
        Advanced self xs info.blocks tipHash tr tr' db') tr db := by
  cases hl : xs.getLast? with
  | none =>
    obtain rfl := List.getLast?_eq_none_iff.mp hl
    exact append_onOk (List.append_nil tr).symm hx nofun hinit (by simp) (by simp) (by simp) (by simp)
  | some l =>
    have hheight := hx.last_height hl
    refine Prog.Ensures.bind_onOk canonicalMatches_onOk ?_
    rintro _ found _ ⟨rfl, seg, rfl, hseg, hfound⟩
    cases found with
    | false =>
      exact reorganize_onOk rfl (fun ev hev => (hseg ev hev).1) hx hinit hl hsnap
    | true =>
      obtain ⟨hle, rfl⟩ := hfound rfl
      simp only [CanonicalRow.tip] at hle
      have htip : some l.tip = xs.getLast?.map CanonicalRow.tip := by rw [hl, Option.map_some]
      change (self.append info (some l.tip)).Ensures _ _ _ _
      rw [htip]
      refine append_onOk rfl hx ?_ hinit (by omega) (fun ev hev => (hseg ev hev).2) ?_ ?_
      · intro r hr
        obtain rfl : l = r := Option.some.inj (hl.symm.trans hr)
        simp [CanonicalRow.tip]
      · intro r hr hn
        obtain rfl : l = r := Option.some.inj (hl.symm.trans hr)
        rw [← hn]
        exact servedAt_singleton.settledOn
      · intro hne r hr
        have he := height_of_asked (List.mem_singleton.mp hr)
        simp only [CanonicalRow.tip] at he
        omega

end Advance

section Pass

variable {info : BlockchainInfo} {tipHash : Text}

theorem servedPredecessor_asksOnly (height : Nat) :
    (Indexer.servedPredecessor height).AsksOnly fun _ => True := by
  cases height with
  | zero => exact trivial
  | succ below =>
    refine Prog.AsksOnly.bind ?_ fun _ => trivial
    exact asksOnly_ask trivial fun _ => orFail_asksOnly

theorem validateIdentity_asksOnly (chain : Text) :
    (self.validateIdentity chain).AsksOnly fun _ => True := by
  refine Prog.AsksOnly.bind ?_ fun _ => orFail_asksOnly.bind fun _ => orFail_asksOnly
  exact asksOnly_ask trivial fun _ => orFail_asksOnly

/-- The refresh of a pass, once the queue was read on the store `queue`: nothing was due, or the
block at the due height was fetched and its evidence stored. -/
inductive Refreshed (indexer : Indexer lib) (queue : Db) :
    Option (Nat × Text) → Trace → Db → Prop
  | idle : Refreshed indexer queue none [] queue
  | fetched {height : Nat} {hash : Text} {previous : Option Text} {asks seg : Trace}
      {indexed : IndexedBlock} {w : World} {db' : Db} (fetched : Fetched lib height previous seg indexed)
      (stored : insertBlock lib indexer.network.id indexed queue = .ok db') :
      Refreshed indexer queue (some (height, hash))
        (asks ++ seg ++ [done w (.refreshBlockEvidence indexer.network.id indexed) (.ok ())]) db'

theorem Refreshed.selected {queue : Db} {found : Option (Nat × Text)}
    (h : Refreshed self queue found seg db') (hx : Selected self.network.id queue xs) :
    Selected self.network.id db' xs := by
  cases h with
  | idle => exact hx
  | fetched _ stored => exact hx.of_inserts (insertBlock_inserts stored)

theorem Refreshed.initialized {networkId : Text} {queue : Db} {found : Option (Nat × Text)}
    (h : Refreshed self queue found seg db') (hinit : Initialized networkId queue) :
    Initialized networkId db' := by
  cases h with
  | idle => exact hinit
  | fetched _ stored =>
    rw [Initialized, (insertBlock_inserts stored).chainState]
    exact hinit

theorem refreshEvidence_onOk {opening : List CanonicalRow} :
    self.refreshEvidence.Ensures (passContract self opening)
      (Prog.onOk fun tr' _ db' => ∃ w found rest,
        evidenceRefreshCandidate db self.network.id self.evidenceRefreshDepth w = .ok found ∧
        tr' = tr ++ done w (.evidenceRefreshCandidate self.network.id self.evidenceRefreshDepth)
          (.ok found) :: rest ∧
        Refreshed self db found rest db' ∧ ∀ ev ∈ rest, isCandidateRead ev = false) tr db := by
  refine Prog.Ensures.bind_onOk (issue_onOk rfl) ?_
  rintro _ found _ ⟨w, hexecuted, rfl⟩
  obtain ⟨hfound, rfl⟩ := reading_ok.mp hexecuted
  cases found with
  | none => exact Prog.Ensures.ret_onOk ⟨w, none, [], hfound, rfl, .idle, by simp⟩
  | some c =>
    obtain ⟨height, hash⟩ := c
    refine Prog.Ensures.bind_onOk (asks_onOk (servedPredecessor_asksOnly height)) ?_
    rintro _ previous _ ⟨rfl, seg, rfl, hseg⟩
    refine Prog.Ensures.bind_onOk fetchIndexedBlock_events ?_
    rintro _ refreshed _ ⟨rfl, seg', rfl, hfetched, hevents⟩
    refine (issue_onOk rfl).mono ?_
    rintro _ o db' h u rfl
    obtain ⟨w', hexecuted', rfl⟩ := h u rfl
    refine ⟨w, some (height, hash), seg ++ seg' ++ [done w' (.refreshBlockEvidence self.network.id
      refreshed) (.ok u)], hfound, ?_, .fetched hfetched (writing_ok.mp hexecuted'), ?_⟩
    · simp only [List.append_assoc, List.cons_append, List.nil_append]
    · intro ev hev
      rcases List.mem_append.mp hev with hev | hev
      · rcases List.mem_append.mp hev with hev | hev
        · obtain ⟨q, a, rfl⟩ := hseg ev hev
          rfl
        · exact (hevents ev hev).settling.quiet.2
      · obtain rfl := List.mem_singleton.mp hev
        rfl

theorem finish_onOk {opening : List CanonicalRow} (hx : Selected self.network.id db xs)
    {l : CanonicalRow} (hl : xs.getLast? = some l) (hn : l.height = info.blocks)
    (hsnap : snapshotOf tr = some (info.blocks, tipHash))
    (hstable : ∀ ev, l.blockHash = tipHash ↔ SnapshotStable (tr ++ ev)) {n depth : Nat} :
    (self.finish info tipHash n depth).Ensures (passContract self opening)
      (Prog.onOk fun tr' _ db' => StatusOnly db db' ∧
        recordedNodeTip self.network.id db' = (db.chainState.find? self.network.id).map (fun _ =>
          (some info.blocks, some tipHash)) ∧
        ∃ seg, tr' = tr ++ seg ∧ ∀ ev ∈ seg, isCandidateRead ev = false) tr db := by
  refine Prog.Ensures.bind_onOk (canonicalTip_onOk hx) ?_
  rintro _ _ _ ⟨rfl, rfl, w, r, rfl⟩
  refine Prog.Ensures.bind_onOk (issue_onOk ⟨rfl, snapshotOf_append hsnap, ?_, xs, l, hx, hl, hn,
    fun rest => List.append_assoc _ _ rest ▸ hstable _⟩) ?_
  · simp [hl, CanonicalRow.tip, hn]
  rintro _ _ db₁ ⟨w₁, hexecuted, rfl⟩
  have hupdated := writing_ok.mp hexecuted
  refine Prog.Ensures.ret_onOk ⟨updateNodeTip_ok hupdated, ?_, _, List.append_assoc _ _ _, ?_⟩
  · rw [recordedNodeTip, updateNodeTip_row hupdated, Option.map_map]
    rfl
  intro ev hev
  simp only [List.singleton_append, List.mem_cons, List.not_mem_nil, or_false] at hev
  rcases hev with rfl | rfl <;> rfl

/-- With the tip settled on a hash, the snapshot was stable exactly if it is the snapshot's. -/
theorem stable_of_settled {opening search rest : Trace} {mark candidate : Event explorer World}
    {n : Nat} {hash : Text}
    (hsnap : snapshotOf (opening ++ [mark]) = some (n, tipHash))
    (hopening : ∀ ev ∈ opening ++ [mark], isCandidateRead ev = false)
    (hopen : isSearchMark mark = true) (hsearch : ∀ ev ∈ search, IsSearchEvent ev)
    (hmark : ∀ ev ∈ search.getLast?, isSearchMark ev = true)
    (hseg : ∀ ev ∈ seg, IsSettlingEvent ev) (hcandidate : isCandidateRead candidate = true)
    (hsettled : SettledOn seg n hash tipHash) :
    hash = tipHash ↔ SnapshotStable (opening ++ [mark] ++ search ++ seg ++ candidate :: rest) := by
  have hsnap' : snapshotOf (opening ++ [mark] ++ search ++ seg ++ candidate :: rest) =
      some (n, tipHash) := by
    rw [List.append_assoc, List.append_assoc]
    exact snapshotOf_append hsnap
  obtain ⟨front, last, hfront, hlast⟩ : ∃ front last, opening ++ [mark] ++ search =
      front ++ [last] ∧ isSearchMark last = true := by
    cases hs : search.getLast? with
    | none =>
      rw [List.getLast?_eq_none_iff.mp hs, List.append_nil]
      exact ⟨opening, mark, rfl, hopen⟩
    | some last =>
      obtain ⟨init, rfl⟩ := List.getLast?_eq_some_iff.mp hs
      exact ⟨opening ++ [mark] ++ init, last, by simp, hmark last hs⟩
  have hquiet : ∀ ev ∈ front ++ last :: seg, isCandidateRead ev = false := by
    intro ev hev
    have hev' : ev ∈ opening ++ [mark] ++ search ++ seg := by
      rw [hfront, List.append_assoc]
      exact hev
    rcases List.mem_append.mp hev' with hev' | hev'
    · rcases List.mem_append.mp hev' with hev' | hev'
      · exact hopening ev hev'
      · exact (hsearch ev hev').not_candidate
    · exact (hseg ev hev').quiet.2
  have hsettling : settlingEvents (opening ++ [mark] ++ search ++ seg ++ candidate :: rest) =
      seg.reverse := by
    rw [hfront, List.append_assoc front, List.singleton_append]
    exact settlingEvents_eq hquiet hlast (fun ev hev => (hseg ev hev).quiet.1) hcandidate
  rw [← hsettled.stable_iff]
  constructor
  · intro hall k hash' hk r hr
    rw [hsnap'] at hk
    cases hk
    rw [hsettling] at hr
    exact hall r (List.mem_reverse.mp hr)
  · intro hstable r hr
    refine hstable n tipHash hsnap' r ?_
    rw [hsettling]
    exact List.mem_reverse.mpr hr

/-- What a pass that ended well has been through: how it moved, and the one refresh it made. -/
structure Completed (indexer : Indexer lib) (opening : List CanonicalRow) (tr : Trace) (db' : Db) :
    Prop where
  moved : Moved indexer opening tr
  settled : ∃ n tipHash ys l, snapshotOf tr = some (n, tipHash) ∧
    Selected indexer.network.id db' ys ∧ ys.getLast? = some l ∧ l.height = n ∧
    (l.blockHash = tipHash ↔ SnapshotStable tr) ∧
    recordedNodeTip indexer.network.id db' = some (some n, some tipHash)
  refreshed : ∃ front w found rest last queue xs db₁,
    tr = front ++ done w (.evidenceRefreshCandidate indexer.network.id indexer.evidenceRefreshDepth)
      (.ok found) :: rest ++ last ∧
    Selected indexer.network.id queue xs ∧
    evidenceRefreshCandidate queue indexer.network.id indexer.evidenceRefreshDepth w = .ok found ∧
    Refreshed indexer queue found rest db₁ ∧ StatusOnly db₁ db' ∧
    (∀ ev ∈ front, isCandidateRead ev = false) ∧ (∀ ev ∈ rest, isCandidateRead ev = false) ∧
    ∀ ev ∈ last, isCandidateRead ev = false

/-- Every transaction of a pass is justified, whatever the node answers. -/
theorem syncOnce_justified (hx : Selected self.network.id db xs)
    (hinit : Initialized self.network.id db) :
    self.syncOnce.Ensures (passContract self xs)
      (Prog.onOk fun tr' _ db' => Completed self xs tr' db') [] db := by
  refine Prog.Ensures.bind_onOk blockchainInfo_onOk ?_
  rintro _ info _ ⟨rfl, rfl⟩
  refine Prog.Ensures.bind_onOk blockHash_onOk ?_
  rintro _ tipHash _ ⟨rfl, rfl⟩
  refine Prog.Ensures.bind_onOk (asks_onOk (validateIdentity_asksOnly _)) ?_
  rintro _ _ _ ⟨rfl, identity, rfl, hidentity⟩
  refine Prog.Ensures.bind_onOk (canonicalTip_onOk hx) ?_
  rintro _ _ _ ⟨rfl, rfl, w, r, rfl⟩
  refine Prog.Ensures.bind_onOk (issue_onOk rfl) ?_
  rintro _ _ db₁ ⟨w₁, hexecuted, rfl⟩
  have hstatus := observeNodeTip_ok (writing_ok.mp hexecuted)
  have hx₁ := hstatus.selected hx
  have hinit₁ := hstatus.initialized hinit
  refine Prog.Ensures.bind_onOk (advance_onOk hx₁ hinit₁ rfl) ?_
  rintro tr₂ _ db₂ ⟨hinit₂, hmoved, ys, l, search, seg, hy, hl, hn, rfl, hsearch, hmark, hseg,
    hsettled⟩
  refine Prog.Ensures.bind_onOk refreshEvidence_onOk ?_
  rintro tr₃ _ db₃ ⟨w₃, found, rest, hfound, rfl, hrefreshed, hrest⟩
  have hopening : ∀ ev ∈ [] ++ [asked .blockchainInfo (.ok info)] ++
      [asked (.blockHash info.blocks) (.ok tipHash)] ++ identity ++
      [done w (.canonicalTip self.network.id) r] ++
      [done w₁ (.observeNodeTip self.network.id info.blocks tipHash) (.ok ())],
      isCandidateRead ev = false := by
    intro ev hev
    simp only [List.nil_append, List.cons_append, List.append_assoc, List.mem_cons, List.mem_append,
      List.not_mem_nil, or_false] at hev
    rcases hev with rfl | rfl | hev | rfl | rfl
    · rfl
    · rfl
    · obtain ⟨q, a, rfl⟩ := hidentity ev hev
      rfl
    · rfl
    · rfl
  have hy₃ := hrefreshed.selected hy
  have hinit₃ := hrefreshed.initialized hinit₂
  refine (finish_onOk hy₃ hl hn rfl ?_).mono ?_
  · intro ev
    rw [List.append_assoc _ (_ :: rest), List.cons_append]
    exact stable_of_settled rfl hopening rfl hsearch hmark hseg rfl hsettled
  · rintro _ o db₄ hok a rfl
    obtain ⟨hfinal, hnode, last, rfl, hlast⟩ := hok a rfl
    refine ⟨hmoved.append_right.append_right, ⟨info.blocks, tipHash, ys, l, rfl, hfinal.selected hy₃,
      hl, hn, ?_, ?_⟩, _, w₃, found, rest, last, db₂, ys, db₃, rfl, hy, hfound, hrefreshed, hfinal,
      ?_, hrest, hlast⟩
    · rw [List.append_assoc _ (_ :: rest), List.cons_append]
      exact stable_of_settled rfl hopening rfl hsearch hmark hseg rfl hsettled
    · obtain ⟨c, hc⟩ := Option.isSome_iff_exists.mp hinit₃
      rw [hnode, hc, Option.map_some]
    intro ev hev
    rcases List.mem_append.mp hev with hev | hev
    · rcases List.mem_append.mp hev with hev | hev
      · exact hopening ev hev
      · exact (hsearch ev hev).not_candidate
    · exact (hseg ev hev).quiet.2

/-- One round of the writer issues justified transactions only. -/
theorem tick_justified (hx : Selected self.network.id db xs)
    (hinit : Initialized self.network.id db) :
    self.tick.Ensures (passContract self xs) (fun _ _ _ => True) [] db := by
  refine Prog.ensures_handle.mpr ?_
  refine Prog.Ensures.bind (syncOnce_justified hx hinit) (fun _ _ _ _ => trivial) ?_
  intro tr e db' _
  refine Prog.ensures_handle.mpr ?_
  exact Prog.Ensures.txn rfl (fun _ _ _ _ => trivial) fun _ _ _ => trivial

end Pass

end WcashExplorer
