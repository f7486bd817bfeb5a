import WcashExplorer.Db.Transitions
import WcashExplorer.Indexer.Fetch

/-! The stages of a pass over a selected chain: search, staging and appending. -/
namespace WcashExplorer

open Effects

variable {lib : AuxPowCrate} {self : Indexer lib} {C : Contract explorer Db World} {tr seg : Trace}
  {db db' : Db} {xs : List CanonicalRow} {height count : Nat} {previous : Option Text}

/-- A successful database method runs on the current store and is recorded. -/
theorem issue_onOk {t : DbCall} (hc : C.check tr db t) : (issue t).Ensures C
    (Prog.onOk fun tr' r db' => ∃ w, C.exec w t db = .ok (r, db') ∧ tr' = tr ++ [done w t (.ok r)])
    tr db := by
  refine Prog.Ensures.txn hc ?_ ?_
  · rintro w r s' hx _ ⟨⟩
    exact ⟨w, hx, rfl⟩
  · exact fun w e _ => nofun

/-- The hash selected at a height. -/
def storedHash (networkId : Text) (db : Db) (height : Nat) : Option Text :=
  (db.canonicalChain.find? (networkId, height)).map CanonicalRow.blockHash

theorem Selected.storedHash_eq {networkId : Text} (hx : Selected networkId db xs) :
    storedHash networkId db height = xs[height]?.map CanonicalRow.blockHash := by
  rw [storedHash, hx.represents]

/-- The search read the selected hash at a height and was then answered `hash` for it. -/
def Compared (tr : Trace) (height : Nat) (hash : Text) : Prop :=
  ∃ pre post networkId w r, tr = pre ++ done w (.canonicalHash networkId height) r ::
    asked (.blockHash height) (.ok hash) :: post

theorem Compared.append_right {hash : Text} (h : Compared tr height hash) :
    Compared (tr ++ seg) height hash := by
  obtain ⟨pre, post, networkId, w, r, rfl⟩ := h
  exact ⟨pre, post ++ seg, networkId, w, r, by simp⟩

/-- A question, or a read of a selected hash: what the search adds to the history. -/
def IsSearchEvent : Event explorer World → Prop
  | .asked _ _ => True
  | .done _ (.canonicalHash _ _) _ => True
  | .done _ _ _ => False

/-- The search's verdict on the heights from `low` to `high`: the node confirmed the selected
hash at the lowest of them only. -/
def Verdict (networkId : Text) (db : Db) (tr : Trace) (low high : Nat) : Prop :=
  ∀ h, low ≤ h → h ≤ high → ∃ hash, Compared tr h hash ∧
    (storedHash networkId db h = some hash ↔ h = low)

/-- What a finished search has found. -/
structure Found (indexer : Indexer lib) (db : Db) (tr : Trace) (examined height : Nat)
    (ancestor : Nat × Text) (tr' : Trace) : Prop where
  below : ancestor.1 ≤ height
  bounded : examined + (height - ancestor.1) ≤ indexer.maxReorgDepth
  selected : storedHash indexer.network.id db ancestor.1 = some ancestor.2
  verdict : Verdict indexer.network.id db tr' ancestor.1 height
  history : ∃ seg w r, (∀ ev ∈ seg, IsSearchEvent ev) ∧ tr' = tr ++ seg ++
    [done w (.canonicalHash indexer.network.id ancestor.1) r,
      asked (.blockHash ancestor.1) (.ok ancestor.2)]

/-- One height of the search: the selected hash is read, then the node's is asked for. -/
theorem examineHeight_onOk {examined : Nat}
    (hexec : C.exec = exec lib) (hc : ∀ tr db h, C.check tr db (.canonicalHash self.network.id h)) :
    (self.examineHeight examined height).Ensures C
      (Prog.onOk fun tr' found db' => db' = db ∧ examined ≤ self.maxReorgDepth ∧ ∃ w r hash,
        tr' = tr ++ [done w (.canonicalHash self.network.id height) r,
          asked (.blockHash height) (.ok hash)] ∧
        found = if storedHash self.network.id db height = some hash then some (height, hash)
          else none) tr db := by
  refine Prog.Ensures.ofExcept_bind_onOk fun _ hle => ?_
  simp only [ensure_eq_ok, decide_eq_true_eq] at hle
  refine Prog.Ensures.bind_onOk (issue_onOk (hc _ _ _)) ?_
  rintro _ stored db' ⟨w, hx, rfl⟩
  rw [hexec] at hx
  obtain ⟨hread, rfl⟩ := reading_ok.mp hx
  obtain ⟨-, rfl⟩ := canonicalHash_ok hread
  refine Prog.Ensures.bind_onOk blockHash_onOk ?_
  rintro _ hash _ ⟨rfl, rfl⟩
  exact Prog.Ensures.ret_onOk ⟨rfl, hle, w, _, hash, List.append_assoc _ _ _, rfl⟩

theorem Verdict.append_right {networkId : Text} {low : Nat}
    (h : Verdict networkId db tr low height) : Verdict networkId db (tr ++ seg) low height := by
  intro k hlow hhigh
  obtain ⟨hash, hcompared, hiff⟩ := h k hlow hhigh
  exact ⟨hash, hcompared.append_right, hiff⟩

theorem Verdict.single {networkId hash : Text} {w : World}
    {r : Result (Option Text)} (h : storedHash networkId db height = some hash) :
    Verdict networkId db (tr ++ [done w (.canonicalHash networkId height) r,
      asked (.blockHash height) (.ok hash)]) height height := by
  intro k hlow hhigh
  obtain rfl : k = height := by omega
  exact ⟨hash, ⟨tr, [], networkId, w, r, rfl⟩, by simp [h]⟩

/-- A height where the node disagrees extends the verdict upwards. -/
theorem Verdict.step {networkId hash : Text} {low : Nat} {w : World}
    {r : Result (Option Text)} (hlow : low ≤ height)
    (hne : storedHash networkId db (height + 1) ≠ some hash)
    (h : Verdict networkId db (tr ++ [done w (.canonicalHash networkId (height + 1)) r,
      asked (.blockHash (height + 1)) (.ok hash)] ++ seg) low height) :
    Verdict networkId db (tr ++ [done w (.canonicalHash networkId (height + 1)) r,
      asked (.blockHash (height + 1)) (.ok hash)] ++ seg) low (height + 1) := by
  intro k hk hkh
  by_cases he : k = height + 1
  · subst he
    refine ⟨hash, Compared.append_right ⟨tr, [], networkId, w, r, rfl⟩, ?_⟩
    have : height + 1 ≠ low := by omega
    simp [hne, this]
  · exact h k hk (by omega)

theorem searchAncestor_onOk {examined : Nat} (hexec : C.exec = exec lib)
    (hc : ∀ tr db h, C.check tr db (.canonicalHash self.network.id h)) :
    (self.searchAncestor examined height).Ensures C
      (Prog.onOk fun tr' ancestor db' => db' = db ∧
        Found self db tr examined height ancestor tr') tr db := by
  induction height generalizing tr examined with
  | zero =>
    refine Prog.Ensures.bind_onOk (examineHeight_onOk hexec hc) ?_
    rintro _ found _ ⟨rfl, hle, w, r, hash, rfl, rfl⟩
    by_cases hs : storedHash self.network.id ‹Db› 0 = some hash
    · rw [if_pos hs]
      refine Prog.Ensures.ret_onOk ⟨rfl, Nat.le_refl _, by simpa using hle, hs, .single hs,
        [], w, r, by simp, by simp⟩
    · rw [if_neg hs]
      exact Prog.Ensures.fail_onOk
  | succ height ih =>
    refine Prog.Ensures.bind_onOk (examineHeight_onOk hexec hc) ?_
    rintro _ found _ ⟨rfl, hle, w, r, hash, rfl, rfl⟩
    by_cases hs : storedHash self.network.id ‹Db› (height + 1) = some hash
    · rw [if_pos hs]
      refine Prog.Ensures.ret_onOk ⟨rfl, Nat.le_refl _, by simpa using hle, hs, .single hs,
        [], w, r, by simp, by simp⟩
    · rw [if_neg hs]
      refine Prog.Ensures.mono ih ?_
      rintro tr' o db' hfound ancestor ho
      obtain ⟨rfl, hbelow, hbound, hsel, hverdict, seg, w', r', hseg, rfl⟩ := hfound ancestor ho
      refine ⟨rfl, by omega, by omega, hsel, ?_, ?_⟩
      · rw [List.append_assoc (tr ++ _)] at hverdict ⊢
        exact hverdict.step hbelow hs
      · refine ⟨[done w (.canonicalHash self.network.id (height + 1)) r,
          asked (.blockHash (height + 1)) (.ok hash)] ++ seg, w', r', ?_, by simp⟩
        intro ev hev
        rcases List.mem_append.mp hev with hev | hev
        · rcases List.mem_pair.mp hev with rfl | rfl <;> exact trivial
        · exact hseg ev hev

theorem findCommonAncestor_onOk {storedTip : ChainTip} {n : Nat} (hexec : C.exec = exec lib)
    (hc : ∀ tr db h, C.check tr db (.canonicalHash self.network.id h)) :
    (self.findCommonAncestor storedTip n).Ensures C
      (Prog.onOk fun tr' found db' => db' = db ∧ ∃ ancestor, found = some ancestor ∧
        Found self db tr 0 (min storedTip.height n) ancestor tr') tr db := by
  refine Prog.Ensures.bind_onOk (searchAncestor_onOk hexec hc) ?_
  rintro _ ancestor _ ⟨rfl, hfound⟩
  exact Prog.Ensures.ret_onOk ⟨rfl, ancestor, rfl, hfound⟩

/-- In this stretch of the history the node was asked for the block at a height, and each of
its answers was the one hash. -/
def ServedAt (seg : Trace) (height : Nat) (hash : Text) : Prop :=
  asked (.blockHash height) (.ok hash) ∈ seg ∧
    ∀ r, asked (.blockHash height) r ∈ seg → r = .ok hash

theorem height_of_asked {k : Nat} {r r' : Result Text}
    (h : asked (.blockHash height) r = asked (.blockHash k) r') : height = k := by
  cases h
  rfl

theorem servedAt_singleton {hash : Text} :
    ServedAt [asked (.blockHash height) (.ok hash)] height hash := by
  refine ⟨by simp, ?_⟩
  intro r hr
  cases List.mem_singleton.mp hr
  rfl

/-- Block hashes were only asked for at heights in a range. -/
def HeightsWithin (seg : Trace) (low high : Nat) : Prop :=
  ∀ h r, asked (.blockHash h) r ∈ seg → low ≤ h ∧ h < high

theorem Fetched.servedAt {indexed : IndexedBlock} (h : Fetched lib height previous seg indexed) :
    ServedAt seg height indexed.block.hash :=
  ⟨h.served, fun r hr => (h.unanimous height r hr).2⟩

theorem Fetched.heightsWithin {indexed : IndexedBlock}
    (h : Fetched lib height previous seg indexed) : HeightsWithin seg height (height + 1) := by
  intro k r hr
  obtain ⟨rfl, -⟩ := h.unanimous k r hr
  exact ⟨Nat.le_refl _, Nat.lt_succ_self _⟩

theorem HeightsWithin.append {seg' : Trace} {low mid high : Nat} (hlm : low ≤ mid)
    (hmh : mid ≤ high) (h : HeightsWithin seg low mid) (h' : HeightsWithin seg' mid high) :
    HeightsWithin (seg ++ seg') low high := by
  intro k r hr
  rcases List.mem_append.mp hr with hr | hr
  · have := h k r hr
    omega
  · have := h' k r hr
    omega

theorem ServedAt.append_left {seg' : Trace} {hash : Text} (h : ServedAt seg' height hash)
    (hw : ∀ r, asked (.blockHash height) r ∉ seg) : ServedAt (seg ++ seg') height hash := by
  refine ⟨List.mem_append_right _ h.1, ?_⟩
  intro r hr
  rcases List.mem_append.mp hr with hr | hr
  · exact (hw r hr).elim
  · exact h.2 r hr

theorem ServedAt.append_right {seg' : Trace} {hash : Text} (h : ServedAt seg height hash)
    (hw : ∀ r, asked (.blockHash height) r ∉ seg') : ServedAt (seg ++ seg') height hash := by
  refine ⟨List.mem_append_left _ h.1, ?_⟩
  intro r hr
  rcases List.mem_append.mp hr with hr | hr
  · exact h.2 r hr
  · exact (hw r hr).elim

/-- A question, or a committed block: what fetching and appending add to the history. -/
def IsFetchEvent : Event explorer World → Prop
  | .asked _ _ => True
  | .done _ (.commitBlock _ _) _ => True
  | .done _ _ _ => False

/-- What staging `count` blocks from a height has established. -/
structure Staged (height count : Nat) (seg : Trace) (blocks : List IndexedBlock) : Prop where
  events : ∀ ev ∈ seg, IsFetchEvent ev
  length : blocks.length = count
  within : HeightsWithin seg height (height + count)
  top : ∀ b ∈ blocks.getLast?, b.block.height + 1 = height + count ∧
    ServedAt seg b.block.height b.block.hash

/-- What was served above a fetched height was served apart from the fetching. -/
theorem Fetched.servedAbove {indexed : IndexedBlock} {seg' : Trace} {k : Nat} {hash : Text}
    (h : Fetched lib height previous seg indexed) (hk : height < k) (hserved : ServedAt seg' k hash) :
    ServedAt (seg ++ seg') k hash := by
  refine hserved.append_left ?_
  intro r hr
  obtain ⟨he, -⟩ := h.unanimous _ r hr
  omega

/-- One more block below a staged branch. -/
theorem Staged.cons {indexed : IndexedBlock} {seg' : Trace} {rest : List IndexedBlock}
    (h : Staged (height + 1) count seg' rest) (hfetched : Fetched lib height previous seg indexed)
    (hevents : ∀ ev ∈ seg, IsFetchEvent ev) :
    Staged height (count + 1) (seg ++ seg') (indexed :: rest) := by
  refine ⟨?_, ?_, ?_, ?_⟩
  · intro ev hev
    rcases List.mem_append.mp hev with hev | hev
    · exact hevents ev hev
    · exact h.events ev hev
  · rw [List.length_cons, h.length]
  · have hw := h.within
    rw [Nat.add_right_comm] at hw
    exact hfetched.heightsWithin.append (by omega) (by omega) hw
  · intro b hb
    rw [Option.mem_def, List.getLast?_cons] at hb
    cases hrest : rest.getLast? with
    | none =>
      obtain rfl := List.getLast?_eq_none_iff.mp hrest
      obtain rfl : indexed = b := by simpa using hb
      have hcount : count = 0 := h.length.symm
      refine ⟨by rw [hfetched.atHeight, hcount], ?_⟩
      rw [hfetched.atHeight]
      refine hfetched.servedAt.append_right ?_
      intro r hr
      have := h.within _ r hr
      omega
    | some top =>
      obtain rfl : top = b := by simpa [hrest] using hb
      obtain ⟨hh, hserved⟩ := h.top top hrest
      have hk := (h.within _ _ hserved.1).1
      exact ⟨by omega, hfetched.servedAbove hk hserved⟩

theorem fetchIndexedBlock_events : (self.fetchIndexedBlock height previous).Ensures C
    (Prog.onOk fun tr' indexed db' => db' = db ∧ ∃ seg, tr' = tr ++ seg ∧
      Fetched lib height previous seg indexed ∧ ∀ ev ∈ seg, IsFetchEvent ev) tr db := by
  have hasks := fetchIndexedBlock_asksOnly self height previous
  refine (hasks.ensures.and fetchIndexedBlock_onOk).mono ?_
  rintro _ _ _ ⟨⟨-, seg, rfl, hseg⟩, hok⟩ indexed ho
  obtain ⟨rfl, seg', heq, hfetched⟩ := hok indexed ho
  obtain rfl := List.append_cancel_left heq
  refine ⟨rfl, seg, rfl, hfetched, ?_⟩
  intro ev hev
  obtain ⟨q, a, rfl, -⟩ := hseg ev hev
  exact trivial

theorem stageBranch_onOk : (self.stageBranch count height previous).Ensures C
    (Prog.onOk fun tr' blocks db' => db' = db ∧ ∃ seg, tr' = tr ++ seg ∧
      Staged height count seg blocks) tr db := by
  induction count generalizing height previous tr with
  | zero =>
    refine Prog.Ensures.ret_onOk ⟨rfl, [], by simp, by simp, rfl, ?_, by simp⟩
    intro h r hr
    simp at hr
  | succ count ih =>
    refine Prog.Ensures.bind_onOk fetchIndexedBlock_events ?_
    rintro _ indexed _ ⟨rfl, seg, rfl, hfetched, hevents⟩
    refine Prog.Ensures.bind_onOk ih ?_
    rintro _ rest _ ⟨rfl, seg', rfl, hstaged⟩
    exact Prog.Ensures.ret_onOk ⟨rfl, seg ++ seg', by simp, hstaged.cons hfetched hevents⟩

/-- A block that continues the selected chain by one height. -/
def Extends (networkId : Text) (db : Db) (indexed : IndexedBlock) : Prop :=
  ∃ xs, Selected networkId db xs ∧ indexed.block.height = xs.length ∧
    ∀ s ∈ xs.getLast?, indexed.block.previousblockhash = some s.blockHash

/-- A fetched block continues the chain it was fetched for. -/
theorem Fetched.extends {indexed : IndexedBlock}
    (h : Fetched lib height previous seg indexed) (hlen : xs.length = height)
    (hprev : previous = xs.getLast?.map CanonicalRow.blockHash) :
    ∀ s ∈ xs.getLast?, indexed.block.previousblockhash = some s.blockHash := by
  intro s hs
  have hne : height ≠ 0 := by
    rintro rfl
    rw [List.length_eq_zero_iff.mp hlen] at hs
    cases hs
  have hfollows := h.follows
  simp only [Indexer.previousMatches, hne, if_false, decide_eq_true_eq] at hfollows
  have hs' : xs.getLast? = some s := hs
  rw [hfollows, hprev, hs', Option.map_some]

/-- What appending `count` blocks to the chain `xs` has established. -/
structure Appended (networkId : Text) (xs : List CanonicalRow) (count : Nat) (seg : Trace)
    (db' : Db) (ys : List CanonicalRow) : Prop where
  events : ∀ ev ∈ seg, IsFetchEvent ev
  selected : Selected networkId db' (xs ++ ys)
  initialized : Initialized networkId db'
  length : ys.length = count
  within : HeightsWithin seg xs.length (xs.length + count)
  top : ∀ r ∈ ys.getLast?, ServedAt seg r.height r.blockHash

theorem HeightsWithin.done_cons {low high : Nat} {w : World} {t : DbCall} {r : Result t.Result}
    (h : HeightsWithin seg low high) : HeightsWithin (done w t r :: seg) low high := by
  intro k a ha
  rcases List.mem_cons.mp ha with he | ha
  · cases he
  · exact h k a ha

theorem ServedAt.done_cons {hash : Text} {w : World} {t : DbCall} {r : Result t.Result}
    (h : ServedAt seg height hash) : ServedAt (done w t r :: seg) height hash := by
  refine ⟨List.mem_cons_of_mem _ h.1, ?_⟩
  intro a ha
  rcases List.mem_cons.mp ha with he | ha
  · cases he
  · exact h.2 a ha

/-- One more block is fetched and committed before the ones that were appended. -/
theorem Appended.cons {networkId : Text} {indexed : IndexedBlock} {seg' : Trace} {w : World}
    {ys : List CanonicalRow}
    (h : Appended networkId (xs ++ [canonicalRow lib networkId indexed]) count seg' db' ys)
    (hfetched : Fetched lib xs.length previous seg indexed) (hevents : ∀ ev ∈ seg, IsFetchEvent ev) :
    Appended networkId xs (count + 1) (seg ++ done w (.commitBlock networkId indexed) (.ok ()) :: seg')
      db' (canonicalRow lib networkId indexed :: ys) := by
  have hwithin : HeightsWithin seg' (xs.length + 1) (xs.length + (count + 1)) := by
    have hw := h.within
    rw [List.length_append, List.length_singleton] at hw
    rwa [Nat.add_assoc, Nat.add_comm 1 count] at hw
  refine ⟨?_, ?_, h.initialized, by rw [List.length_cons, h.length], ?_, ?_⟩
  · intro ev hev
    rcases List.mem_append.mp hev with hev | hev
    · exact hevents ev hev
    · rcases List.mem_cons.mp hev with rfl | hev
      · exact trivial
      · exact h.events ev hev
  · have hsel := h.selected
    rwa [List.append_assoc, List.singleton_append] at hsel
  · exact hfetched.heightsWithin.append (by omega) (by omega) hwithin.done_cons
  · intro r hr
    rw [Option.mem_def, List.getLast?_cons] at hr
    cases hys : ys.getLast? with
    | none =>
      obtain rfl := List.getLast?_eq_none_iff.mp hys
      obtain rfl : canonicalRow lib networkId indexed = r := by simpa using hr
      rw [canonicalRow, hfetched.atHeight]
      refine hfetched.servedAt.append_right ?_
      intro a ha
      have := hwithin.done_cons _ a ha
      omega
    | some top =>
      obtain rfl : top = r := by simpa [hys] using hr
      have hserved := h.top top hys
      have hk := (hwithin _ _ hserved.1).1
      exact hfetched.servedAbove hk hserved.done_cons

theorem commitBlock_exec {indexed : IndexedBlock} {networkId : Text} {w : World} {u : Unit}
    (h : exec lib w (.commitBlock networkId indexed) db = .ok (u, db')) :
    commitBlock lib networkId indexed w.now db = .ok db' := writing_ok.mp h

theorem appendBlocks_onOk (hexec : C.exec = exec lib)
    (hc : ∀ seg db indexed, Extends self.network.id db indexed →
      C.check (tr ++ seg) db (.commitBlock self.network.id indexed))
    (hx : Selected self.network.id db xs) (hinit : Initialized self.network.id db)
    (hlen : xs.length = height) (hprev : previous = xs.getLast?.map CanonicalRow.blockHash) :
    (self.appendBlocks count height previous).Ensures C
      (Prog.onOk fun tr' n db' => n = count ∧ ∃ seg ys, tr' = tr ++ seg ∧
        Appended self.network.id xs count seg db' ys) tr db := by
  induction count generalizing height previous tr db xs with
  | zero =>
    refine Prog.Ensures.ret_onOk ⟨rfl, [], [], by simp, by simp, by simpa using hx, hinit, rfl,
      ?_, by simp⟩
    intro h r hr
    simp at hr
  | succ count ih =>
    refine Prog.Ensures.bind_onOk fetchIndexedBlock_events ?_
    rintro _ indexed _ ⟨rfl, seg, rfl, hfetched, hevents⟩
    have hfollows := hfetched.extends hlen hprev
    have hheight : indexed.block.height = xs.length := hfetched.atHeight.trans hlen.symm
    refine Prog.Ensures.bind_onOk (issue_onOk (hc _ _ _ ⟨xs, hx, hheight, hfollows⟩)) ?_
    rintro _ _ db₁ ⟨w, hexecuted, rfl⟩
    rw [hexec] at hexecuted
    obtain ⟨hx₁, htip₁⟩ := hx.commitBlock hinit hheight hfollows (commitBlock_exec hexecuted)
    have hlen₁ : (xs ++ [canonicalRow lib self.network.id indexed]).length = height + 1 := by
      rw [List.length_append, List.length_singleton, hlen]
    refine Prog.Ensures.bind_onOk (ih ?_ hx₁ (initialized_of_recordedTip htip₁) hlen₁
      (by simp [canonicalRow])) ?_
    · intro seg' db' indexed' hextends
      rw [List.append_assoc, List.append_assoc]
      exact hc _ db' indexed' hextends
    rintro _ n db₂ ⟨rfl, seg', ys, rfl, happ⟩
    exact Prog.Ensures.ret_onOk ⟨rfl, seg ++ done w (.commitBlock self.network.id indexed) (.ok ())
      :: seg', canonicalRow lib self.network.id indexed :: ys, by simp,
      happ.cons (hlen ▸ hfetched) hevents⟩

end WcashExplorer
