import WcashExplorer.Db.Parents
import WcashExplorer.Effects.Coupling
import WcashExplorer.Indexer.Node

/-! Parent nodes beside the Wcash node: what their answers can change, and when they stop it. -/
namespace WcashExplorer

open Effects Relational

variable {lib : AuxPowCrate}

section Coupling

/-- The verifier with no parent node configured. -/
def AuxPowVerifier.withoutParents (verifier : AuxPowVerifier lib) : AuxPowVerifier lib :=
  { verifier with parents := [] }

def Indexer.withoutParents (self : Indexer lib) : Indexer lib :=
  { self with auxpow := self.auxpow.withoutParents }

/-- The second block is the first one as it is materialized without parent nodes. -/
def Bare (indexed bare : IndexedBlock) : Prop :=
  indexed.withoutParents = bare.withoutParents ∧ bare.observations = []

theorem blockHash_asksWcash (height : Nat) :
    (Wcash.blockHash height).AsksOnly fun q : RpcCall => q.isWcash = true :=
  asksOnly_ask rfl fun _ => orFail_asksOnly

theorem blockRaw_asksWcash (hash : Text) :
    (Wcash.blockRaw hash).AsksOnly fun q : RpcCall => q.isWcash = true := by
  refine orFail_asksOnly.bind fun _ => Prog.AsksOnly.bind ?_ fun _ => orFail_asksOnly
  exact asksOnly_ask rfl fun _ => orFail_asksOnly

theorem blockVerbose_asksWcash (hash : Text) :
    (Wcash.blockVerbose hash).AsksOnly fun q : RpcCall => q.isWcash = true :=
  orFail_asksOnly.bind fun _ => asksOnly_ask rfl fun _ => orFail_asksOnly

theorem auxBlockStatus_asksWcash (hash proofHex : Text) :
    (Wcash.auxBlockStatus hash proofHex).AsksOnly fun q : RpcCall => q.isWcash = true :=
  orFail_asksOnly.bind fun _ => orFail_asksOnly.bind fun _ =>
    asksOnly_ask rfl fun _ => orFail_asksOnly

theorem confirmSnapshot_asksWcash (nodeHeight : Nat) (nodeTipHash : Text)
    (ancestor : Option (Nat × Text)) :
    (Indexer.confirmSnapshot nodeHeight nodeTipHash ancestor).AsksOnly
      fun q : RpcCall => q.isWcash = true := by
  refine (blockHash_asksWcash _).bind fun _ => orFail_asksOnly.bind fun _ => ?_
  cases ancestor with
  | none => exact trivial
  | some a => exact (blockHash_asksWcash _).bind fun _ => orFail_asksOnly

/-- Observing asks the parents and the clock only, and never fails. -/
theorem observeParents_private (hash : Text) (header : Bytes) (parent : Nat)
    (sources : List Text) :
    (observeParents lib hash header parent sources).Private RpcCall.isWcash fun _ => True := by
  induction sources generalizing parent with
  | nil => exact trivial
  | cons source rest ih =>
    refine Prog.Private.bind (P := fun _ => True) ?_ fun _ _ => (ih (parent + 1)).bind fun _ _ => trivial
    refine Prog.Private.bind (P := fun _ => True) ⟨rfl, fun _ => trivial⟩ fun _ _ => ?_
    exact Prog.Private.handle ((parentLookups_asksOnly parent hash).bind fun _ => trivial)
      (fun _ => trivial) fun _ => trivial

theorem verify_coupled (verifier : AuxPowVerifier lib) (block : RpcBlock) (rawBlock : Bytes) :
    Coupled RpcCall.isWcash (fun a b => a.map VerifiedAuxPow.withoutParents =
        b.map VerifiedAuxPow.withoutParents ∧ b.elim [] VerifiedAuxPow.parentObservations = [])
      (verify lib verifier block rawBlock) (verify lib verifier.withoutParents block rawBlock) := by
  refine Coupled.bind Coupled.ofExcept ?_
  rintro evidence _ rfl
  cases evidence with
  | none => exact .ret ⟨rfl, rfl⟩
  | some found =>
    refine Coupled.bind (Coupled.refl (auxBlockStatus_asksWcash _ _)) ?_
    rintro status _ rfl
    refine Coupled.bind Coupled.ofExcept ?_
    rintro _ _ -
    -- without parents there is nothing to observe, and both sides go on with their own list
    refine Coupled.bind ((observeParents_private _ _ _ _).coupled
      (q := Prog.ret []) (Q := fun observations => observations = []) rfl) ?_
    rintro observations _ ⟨-, rfl⟩
    exact .ret ⟨rfl, rfl⟩

/-- With and without parent nodes the same block is fetched, or the same failure met. -/
theorem fetchIndexedBlock_coupled (self : Indexer lib) (height : Nat) (previous : Option Text) :
    Coupled RpcCall.isWcash Bare (self.fetchIndexedBlock height previous)
      (self.withoutParents.fetchIndexedBlock height previous) := by
  refine Coupled.bind (Coupled.refl (blockHash_asksWcash _)) ?_
  rintro expectedHash _ rfl
  refine Coupled.bind (Coupled.refl (blockRaw_asksWcash _)) ?_
  rintro rawBlock _ rfl
  refine Coupled.bind (Coupled.refl (blockVerbose_asksWcash _)) ?_
  rintro ⟨block, raw⟩ _ rfl
  refine Coupled.bind Coupled.ofExcept ?_
  rintro _ _ -
  refine Coupled.bind Coupled.ofExcept ?_
  rintro _ _ -
  refine Coupled.bind (verify_coupled self.auxpow block rawBlock) ?_
  rintro auxpow bare ⟨hsame, hnone⟩
  refine Coupled.bind (Coupled.refl (blockHash_asksWcash _)) ?_
  rintro confirmedHash _ rfl
  refine Coupled.bind Coupled.ofExcept ?_
  rintro _ _ -
  refine .left rfl fun fetchedAt => .right rfl fun fetchedAt' => .ret ⟨?_, hnone⟩
  simp only [IndexedBlock.withoutParents, hsame]

theorem stageBranch_coupled (self : Indexer lib) (count height : Nat) (previous : Option Text) :
    Coupled RpcCall.isWcash (List.Forall₂ Bare) (self.stageBranch count height previous)
      (self.withoutParents.stageBranch count height previous) := by
  induction count generalizing height previous with
  | zero => exact .ret .nil
  | succ count ih =>
    refine Coupled.bind (fetchIndexedBlock_coupled self height previous) ?_
    intro indexed bare hbare
    have hblock : bare.block = indexed.block := (congrArg IndexedBlock.block hbare.1).symm
    rw [hblock]
    refine Coupled.bind (ih (height + 1) (some indexed.block.hash)) ?_
    intro rest rest' hrest
    exact .ret (.cons hbare hrest)

end Coupling

section Lookups

/-- The block that two successive answers of a parent node make up: its metadata and its bytes. -/
def lookedUp : Event explorer World → Event explorer World → Option ParentBlock
  | .asked (.parentBlock _ _) (.ok block), .asked (.parentRaw _ _) (.ok encoded) =>
    match decodeHexBounded "raw block" encoded (maxRpcResponseBytes / 2) with
    | .ok _ => some block
    | .error _ => none
  | _, _ => none

/-- The blocks that parent nodes have answered with. -/
def lookups : Trace → List ParentBlock
  | ev :: ev' :: rest => (lookedUp ev ev').toList ++ lookups (ev' :: rest)
  | _ => []

/-- Every block a parent node has answered with fits the columns of an observation. -/
def ParentsStorable (tr : Trace) : Prop := ∀ block ∈ lookups tr, block.storable = true

instance (tr : Trace) : Decidable (ParentsStorable tr) :=
  inferInstanceAs (Decidable (∀ block ∈ lookups tr, block.storable = true))

/-- The history does not begin in the middle of a lookup. -/
def Unpaired (seg : Trace) : Prop := ∀ ev ∈ seg.head?, ∀ before, lookedUp before ev = none

theorem unpaired_nil : Unpaired [] := by
  intro ev hev
  cases hev

theorem unpaired_cons (rest : Trace) {q : RpcCall} {a : q.Answer}
    (hq : ∀ parent hash, q ≠ .parentRaw parent hash) : Unpaired (asked q a :: rest) := by
  rintro _ ⟨⟩ before
  unfold lookedUp
  split
  · rename_i hraw
    injection hraw with hparent
    exact absurd hparent (hq _ _)
  · rfl

theorem Unpaired.append {s t : Trace} (hs : Unpaired s) (ht : Unpaired t) : Unpaired (s ++ t) := by
  cases s with
  | nil => exact ht
  | cons ev rest => exact hs

theorem lookups_append {s t : Trace} (ht : Unpaired t) :
    lookups (s ++ t) = lookups s ++ lookups t := by
  induction s with
  | nil => rfl
  | cons ev rest ih =>
    cases rest with
    | nil =>
      cases t with
      | nil => rfl
      | cons ev' t => simp [lookups, ht ev' rfl ev]
    | cons ev' rest =>
      have hrest : lookups (ev' :: (rest ++ t)) = lookups (ev' :: rest) ++ lookups t := ih
      simp [lookups, hrest]

theorem parentsStorable_append {s t : Trace} (ht : Unpaired t) :
    ParentsStorable (s ++ t) ↔ ParentsStorable s ∧ ParentsStorable t := by
  simp only [ParentsStorable, lookups_append ht, List.mem_append, or_imp, forall_and]

/-- The Wcash node's answers hold no lookup. -/
theorem lookups_wcash {seg : Trace} (h : ∀ ev ∈ seg, ∃ (q : RpcCall) (a : q.Answer),
    ev = asked q a ∧ q.isWcash = true) : Unpaired seg ∧ lookups seg = [] := by
  have hnone : ∀ ev ∈ seg, ∀ before, lookedUp before ev = none := by
    intro ev hev before
    obtain ⟨q, a, rfl, hq⟩ := h ev hev
    refine unpaired_cons (a := a) [] ?_ _ rfl before
    rintro parent hash rfl
    cases hq
  refine ⟨fun ev hev => hnone ev (List.mem_of_mem_head? hev), ?_⟩
  clear h
  induction seg with
  | nil => rfl
  | cons ev rest ih =>
    cases rest with
    | nil => rfl
    | cons ev' rest =>
      have hrest := ih fun e he => hnone e (by simp [he])
      simp [lookups, hnone ev' (by simp), hrest]

variable {α β : Type} {C : Contract explorer Db World} {tr : Trace} {db : Db} {G : Prop}
  {good : α → Prop} {good' : β → Prop}

/-- A result is good exactly if `G` held before and the parents' answers since fit. -/
def Judged (tr : Trace) (G : Prop) (good : α → Prop) : Trace → α → Db → Prop :=
  fun tr' a _ => ∃ seg, tr' = tr ++ seg ∧ Unpaired seg ∧ (good a ↔ G ∧ ParentsStorable seg)

theorem parentsStorable_nil : ParentsStorable [] := by
  intro block hblock
  cases hblock

theorem ret_judged {a : α} (h : good a ↔ G) :
    (Prog.ret a : Action α).Ensures C (Prog.onOk (Judged tr G good)) tr db := by
  refine Prog.Ensures.ret_onOk ⟨[], by simp, unpaired_nil, ?_⟩
  rw [h]
  exact (and_iff_left parentsStorable_nil).symm

theorem bind_judged {p : Action α} {f : α → Action β}
    (hp : p.Ensures C (Prog.onOk (Judged tr True good)) tr db)
    (hf : ∀ tr a db, (f a).Ensures C (Prog.onOk (Judged tr (G ∧ good a) good')) tr db) :
    (p >>= f).Ensures C (Prog.onOk (Judged tr G good')) tr db := by
  refine hp.bind_onOk ?_
  rintro _ a db' ⟨seg, rfl, hseg, hgood⟩
  refine (hf (tr ++ seg) a db').mono ?_
  intro tr' o db'' hpost b hb
  obtain ⟨rest, rfl, hrest, hb'⟩ := hpost b hb
  refine ⟨seg ++ rest, by simp, hseg.append hrest, ?_⟩
  rw [hb', hgood, parentsStorable_append hrest]
  tauto

theorem ofExcept_judged {r : Result α} {f : α → Action β}
    (hf : ∀ a, (f a).Ensures C (Prog.onOk (Judged tr G good')) tr db) :
    (orFail r >>= f).Ensures C (Prog.onOk (Judged tr G good')) tr db :=
  Prog.Ensures.ofExcept_bind_onOk fun a _ => hf a

/-- Asking the Wcash node judges nothing. -/
theorem wcash_judged {p : Action α} {f : α → Action β}
    (hp : p.AsksOnly fun q : RpcCall => q.isWcash = true)
    (hf : ∀ tr a db, (f a).Ensures C (Prog.onOk (Judged tr G good')) tr db) :
    (p >>= f).Ensures C (Prog.onOk (Judged tr G good')) tr db := by
  refine @bind_judged _ _ _ _ _ _ (fun _ => True) _ _ _ ?_ fun tr a db => ?_
  · refine Prog.Ensures.mono hp.ensures ?_
    rintro _ _ _ ⟨rfl, seg, rfl, hseg⟩ _ _
    obtain ⟨hunpaired, hnone⟩ := lookups_wcash hseg
    refine ⟨seg, rfl, hunpaired, ?_⟩
    simp [ParentsStorable, hnone]
  · simpa only [and_true] using hf tr a db

/-- A lookup that succeeds is one lookup of the history; one that fails is none. -/
theorem parentLookups_lookups {parent : Nat} {hash : Text} :
    (parentLookups parent hash).Ensures C (fun tr' o _ => ∃ seg, tr' = tr ++ seg ∧ Unpaired seg ∧
      lookups seg = match o with
        | .ok found => [found.1]
        | .error _ => []) tr db := by
  have hunpaired (a : Result ParentBlock) (rest : Trace) :
      Unpaired (asked (.parentBlock parent hash) a :: rest) := unpaired_cons _ nofun
  unfold parentLookups Parent.parentBlock Parent.blockRaw
  cases validateHash hash with
  | error e => exact ⟨[], by simp, unpaired_nil, rfl⟩
  | ok valid =>
    intro block _
    cases block with
    | error e => exact ⟨[asked (.parentBlock parent hash) (.error e)], rfl, hunpaired _ _, rfl⟩
    | ok block =>
      intro encoded _
      cases encoded with
      | error e =>
        exact ⟨[asked (.parentBlock parent hash) (.ok block),
          asked (.parentRaw parent hash) (.error e)], by simp, hunpaired _ _, rfl⟩
      | ok encoded =>
        change (orFail (decodeHexBounded "raw block" encoded (maxRpcResponseBytes / 2)) >>=
          fun raw => (Prog.ret (block, raw) : Action _)).Ensures C _ _ db
        have hpair : lookups [asked (.parentBlock parent hash) (.ok block),
            asked (.parentRaw parent hash) (.ok encoded)] =
              match decodeHexBounded "raw block" encoded (maxRpcResponseBytes / 2) with
              | .ok _ => [block]
              | .error _ => [] := by
          simp only [lookups, lookedUp, List.append_nil]
          split <;> rfl
        have hseg := hunpaired (.ok block) [asked (.parentRaw parent hash) (.ok encoded)]
        cases hraw : decodeHexBounded "raw block" encoded (maxRpcResponseBytes / 2) with
        | error e =>
          rw [hraw] at hpair
          exact ⟨_, by simp, hseg, hpair⟩
        | ok raw =>
          rw [hraw] at hpair
          exact ⟨_, by simp, hseg, hpair⟩

/-- An observation fits its columns exactly if the looked up block does. -/
theorem observeParent_judged {parent : Nat} {source hash : Text} {header : Bytes}
    (hsource : source.storable = true) :
    (observeParent lib parent source hash header).Ensures C
      (Prog.onOk (Judged tr True fun o => o.storable = true)) tr db := by
  intro checkedAt _
  refine Prog.ensures_handle.mpr (Prog.ensures_bind.mpr (parentLookups_lookups.mono ?_))
  rintro _ o _ ⟨seg, rfl, hseg, hlookups⟩
  have hclock : Unpaired (asked .utcNow checkedAt :: seg) := unpaired_cons _ nofun
  have hsame : lookups (asked .utcNow checkedAt :: seg) = lookups seg :=
    lookups_append (s := [asked .utcNow checkedAt]) hseg
  cases o with
  | ok found =>
    rintro _ ⟨⟩
    refine ⟨_, by simp, hclock, ?_⟩
    simp [ParentsStorable, hsame, hlookups, ParentObservation.storable, foundObservation, hsource]
  | error e =>
    rintro _ ⟨⟩
    refine ⟨_, by simp, hclock, ?_⟩
    simp [ParentsStorable, hsame, hlookups, ParentObservation.storable, failedObservation, hsource]

theorem observeParents_judged {hash : Text} {header : Bytes} {parent : Nat} {sources : List Text}
    (hsources : ∀ source ∈ sources, source.storable = true) :
    (observeParents lib hash header parent sources).Ensures C
      (Prog.onOk (Judged tr True fun observations => ∀ o ∈ observations, o.storable = true))
      tr db := by
  induction sources generalizing parent tr db with
  | nil => exact ret_judged (by simp)
  | cons source rest ih =>
    refine bind_judged (observeParent_judged (hsources source (by simp))) fun tr o db => ?_
    refine bind_judged (ih fun s hs => hsources s (by simp [hs])) fun tr observations db => ?_
    refine ret_judged ?_
    simp

/-- What a verified block says of its parents can be stored exactly if their answers can. -/
theorem verify_judged {verifier : AuxPowVerifier lib} {block : RpcBlock} {rawBlock : Bytes}
    (hlabels : ∀ label ∈ verifier.parents, label.storable = true) :
    (verify lib verifier block rawBlock).Ensures C (Prog.onOk (Judged tr True fun auxpow =>
      ∀ o ∈ auxpow.elim [] VerifiedAuxPow.parentObservations, o.storable = true)) tr db := by
  refine ofExcept_judged fun evidence => ?_
  cases evidence with
  | none => exact ret_judged (by simp)
  | some found =>
    refine wcash_judged (auxBlockStatus_asksWcash _ _) fun tr status db => ?_
    refine ofExcept_judged fun _ => ?_
    refine bind_judged (observeParents_judged hlabels) fun tr observations db => ?_
    exact ret_judged (by simp [verifiedAuxPow])

theorem fetchIndexedBlock_judged {self : Indexer lib} {height : Nat} {previous : Option Text}
    (hlabels : ∀ label ∈ self.auxpow.parents, label.storable = true) :
    (self.fetchIndexedBlock height previous).Ensures C
      (Prog.onOk (Judged tr True IndexedBlock.Storable)) tr db := by
  refine wcash_judged (blockHash_asksWcash _) fun tr expectedHash db => ?_
  refine wcash_judged (blockRaw_asksWcash _) fun tr rawBlock db => ?_
  refine wcash_judged (blockVerbose_asksWcash _) fun tr verbose db => ?_
  refine ofExcept_judged fun _ => ofExcept_judged fun _ => ?_
  refine bind_judged (verify_judged hlabels) fun tr auxpow db => ?_
  refine wcash_judged (blockHash_asksWcash _) fun tr confirmedHash db => ?_
  refine ofExcept_judged fun _ => ?_
  intro fetchedAt _
  refine Prog.Ensures.ret_onOk ⟨[asked .utcNow fetchedAt], rfl, ?_, ?_⟩
  · exact unpaired_cons _ nofun
  · simp [IndexedBlock.Storable, IndexedBlock.observations, ParentsStorable, lookups]

theorem stageBranch_judged {self : Indexer lib} {count height : Nat} {previous : Option Text}
    (hlabels : ∀ label ∈ self.auxpow.parents, label.storable = true) :
    (self.stageBranch count height previous).Ensures C
      (Prog.onOk (Judged tr True fun blocks => ∀ b ∈ blocks, b.Storable)) tr db := by
  induction count generalizing height previous tr db with
  | zero => exact ret_judged (by simp)
  | succ count ih =>
    refine bind_judged (fetchIndexedBlock_judged hlabels) fun tr indexed db => ?_
    refine bind_judged ih fun tr rest db => ?_
    refine ret_judged ?_
    simp

end Lookups

section Storing

/-- One execution of fetching, verifying and storing: a round of the append loop, an evidence
refresh, or the publication of a replacement branch over an ancestor. -/
inductive Storing
  | commit (height : Nat) (previous : Option Text)
  | refresh (height : Nat) (previous : Option Text)
  | replace (info : BlockchainInfo) (nodeTipHash : Text) (storedTip : ChainTip)
      (ancestor : Option (Nat × Text))

/-- What the synchronizer does in it. -/
def Indexer.store (self : Indexer lib) : Storing → Action Unit
  | .commit height previous => do
    let indexed ← self.fetchIndexedBlock height previous
    Database.commitBlock self.network.id indexed
  | .refresh height previous => do
    let indexed ← self.fetchIndexedBlock height previous
    Database.refreshBlockEvidence self.network.id indexed
  | .replace info nodeTipHash storedTip ancestor => do
    let start := nextHeight (ancestor.map Prod.fst)
    let replacement ← self.stageBranch (heightCount start info.blocks) start
      (ancestor.map Prod.snd)
    confirmSnapshot info.blocks nodeTipHash ancestor
    Database.replaceCanonicalBranch self.network.id storedTip ancestor replacement

/-- What an execution leaves behind: its history, its outcome and the store. -/
abbrev Outcome : Type := Trace × Except ExplorerError Unit × Db

/-- An execution from a store against its environment. -/
def Indexer.storeWith (self : Indexer lib) (storing : Storing)
    (env : Environment explorer World) (db : Db) : Outcome :=
  (self.store storing).runWith (exec lib) env [] db

/-- Both executions succeed, in the same state apart from the parents' columns and the clock, or
both fail and leave the store as it was. -/
def Alike (db : Db) (run run' : Outcome) : Prop :=
  (run.2.1 = .ok () ∧ run'.2.1 = .ok () ∧ run.2.2.withoutParents = run'.2.2.withoutParents) ∨
    ((∃ e, run.2.1 = .error e) ∧ (∃ e, run'.2.1 = .error e) ∧ run.2.2 = db ∧ run'.2.2 = db)

/-- How an execution relates to the one without parents: it succeeds exactly if that one does and
every block its parents answered with fits, and parents whose answers fit do not show. -/
structure Observed (db : Db) (run bare : Outcome) : Prop where
  succeeds : run.2.1 = .ok () ↔ bare.2.1 = .ok () ∧ ParentsStorable run.1
  outcome : ParentsStorable run.1 → run.2.1 = bare.2.1
  state : run.2.1 = .ok () → run.2.2.withoutParents = bare.2.2.withoutParents
  rolledBack : run.2.1 ≠ .ok () → run.2.2 = db

/-- The program issues one transaction, which does `write` at the time of the clock. -/
def Issues (lib : AuxPowCrate) (p : Action Unit) (write : Timestamp → Db → Result Db) : Prop :=
  ∀ env tr db, ∃ w t r, p.runWith (exec lib) env tr db = (tr ++ [done w t r],
    (write (env.clock tr).now db).map fun _ => (), (write (env.clock tr).now db).toOption.getD db)

theorem commitBlock_issues (networkId : Text) (indexed : IndexedBlock) :
    Issues lib (Database.commitBlock networkId indexed) (commitBlock lib networkId indexed) := by
  intro env tr db
  have hrun := Prog.runWith_txn (S := explorer) (exec lib) env (.commitBlock networkId indexed) tr db
  have hx : exec lib (env.clock tr) (.commitBlock networkId indexed) db =
      writing (commitBlock lib networkId indexed (env.clock tr).now db) := rfl
  rw [hx] at hrun
  cases h : commitBlock lib networkId indexed (env.clock tr).now db with
  | ok db' =>
    rw [h] at hrun
    refine ⟨env.clock tr, .commitBlock networkId indexed, .ok (), ?_⟩
    exact hrun
  | error e =>
    rw [h] at hrun
    refine ⟨env.clock tr, .commitBlock networkId indexed, .error e, ?_⟩
    exact hrun

theorem refreshBlockEvidence_issues (networkId : Text) (indexed : IndexedBlock) :
    Issues lib (Database.refreshBlockEvidence networkId indexed)
      fun _ => refreshBlockEvidence lib networkId indexed := by
  intro env tr db
  have hrun := Prog.runWith_txn (S := explorer) (exec lib) env
    (.refreshBlockEvidence networkId indexed) tr db
  have hx : exec lib (env.clock tr) (.refreshBlockEvidence networkId indexed) db =
      writing (refreshBlockEvidence lib networkId indexed db) := rfl
  rw [hx] at hrun
  cases h : refreshBlockEvidence lib networkId indexed db with
  | ok db' =>
    rw [h] at hrun
    refine ⟨env.clock tr, .refreshBlockEvidence networkId indexed, .ok (), ?_⟩
    simp only [h]
    exact hrun
  | error e =>
    rw [h] at hrun
    refine ⟨env.clock tr, .refreshBlockEvidence networkId indexed, .error e, ?_⟩
    simp only [h]
    exact hrun

theorem replaceCanonicalBranch_issues (networkId : Text) (oldTip : ChainTip)
    (ancestor : Option (Nat × Text)) (replacement : List IndexedBlock) :
    Issues lib (Database.replaceCanonicalBranch networkId oldTip ancestor replacement)
      (replaceCanonicalBranch lib networkId oldTip ancestor replacement) := by
  intro env tr db
  have hrun := Prog.runWith_txn (S := explorer) (exec lib) env
    (.replaceCanonicalBranch networkId oldTip ancestor replacement) tr db
  have hx : exec lib (env.clock tr) (.replaceCanonicalBranch networkId oldTip ancestor replacement) db =
      writing (replaceCanonicalBranch lib networkId oldTip ancestor replacement
        (env.clock tr).now db) := rfl
  rw [hx] at hrun
  cases h : replaceCanonicalBranch lib networkId oldTip ancestor replacement
    (env.clock tr).now db with
  | ok db' =>
    rw [h] at hrun
    refine ⟨env.clock tr, .replaceCanonicalBranch networkId oldTip ancestor replacement, .ok (), ?_⟩
    exact hrun
  | error e =>
    rw [h] at hrun
    refine ⟨env.clock tr, .replaceCanonicalBranch networkId oldTip ancestor replacement, .error e, ?_⟩
    exact hrun

theorem parentsStorable_done {seg : Trace} {w : World} {t : DbCall} {r : Result t.Result} :
    ParentsStorable (seg ++ [done w t r]) ↔ ParentsStorable seg := by
  have hunpaired : Unpaired [done w t r] := by
    rintro _ ⟨⟩ before
    unfold lookedUp
    split
    · rename_i hraw
      cases hraw
    · rfl
  rw [parentsStorable_append hunpaired]
  exact and_iff_left (by simp [ParentsStorable, lookups])

variable {α : Type} {p bare : Action α} {R : α → α → Prop} {good : α → Prop}
  {issues : α → Action Unit} {write : α → Timestamp → Db → Result Db}
  {E E' : Environment explorer World} {db : Db}

/-- What is fetched alike with and without parents, and then stored without looking at the
parents' columns, is observed. -/
theorem observed_of_coupled (hcoupled : Coupled RpcCall.isWcash R p bare)
    (hjudged : ∀ C : Contract explorer Db World,
      p.Ensures C (Prog.onOk (Judged [] True good)) [] db)
    (hissues : ∀ a, Issues lib (issues a) (write a))
    (hstorable : ∀ a now db db', write a now db = .ok db' → good a)
    (hwrite : ∀ a b now now' db, R a b → good a →
      Db.withoutParents <$> write a now db = Db.withoutParents <$> write b now' db)
    (hE : AgreeOn RpcCall.isWcash E E') :
    Observed db ((p >>= issues).runWith (exec lib) E [] db)
      ((bare >>= issues).runWith (exec lib) E' [] db) := by
  have hpast : publicPart RpcCall.isWcash ([] : Trace) = publicPart RpcCall.isWcash [] := rfl
  have hrun := hcoupled.runWith hE (exec lib) (exec lib) hpast db db
  have hgood : Prog.onOk (Judged [] True good) (p.runWith (exec lib) E [] db).1
      (p.runWith (exec lib) E [] db).2.1 (p.runWith (exec lib) E [] db).2.2 :=
    (hjudged ⟨exec lib, fun _ _ => True, fun _ _ _ => True⟩).runWith fun _ _ => trivial
  rw [Prog.runWith_bind, Prog.runWith_bind]
  generalize p.runWith (exec lib) E [] db = fetched at *
  generalize bare.runWith (exec lib) E' [] db = fetched' at *
  obtain ⟨tr, o, d⟩ := fetched
  obtain ⟨tr', o', d'⟩ := fetched'
  dsimp only at hrun hgood
  obtain ⟨-, hends, hd, hd'⟩ := hrun
  subst d d'
  cases o with
  | error e =>
    cases o' with
    | ok b => exact hends.elim
    | error e' =>
      obtain rfl : e = e' := hends
      exact ⟨by simp, fun _ => rfl, nofun, fun _ => rfl⟩
  | ok a =>
    cases o' with
    | error e' => exact hends.elim
    | ok b =>
      obtain ⟨seg, htr, -, hgood⟩ := hgood a rfl
      obtain rfl : tr = seg := htr
      obtain ⟨w, t, r, hrun⟩ := hissues a E tr db
      obtain ⟨w', t', r', hrun'⟩ := hissues b E' tr' db
      have hsame := hwrite a b (E.clock tr).now (E'.clock tr').now db hends
      simp only [hrun, hrun']
      cases hx : write a (E.clock tr).now db with
      | ok da =>
        have hstored := hstorable a _ db da hx
        have hsame := hsame hstored
        rw [hx] at hsame
        cases hy : write b (E'.clock tr').now db with
        | error e =>
          rw [hy] at hsame
          cases hsame
        | ok dab =>
          rw [hy] at hsame
          refine ⟨⟨fun _ => ⟨rfl, ?_⟩, fun _ => rfl⟩, fun _ => rfl, fun _ => Except.ok.inj hsame,
            fun h => absurd rfl h⟩
          exact parentsStorable_done.mpr (hgood.mp hstored).2
      | error e =>
        refine ⟨⟨nofun, ?_⟩, ?_, nofun, fun _ => rfl⟩
        · rintro ⟨hok, hstored⟩
          have hsame := hsame (hgood.mpr ⟨trivial, parentsStorable_done.mp hstored⟩)
          rw [hx] at hsame
          cases hy : write b (E'.clock tr').now db with
          | error e' =>
            rw [hy] at hok
            cases hok
          | ok dab =>
            rw [hy] at hsame
            cases hsame
        · intro hstored
          have hsame := hsame (hgood.mpr ⟨trivial, parentsStorable_done.mp hstored⟩)
          rw [hx] at hsame
          cases hy : write b (E'.clock tr').now db with
          | error e' =>
            rw [hy] at hsame
            cases hsame
            rfl
          | ok dab =>
            rw [hy] at hsame
            cases hsame

theorem commitBlock_bare {networkId : Text} {indexed bare : IndexedBlock} {now now' : Timestamp}
    (hbare : Bare indexed bare) (h : indexed.Storable) :
    Db.withoutParents <$> commitBlock lib networkId indexed now db =
      Db.withoutParents <$> commitBlock lib networkId bare now' db := by
  have hstorable : bare.Storable := by simp [IndexedBlock.Storable, hbare.2]
  rw [← commitBlock_withoutParents h, ← commitBlock_withoutParents hstorable, hbare.1]

theorem refreshBlockEvidence_bare {networkId : Text} {indexed bare : IndexedBlock}
    (hbare : Bare indexed bare) (h : indexed.Storable) :
    Db.withoutParents <$> refreshBlockEvidence lib networkId indexed db =
      Db.withoutParents <$> refreshBlockEvidence lib networkId bare db := by
  have hstorable : bare.Storable := by simp [IndexedBlock.Storable, hbare.2]
  unfold refreshBlockEvidence
  rw [← insertBlock_withoutParents h, ← insertBlock_withoutParents hstorable, hbare.1]

theorem bare_branch {replacement bare : List IndexedBlock}
    (h : List.Forall₂ Bare replacement bare) :
    replacement.map IndexedBlock.withoutParents = bare.map IndexedBlock.withoutParents ∧
      ∀ b ∈ bare, b.Storable := by
  induction h with
  | nil => simp
  | cons hfirst _ ih =>
    obtain ⟨hsame, hstorable⟩ := ih
    refine ⟨by rw [List.map_cons, List.map_cons, hfirst.1, hsame], ?_⟩
    intro b hb
    rcases List.mem_cons.mp hb with rfl | hb
    · simp [IndexedBlock.Storable, hfirst.2]
    · exact hstorable b hb

theorem replaceCanonicalBranch_bare {networkId : Text} {oldTip : ChainTip}
    {ancestor : Option (Nat × Text)} {replacement bare : List IndexedBlock} {now now' : Timestamp}
    (hbare : List.Forall₂ Bare replacement bare) (h : ∀ b ∈ replacement, b.Storable) :
    Db.withoutParents <$> replaceCanonicalBranch lib networkId oldTip ancestor replacement now db =
      Db.withoutParents <$> replaceCanonicalBranch lib networkId oldTip ancestor bare now' db := by
  obtain ⟨hsame, hstorable⟩ := bare_branch hbare
  rw [← replaceCanonicalBranch_withoutParents h, ← replaceCanonicalBranch_withoutParents hstorable,
    hsame]

/-- An execution against a node with any parents beside it is observed against one without. -/
theorem store_observed {self : Indexer lib} (storing : Storing)
    (hlabels : ∀ label ∈ self.auxpow.parents, label.storable = true)
    (hE : AgreeOn RpcCall.isWcash E E') (db : Db) :
    Observed db (self.storeWith storing E db) (self.withoutParents.storeWith storing E' db) := by
  cases storing with
  | commit height previous =>
    exact observed_of_coupled (fetchIndexedBlock_coupled self height previous)
      (fun _ => fetchIndexedBlock_judged hlabels) (fun _ => commitBlock_issues _ _)
      (fun _ _ _ _ => commitBlock_storable) (fun _ _ _ _ _ => commitBlock_bare) hE
  | refresh height previous =>
    exact observed_of_coupled (fetchIndexedBlock_coupled self height previous)
      (fun _ => fetchIndexedBlock_judged hlabels) (fun _ => refreshBlockEvidence_issues _ _)
      (fun _ _ _ _ => insertBlock_storable) (fun _ _ _ _ _ => refreshBlockEvidence_bare) hE
  | replace info nodeTipHash storedTip ancestor =>
    let start := Indexer.nextHeight (ancestor.map Prod.fst)
    let staged (i : Indexer lib) : Action (List IndexedBlock) :=
      i.stageBranch (Indexer.heightCount start info.blocks) start (ancestor.map Prod.snd) >>=
        fun replacement => Indexer.confirmSnapshot info.blocks nodeTipHash ancestor >>=
          fun _ => .ret replacement
    have hprogram (i : Indexer lib) : i.store (.replace info nodeTipHash storedTip ancestor) =
        staged i >>= fun replacement => Database.replaceCanonicalBranch i.network.id storedTip
          ancestor replacement := by
      simp only [staged, Prog.bind_assoc]
      rfl
    have hcoupled : Coupled RpcCall.isWcash (List.Forall₂ Bare) (staged self)
        (staged self.withoutParents) := by
      refine (stageBranch_coupled self _ _ _).bind fun replacement bare hbare => ?_
      exact (Coupled.refl (confirmSnapshot_asksWcash _ _ _)).bind fun _ _ _ => .ret hbare
    have hjudged (C : Contract explorer Db World) : (staged self).Ensures C
        (Prog.onOk (Judged [] True fun blocks => ∀ b ∈ blocks, b.Storable)) [] db := by
      refine bind_judged (stageBranch_judged hlabels) fun tr blocks db => ?_
      exact wcash_judged (confirmSnapshot_asksWcash _ _ _) fun tr _ db => ret_judged (by simp)
    unfold Indexer.storeWith
    rw [hprogram, hprogram]
    exact observed_of_coupled hcoupled hjudged (fun _ => replaceCanonicalBranch_issues _ _ _ _)
      (fun _ _ _ _ => replaceCanonicalBranch_storable) (fun _ _ _ _ _ => replaceCanonicalBranch_bare) hE

/-- Parent nodes show in a stored Wcash block only by stopping it: two executions against the same
Wcash node end alike exactly if the block is refused without parents too, or if the answers of the
parents fit the columns in both or in neither. -/
theorem parents_stop_or_agree {self : Indexer lib} (storing : Storing)
    (hlabels : ∀ label ∈ self.auxpow.parents, label.storable = true)
    (hE : AgreeOn RpcCall.isWcash E E') (db : Db) :
    let run := self.storeWith storing E db
    let run' := self.storeWith storing E' db
    (Alike db run run' ↔ ((self.withoutParents.storeWith storing E db).2.1 ≠ .ok () ∨
      (ParentsStorable run.1 ↔ ParentsStorable run'.1))) ∧
      (ParentsStorable run.1 → ParentsStorable run'.1 → run.2.1 = run'.2.1) := by
  intro run run'
  have hself : AgreeOn RpcCall.isWcash E' E := fun tr tr' htr q hq => (hE tr' tr htr.symm q hq).symm
  have hsame : AgreeOn RpcCall.isWcash E E := fun tr tr' htr q hq =>
    (hE tr tr' htr q hq).trans (hself tr' tr' rfl q hq)
  have h := store_observed storing hlabels hsame db
  have h' := store_observed storing hlabels hself db
  generalize self.withoutParents.storeWith storing E db = bare at h h'
  have hfails {o : Except ExplorerError Unit} (ho : o ≠ .ok ()) : ∃ e, o = .error e := by
    cases o with
    | ok u => exact absurd rfl ho
    | error e => exact ⟨e, rfl⟩
  refine ⟨⟨?_, ?_⟩, fun hs hs' => (h.outcome hs).trans (h'.outcome hs').symm⟩
  · rintro (⟨hok, hok', -⟩ | ⟨⟨e, he⟩, ⟨e', he'⟩, -, -⟩)
    · exact .inr (iff_of_true (h.succeeds.mp hok).2 (h'.succeeds.mp hok').2)
    · by_cases hbare : bare.2.1 = .ok ()
      · right
        have hno : ¬ ParentsStorable run.1 := fun hs => by
          have hok := h.succeeds.mpr ⟨hbare, hs⟩
          rw [he] at hok
          cases hok
        have hno' : ¬ ParentsStorable run'.1 := fun hs => by
          have hok := h'.succeeds.mpr ⟨hbare, hs⟩
          rw [he'] at hok
          cases hok
        exact iff_of_false hno hno'
      · exact .inl hbare
  · intro hcond
    by_cases hok : run.2.1 = .ok ()
    · obtain ⟨hbare, hs⟩ := h.succeeds.mp hok
      have hiff := hcond.resolve_left fun hne => hne hbare
      have hok' := h'.succeeds.mpr ⟨hbare, hiff.mp hs⟩
      exact .inl ⟨hok, hok', (h.state hok).trans (h'.state hok').symm⟩
    · have hok' : run'.2.1 ≠ .ok () := by
        intro hok'
        obtain ⟨hbare, hs'⟩ := h'.succeeds.mp hok'
        have hiff := hcond.resolve_left fun hne => hne hbare
        exact hok (h.succeeds.mpr ⟨hbare, hiff.mpr hs'⟩)
      exact .inr ⟨hfails hok, hfails hok', h.rolledBack hok, h'.rolledBack hok'⟩

end Storing

section Sample

/-- A node with one parent node beside it. -/
def withParent (node : (q : RpcCall) → q.Answer) (block : Result ParentBlock)
    (encoded : Result Text) : (q : RpcCall) → q.Answer
  | .parentBlock _ _ => block
  | .parentRaw _ _ => encoded
  | q => node q

/-- The steady node, and a parent that gives one answer to every lookup. -/
def parentNode (digits : List Char) (block : Result ParentBlock) : Environment explorer World where
  answer := fun _ => withParent (nodeAnswer sampleNetwork (sampleChain digits) 0) block
    (.ok (hexEncode (sampleCrate.parentHeader ())))
  clock := fun _ => { now := 0 }

theorem parentNode_agreeOn (digits : List Char) (block block' : Result ParentBlock) :
    AgreeOn RpcCall.isWcash (parentNode digits block) (parentNode digits block') := by
  intro tr tr' _ q hq
  cases q <;> first | rfl | cases hq

/-- The sample indexer with one parent configured. -/
def observingIndexer : Indexer sampleCrate :=
  { sampleIndexer 10 with
    auxpow := { parents := ["zcash-rpc-primary".toList], nu7ActivationHeight := none } }

def sampleParent (height : Nat) : ParentBlock :=
  { height, confirmations := 1, time := 0, bits := [], difficulty := .null }

/-- A parent whose block height needs the 64th bit stops the commit of a Wcash block. -/
theorem tall_parent_stops_commit :
    AgreeOn RpcCall.isWcash (parentNode ['1'] (.ok (sampleParent 7)))
        (parentNode ['1'] (.ok (sampleParent (2 ^ 63)))) ∧
      ¬ Alike (sampleDb [[]])
        (observingIndexer.storeWith (.commit 1 (some (sampleHash '0')))
          (parentNode ['1'] (.ok (sampleParent 7))) (sampleDb [[]]))
        (observingIndexer.storeWith (.commit 1 (some (sampleHash '0')))
          (parentNode ['1'] (.ok (sampleParent (2 ^ 63)))) (sampleDb [[]])) := by
  refine ⟨parentNode_agreeOn _ _ _, ?_⟩
  have hok : (observingIndexer.storeWith (.commit 1 (some (sampleHash '0')))
      (parentNode ['1'] (.ok (sampleParent 7))) (sampleDb [[]])).2.1.isOk = true := by
    decide +kernel
  have hfail : (observingIndexer.storeWith (.commit 1 (some (sampleHash '0')))
      (parentNode ['1'] (.ok (sampleParent (2 ^ 63)))) (sampleDb [[]])).2.1.isOk = false := by
    decide +kernel
  rintro (⟨-, hok', -⟩ | ⟨⟨e, he⟩, -, -, -⟩)
  · rw [hok'] at hfail
    cases hfail
  · rw [he] at hok
    cases hok

/-- A parent that answers and one that cannot be reached leave the same Wcash block behind. -/
theorem parents_stop_or_agree_unreachable :
    Alike (sampleDb [[]])
      (observingIndexer.storeWith (.commit 1 (some (sampleHash '0')))
        (parentNode ['1'] (.ok (sampleParent 7))) (sampleDb [[]]))
      (observingIndexer.storeWith (.commit 1 (some (sampleHash '0')))
        (parentNode ['1'] (.error .rpcTransport)) (sampleDb [[]])) := by
  have hlabels : ∀ label ∈ observingIndexer.auxpow.parents, label.storable = true := by decide
  refine (parents_stop_or_agree _ hlabels (parentNode_agreeOn _ _ _) _).1.mpr (.inr ?_)
  exact iff_of_true (by decide +kernel) (by decide +kernel)

end Sample

end WcashExplorer
