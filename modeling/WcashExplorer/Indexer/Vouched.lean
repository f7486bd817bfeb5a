import WcashExplorer.Effects.Given
import WcashExplorer.Effects.Serial
import WcashExplorer.Indexer.Keeping
import WcashExplorer.Indexer.Parents
import WcashExplorer.Indexer.Vetted

/-! Where the stored observations come from: the parents' own answers in the round that stored
them. -/
namespace WcashExplorer

open Effects Relational

variable {lib : AuxPowCrate} {answers : Answers} {Q : DbCall → Prop} {hash source : Text}
  {header : Bytes} {parent : Nat}

/-- A parent's answers have a header on its best chain: the block it finds under a hash is not
orphaned, and the raw block begins with the header. -/
structure Vouches (lib : AuxPowCrate) (answers : Answers) (hash : Text) (header : Bytes)
    (parent : Nat) (block : ParentBlock) : Prop where
  found : answers (.parentBlock parent hash) (.ok block)
  confirmed : 0 ≤ block.confirmations
  header : ∃ encoded raw, answers (.parentRaw parent hash) (.ok encoded) ∧
    decodeHexBounded "raw block" encoded (maxRpcResponseBytes / 2) = .ok raw ∧
    raw.take lib.parentHeaderBytes = header

/-- An observation of a parent was made from its answers. -/
structure Observes (lib : AuxPowCrate) (answers : Answers) (hash : Text) (header : Bytes)
    (parent : Nat) (source : Text) (o : ParentObservation) : Prop where
  source : o.source = source
  clocked : answers .utcNow o.checkedAt
  vouched : o.state = .canonical → ∃ block ∈ o.block, Vouches lib answers hash header parent block

/-- The observations of consecutive parents, one each. -/
structure ObserveAll (lib : AuxPowCrate) (answers : Answers) (hash : Text) (header : Bytes)
    (parent : Nat) (sources : List Text) (observations : List ParentObservation) : Prop where
  length : observations.length = sources.length
  each : ∀ (i : Nat) (o : ParentObservation) (s : Text), observations[i]? = some o →
    sources[i]? = some s → Observes lib answers hash header (parent + i) s o

section Observing

theorem parentLookups_given : (parentLookups parent hash).YieldsGiven answers Q fun found =>
    answers (.parentBlock parent hash) (.ok found.1) ∧ ∃ encoded,
      answers (.parentRaw parent hash) (.ok encoded) ∧
        decodeHexBounded "raw block" encoded (maxRpcResponseBytes / 2) = .ok found.2 := by
  have hblock : (Parent.parentBlock parent hash).YieldsGiven answers Q fun block =>
      answers (.parentBlock parent hash) (.ok block) := by
    refine Prog.YieldsGiven.bind (R := fun _ => True) (Prog.YieldsGiven.ofExcept fun _ _ => trivial)
      fun _ _ => ?_
    intro a ha
    exact Prog.YieldsGiven.ofExcept fun block hok => hok ▸ ha
  have hraw : (Parent.blockRaw parent hash).YieldsGiven answers Q fun raw => ∃ encoded,
      answers (.parentRaw parent hash) (.ok encoded) ∧
        decodeHexBounded "raw block" encoded (maxRpcResponseBytes / 2) = .ok raw := by
    refine Prog.YieldsGiven.bind (R := fun _ => True) (Prog.YieldsGiven.ofExcept fun _ _ => trivial)
      fun _ _ => ?_
    refine Prog.YieldsGiven.bind (R := fun encoded => answers (.parentRaw parent hash) (.ok encoded))
      ?_ fun encoded hencoded => ?_
    · intro a ha
      exact Prog.YieldsGiven.ofExcept fun encoded hok => hok ▸ ha
    · exact Prog.YieldsGiven.ofExcept fun raw hok => ⟨encoded, hencoded, hok⟩
  refine hblock.bind fun block hfound => hraw.bind fun raw hanswered => ?_
  exact ⟨hfound, hanswered⟩

/-- Only a parent that has the header makes a canonical observation. -/
theorem foundObservation_canonical {checkedAt : Timestamp} {block : ParentBlock} {raw : Bytes}
    (h : (foundObservation lib source header checkedAt block raw).state = .canonical) :
    0 ≤ block.confirmations ∧ raw.take lib.parentHeaderBytes = header := by
  simp only [foundObservation] at h
  split at h
  · cases h
  · rename_i hmatches
    split at h
    · cases h
    · rename_i hconfirmed
      simp only [Bool.not_eq_true', Bool.not_eq_false, Bool.and_eq_true, decide_eq_true_eq]
        at hmatches
      exact ⟨not_lt.mp hconfirmed, hmatches.2⟩

theorem failedObservation_canonical {checkedAt : Timestamp} {e : ExplorerError} :
    (failedObservation source checkedAt e).state ≠ .canonical := by
  unfold failedObservation
  cases e with
  | rpc code message =>
    dsimp only
    split <;> simp
  | _ => simp

theorem observeParent_given : (observeParent lib parent source hash header).YieldsGiven answers Q
    (Observes lib answers hash header parent source) := by
  refine Prog.YieldsGiven.bind (R := fun t => answers .utcNow t) (fun _ ht => ht)
    fun checkedAt hclocked => ?_
  refine Prog.YieldsGiven.handle ?_ fun e =>
    ⟨rfl, hclocked, fun h => absurd h failedObservation_canonical⟩
  refine Prog.YieldsGiven.bind parentLookups_given fun found hfound => ?_
  obtain ⟨block, raw⟩ := found
  obtain ⟨hblock, encoded, hencoded, hdecoded⟩ := hfound
  refine ⟨rfl, hclocked, fun h => ⟨block, rfl, hblock, ?_, encoded, raw, hencoded, hdecoded, ?_⟩⟩
  · exact (foundObservation_canonical h).1
  · exact (foundObservation_canonical h).2

theorem observeParents_given {sources : List Text} :
    (observeParents lib hash header parent sources).YieldsGiven answers Q
      (ObserveAll lib answers hash header parent sources) := by
  induction sources generalizing parent with
  | nil => exact ⟨rfl, by simp⟩
  | cons source rest ih =>
    refine observeParent_given.bind fun o ho => ih.bind fun os hos => ?_
    refine ⟨by simp [hos.length], fun i o' s hi hs => ?_⟩
    cases i with
    | zero =>
      obtain rfl := Option.some.inj hi
      obtain rfl := Option.some.inj hs
      exact ho
    | succ i =>
      have hrest := hos.each i o' s hi hs
      rwa [Nat.add_right_comm] at hrest

end Observing

/-- The observations of a block's proof were made from answers about the proof's own header. -/
def Attested (lib : AuxPowCrate) (verifier : AuxPowVerifier lib) (answers : Answers)
    (block : RpcBlock) (rawBlock : Bytes) : Option VerifiedAuxPow → Prop
  | none => True
  | some aux => ∃ proofBytes proof coinbase,
      localEvidence lib verifier block rawBlock = .ok (some (proofBytes, proof, coinbase)) ∧
      aux.parentBlockHash = displayHash (lib.parentHeaderHash proof) ∧
      ObserveAll lib answers aux.parentBlockHash (lib.parentHeader proof) 0 verifier.parents
        aux.parentObservations

/-- So they were for a fetched block, which the node answered with and the process read its clock
for. -/
structure Vouched (lib : AuxPowCrate) (verifier : AuxPowVerifier lib) (answers : Answers)
    (indexed : IndexedBlock) : Prop where
  answered : ∃ hash, answers (.blockVerbose hash) (.ok (indexed.block, indexed.raw))
  attested : Attested lib verifier answers indexed.block indexed.rawBlock indexed.auxpow
  clocked : answers .utcNow indexed.fetchedAt

section Rounds

variable {self : Indexer lib} {block : RpcBlock} {rawBlock : Bytes} {height count : Nat}
  {previous : Option Text}

/-- A method that stores such blocks only. -/
def storesVouched (verifier : AuxPowVerifier lib) (answers : Answers) (t : DbCall) : Prop :=
  ∀ b ∈ t.blocks, Vouched lib verifier answers b

theorem orFail_given {α : Type} {r : Result α} :
    (orFail r).YieldsGiven answers Q fun a => r = .ok a := Prog.YieldsGiven.ofExcept fun _ h => h

theorem blockHash_given : (Wcash.blockHash height).YieldsGiven answers Q fun _ => True :=
  (blockHash_asksWcash height).yieldsGiven

theorem blockVerbose_given : (Wcash.blockVerbose hash).YieldsGiven answers Q fun verbose =>
    answers (.blockVerbose hash) (.ok verbose) := by
  refine orFail_given.bind fun _ _ => ?_
  intro a ha
  exact Prog.YieldsGiven.ofExcept fun verbose hok => hok ▸ ha

theorem quiet_given {t : DbCall} (h : t.blocks = []) :
    (issue t).YieldsGiven answers (storesVouched self.auxpow answers) fun _ => True :=
  Prog.YieldsGiven.txn fun b hb => by rw [h] at hb; cases hb

theorem verify_given {verifier : AuxPowVerifier lib} :
    (verify lib verifier block rawBlock).YieldsGiven answers Q
      (Attested lib verifier answers block rawBlock) := by
  refine orFail_given.bind fun evidence hevidence => ?_
  cases evidence with
  | none => exact trivial
  | some found =>
    obtain ⟨proofBytes, proof, coinbase⟩ := found
    refine (auxBlockStatus_asksOnly _ _).yieldsGiven.bind fun status _ => ?_
    refine orFail_given.bind fun _ _ => observeParents_given.bind fun observations hall => ?_
    exact ⟨proofBytes, proof, coinbase, hevidence, rfl, hall⟩

theorem fetchIndexedBlock_given : (self.fetchIndexedBlock height previous).YieldsGiven answers Q
    (Vouched lib self.auxpow answers) := by
  refine blockHash_given.bind fun hash _ => ?_
  refine (blockRaw_asksOnly hash).yieldsGiven.bind fun rawBlock _ => ?_
  refine blockVerbose_given.bind fun verbose hanswered => ?_
  refine orFail_given.bind fun _ _ => orFail_given.bind fun _ _ => ?_
  refine verify_given.bind fun auxpow hattested => blockHash_given.bind fun _ _ => ?_
  refine orFail_given.bind fun _ _ => ?_
  exact fun fetchedAt hclocked => ⟨⟨hash, hanswered⟩, hattested, hclocked⟩

theorem stageBranch_given : (self.stageBranch count height previous).YieldsGiven answers Q
    fun blocks => ∀ b ∈ blocks, Vouched lib self.auxpow answers b := by
  induction count generalizing height previous with
  | zero => exact fun b hb => by cases hb
  | succ count ih =>
    refine fetchIndexedBlock_given.bind fun indexed hindexed => ih.bind fun rest hrest => ?_
    exact List.forall_mem_cons.mpr ⟨hindexed, hrest⟩

theorem appendBlocks_given : (self.appendBlocks count height previous).YieldsGiven answers
    (storesVouched self.auxpow answers) fun _ => True := by
  induction count generalizing height previous with
  | zero => exact trivial
  | succ count ih =>
    refine fetchIndexedBlock_given.bind fun indexed hindexed => ?_
    refine (Prog.YieldsGiven.txn ?_).bind fun _ _ => ih.bind fun _ _ => trivial
    exact List.forall_mem_singleton.mpr hindexed

theorem searchAncestor_given {examined : Nat} : (self.searchAncestor examined height).YieldsGiven
    answers (storesVouched self.auxpow answers) fun _ => True := by
  have hexamine {examined height : Nat} : (self.examineHeight examined height).YieldsGiven answers
      (storesVouched self.auxpow answers) fun _ => True := by
    refine orFail_given.bind fun _ _ => (quiet_given rfl).bind fun _ _ => ?_
    exact blockHash_given.bind fun _ _ => trivial
  induction height generalizing examined with
  | zero =>
    refine hexamine.bind fun found _ => ?_
    cases found <;> exact trivial
  | succ below ih =>
    refine hexamine.bind fun found _ => ?_
    cases found with
    | none => exact ih
    | some ancestor => exact trivial

theorem advance_given {info : BlockchainInfo} {tip : Option ChainTip} :
    (self.advance info hash tip).YieldsGiven answers (storesVouched self.auxpow answers)
      fun _ => True := by
  have happend (tip : Option ChainTip) : (self.append info tip).YieldsGiven answers
      (storesVouched self.auxpow answers) fun _ => True := appendBlocks_given.bind fun _ _ => trivial
  cases tip with
  | none => exact happend none
  | some storedTip =>
    refine Prog.YieldsGiven.bind (R := fun _ => True) ?_ fun matched _ => ?_
    · unfold Indexer.canonicalMatches
      split
      · exact blockHash_given.bind fun _ _ => trivial
      · exact trivial
    · cases matched with
      | true => exact happend (some storedTip)
      | false =>
        refine Prog.YieldsGiven.bind (R := fun _ => True)
          (searchAncestor_given.bind fun _ _ => trivial) fun ancestor _ => ?_
        refine stageBranch_given.bind fun replacement hvouched => ?_
        refine (confirmSnapshot_asksWcash _ _ _).yieldsGiven.bind fun _ _ => ?_
        refine (Prog.YieldsGiven.txn hvouched).bind fun _ _ => ?_
        exact (quiet_given rfl).bind fun _ _ => trivial

theorem refreshEvidence_given : self.refreshEvidence.YieldsGiven answers
    (storesVouched self.auxpow answers) fun _ => True := by
  refine (quiet_given rfl).bind fun candidate _ => ?_
  cases candidate with
  | none => exact trivial
  | some found =>
    obtain ⟨height, hash⟩ := found
    refine (servedPredecessor_asksOnly height).yieldsGiven.bind fun _ _ => ?_
    refine fetchIndexedBlock_given.bind fun indexed hindexed => Prog.YieldsGiven.txn ?_
    exact List.forall_mem_singleton.mpr hindexed

/-- A round stores blocks whose observations were made from the answers it was given. -/
theorem tick_given : self.tick.YieldsGiven answers (storesVouched self.auxpow answers)
    fun _ => True := by
  refine Prog.YieldsGiven.handle (Prog.YieldsGiven.bind (R := fun _ => True) ?_ fun _ _ => trivial)
    fun _ => Prog.YieldsGiven.handle (quiet_given rfl) fun _ => trivial
  refine Prog.YieldsGiven.bind (R := fun _ => True)
    (fun _ _ => Prog.YieldsGiven.ofExcept fun _ _ => trivial) fun info _ => ?_
  refine blockHash_given.bind fun hash _ => ?_
  refine (validateIdentity_asksOnly _).yieldsGiven.bind fun _ _ => ?_
  refine (quiet_given rfl).bind fun tip _ => (quiet_given rfl).bind fun _ _ => ?_
  refine advance_given.bind fun counts _ => refreshEvidence_given.bind fun _ _ => ?_
  exact (quiet_given rfl).bind fun _ _ => (quiet_given rfl).bind fun _ _ => trivial

/-- The answers of a round. -/
def answersIn (tr : Trace) : Answers := fun q a => asked q a ∈ tr

/-- What a round offers to the store, it has observed in the answers of the round itself. -/
theorem tick_vouched {rest : Action Unit} {db db' : Db} {tr : Trace} {w : World} {t : DbCall}
    {r : Result t.Result} (run : Run (exec lib) (self.tick, db) tr (rest, db'))
    (h : done w t r ∈ tr) : ∀ b ∈ t.blocks, Vouched lib self.auxpow (answersIn tr) b :=
  tick_given.run run (fun _ _ hmem => hmem) w t r h

theorem mem_committed {tr : Trace} {t : DbCall} (h : t ∈ committed tr) :
    ∃ w r, done w t (.ok r) ∈ tr := by
  induction tr with
  | nil => cases h
  | cons ev rest ih =>
    have hlater (h : t ∈ committed rest) : ∃ w r, done w t (.ok r) ∈ ev :: rest := by
      obtain ⟨w, r, hmem⟩ := ih h
      exact ⟨w, r, List.mem_cons_of_mem _ hmem⟩
    cases ev with
    | asked q a => exact hlater h
    | done w t' r =>
      cases r with
      | error e => exact hlater h
      | ok r =>
        rcases List.mem_cons.mp h with rfl | h
        · exact ⟨w, r, List.mem_cons_self⟩
        · exact hlater h

end Rounds

end WcashExplorer
