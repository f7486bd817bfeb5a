import WcashExplorer.Db.Calls
import WcashExplorer.Effects.Yielding
import WcashExplorer.Indexer.History

/-! Every block an indexer stores was vetted: verified, and its evidence classified. -/
namespace WcashExplorer

open Effects Relational

variable {lib : AuxPowCrate} {networkId : Text} {db db' : Db} {Q : DbCall → Prop}

/-- The proof attached to a block is what the verifier made of the block's own bytes, with one
observation for each configured parent. -/
def Verified (lib : AuxPowCrate) (verifier : AuxPowVerifier lib) (block : RpcBlock)
    (rawBlock : Bytes) : Option VerifiedAuxPow → Prop
  | none => localEvidence lib verifier block rawBlock = .ok none
  | some aux => ∃ proofBytes proof coinbase confirmations observations,
      localEvidence lib verifier block rawBlock = .ok (some (proofBytes, proof, coinbase)) ∧
      observations.map ParentObservation.source = verifier.parents ∧
      aux = verifiedAuxPow lib rawBlock proofBytes proof coinbase (.bestChain confirmations)
        observations

/-- A block as some indexer hands it to the database. -/
def Vetted (lib : AuxPowCrate) (verifier : AuxPowVerifier lib) (indexed : IndexedBlock) : Prop :=
  Verified lib verifier indexed.block indexed.rawBlock indexed.auxpow

section Verification

theorem orFail_yields {α : Type} {r : Result α} {R : α → Prop} (h : ∀ a, r = .ok a → R a) :
    (orFail r).Yields Q R := Prog.Yields.ofExcept h

theorem asksOnly_yields {α : Type} {P : RpcCall → Prop} {p : Action α} (h : p.AsksOnly P) :
    p.Yields Q fun _ => True := by
  induction p with
  | ret a => exact trivial
  | fail e => exact trivial
  | ask q k ih => exact fun a => ih a (h.2 a)
  | atomically t k ih => exact h.elim

theorem observeParent_yields {parent : Nat} {source hash : Text} {header : Bytes} :
    (observeParent lib parent source hash header).Yields Q fun o => o.source = source := by
  refine Prog.Yields.bind (R := fun _ => True) (fun _ => trivial) fun checkedAt _ => ?_
  refine Prog.Yields.handle ?_ fun _ => rfl
  exact (asksOnly_yields (parentLookups_asksOnly parent hash)).bind fun _ _ => rfl

theorem observeParents_yields {hash : Text} {header : Bytes} {parent : Nat}
    {sources : List Text} :
    (observeParents lib hash header parent sources).Yields Q fun observations =>
      observations.map ParentObservation.source = sources := by
  induction sources generalizing parent with
  | nil => exact rfl
  | cons source rest ih =>
    refine observeParent_yields.bind fun o ho => ih.bind fun os hos => ?_
    change (o :: os).map ParentObservation.source = source :: rest
    rw [List.map_cons, ho, hos]

theorem verify_yields {verifier : AuxPowVerifier lib} {block : RpcBlock} {rawBlock : Bytes} :
    (verify lib verifier block rawBlock).Yields Q (Verified lib verifier block rawBlock) := by
  refine Prog.Yields.bind (orFail_yields fun _ h => h) fun evidence hevidence => ?_
  cases evidence with
  | none => exact hevidence
  | some found =>
    obtain ⟨proofBytes, proof, coinbase⟩ := found
    refine (asksOnly_yields (auxBlockStatus_asksOnly _ _)).bind fun status _ => ?_
    refine Prog.Yields.bind (orFail_yields fun _ h => h) fun _ hbest => ?_
    refine observeParents_yields.bind fun observations hobservations => ?_
    cases status with
    | bestChain c => exact ⟨proofBytes, proof, coinbase, c, observations, hevidence,
        hobservations, rfl⟩
    | _ => cases hbest

end Verification

section Indexer

variable {self : Indexer lib}

/-- A method that stores vetted blocks only. -/
def storesVetted (verifier : AuxPowVerifier lib) (t : DbCall) : Prop :=
  ∀ b ∈ t.blocks, Vetted lib verifier b

theorem fetchIndexedBlock_yields {height : Nat} {previous : Option Text} :
    (self.fetchIndexedBlock height previous).Yields Q (Vetted lib self.auxpow) := by
  refine Prog.Yields.bind (R := fun _ => True)
    (fun _ => orFail_yields fun _ _ => trivial) fun hash _ => ?_
  refine (asksOnly_yields (blockRaw_asksOnly hash)).bind fun rawBlock _ => ?_
  refine (asksOnly_yields (blockVerbose_asksOnly hash)).bind fun verbose _ => ?_
  refine Prog.Yields.bind (orFail_yields fun _ h => h) fun _ _ => ?_
  refine Prog.Yields.bind (orFail_yields fun _ h => h) fun _ _ => ?_
  refine verify_yields.bind fun auxpow hverified => ?_
  refine Prog.Yields.bind (R := fun _ => True)
    (fun _ => orFail_yields fun _ _ => trivial) fun confirmed _ => ?_
  refine Prog.Yields.bind (orFail_yields fun _ h => h) fun _ _ => ?_
  exact fun fetchedAt => hverified

theorem stageBranch_yields {count height : Nat} {previous : Option Text} :
    (self.stageBranch count height previous).Yields Q fun blocks =>
      ∀ b ∈ blocks, Vetted lib self.auxpow b := by
  induction count generalizing height previous with
  | zero => exact fun b hb => by cases hb
  | succ count ih =>
    refine fetchIndexedBlock_yields.bind fun indexed hindexed => ih.bind fun rest hrest => ?_
    exact fun b hb => (List.mem_cons.mp hb).elim (fun h => h ▸ hindexed) (hrest b)

theorem appendBlocks_yields {count height : Nat} {previous : Option Text} :
    (self.appendBlocks count height previous).Yields (storesVetted self.auxpow)
      fun _ => True := by
  induction count generalizing height previous with
  | zero => exact trivial
  | succ count ih =>
    refine fetchIndexedBlock_yields.bind fun indexed hindexed => ?_
    refine Prog.Yields.bind (Prog.Yields.txn ?_ fun _ => trivial) fun _ _ => ?_
    · exact fun b hb => by
        obtain rfl := List.mem_singleton.mp hb
        exact hindexed
    · exact ih.bind fun _ _ => trivial

theorem quiet_yields {t : DbCall} (h : t.blocks = []) :
    (issue t).Yields (storesVetted self.auxpow) fun _ => True :=
  Prog.Yields.txn (fun b hb => by rw [h] at hb; cases hb) fun _ => trivial

theorem validateIdentity_yields {chain : Text} :
    (self.validateIdentity chain).Yields Q fun _ => True := by
  refine Prog.Yields.bind (R := fun _ => True) (fun _ => orFail_yields fun _ _ => trivial)
    fun _ _ => ?_
  exact (orFail_yields fun _ h => h).bind fun _ _ => orFail_yields fun _ _ => trivial

theorem searchAncestor_yields {examined height : Nat} :
    (self.searchAncestor examined height).Yields (storesVetted self.auxpow) fun _ => True := by
  have hexamine {examined height : Nat} : (self.examineHeight examined height).Yields
      (storesVetted self.auxpow) fun _ => True := by
    refine Prog.Yields.bind (R := fun _ => True) (orFail_yields fun _ _ => trivial) fun _ _ => ?_
    refine (quiet_yields rfl).bind fun _ _ => ?_
    exact Prog.Yields.bind (R := fun _ => True) (fun _ => orFail_yields fun _ _ => trivial)
      fun _ _ => trivial
  induction height generalizing examined with
  | zero =>
    refine hexamine.bind fun found _ => ?_
    cases found <;> exact trivial
  | succ below ih =>
    refine hexamine.bind fun found _ => ?_
    cases found with
    | none => exact ih
    | some ancestor => exact trivial

theorem confirmSnapshot_yields {height : Nat} {hash : Text} {ancestor : Option (Nat × Text)} :
    (Indexer.confirmSnapshot height hash ancestor).Yields Q fun _ => True := by
  refine Prog.Yields.bind (R := fun _ => True) (fun _ => orFail_yields fun _ _ => trivial)
    fun _ _ => ?_
  refine Prog.Yields.bind (R := fun _ => True) (orFail_yields fun _ _ => trivial) fun _ _ => ?_
  cases ancestor with
  | none => exact trivial
  | some a =>
    refine Prog.Yields.bind (R := fun _ => True) (fun _ => orFail_yields fun _ _ => trivial)
      fun _ _ => ?_
    exact orFail_yields fun _ _ => trivial

theorem advance_yields {info : BlockchainInfo} {hash : Text} {tip : Option ChainTip} :
    (self.advance info hash tip).Yields (storesVetted self.auxpow) fun _ => True := by
  have happend (tip : Option ChainTip) : (self.append info tip).Yields
      (storesVetted self.auxpow) fun _ => True := appendBlocks_yields.bind fun _ _ => trivial
  cases tip with
  | none => exact happend none
  | some storedTip =>
    refine Prog.Yields.bind (R := fun _ => True) ?_ fun matched _ => ?_
    · unfold Indexer.canonicalMatches
      split
      · exact Prog.Yields.bind (R := fun _ => True) (fun _ => orFail_yields fun _ _ => trivial)
          fun _ _ => trivial
      · exact trivial
    · cases matched with
      | true => exact happend (some storedTip)
      | false =>
        refine Prog.Yields.bind (R := fun _ => True)
          (searchAncestor_yields.bind fun _ _ => trivial) fun ancestor _ => ?_
        refine stageBranch_yields.bind fun replacement hvetted => ?_
        refine confirmSnapshot_yields.bind fun _ _ => ?_
        refine (Prog.Yields.txn hvetted fun _ => trivial).bind fun _ _ => ?_
        exact (quiet_yields rfl).bind fun _ _ => trivial

theorem refreshEvidence_yields :
    self.refreshEvidence.Yields (storesVetted self.auxpow) fun _ => True := by
  refine (quiet_yields rfl).bind fun candidate _ => ?_
  cases candidate with
  | none => exact trivial
  | some found =>
    obtain ⟨height, hash⟩ := found
    refine Prog.Yields.bind (R := fun _ => True) ?_ fun _ _ => ?_
    · cases height with
      | zero => exact trivial
      | succ below =>
        exact Prog.Yields.bind (R := fun _ => True) (fun _ => orFail_yields fun _ _ => trivial)
          fun _ _ => trivial
    · refine fetchIndexedBlock_yields.bind fun indexed hindexed => ?_
      refine Prog.Yields.txn ?_ fun _ => trivial
      exact fun b hb => by
        obtain rfl := List.mem_singleton.mp hb
        exact hindexed

/-- A round stores vetted blocks only, whatever the nodes answer. -/
theorem tick_yields : self.tick.Yields (storesVetted self.auxpow) fun _ => True := by
  refine Prog.Yields.handle (Prog.Yields.bind (R := fun _ => True) ?_ fun _ _ => trivial)
    fun _ => Prog.Yields.handle (quiet_yields rfl) fun _ => trivial
  refine Prog.Yields.bind (R := fun _ => True) (fun _ => orFail_yields fun _ _ => trivial)
    fun info _ => ?_
  refine Prog.Yields.bind (R := fun _ => True) (fun _ => orFail_yields fun _ _ => trivial)
    fun hash _ => ?_
  refine validateIdentity_yields.bind fun _ _ => (quiet_yields rfl).bind fun tip _ => ?_
  refine (quiet_yields rfl).bind fun _ _ => advance_yields.bind fun counts _ => ?_
  refine refreshEvidence_yields.bind fun _ _ => (quiet_yields rfl).bind fun _ _ => ?_
  exact (quiet_yields rfl).bind fun _ _ => trivial

end Indexer

section Histories

/-- Blocks that some indexer vetted, under whatever parents it had configured. -/
def someVetted (lib : AuxPowCrate) (_ : Db) (t : DbCall) : Prop :=
  ∀ b ∈ t.blocks, ∃ verifier, Vetted lib verifier b

/-- Every history of rounds, with parents configured differently from round to round, is a
sequence of methods that store vetted blocks. -/
theorem History.calls {P : PassProperty lib} (h : History lib networkId P db db') :
    ∃ log, Calls lib (someVetted lib) db log db' := by
  induction h with
  | refl => exact ⟨[], .nil _⟩
  | @pass db₁ db₂ indexer tr rest _ _ run _ ih =>
    obtain ⟨log, hlog⟩ := ih
    have hround : Calls lib (someVetted lib) db₁ (committed tr) db₂ :=
      (Calls.of_yields tick_yields run).mono fun _ t ht b hb => ⟨_, ht b hb⟩
    exact ⟨_, hlog.trans hround⟩

end Histories

end WcashExplorer
