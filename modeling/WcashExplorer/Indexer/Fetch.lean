import WcashExplorer.Db.Database
import WcashExplorer.Effects.Logic
import WcashExplorer.Indexer

/-! Fetching one block: what is asked, and what a block that is handed on has passed. -/
namespace WcashExplorer

open Effects

/-- The history of one pass. -/
abbrev Trace : Type := List (Event explorer World)

/-- A question and its answer in a pass's history. -/
abbrev asked (q : RpcCall) (a : q.Answer) : Event explorer World := .asked q a

/-- A database method and its outcome in a pass's history. -/
abbrev done (w : World) (t : DbCall) (r : Result t.Result) : Event explorer World := .done w t r

/-- The questions of proof verification. -/
def RpcCall.Evidence : RpcCall → Prop
  | auxBlockStatus _ _ => True
  | parentBlock _ _ => True
  | parentRaw _ _ => True
  | utcNow => True
  | _ => False

/-- The questions of fetching the block at a height. -/
def RpcCall.Fetch (height : Nat) : RpcCall → Prop
  | blockHash h => h = height
  | blockRaw _ => True
  | blockVerbose _ => True
  | q => q.Evidence

section AsksOnly

variable {lib : AuxPowCrate} {P : RpcCall → Prop}

theorem orFail_asksOnly {α : Type} {r : Result α} : (orFail r).AsksOnly P := Prog.AsksOnly.ofExcept

theorem asksOnly_ask {α : Type} {q : RpcCall} {k : q.Answer → Action α} (hq : P q)
    (hk : ∀ a, (k a).AsksOnly P) : Prog.AsksOnly P (.ask q k : Action α) := ⟨hq, hk⟩

theorem auxBlockStatus_asksOnly (hash proofHex : Text) :
    (Wcash.auxBlockStatus hash proofHex).AsksOnly RpcCall.Evidence := by
  refine orFail_asksOnly.bind fun _ => orFail_asksOnly.bind fun _ => ?_
  exact asksOnly_ask trivial fun _ => orFail_asksOnly

theorem parentLookups_asksOnly (parent : Nat) (hash : Text) :
    (parentLookups parent hash).AsksOnly fun q : RpcCall => q.isWcash = false := by
  refine Prog.AsksOnly.bind ?_ fun block => Prog.AsksOnly.bind ?_ fun raw => trivial
  · exact orFail_asksOnly.bind fun _ => asksOnly_ask rfl fun _ => orFail_asksOnly
  · refine orFail_asksOnly.bind fun _ => Prog.AsksOnly.bind ?_ fun _ => orFail_asksOnly
    exact asksOnly_ask rfl fun _ => orFail_asksOnly

theorem observeParent_asksOnly (parent : Nat) (source hash : Text) (header : Bytes) :
    (observeParent lib parent source hash header).AsksOnly fun q : RpcCall => q.isWcash = false := by
  refine Prog.AsksOnly.bind (asksOnly_ask rfl fun _ => trivial) fun _ => ?_
  exact Prog.AsksOnly.handle ((parentLookups_asksOnly parent hash).bind fun _ => trivial)
    fun _ => trivial

theorem observeParents_asksOnly (hash : Text) (header : Bytes) (parent : Nat)
    (sources : List Text) :
    (observeParents lib hash header parent sources).AsksOnly fun q : RpcCall => q.isWcash = false := by
  induction sources generalizing parent with
  | nil => exact trivial
  | cons source rest ih =>
    exact (observeParent_asksOnly parent source hash header).bind fun _ =>
      (ih (parent + 1)).bind fun _ => trivial

theorem RpcCall.evidence_of_parent {q : RpcCall} (h : q.isWcash = false) : q.Evidence := by
  cases q <;> trivial

theorem verify_asksOnly (verifier : AuxPowVerifier lib) (block : RpcBlock) (rawBlock : Bytes) :
    (verify lib verifier block rawBlock).AsksOnly RpcCall.Evidence := by
  refine orFail_asksOnly.bind fun evidence => ?_
  cases evidence with
  | none => exact trivial
  | some found =>
    exact (auxBlockStatus_asksOnly _ _).bind fun _ => orFail_asksOnly.bind fun _ =>
      ((observeParents_asksOnly _ _ _ _).mono fun _ => RpcCall.evidence_of_parent).bind
        fun _ => trivial

theorem fetchIndexedBlock_asksOnly (self : Indexer lib) (height : Nat) (previous : Option Text) :
    (self.fetchIndexedBlock height previous).AsksOnly (RpcCall.Fetch height) := by
  have hverify : ∀ q : RpcCall, q.Evidence → q.Fetch height := by
    intro q hq
    cases q <;> simp_all [RpcCall.Evidence, RpcCall.Fetch]
  refine Prog.AsksOnly.bind (asksOnly_ask rfl fun _ => orFail_asksOnly) fun hash => ?_
  refine Prog.AsksOnly.bind ?_ fun raw => Prog.AsksOnly.bind ?_ fun verbose => ?_
  · refine orFail_asksOnly.bind fun _ => Prog.AsksOnly.bind ?_ fun _ => orFail_asksOnly
    exact asksOnly_ask trivial fun _ => orFail_asksOnly
  · exact orFail_asksOnly.bind fun _ => asksOnly_ask trivial fun _ => orFail_asksOnly
  · refine orFail_asksOnly.bind fun _ => orFail_asksOnly.bind fun _ => ?_
    refine ((verify_asksOnly _ _ _).mono hverify).bind fun _ => Prog.AsksOnly.bind ?_ fun _ => ?_
    · exact asksOnly_ask rfl fun _ => orFail_asksOnly
    · exact orFail_asksOnly.bind fun _ => asksOnly_ask trivial fun _ => trivial

end AsksOnly

section Answers

variable {C : Contract explorer Db World} {tr : Trace} {db : Db}

/-- An answered question adds one event to the history. -/
def Answered {α : Type} (tr : Trace) (db : Db) (ev : α → Event explorer World) :
    Trace → α → Db → Prop :=
  fun tr' a db' => tr' = tr ++ [ev a] ∧ db' = db

theorem blockchainInfo_onOk : (Wcash.blockchainInfo).Ensures C
    (Prog.onOk (Answered tr db fun info => asked .blockchainInfo (.ok info))) tr db := by
  intro a _
  refine Prog.Ensures.ofExcept_onOk ?_
  rintro info rfl
  exact ⟨rfl, rfl⟩

theorem blockHash_onOk {height : Nat} : (Wcash.blockHash height).Ensures C
    (Prog.onOk (Answered tr db fun hash => asked (.blockHash height) (.ok hash))) tr db := by
  intro a _
  refine Prog.Ensures.ofExcept_onOk ?_
  rintro hash rfl
  exact ⟨rfl, rfl⟩

theorem auxBlockStatus_onOk {hash proofHex : Text} : (Wcash.auxBlockStatus hash proofHex).Ensures C
    (Prog.onOk (Answered tr db fun status => asked (.auxBlockStatus hash proofHex) (.ok status)))
    tr db := by
  refine Prog.Ensures.ofExcept_bind_onOk fun _ _ => Prog.Ensures.ofExcept_bind_onOk fun _ _ => ?_
  intro a _
  refine Prog.Ensures.ofExcept_onOk ?_
  rintro status rfl
  exact ⟨rfl, rfl⟩

/-- A question other than for the block hash at a height. -/
def RpcCall.Other (q : RpcCall) : Prop := ∀ h, q ≠ .blockHash h

theorem RpcCall.Evidence.other {q : RpcCall} (h : q.Evidence) : q.Other := by
  rintro height rfl
  exact h

theorem blockRaw_asksOnly (hash : Text) : (Wcash.blockRaw hash).AsksOnly RpcCall.Other := by
  refine orFail_asksOnly.bind fun _ => Prog.AsksOnly.bind ?_ fun _ => orFail_asksOnly
  exact asksOnly_ask nofun fun _ => orFail_asksOnly

theorem blockVerbose_asksOnly (hash : Text) :
    (Wcash.blockVerbose hash).AsksOnly RpcCall.Other :=
  orFail_asksOnly.bind fun _ => asksOnly_ask nofun fun _ => orFail_asksOnly

/-- Such questions put no block hash into the history. -/
theorem no_blockHash {seg : Trace} (hseg : ∀ ev ∈ seg, ∃ (q : RpcCall) (a : q.Answer),
    ev = asked q a ∧ q.Other) {h : Nat} {r : Result Text} : asked (.blockHash h) r ∉ seg := by
  intro hmem
  obtain ⟨q, a, he, hq⟩ := hseg _ hmem
  injection he with hqe
  exact hq h hqe.symm

theorem other_onOk {α : Type} {p : Action α} (hp : p.AsksOnly RpcCall.Other) : p.Ensures C
    (Prog.onOk fun tr' _ db' => db' = db ∧ ∃ seg, tr' = tr ++ seg ∧
      ∀ h r, asked (.blockHash h) r ∉ seg) tr db := by
  refine Prog.Ensures.mono hp.ensures ?_
  rintro _ _ _ ⟨rfl, seg, rfl, hseg⟩ _ _
  exact ⟨rfl, seg, rfl, fun h r => no_blockHash hseg⟩

/-- The evidence a verified block carries: none for a native genesis, and otherwise what the
node answered about the very bytes that were fetched. -/
def Evidenced (lib : AuxPowCrate) (block : RpcBlock) (rawBlock : Bytes)
    (auxpow : Option VerifiedAuxPow) (seg : Trace) : Prop :=
  match auxpow with
  | none => block.height = 0
  | some aux => aux.witnessHash = blockWitnessHash lib rawBlock ∧
      aux.exactWitnessState = .bestChain ∧ ∃ c, aux.witnessConfirmations = some c ∧
        asked (.auxBlockStatus block.hash block.solution) (.ok (.bestChain c)) ∈ seg

theorem Evidenced.mono {lib : AuxPowCrate} {block : RpcBlock} {rawBlock : Bytes}
    {auxpow : Option VerifiedAuxPow} {seg seg' : Trace} (hsub : seg ⊆ seg')
    (h : Evidenced lib block rawBlock auxpow seg) : Evidenced lib block rawBlock auxpow seg' := by
  cases auxpow with
  | none => exact h
  | some aux =>
    obtain ⟨hw, hs, c, hc, hmem⟩ := h
    exact ⟨hw, hs, c, hc, hsub hmem⟩

theorem localEvidence_none {lib : AuxPowCrate} {verifier : AuxPowVerifier lib} {block : RpcBlock}
    {rawBlock : Bytes} (h : localEvidence lib verifier block rawBlock = .ok none) :
    block.height = 0 := by
  simp only [localEvidence, Result.bind_eq_ok] at h
  obtain ⟨rules, -, proofBytes, -, rawSolution, -, h⟩ := h
  split at h
  · cases h
  · split at h
    · split at h
      · assumption
      · cases h
    · simp only [Result.bind_eq_ok] at h
      obtain ⟨_, -, _, -, _, -, _, -, h⟩ := h
      cases h

theorem verify_onOk {lib : AuxPowCrate} {verifier : AuxPowVerifier lib} {block : RpcBlock}
    {rawBlock : Bytes} : (verify lib verifier block rawBlock).Ensures C
      (Prog.onOk fun tr' auxpow db' => db' = db ∧ ∃ seg, tr' = tr ++ seg ∧
        (∀ h r, asked (.blockHash h) r ∉ seg) ∧ Evidenced lib block rawBlock auxpow seg) tr db := by
  refine Prog.Ensures.ofExcept_bind_onOk fun evidence hevidence => ?_
  cases evidence with
  | none =>
    exact Prog.Ensures.ret_onOk ⟨rfl, [], by simp, by simp, localEvidence_none hevidence⟩
  | some found =>
    refine Prog.Ensures.bind_onOk auxBlockStatus_onOk ?_
    rintro _ status _ ⟨rfl, rfl⟩
    refine Prog.Ensures.ofExcept_bind_onOk fun _ hbest => ?_
    cases status with
    | bestChain c =>
      refine Prog.Ensures.bind_onOk (other_onOk ((observeParents_asksOnly _ _ _ _).mono
        fun _ hq => (RpcCall.evidence_of_parent hq).other)) ?_
      rintro _ observations _ ⟨rfl, rest, rfl, hrest⟩
      refine Prog.Ensures.ret_onOk ⟨rfl, asked (.auxBlockStatus block.hash block.solution)
        (.ok (.bestChain c)) :: rest, by simp, ?_, rfl, rfl, c, rfl, by simp⟩
      intro h r hmem
      rcases List.mem_cons.mp hmem with he | hmem
      · cases he
      · exact hrest h r hmem
    | _ => cases hbest

/-- What a fetched block has passed: the node served its hash at its height before and after
the bytes, it names the expected predecessor, and its evidence is the node's own answer. -/
structure Fetched (lib : AuxPowCrate) (height : Nat) (previous : Option Text) (seg : Trace)
    (indexed : IndexedBlock) : Prop where
  atHeight : indexed.block.height = height
  follows : Indexer.previousMatches height indexed.block previous = true
  served : asked (.blockHash height) (.ok indexed.block.hash) ∈ seg
  unanimous : ∀ h r, asked (.blockHash h) r ∈ seg → h = height ∧ r = .ok indexed.block.hash
  evidenced : Evidenced lib indexed.block indexed.rawBlock indexed.auxpow seg
  clocked : seg.getLast? = some (asked .utcNow indexed.fetchedAt)

/-- A program that only asks only adds questions to the history. -/
theorem asks_onOk {α : Type} {P : RpcCall → Prop} {p : Action α} (hp : p.AsksOnly P) :
    p.Ensures C (Prog.onOk fun tr' _ db' => db' = db ∧ ∃ seg, tr' = tr ++ seg ∧
      ∀ ev ∈ seg, ∃ q a, ev = asked q a) tr db := by
  refine Prog.Ensures.mono hp.ensures ?_
  rintro _ _ _ ⟨rfl, seg, rfl, hseg⟩ _ _
  refine ⟨rfl, seg, rfl, ?_⟩
  intro ev hev
  obtain ⟨q, a, he, -⟩ := hseg ev hev
  exact ⟨q, a, he⟩

theorem fetchIndexedBlock_onOk {lib : AuxPowCrate} {self : Indexer lib} {height : Nat}
    {previous : Option Text} : (self.fetchIndexedBlock height previous).Ensures C
      (Prog.onOk fun tr' indexed db' => db' = db ∧ ∃ seg, tr' = tr ++ seg ∧
        Fetched lib height previous seg indexed) tr db := by
  refine Prog.Ensures.bind_onOk blockHash_onOk ?_
  rintro _ hash _ ⟨rfl, rfl⟩
  refine Prog.Ensures.bind_onOk (other_onOk (blockRaw_asksOnly hash)) ?_
  rintro _ rawBlock _ ⟨rfl, seg₁, rfl, hseg₁⟩
  refine Prog.Ensures.bind_onOk (other_onOk (blockVerbose_asksOnly hash)) ?_
  rintro _ ⟨block, raw⟩ _ ⟨rfl, seg₂, rfl, hseg₂⟩
  refine Prog.Ensures.ofExcept_bind_onOk fun _ hid => ?_
  refine Prog.Ensures.ofExcept_bind_onOk fun _ hprev => ?_
  simp only [ensure_eq_ok, Bool.and_eq_true, decide_eq_true_eq] at hid hprev
  obtain ⟨rfl, rfl⟩ := hid
  refine Prog.Ensures.bind_onOk verify_onOk ?_
  rintro _ auxpow _ ⟨rfl, seg₃, rfl, hseg₃, hevid⟩
  refine Prog.Ensures.bind_onOk blockHash_onOk ?_
  rintro _ confirmed _ ⟨rfl, rfl⟩
  refine Prog.Ensures.ofExcept_bind_onOk fun _ hconfirmed => ?_
  simp only [ensure_eq_ok, decide_eq_true_eq] at hconfirmed
  subst hconfirmed
  intro fetchedAt _
  refine Prog.Ensures.ret_onOk ⟨rfl, (asked (.blockHash block.height) (.ok block.hash) :: (seg₁ ++
    seg₂ ++ seg₃ ++ [asked (.blockHash block.height) (.ok block.hash)])) ++
    [asked .utcNow fetchedAt], by simp, ?_⟩
  refine ⟨rfl, hprev, by simp, ?_, ?_, List.getLast?_concat⟩
  · intro h r hmem
    simp only [List.cons_append, List.mem_cons, List.mem_append, hseg₁, hseg₂, hseg₃,
      List.not_mem_nil, or_false, false_or] at hmem
    rcases hmem with hmem | hmem | hmem
    · cases hmem
      exact ⟨rfl, rfl⟩
    · cases hmem
      exact ⟨rfl, rfl⟩
    · cases hmem
  · refine hevid.mono ?_
    intro ev hev
    simp [hev]

end Answers

end WcashExplorer
