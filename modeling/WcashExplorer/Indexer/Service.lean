import WcashExplorer.Api.Lag
import WcashExplorer.Db.StateFrame
import WcashExplorer.Db.WriterLock

/-! Any number of explorer processes on one database: each starts on its network, may take the
writer lease and index, may lose it, and may stop and be started again at any time. -/
namespace WcashExplorer

open Effects Relational

/-- The part of a process's configuration its writes depend on. -/
structure Deployment (lib : AuxPowCrate) where
  network : NetworkSettings
  auxpow : AuxPowVerifier lib
  maxReorgDepth : Nat
  evidenceRefreshDepth : Nat

/-- `Indexer::new`, as `main` calls it. -/
def Deployment.indexer {lib : AuxPowCrate} (self : Deployment lib) : Indexer lib where
  auxpow := self.auxpow
  network := self.network.toNetworkConfig
  maxReorgDepth := self.maxReorgDepth
  evidenceRefreshDepth := self.evidenceRefreshDepth

/-- Where a process is: not running, before and after the start on its network, or in the loop of
`Indexer::run` with what is left of its round. -/
inductive Phase (lib : AuxPowCrate)
  | stopped (error : Option ExplorerError)
  | starting (deployment : Deployment lib)
  | serving (deployment : Deployment lib)
  | indexing (deployment : Deployment lib) (session : Nat) (rest : Action Unit) (leaseLost : Bool)

namespace Phase

variable {lib : AuxPowCrate}

/-- The session a process polls for its lease. -/
def session : Phase lib → Option Nat
  | indexing _ session _ _ => some session
  | _ => none

/-- The configuration of a process that got through its start. -/
def bound : Phase lib → Option (Deployment lib)
  | serving d => some d
  | indexing d _ _ _ => some d
  | _ => none

end Phase

/-- The processes, the database server's sessions, and the store. -/
structure Service (lib : AuxPowCrate) (ι : Type) where
  phase : ι → Phase lib := fun _ => .stopped none
  locks : LockServer := {}
  store : Store := {}

/-- What the lock monitor sees: any answer but `Ok(true)` is a loss. -/
def pollFindsLoss (answered : Bool) (session : Nat) (locks : LockServer) : Bool :=
  match answered, writerLockIsHeld session locks with
  | true, .ok true => false
  | _, _ => true

def leaseLostError (round : Action Unit) : ExplorerError :=
  match round with
  | .ret () => .notReady "PostgreSQL writer lease was lost; process restart is required"
  | _ => .notReady
      "PostgreSQL writer lease was lost during synchronization; process restart is required"

inductive ServiceEvent (lib : AuxPowCrate) (ι : Type)
  | launched (i : ι) (deployment : Deployment lib)
  | bound (i : ι) (deployment : Deployment lib) (now : Timestamp)
  | leased (i : ι) (session : Nat)
  | ticked (i : ι)
  | worked (i : ι) (ev : Event explorer World)
  | polled (i : ι)
  | failed (i : ι) (error : ExplorerError)
  | killed (i : ι)
  | sessionEnded (session : Nat)

variable {lib : AuxPowCrate} {ι : Type} [DecidableEq ι]

/-- A process moves to another phase. -/
def Service.enter (sv : Service lib ι) (i : ι) (phase : Phase lib) : Service lib ι :=
  { sv with phase := Function.update sv.phase i phase }

/-- One step of one process, or the end of a session. A process may die and a session may end at
any time, and neither waits for the other. -/
inductive ServiceStep : Service lib ι → ServiceEvent lib ι → Service lib ι → Prop
  | launch {sv : Service lib ι} {i : ι} {error : Option ExplorerError} (d : Deployment lib)
      (h : sv.phase i = .stopped error) :
      ServiceStep sv (.launched i d) (sv.enter i (.starting d))
  | bind {sv : Service lib ι} {i : ι} {d : Deployment lib} {now : Timestamp} {store : Store}
      (h : sv.phase i = .starting d)
      (hx : initializeNetwork d.network now sv.store = .ok store) :
      ServiceStep sv (.bound i d now) { sv.enter i (.serving d) with store }
  | mismatch {sv : Service lib ι} {i : ι} {d : Deployment lib} {now : Timestamp}
      {e : ExplorerError} (h : sv.phase i = .starting d)
      (hx : initializeNetwork d.network now sv.store = .error e) :
      ServiceStep sv (.failed i e) (sv.enter i (.stopped (some e)))
  | lease {sv : Service lib ι} {i : ι} {d : Deployment lib} {session : Nat} {locks : LockServer}
      (h : sv.phase i = .serving d)
      (hx : acquireWriterLock sv.locks = (.ok session, locks)) :
      ServiceStep sv (.leased i session)
        { sv.enter i (.indexing d session (.ret ()) false) with locks }
  | refuse {sv : Service lib ι} {i : ι} {d : Deployment lib} {e : ExplorerError}
      {locks : LockServer} (h : sv.phase i = .serving d)
      (hx : acquireWriterLock sv.locks = (.error e, locks)) :
      ServiceStep sv (.failed i e) { sv.enter i (.stopped (some e)) with locks }
  | tick {sv : Service lib ι} {i : ι} {d : Deployment lib} {session : Nat} {lost : Bool}
      (h : sv.phase i = .indexing d session (.ret ()) lost) :
      ServiceStep sv (.ticked i) (sv.enter i (.indexing d session d.indexer.tick lost))
  | work {sv : Service lib ι} {i : ι} {d : Deployment lib} {session : Nat} {rest rest' : Action Unit}
      {lost : Bool} {ev : Event explorer World} {index : Db}
      (h : sv.phase i = .indexing d session rest lost)
      (hs : Step (exec lib) (rest, sv.store.index) ev (rest', index)) :
      ServiceStep sv (.worked i ev)
        { sv.enter i (.indexing d session rest' lost) with store := { sv.store with index } }
  | poll {sv : Service lib ι} {i : ι} {d : Deployment lib} {session : Nat} {rest : Action Unit}
      {lost : Bool} (answered : Bool) (h : sv.phase i = .indexing d session rest lost) :
      ServiceStep sv (.polled i) (sv.enter i
        (.indexing d session rest (lost || pollFindsLoss answered session sv.locks)))
  | quit {sv : Service lib ι} {i : ι} {d : Deployment lib} {session : Nat} {rest : Action Unit}
      (h : sv.phase i = .indexing d session rest true) :
      ServiceStep sv (.failed i (leaseLostError rest))
        (sv.enter i (.stopped (some (leaseLostError rest))))
  | kill (sv : Service lib ι) (i : ι) : ServiceStep sv (.killed i) (sv.enter i (.stopped none))
  | endSession (sv : Service lib ι) (session : Nat) :
      ServiceStep sv (.sessionEnded session) { sv with locks := sv.locks.endSession session }

/-- A run in which every step passes the guard in the state it finds. -/
inductive ServiceRun (guard : Service lib ι → ServiceEvent lib ι → Prop) :
    Service lib ι → List (ServiceEvent lib ι) → Service lib ι → Prop
  | refl (sv : Service lib ι) : ServiceRun guard sv [] sv
  | snoc {sv sv₁ sv₂ : Service lib ι} {trace : List (ServiceEvent lib ι)} {ev : ServiceEvent lib ι}
      (h : ServiceRun guard sv trace sv₁) (step : ServiceStep sv₁ ev sv₂) (pass : guard sv₁ ev) :
      ServiceRun guard sv (trace ++ [ev]) sv₂

/-- No assumption on a step. -/
def anyStep (_ : Service lib ι) (_ : ServiceEvent lib ι) : Prop := True

/-- A process commits nothing once its session has lost the lease. -/
def promptStop (sv : Service lib ι) : ServiceEvent lib ι → Prop
  | .worked i (.done _ _ (.ok _)) => ∃ session ∈ (sv.phase i).session, sv.locks.Holds session
  | _ => True

variable {guard : Service lib ι → ServiceEvent lib ι → Prop} {sv sv' : Service lib ι}
  {ev : ServiceEvent lib ι} {trace : List (ServiceEvent lib ι)} {i j : ι} {s session : Nat}
  {d : Deployment lib} {rest : Action Unit} {lost : Bool}

theorem ServiceRun.invariant {I : Service lib ι → Prop} (h : ServiceRun guard sv trace sv')
    (hI : ∀ sv ev sv', ServiceStep sv ev sv' → guard sv ev → I sv → I sv') (hsv : I sv) : I sv' := by
  induction h with
  | refl => exact hsv
  | snoc _ step pass ih => exact hI _ _ _ step pass ih

theorem ServiceRun.mono {guard' : Service lib ι → ServiceEvent lib ι → Prop}
    (h : ServiceRun guard sv trace sv') (hg : ∀ sv ev, guard sv ev → guard' sv ev) :
    ServiceRun guard' sv trace sv' := by
  induction h with
  | refl => exact .refl _
  | snoc _ step pass ih => exact .snoc ih step (hg _ _ pass)

section Orders

/-- What can be asked of a service; a process that is not where an order finds it ignores it. -/
inductive Order (lib : AuxPowCrate) (ι : Type)
  | launch (i : ι) (deployment : Deployment lib)
  | bind (i : ι) (now : Timestamp)
  | lease (i : ι)
  | tick (i : ι)
  | work (i : ι) (env : Environment explorer World) (count : Nat)
  | kill (i : ι)
  | endSession (session : Nat)

/-- At most `count` interactions of a process's round with its node, under the lease. -/
def Service.work (env : Environment explorer World) (i : ι) :
    Nat → List (Event explorer World) → Service lib ι → Service lib ι
  | 0, _, sv => sv
  | count + 1, past, sv =>
    match sv.phase i with
    | .indexing d session rest lost =>
      if sv.locks.Holds session then
        match rest.next (exec lib) env past sv.store.index with
        | some (ev, rest', index) =>
          Service.work env i count (past ++ [ev])
            { sv.enter i (.indexing d session rest' lost) with store := { sv.store with index } }
        | none => sv
      else sv
    | _ => sv

def Service.obey (sv : Service lib ι) : Order lib ι → Service lib ι
  | .launch i d =>
    match sv.phase i with
    | .stopped _ => sv.enter i (.starting d)
    | _ => sv
  | .bind i now =>
    match sv.phase i with
    | .starting d =>
      match initializeNetwork d.network now sv.store with
      | .ok store => { sv.enter i (.serving d) with store }
      | .error e => sv.enter i (.stopped (some e))
    | _ => sv
  | .lease i =>
    match sv.phase i with
    | .serving d =>
      match acquireWriterLock sv.locks with
      | (.ok session, locks) => { sv.enter i (.indexing d session (.ret ()) false) with locks }
      | (.error e, locks) => { sv.enter i (.stopped (some e)) with locks }
    | _ => sv
  | .tick i =>
    match sv.phase i with
    | .indexing d session (.ret ()) lost => sv.enter i (.indexing d session d.indexer.tick lost)
    | _ => sv
  | .work i env count => sv.work env i count []
  | .kill i => sv.enter i (.stopped none)
  | .endSession session => { sv with locks := sv.locks.endSession session }

theorem ServiceRun.trans {sv₁ sv₂ : Service lib ι} {trace' : List (ServiceEvent lib ι)}
    (h : ServiceRun guard sv trace sv₁) (h' : ServiceRun guard sv₁ trace' sv₂) :
    ServiceRun guard sv (trace ++ trace') sv₂ := by
  induction h' with
  | refl => simpa using h
  | snoc _ step pass ih =>
    rw [← List.append_assoc]
    exact .snoc ih step pass

theorem ServiceRun.single (step : ServiceStep sv ev sv') (pass : guard sv ev) :
    ServiceRun guard sv [ev] sv' := .snoc (.refl sv) step pass

theorem work_run (env : Environment explorer World) (i : ι) (count : Nat)
    (past : List (Event explorer World)) (sv : Service lib ι) :
    ∃ trace, ServiceRun promptStop sv trace (sv.work env i count past) := by
  induction count generalizing past sv with
  | zero => exact ⟨[], .refl sv⟩
  | succ count ih =>
    simp only [Service.work]
    split
    · rename_i d session rest lost hphase
      split
      · rename_i hholds
        split
        · rename_i ev rest' index hnext
          obtain ⟨trace, hrest⟩ := ih (past ++ [ev])
            { sv.enter i (.indexing d session rest' lost) with store := { sv.store with index } }
          have hpass : promptStop sv (.worked i ev) := by
            unfold promptStop
            split
            · rename_i heq
              cases heq
              exact ⟨session, by simp [hphase, Phase.session], hholds⟩
            · exact trivial
          exact ⟨_, (ServiceRun.single (.work hphase (Prog.next_step hnext)) hpass).trans hrest⟩
        · exact ⟨[], .refl sv⟩
      · exact ⟨[], .refl sv⟩
    · exact ⟨[], .refl sv⟩

/-- Every order is carried out by a run. -/
theorem obey_run (sv : Service lib ι) (order : Order lib ι) :
    ∃ trace, ServiceRun promptStop sv trace (sv.obey order) := by
  have hnone : ∃ trace, ServiceRun promptStop sv trace sv := ⟨[], .refl sv⟩
  have hone {ev : ServiceEvent lib ι} {sv' : Service lib ι} (step : ServiceStep sv ev sv')
      (pass : promptStop sv ev) : ∃ trace, ServiceRun promptStop sv trace sv' :=
    ⟨_, .single step pass⟩
  cases order with
  | launch i d =>
    simp only [Service.obey]
    split
    · rename_i h
      exact hone (.launch d h) trivial
    · exact hnone
  | bind i now =>
    simp only [Service.obey]
    split
    · rename_i h
      split
      · rename_i hx
        exact hone (.bind h hx) trivial
      · rename_i hx
        exact hone (.mismatch h hx) trivial
    · exact hnone
  | lease i =>
    simp only [Service.obey]
    split
    · rename_i h
      split
      · rename_i hx
        exact hone (.lease h hx) trivial
      · rename_i hx
        exact hone (.refuse h hx) trivial
    · exact hnone
  | tick i =>
    simp only [Service.obey]
    split
    · rename_i h
      exact hone (.tick h) trivial
    · exact hnone
  | work i env count => exact work_run env i count [] sv
  | kill i => exact hone (.kill sv i) trivial
  | endSession session => exact hone (.endSession sv session) trivial

/-- A deployment on the sample network under some ticker. -/
def sampleDeployment (symbol : Text) : Deployment sampleCrate where
  network :=
    { plainSettings sampleNetwork with
      genesisHash := sampleHash '0'
      symbol
      displayName := sampleNetwork }
  auxpow := { parents := [], nu7ActivationHeight := none }
  maxReorgDepth := 10
  evidenceRefreshDepth := 10

/-- The first process indexes a chain of two blocks and is cut off `count` interactions into the replacement
of the last one; the second process, started in between, takes over. -/
def takeover (count : Nat) : List (Order sampleCrate Bool) :=
  [.launch false (sampleDeployment ['T', 'W', 'C']), .bind false 0, .lease false, .tick false,
    .work false (steadyNode ['1']) 100, .launch true (sampleDeployment ['W', 'E', 'C']),
    .tick false, .work false (steadyNode ['3']) count, .bind true 1, .endSession 0,
    .lease true, .tick true, .work true (steadyNode ['3']) 100]

/-- The service after a takeover. -/
def takenOver : Service sampleCrate Bool := (takeover 18).foldl Service.obey {}

theorem orders_run (orders : List (Order lib ι)) (sv : Service lib ι) :
    ∃ trace, ServiceRun promptStop sv trace (orders.foldl Service.obey sv) := by
  induction orders generalizing sv with
  | nil => exact ⟨[], .refl sv⟩
  | cons order rest ih =>
    obtain ⟨trace, hfirst⟩ := obey_run sv order
    obtain ⟨trace', hrest⟩ := ih (sv.obey order)
    exact ⟨_, hfirst.trans hrest⟩

theorem takenOver_run : ∃ trace, ServiceRun promptStop {} trace takenOver :=
  orders_run (takeover 18) {}

end Orders

section Locks

theorem session_enter {phase : Phase lib} : ((sv.enter i phase).phase j).session =
    if j = i then phase.session else (sv.phase j).session := by
  by_cases h : j = i
  · subst h
    simp [Service.enter]
  · simp [Service.enter, h]

/-- Moving a process to a phase without a new session takes no session from another one. -/
theorem session_of_enter {phase : Phase lib} (hp : ∀ s ∈ phase.session, s ∈ (sv.phase i).session)
    (h : s ∈ ((sv.enter i phase).phase j).session) : s ∈ (sv.phase j).session := by
  rw [session_enter] at h
  by_cases hj : j = i
  · rw [if_pos hj] at h
    exact hj ▸ hp s h
  · rwa [if_neg hj] at h

/-- What a step can do to the locks: the lease goes to a new session when it is free, or no
session gets a lock and no process gets a session. -/
theorem ServiceStep.locks (h : ServiceStep sv ev sv') (hw : sv.locks.WellFormed) :
    sv'.locks.WellFormed ∧ sv.locks.opened ≤ sv'.locks.opened ∧
      ((∀ s, sv'.locks.Holds s → sv.locks.Holds s) ∧
          (∀ j, ∀ s ∈ (sv'.phase j).session, s ∈ (sv.phase j).session) ∨
        ∃ i, (∀ s, ¬ sv.locks.Holds s) ∧ sv.locks.opened < sv'.locks.opened ∧
          (∀ s, sv'.locks.Holds s ↔ s = sv.locks.opened) ∧
          ∀ j, (sv'.phase j).session =
            if j = i then some sv.locks.opened else (sv.phase j).session) := by
  have hsame {i : ι} {phase : Phase lib}
      (hp : ∀ s ∈ phase.session, s ∈ (sv.phase i).session) :
      (∀ s, sv.locks.Holds s → sv.locks.Holds s) ∧
        ∀ j, ∀ s ∈ ((sv.enter i phase).phase j).session, s ∈ (sv.phase j).session :=
    ⟨fun _ hs => hs, fun _ _ hs => session_of_enter hp hs⟩
  cases h with
  | launch d h => exact ⟨hw, le_rfl, .inl (hsame (by simp [Phase.session]))⟩
  | bind h hx => exact ⟨hw, le_rfl, .inl (hsame (by simp [Phase.session]))⟩
  | mismatch h hx => exact ⟨hw, le_rfl, .inl (hsame (by simp [Phase.session]))⟩
  | tick h => exact ⟨hw, le_rfl, .inl (hsame (by simp [Phase.session, h]))⟩
  | work h hs => exact ⟨hw, le_rfl, .inl (hsame (by simp [Phase.session, h]))⟩
  | poll answered h => exact ⟨hw, le_rfl, .inl (hsame (by simp [Phase.session, h]))⟩
  | quit h => exact ⟨hw, le_rfl, .inl (hsame (by simp [Phase.session]))⟩
  | kill i => exact ⟨hw, le_rfl, .inl (hsame (by simp [Phase.session]))⟩
  | refuse h hx =>
    obtain ⟨hw', hopened, hholds⟩ := acquireWriterLock_error hw hx
    refine ⟨hw', hopened ▸ Nat.le_succ _, .inl ⟨fun s hs => (hholds s).mp hs, ?_⟩⟩
    exact (hsame (by simp [Phase.session])).2
  | endSession session =>
    exact ⟨hw.endSession session, le_rfl, .inl ⟨fun s hs => (LockServer.holds_endSession.mp hs).1,
      fun _ _ hs => hs⟩⟩
  | @lease i d session locks h hx =>
    obtain ⟨rfl, hfree, hw', hholds⟩ := acquireWriterLock_ok hw hx
    have hlt := hw'.holds_lt ((hholds _).mpr rfl)
    exact ⟨hw', hlt.le, .inr ⟨i, hfree, hlt, hholds, fun j => session_enter⟩⟩

/-- The server's bookkeeping is in order, and no two processes poll one session. -/
structure Leases (sv : Service lib ι) : Prop where
  wellFormed : sv.locks.WellFormed
  opened : ∀ i, ∀ s ∈ (sv.phase i).session, s < sv.locks.opened
  own : ∀ i j s, s ∈ (sv.phase i).session → s ∈ (sv.phase j).session → i = j

omit [DecidableEq ι] in
theorem leases_initial : Leases ({} : Service lib ι) where
  wellFormed := LockServer.wellFormed_initial
  opened := by simp [Phase.session]
  own := by simp [Phase.session]

theorem Leases.step (h : Leases sv) (hs : ServiceStep sv ev sv') : Leases sv' := by
  obtain ⟨hw, hle, ⟨-, hsession⟩ | ⟨i, -, hlt, -, hsession⟩⟩ := hs.locks h.wellFormed
  · refine ⟨hw, ?_, ?_⟩
    · intro j s hj
      exact lt_of_lt_of_le (h.opened j s (hsession j s hj)) hle
    · intro j k s hj hk
      exact h.own j k s (hsession j s hj) (hsession k s hk)
  · -- The new session is numbered above all those in use.
    have hcases : ∀ j, ∀ s ∈ (sv'.phase j).session,
        (j = i ∧ s = sv.locks.opened) ∨ (s ∈ (sv.phase j).session ∧ s < sv.locks.opened) := by
      intro j s hj
      rw [hsession] at hj
      by_cases hji : j = i
      · rw [if_pos hji] at hj
        exact .inl ⟨hji, (Option.some.inj hj).symm⟩
      · rw [if_neg hji] at hj
        exact .inr ⟨hj, h.opened j s hj⟩
    refine ⟨hw, ?_, ?_⟩
    · intro j s hj
      rcases hcases j s hj with ⟨-, rfl⟩ | ⟨-, hs⟩
      · exact hlt
      · omega
    · intro j k s hj hk
      rcases hcases j s hj with ⟨rfl, rfl⟩ | ⟨hj, hsj⟩ <;>
        rcases hcases k _ hk with ⟨rfl, hsk⟩ | ⟨hk, hsk⟩
      · rfl
      · omega
      · omega
      · exact h.own j k s hj hk

omit [DecidableEq ι] in
/-- At most one process indexes under the lease. -/
theorem Leases.exclusive (h : Leases sv) (hi : s ∈ (sv.phase i).session)
    (hj : session ∈ (sv.phase j).session) (hs : sv.locks.Holds s) (hs' : sv.locks.Holds session) :
    i = j := by
  obtain rfl := h.wellFormed.exclusive s session hs hs'
  exact h.own i j s hi hj

/-- A session that was opened and does not hold the lease never gets it. -/
theorem Leases.deposed_step (h : Leases sv) (hs : ServiceStep sv ev sv')
    (hsession : s < sv.locks.opened) (hlost : ¬ sv.locks.Holds s) :
    s < sv'.locks.opened ∧ ¬ sv'.locks.Holds s := by
  obtain ⟨-, hle, ⟨hholds, -⟩ | ⟨-, -, hlt, hholds, -⟩⟩ := hs.locks h.wellFormed
  · exact ⟨by omega, fun hs' => hlost (hholds s hs')⟩
  · refine ⟨by omega, fun hs' => ?_⟩
    have heq := (hholds s).mp hs'
    omega

/-- A poll of a session without the lease finds the loss, whether or not it is answered. -/
theorem pollFindsLoss_of_lost {locks : LockServer} (hw : locks.WellFormed) (h : ¬ locks.Holds s)
    (answered : Bool) : pollFindsLoss answered s locks = true := by
  unfold pollFindsLoss
  split
  · rename_i hheld
    exact absurd ((writerLockIsHeld_iff hw).mp hheld) h
  · rfl

theorem phase_enter_of_indexing {phase : Phase lib}
    (h : (sv.enter i phase).phase j = .indexing d s rest lost) :
    (j = i ∧ phase = .indexing d s rest lost) ∨ (j ≠ i ∧ sv.phase j = .indexing d s rest lost) := by
  by_cases hj : j = i
  · subst hj
    exact .inl ⟨rfl, by simpa [Service.enter] using h⟩
  · exact .inr ⟨hj, by simpa [Service.enter, hj] using h⟩

/-- Where an indexing process comes from: it has just been given a new session, or it was indexing
before under this one, and a loss that was flagged or is found by a poll is flagged. -/
theorem ServiceStep.indexing (hs : ServiceStep sv ev sv') (hl : Leases sv)
    (h : sv'.phase j = .indexing d s rest lost) :
    sv.locks.opened ≤ s ∨ ∃ rest₀ lost₀, sv.phase j = .indexing d s rest₀ lost₀ ∧
      (lost₀ = true → lost = true) ∧ (ev = .polled j → ¬ sv.locks.Holds s → lost = true) := by
  have hkept (hev : ev ≠ .polled j) (hj : sv.phase j = .indexing d s rest lost) :
      sv.locks.opened ≤ s ∨ ∃ rest₀ lost₀, sv.phase j = .indexing d s rest₀ lost₀ ∧
        (lost₀ = true → lost = true) ∧ (ev = .polled j → ¬ sv.locks.Holds s → lost = true) :=
    .inr ⟨rest, lost, hj, id, fun he => absurd he hev⟩
  cases hs with
  | launch d h₀ =>
    rcases phase_enter_of_indexing h with ⟨-, hp⟩ | ⟨-, hp⟩
    · cases hp
    · exact hkept (by simp) hp
  | bind h₀ hx =>
    rcases phase_enter_of_indexing h with ⟨-, hp⟩ | ⟨-, hp⟩
    · cases hp
    · exact hkept (by simp) hp
  | mismatch h₀ hx =>
    rcases phase_enter_of_indexing h with ⟨-, hp⟩ | ⟨-, hp⟩
    · cases hp
    · exact hkept (by simp) hp
  | lease h₀ hx =>
    rcases phase_enter_of_indexing h with ⟨-, hp⟩ | ⟨-, hp⟩
    · cases hp
      exact .inl (acquireWriterLock_ok hl.wellFormed hx).1.ge
    · exact hkept (by simp) hp
  | refuse h₀ hx =>
    rcases phase_enter_of_indexing h with ⟨-, hp⟩ | ⟨-, hp⟩
    · cases hp
    · exact hkept (by simp) hp
  | tick h₀ =>
    rcases phase_enter_of_indexing h with ⟨rfl, hp⟩ | ⟨-, hp⟩
    · cases hp
      exact .inr ⟨_, _, h₀, id, by simp⟩
    · exact hkept (by simp) hp
  | work h₀ hs =>
    rcases phase_enter_of_indexing h with ⟨rfl, hp⟩ | ⟨-, hp⟩
    · cases hp
      exact .inr ⟨_, _, h₀, id, by simp⟩
    · exact hkept (by simp) hp
  | poll answered h₀ =>
    rcases phase_enter_of_indexing h with ⟨rfl, hp⟩ | ⟨hj, hp⟩
    · cases hp
      refine .inr ⟨_, _, h₀, by simp_all, fun _ hlost => ?_⟩
      rw [pollFindsLoss_of_lost hl.wellFormed hlost, Bool.or_true]
    · exact hkept (by simpa using Ne.symm hj) hp
  | quit h₀ =>
    rcases phase_enter_of_indexing h with ⟨-, hp⟩ | ⟨-, hp⟩
    · cases hp
    · exact hkept (by simp) hp
  | kill i =>
    rcases phase_enter_of_indexing h with ⟨-, hp⟩ | ⟨-, hp⟩
    · cases hp
    · exact hkept (by simp) hp
  | endSession session => exact hkept (by simp) h

/-- In every run of any processes, whenever they are started, killed, cut off from the database or
slow to notice, at most one of them indexes under the writer lease; a process that has lost it
never holds it again, and is flagged for good from its next poll on. -/
theorem one_process_holds_the_lease (run : ServiceRun anyStep ({} : Service lib ι) trace sv) :
    (∀ i j, ∀ s ∈ (sv.phase i).session, ∀ s' ∈ (sv.phase j).session, sv.locks.Holds s →
      sv.locks.Holds s' → i = j) ∧
    (∀ i, ∀ s ∈ (sv.phase i).session, ¬ sv.locks.Holds s → ∀ later sv',
      ServiceRun anyStep sv later sv' → ¬ sv'.locks.Holds s ∧
        (.polled i ∈ later → ∀ d rest lost, sv'.phase i = .indexing d s rest lost → lost = true)) := by
  have hleases : Leases sv :=
    run.invariant (I := Leases) (fun _ _ _ hs _ h => h.step hs) leases_initial
  refine ⟨fun i j s hi s' hj hs hs' => hleases.exclusive hi hj hs hs', ?_⟩
  intro i s hi hlost later sv' hlater
  suffices hall : Leases sv' ∧ s < sv'.locks.opened ∧ ¬ sv'.locks.Holds s ∧ (.polled i ∈ later →
      ∀ d rest lost, sv'.phase i = .indexing d s rest lost → lost = true) from hall.2.2
  induction hlater with
  | refl => exact ⟨hleases, hleases.opened i s hi, hlost, fun h => absurd h (by simp)⟩
  | snoc _ step _ ih =>
    obtain ⟨hl, hopened, hgone, hflag⟩ := ih
    obtain ⟨hopened', hgone'⟩ := hl.deposed_step step hopened hgone
    refine ⟨hl.step step, hopened', hgone', ?_⟩
    intro hpolled d rest lost hphase
    rcases step.indexing hl hphase with hnew | ⟨rest₀, lost₀, hphase₀, hkept, hfound⟩
    · omega
    · rcases List.mem_append.mp hpolled with hbefore | hnow
      · exact hkept (hflag hbefore d rest₀ lost₀ hphase₀)
      · exact hfound (List.mem_singleton.mp hnow).symm hgone

/-- The second process holds the lease now; the first one never gets it back. -/
theorem one_process_holds_the_lease_taken_over :
    (takenOver.phase false).session = some 0 ∧ (takenOver.phase true).session = some 1 ∧
      takenOver.locks.Holds 1 ∧
      ∀ later sv, ServiceRun anyStep takenOver later sv → ¬ sv.locks.Holds 0 := by
  obtain ⟨trace, run⟩ := takenOver_run
  have hsessions : (takenOver.phase false).session = some 0 ∧
      (takenOver.phase true).session = some 1 ∧ takenOver.locks.Holds 1 ∧
      ¬ takenOver.locks.Holds 0 := by decide +kernel
  obtain ⟨hfirst, hsecond, hholds, hlost⟩ := hsessions
  refine ⟨hfirst, hsecond, hholds, fun later sv hlater => ?_⟩
  have hrun : ServiceRun anyStep {} trace takenOver := run.mono fun _ _ _ => trivial
  exact ((one_process_holds_the_lease hrun).2 false 0 hfirst hlost later sv hlater).1

end Locks

end WcashExplorer
