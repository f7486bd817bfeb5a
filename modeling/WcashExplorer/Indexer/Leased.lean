import WcashExplorer.Indexer.Service

/-! What the processes leave in the store: the networks they are bound to, and an index that could
as well have been written by one process after the other. -/
namespace WcashExplorer

open Effects Relational

variable {lib : AuxPowCrate} {ι : Type} {sv sv' : Service lib ι}
  {guard : Service lib ι → ServiceEvent lib ι → Prop} {ev : ServiceEvent lib ι}
  {trace : List (ServiceEvent lib ι)} {i j : ι} {d : Deployment lib} {networkId : Text} {db db' : Db}

section Identity

/-- The successful starts on a network, oldest first. -/
def starts (networkId : Text) (trace : List (ServiceEvent lib ι)) :
    List (NetworkSettings × Timestamp) :=
  trace.filterMap fun
    | .bound _ d now => if d.network.id = networkId then some (d.network, now) else none
    | _ => none

/-- The row of a network after its starts: the first one's, under the last one's ticker. -/
def startedRow (log : List (NetworkSettings × Timestamp)) : Option NetworkRow :=
  match log.head?, log.getLast? with
  | some first, some last => some ((first.1.row first.2).withSymbol last.1.symbol)
  | _, _ => none

theorem startedRow_concat (log : List (NetworkSettings × Timestamp)) (network : NetworkSettings)
    (now : Timestamp) : startedRow (log ++ [(network, now)]) =
      some (((startedRow log).getD (network.row now)).withSymbol network.symbol) := by
  cases log with
  | nil => rfl
  | cons first rest =>
    obtain ⟨last, hlast⟩ : ∃ last, (first :: rest).getLast? = some last :=
      ⟨_, List.getLast?_eq_some_getLast (by simp)⟩
    simp only [startedRow, List.cons_append, List.head?_cons, hlast]
    rw [← List.cons_append, List.getLast?_concat]
    rfl

theorem starts_concat : starts networkId (trace ++ [ev]) = starts networkId trace ++
    (starts networkId [ev]) := by
  simp [starts]

theorem starts_of_ne (h : ∀ i d now, ev ≠ .bound i d now) : starts networkId [ev] = [] := by
  cases ev with
  | bound i d now => exact absurd rfl (h i d now)
  | _ => rfl

variable [DecidableEq ι]

/-- The networks are what their starts made them, and a process past its start has made one. -/
structure Started (sv : Service lib ι) (trace : List (ServiceEvent lib ι)) : Prop where
  rows : ∀ n, sv.store.networks.find? n = startedRow (starts n trace)
  agree : ∀ n, ∀ x ∈ starts n trace, sv.store.identity n = some x.1.identity
  bound : ∀ i, ∀ d ∈ (sv.phase i).bound, ∃ now, (d.network, now) ∈ starts d.network.id trace

theorem bound_enter {phase : Phase lib} (hp : ∀ d ∈ phase.bound, d ∈ (sv.phase i).bound)
    (h : d ∈ ((sv.enter i phase).phase j).bound) : d ∈ (sv.phase j).bound := by
  by_cases hj : j = i
  · subst hj
    exact hp d (by simpa [Service.enter] using h)
  · simpa [Service.enter, hj] using h

/-- A step is a successful start, or it leaves the networks and takes no process past its start. -/
theorem ServiceStep.networks (hs : ServiceStep sv ev sv') :
    (∃ i d now, ev = .bound i d now ∧ sv.phase i = .starting d ∧
        initializeNetwork d.network now sv.store = .ok sv'.store ∧
        sv'.phase = Function.update sv.phase i (.serving d)) ∨
      ((∀ i d now, ev ≠ .bound i d now) ∧ sv'.store.networks = sv.store.networks ∧
        ∀ j, ∀ d ∈ (sv'.phase j).bound, d ∈ (sv.phase j).bound) := by
  cases hs with
  | bind h hx => exact .inl ⟨_, _, _, rfl, h, hx, rfl⟩
  | launch d h => exact .inr ⟨by simp, rfl, fun _ _ hd => bound_enter (by simp [Phase.bound]) hd⟩
  | mismatch h hx => exact .inr ⟨by simp, rfl, fun _ _ hd => bound_enter (by simp [Phase.bound]) hd⟩
  | refuse h hx => exact .inr ⟨by simp, rfl, fun _ _ hd => bound_enter (by simp [Phase.bound]) hd⟩
  | quit h => exact .inr ⟨by simp, rfl, fun _ _ hd => bound_enter (by simp [Phase.bound]) hd⟩
  | kill i => exact .inr ⟨by simp, rfl, fun _ _ hd => bound_enter (by simp [Phase.bound]) hd⟩
  | lease h hx =>
    exact .inr ⟨by simp, rfl, fun _ _ hd => bound_enter (by simp [Phase.bound, h]) hd⟩
  | tick h => exact .inr ⟨by simp, rfl, fun _ _ hd => bound_enter (by simp [Phase.bound, h]) hd⟩
  | work h hs => exact .inr ⟨by simp, rfl, fun _ _ hd => bound_enter (by simp [Phase.bound, h]) hd⟩
  | poll answered h =>
    exact .inr ⟨by simp, rfl, fun _ _ hd => bound_enter (by simp [Phase.bound, h]) hd⟩
  | endSession session => exact .inr ⟨by simp, rfl, fun _ _ hd => hd⟩

theorem Started.step (h : Started sv trace) (hs : ServiceStep sv ev sv') :
    Started sv' (trace ++ [ev]) := by
  rcases hs.networks with ⟨i, d, now, rfl, -, hx, hphase⟩ | ⟨hev, hnetworks, hbound⟩
  · have hother : ∀ n, d.network.id ≠ n → starts n (trace ++ [.bound i d now]) = starts n trace := by
      intro n hn
      simp [starts, hn]
    have hown : starts d.network.id (trace ++ [.bound i d now]) =
        starts d.network.id trace ++ [(d.network, now)] := by
      simp [starts]
    refine ⟨?_, ?_, ?_⟩
    · intro n
      rw [initializeNetwork_find? hx]
      by_cases hn : n = d.network.id
      · rw [if_pos hn, hn, hown, startedRow_concat, h.rows]
      · rw [if_neg hn, hother n (Ne.symm hn), h.rows]
    · intro n x hx'
      by_cases hn : n = d.network.id
      · rw [hn, hown] at hx'
        rcases List.mem_append.mp hx' with hold | hnew
        · exact hn ▸ initializeNetwork_keeps hx (h.agree _ x hold)
        · obtain rfl := List.mem_singleton.mp hnew
          exact hn ▸ initializeNetwork_identity hx
      · rw [hother n (Ne.symm hn)] at hx'
        exact initializeNetwork_keeps hx (h.agree n x hx')
    · intro j d' hd'
      rw [hphase] at hd'
      by_cases hj : j = i
      · subst hj
        rw [Function.update_self] at hd'
        obtain rfl := Option.some.inj hd'
        exact ⟨now, hown ▸ List.mem_append_right _ List.mem_cons_self⟩
      · rw [Function.update_of_ne hj] at hd'
        obtain ⟨t, ht⟩ := h.bound j d' hd'
        refine ⟨t, ?_⟩
        rw [starts_concat]
        exact List.mem_append_left _ ht
  · have hsame : ∀ n, starts n (trace ++ [ev]) = starts n trace := by
      intro n
      rw [starts_concat, starts_of_ne hev, List.append_nil]
    refine ⟨?_, ?_, ?_⟩
    · intro n
      rw [hnetworks, hsame, h.rows]
    · intro n x hx
      rw [Store.identity, hnetworks]
      exact h.agree n x (hsame n ▸ hx)
    · intro j d hd
      obtain ⟨t, ht⟩ := h.bound j d (hbound j d hd)
      exact ⟨t, (hsame _).symm ▸ ht⟩

theorem ServiceRun.started (run : ServiceRun guard ({} : Service lib ι) trace sv) :
    Started sv trace := by
  induction run with
  | refl => exact ⟨fun _ => rfl, by simp [starts], by simp [Phase.bound]⟩
  | snoc _ step _ ih => exact ih.step step

/-- In every run, however processes are started, refused, killed and started again, a network's row
is its first successful start's under the ticker of the last; all successful starts on it had one
identity, and a process that indexes or serves it had that identity too. -/
theorem networks_follow_their_starts (run : ServiceRun anyStep ({} : Service lib ι) trace sv) :
    (∀ n, sv.store.networks.find? n = startedRow (starts n trace)) ∧
    (∀ n, ∀ x ∈ starts n trace, ∀ y ∈ starts n trace, x.1.identity = y.1.identity) ∧
    (∀ i, ∀ d ∈ (sv.phase i).bound, sv.store.identity d.network.id = some d.network.identity) := by
  have h := run.started
  refine ⟨h.rows, ?_, ?_⟩
  · intro n x hx y hy
    exact Option.some.inj ((h.agree n x hx).symm.trans (h.agree n y hy))
  · intro i d hd
    obtain ⟨now, hnow⟩ := h.bound i d hd
    exact h.agree _ _ hnow

/-- Two processes started on the sample network under different tickers. -/
theorem networks_follow_their_starts_taken_over : ∃ trace : List (ServiceEvent sampleCrate Bool),
    takenOver.store.networks.find? sampleNetwork = startedRow (starts sampleNetwork trace) ∧
      (takenOver.store.networks.find? sampleNetwork).map NetworkRow.symbol = some ['W', 'E', 'C'] := by
  obtain ⟨trace, run⟩ := takenOver_run
  have hrun : ServiceRun anyStep {} trace takenOver := run.mono fun _ _ _ => trivial
  exact ⟨trace, (networks_follow_their_starts hrun).1 _, by decide +kernel⟩

end Identity

section Serial

/-- A round of a configured process. -/
def roundOf (d : Deployment lib) : Action Unit := d.indexer.tick

/-- The network of a process is started. -/
def onStarted (d : Deployment lib) (db : Db) : Prop := Initialized d.network.id db

/-- What a start does to the index. -/
def startMove (f : Db → Db) : Prop := ∃ n now, f = startChainState n now

/-- The index is reached from an empty one by starts and by rounds one after the other. -/
abbrev OneAtATime (lib : AuxPowCrate) (db : Db) : Prop :=
  Serial (exec lib) (@roundOf lib) onStarted startMove {} db

/-- It is reached so up to where a process began the round it is in. -/
abbrev InRound (d : Deployment lib) (rest : Action Unit) (db : Db) : Prop :=
  Underway (exec lib) (@roundOf lib) onStarted startMove {} d rest db

theorem tick_issues (self : Indexer lib) : self.tick.Issues (OwnCall self.network.id) :=
  Prog.Issues.handle (syncOnce_issues.bind fun _ => trivial) fun _ =>
    Prog.Issues.handle (issue_issues ⟨rfl, by trivial⟩) fun _ => trivial

theorem History.soundChain {P : PassProperty lib} (h : History lib networkId P db db')
    (hs : SoundChain networkId db) : SoundChain networkId db' := by
  obtain ⟨xs, hx, htip⟩ := hs
  refine (h.invariant (I := SoundChain networkId) ?_ ⟨⟨xs, hx⟩, htip.initialized⟩ ⟨xs, hx, htip⟩).2
  intro indexer _ full pre w t r d d' opening xs ys _ _ _ _ _ hx hy hstep _ hd
  exact hstep.soundChain hx hy hd

/-- A round leaves each network sound, or not started yet. -/
theorem OneAtATime.soundChain (h : OneAtATime lib db) (networkId : Text) :
    SoundChain networkId db ∨ Unstarted networkId db := by
  refine h.invariant (I := fun db => SoundChain networkId db ∨ Unstarted networkId db) ?_
    (.inr ⟨rfl, fun _ => rfl⟩)
  intro db db' hturn hdb
  cases hturn with
  | @work d _ _ tr rest start run =>
    by_cases hn : d.network.id = networkId
    · rcases hdb with hsound | hunstarted
      · have hnetwork : d.indexer.network.id = networkId := hn
        have hpass : History lib networkId (anyPass lib) db db' :=
          .pass (.refl db) hnetwork run trivial
        exact .inl (hpass.soundChain hsound)
      · rw [onStarted, hn, Initialized, hunstarted.1] at start
        cases start
    · refine run.invariant (I := fun db => SoundChain networkId db ∨ Unstarted networkId db)
        (tick_issues d.indexer) ?_ hdb
      intro w t r s s' ht hx hs
      have helse : Elsewhere networkId s s' := exec_elsewhere hx (ht.1 ▸ hn)
      exact hs.imp (fun h => h.elsewhere helse) fun h => h.elsewhere helse
  | move hf =>
    obtain ⟨n, now, rfl⟩ := hf
    by_cases hn : n = networkId
    · subst hn
      rcases hdb with hsound | hunstarted
      · obtain ⟨xs, hx, htip⟩ := hsound
        rw [startChainState_of_initialized htip.initialized]
        exact .inl ⟨xs, hx, htip⟩
      · exact .inl hunstarted.soundChain
    · have helse : Elsewhere networkId db (startChainState n now db) := startChainState_elsewhere hn
      exact hdb.imp (fun h => h.elsewhere helse) fun h => h.elsewhere helse

variable [DecidableEq ι]

/-- The index is serial; a process that holds the lease is between two rounds or in the one the
index ends with. -/
structure Ordered (sv : Service lib ι) : Prop where
  leases : Leases sv
  bound : ∀ i, ∀ d ∈ (sv.phase i).bound, onStarted d sv.store.index
  state : ∀ n, Initialized n sv.store.index ↔ (sv.store.networks.find? n).isSome
  serial : OneAtATime lib sv.store.index
  round : ∀ i d s rest lost, sv.phase i = .indexing d s rest lost → sv.locks.Holds s →
    rest = .ret () ∨ InRound d rest sv.store.index

omit [DecidableEq ι] in
theorem ordered_initial : Ordered ({} : Service lib ι) where
  leases := leases_initial
  bound := by simp [Phase.bound]
  state := by
    intro n
    exact ⟨fun h => (Bool.false_ne_true h).elim, fun h => (Bool.false_ne_true h).elim⟩
  serial := .refl
  round := by
    intro i d s rest lost h
    cases h

/-- A step that leaves the store alone and begins at most one round. -/
theorem Ordered.of_quiet (h : Ordered sv) (hs : ServiceStep sv ev sv')
    (hev : ∀ i d now, ev ≠ .bound i d now) (hstore : sv'.store = sv.store)
    (hround : ∀ j d s rest lost, sv'.phase j = .indexing d s rest lost → sv'.locks.Holds s →
      rest = .ret () ∨ (∃ lost₀, sv.phase j = .indexing d s rest lost₀ ∧ sv.locks.Holds s) ∨
        (rest = roundOf d ∧ d ∈ (sv.phase j).bound)) : Ordered sv' where
  leases := h.leases.step hs
  bound := by
    rw [hstore]
    intro j d hd
    rcases hs.networks with ⟨i, d', now, rfl, -, -, -⟩ | ⟨-, -, hbound⟩
    · exact absurd rfl (hev i d' now)
    · exact h.bound j d (hbound j d hd)
  state := by
    rw [hstore]
    exact h.state
  serial := by
    rw [hstore]
    exact h.serial
  round := by
    rw [hstore]
    intro j d s rest lost hj hholds
    rcases hround j d s rest lost hj hholds with hret | ⟨lost₀, hj₀, hs₀⟩ | ⟨rfl, hd⟩
    · exact .inl hret
    · exact h.round j d s rest lost₀ hj₀ hs₀
    · exact .inr (.begin h.serial (h.bound j d hd))

/-- A start moves the index; what is under way for another network commutes with it. -/
theorem Ordered.of_bind {now : Timestamp} {store : Store} (h : Ordered sv)
    (hphase : sv.phase i = .starting d)
    (hx : initializeNetwork d.network now sv.store = .ok store) :
    Ordered { sv.enter i (.serving d) with store } := by
  have hindex := initializeNetwork_index hx
  refine ⟨h.leases.step (.bind hphase hx), ?_, ?_, ?_, ?_⟩
  · intro j d' hd'
    rw [onStarted, hindex]
    by_cases hj : j = i
    · subst hj
      simp only [Service.enter, Function.update_self] at hd'
      obtain rfl := Option.some.inj hd'
      exact startChainState_initialized.mpr (.inr rfl)
    · simp only [Service.enter, Function.update_of_ne hj] at hd'
      exact startChainState_initialized.mpr (.inl (h.bound j d' hd'))
  · intro n
    rw [hindex, startChainState_initialized, h.state, initializeNetwork_find? hx]
    by_cases hn : n = d.network.id <;> simp [hn]
  · rw [hindex]
    exact h.serial.tail (.move ⟨_, _, rfl⟩)
  · intro j d' s rest lost hj hs
    rcases phase_enter_of_indexing hj with ⟨-, hp⟩ | ⟨-, hj⟩
    · cases hp
    · refine (h.round j d' s rest lost hj hs).imp id fun hround => ?_
      rw [hindex]
      by_cases hn : Initialized d.network.id sv.store.index
      · rwa [startChainState_of_initialized hn]
      · -- The round's own network is started, so it is another one.
        have hother : d'.network.id ≠ d.network.id := by
          intro he
          exact hn (he ▸ h.bound j d' (by simp [hj, Phase.bound]))
        refine hround.move (P := fun t : DbCall => t.networkId ≠ d.network.id) ⟨_, _, rfl⟩
          startChainState_commutes ?_ ?_
        · exact (tick_issues d'.indexer).mono fun t ht => ht.1 ▸ hother
        · intro db hdb
          exact startChainState_initialized.mpr (.inl hdb)

theorem step_initialized {p p' : Action Unit} {ev : Event explorer World}
    (h : Step (exec lib) (p, db) ev (p', db')) :
    Initialized networkId db' ↔ Initialized networkId db := by
  cases h with
  | ask a => exact Iff.rfl
  | commit hx => exact (exec_updatesState hx).initialized_iff
  | rollback hx => exact Iff.rfl

/-- The holder's interaction is the next one of its round; nobody else holds the lease. -/
theorem Ordered.of_work {s : Nat} {rest rest' : Action Unit} {lost : Bool}
    {ev : Event explorer World} {index : Db} (h : Ordered sv)
    (hphase : sv.phase i = .indexing d s rest lost) (hholds : sv.locks.Holds s)
    (hs : Step (exec lib) (rest, sv.store.index) ev (rest', index)) :
    Ordered { sv.enter i (.indexing d s rest' lost) with store := { sv.store with index } } := by
  have hround : InRound d rest' index := by
    rcases h.round i d s rest lost hphase hholds with rfl | hround
    · cases hs
    · exact hround.step hs
  refine ⟨h.leases.step (.work hphase hs), ?_, ?_, hround.serial, ?_⟩
  · intro j d' hd'
    refine (step_initialized hs).mpr (h.bound j d' ?_)
    exact bound_enter (by simp [Phase.bound, hphase]) hd'
  · intro n
    exact (step_initialized hs).trans (h.state n)
  · intro j d' s' rest₁ lost₁ hj hs'
    rcases phase_enter_of_indexing hj with ⟨-, hp⟩ | ⟨hne, hj⟩
    · cases hp
      exact .inr hround
    · refine absurd (h.leases.exclusive (i := j) (j := i) ?_ ?_ hs' hholds) hne
      · simp [hj, Phase.session]
      · simp [hphase, Phase.session]

theorem Ordered.step (h : Ordered sv) (hs : ServiceStep sv ev sv') (hprompt : promptStop sv ev) :
    Ordered sv' := by
  have hkept {i : ι} {phase : Phase lib} (hphase : phase.session = none) : ∀ j d s rest lost,
      (sv.enter i phase).phase j = .indexing d s rest lost → sv.locks.Holds s →
      rest = .ret () ∨ (∃ lost₀, sv.phase j = .indexing d s rest lost₀ ∧ sv.locks.Holds s) ∨
        (rest = roundOf d ∧ d ∈ (sv.phase j).bound) := by
    intro j d s rest lost hj hs
    rcases phase_enter_of_indexing hj with ⟨-, rfl⟩ | ⟨-, hj⟩
    · cases hphase
    · exact .inr (.inl ⟨lost, hj, hs⟩)
  cases hs with
  | bind hphase hx => exact h.of_bind hphase hx
  | @work i d s rest rest' lost ev index hphase hstep =>
    by_cases hholds : sv.locks.Holds s
    · exact h.of_work hphase hholds hstep
    · -- Without the lease there is no commit, and the round is not the one the index ends with.
      have hidle (hindex : index = sv.store.index) : Ordered
          { sv.enter i (.indexing d s rest' lost) with store := { sv.store with index } } := by
        refine h.of_quiet (.work hphase hstep) (by simp) (by rw [hindex]) ?_
        intro j d' s' rest₁ lost₁ hj hs
        rcases phase_enter_of_indexing hj with ⟨-, hp⟩ | ⟨-, hold⟩
        · cases hp
          exact absurd hs hholds
        · exact .inr (.inl ⟨lost₁, hold, hs⟩)
      cases hstep with
      | ask a => exact hidle rfl
      | rollback hx => exact hidle rfl
      | commit hx =>
        obtain ⟨session, hsession, hheld⟩ := hprompt
        simp only [hphase, Phase.session] at hsession
        obtain rfl := Option.some.inj hsession
        exact absurd hheld hholds
  | launch d hphase => exact h.of_quiet (.launch d hphase) (by simp) rfl (hkept rfl)
  | mismatch hphase hx => exact h.of_quiet (.mismatch hphase hx) (by simp) rfl (hkept rfl)
  | refuse hphase hx =>
    refine h.of_quiet (.refuse hphase hx) (by simp) rfl ?_
    intro j d s rest lost hj hs
    exact hkept rfl j d s rest lost hj (((acquireWriterLock_error h.leases.wellFormed hx).2.2 s).mp hs)
  | quit hphase => exact h.of_quiet (.quit hphase) (by simp) rfl (hkept rfl)
  | kill i => exact h.of_quiet (.kill sv i) (by simp) rfl (hkept rfl)
  | endSession session =>
    refine h.of_quiet (.endSession sv session) (by simp) rfl ?_
    intro j d s rest lost hj hs
    exact .inr (.inl ⟨lost, hj, (LockServer.holds_endSession.mp hs).1⟩)
  | poll answered hphase =>
    refine h.of_quiet (.poll answered hphase) (by simp) rfl ?_
    intro j d s rest lost hj hs
    rcases phase_enter_of_indexing hj with ⟨rfl, hp⟩ | ⟨-, hj⟩
    · cases hp
      exact .inr (.inl ⟨_, hphase, hs⟩)
    · exact .inr (.inl ⟨lost, hj, hs⟩)
  | tick hphase =>
    refine h.of_quiet (.tick hphase) (by simp) rfl ?_
    intro j d s rest lost hj hs
    rcases phase_enter_of_indexing hj with ⟨rfl, hp⟩ | ⟨-, hj⟩
    · cases hp
      exact .inr (.inr ⟨rfl, by simp [hphase, Phase.bound]⟩)
    · exact .inr (.inl ⟨lost, hj, hs⟩)
  | lease hphase hx =>
    refine h.of_quiet (.lease hphase hx) (by simp) rfl ?_
    intro j d s rest lost hj hs
    rcases phase_enter_of_indexing hj with ⟨-, hp⟩ | ⟨-, hold⟩
    · cases hp
      exact .inl rfl
    · -- Nobody held the lease, and the new holder's session is its own.
      obtain ⟨rfl, -, -, hholds⟩ := acquireWriterLock_ok h.leases.wellFormed hx
      have hlt := h.leases.opened j s (by simp [hold, Phase.session])
      have heq := (hholds s).mp hs
      omega

theorem ServiceRun.ordered (run : ServiceRun promptStop ({} : Service lib ι) trace sv) :
    Ordered sv := run.invariant (fun _ _ _ hs hp h => h.step hs hp) ordered_initial

/-- Where no process commits after its session has lost the lease, the index is in every reachable
state what starts and rounds, one after the other, make of an empty one: no two rounds are mixed,
whichever processes there are and whenever they start, die or take over. -/
theorem leased_rounds_are_serial (run : ServiceRun promptStop ({} : Service lib ι) trace sv) :
    OneAtATime lib sv.store.index := run.ordered.serial

/-- A round that was cut off and the round that took over from it. -/
theorem leased_rounds_are_serial_taken_over : OneAtATime sampleCrate takenOver.store.index ∧
    (canonicalRows takenOver.store.index sampleNetwork).map CanonicalRow.blockHash =
      [sampleHash '0', sampleHash '3'] := by
  obtain ⟨trace, run⟩ := takenOver_run
  exact ⟨leased_rounds_are_serial run, by decide +kernel⟩

/-- So the chain of every network the store is bound to is sound in every reachable state. -/
theorem every_chain_sound_under_lease
    (run : ServiceRun promptStop ({} : Service lib ι) trace sv) (networkId : Text)
    (hbound : (sv.store.networks.find? networkId).isSome) :
    SoundChain networkId sv.store.index := by
  have h := run.ordered
  rcases h.serial.soundChain networkId with hsound | hunstarted
  · exact hsound
  · have hstate := (h.state networkId).mpr hbound
    rw [Initialized, hunstarted.1] at hstate
    cases hstate

theorem every_chain_sound_under_lease_taken_over :
    SoundChain sampleNetwork takenOver.store.index := by
  obtain ⟨trace, run⟩ := takenOver_run
  exact every_chain_sound_under_lease run sampleNetwork (by decide +kernel)

end Serial

end WcashExplorer
