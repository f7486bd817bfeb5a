import WcashExplorer.Basic

/-! The writer lease: an advisory lock of the database server, held by a session. -/
namespace WcashExplorer

/-- `WRITER_LOCK_ID`. -/
def writerLockId : Int := 0x574341534858504c

/-- The server's sessions, numbered in the order they were opened, and the advisory locks they
hold: a key and its session each. -/
structure LockServer where
  opened : Nat := 0
  live : List Nat := []
  granted : List (Int × Nat) := []

namespace LockServer

/-- A connection is opened under a session number of its own. -/
def connect (server : LockServer) : Nat × LockServer :=
  (server.opened, { server with opened := server.opened + 1, live := server.opened :: server.live })

/-- Another session holds the lock. -/
def taken (key : Int) (session : Nat) (server : LockServer) : Bool :=
  server.granted.any fun l => l.1 = key && l.2 ≠ session

/-- `pg_try_advisory_lock`: another session's lock refuses, one's own is granted again. -/
def tryAdvisoryLock (key : Int) (session : Nat) (server : LockServer) : Bool × LockServer :=
  if server.taken key session then (false, server)
  else (true, { server with granted := (key, session) :: server.granted })

/-- A session that ends, for whichever reason, gives its locks back. -/
def endSession (session : Nat) (server : LockServer) : LockServer :=
  { server with
    live := server.live.filter fun s => s ≠ session
    granted := server.granted.filter fun l => l.2 ≠ session }

/-- The session holds the writer lease. -/
def Holds (server : LockServer) (session : Nat) : Prop := (writerLockId, session) ∈ server.granted

instance (server : LockServer) (session : Nat) : Decidable (server.Holds session) :=
  inferInstanceAs (Decidable (_ ∈ _))

end LockServer

/-- `acquire_writer_lock`: a session that holds the lease, or the refusal. -/
def acquireWriterLock (server : LockServer) : Result Nat × LockServer :=
  let (session, server) := server.connect
  let (acquired, server) := server.tryAdvisoryLock writerLockId session
  if acquired then (.ok session, server)
  else (.error (.notReady "another explorer indexer already owns the writer lease"), server)

/-- `writer_lock_is_held`: whether the session holds any advisory lock; a query on a session that
has ended fails. -/
def writerLockIsHeld (session : Nat) (server : LockServer) : Result Bool :=
  if session ∈ server.live then .ok (server.granted.any fun l => l.2 = session)
  else .error .database

/-- The server's bookkeeping: one session a lock, only sessions that are open hold locks, the
writer lease is the only lock in use, and numbers are not given out twice. -/
structure LockServer.WellFormed (server : LockServer) : Prop where
  exclusive : ∀ s s', server.Holds s → server.Holds s' → s = s'
  lease : ∀ l ∈ server.granted, l.1 = writerLockId
  live : ∀ l ∈ server.granted, l.2 ∈ server.live
  numbered : ∀ s ∈ server.live, s < server.opened

namespace LockServer

variable {server : LockServer} {session s : Nat}

theorem wellFormed_initial : WellFormed {} := by
  constructor <;> simp [Holds]

theorem WellFormed.holds_lt (h : server.WellFormed) (hs : server.Holds s) : s < server.opened :=
  h.numbered _ (h.live _ hs)

/-- Every lock granted is the lease. -/
theorem WellFormed.holds_of_mem (h : server.WellFormed) {l : Int × Nat} (hl : l ∈ server.granted) :
    server.Holds l.2 := by
  have hkey := h.lease l hl
  rw [Holds, ← hkey]
  exact hl

theorem holds_endSession : (server.endSession session).Holds s ↔ server.Holds s ∧ s ≠ session := by
  simp [Holds, endSession]

theorem WellFormed.endSession (h : server.WellFormed) (session : Nat) :
    (server.endSession session).WellFormed where
  exclusive := by
    intro s s' hs hs'
    exact h.exclusive s s' (holds_endSession.mp hs).1 (holds_endSession.mp hs').1
  lease := by
    intro l hl
    exact h.lease l (List.mem_of_mem_filter hl)
  live := by
    intro l hl
    obtain ⟨hmem, hne⟩ := List.mem_filter.mp hl
    exact List.mem_filter.mpr ⟨h.live l hmem, hne⟩
  numbered := by
    intro s hs
    exact h.numbered s (List.mem_of_mem_filter hs)

end LockServer

variable {server server' : LockServer} {session : Nat} {e : ExplorerError}

/-- The lease is granted exactly where no session holds it, and to a new session. -/
theorem acquireWriterLock_ok (h : server.WellFormed)
    (ha : acquireWriterLock server = (.ok session, server')) :
    session = server.opened ∧ (∀ s, ¬ server.Holds s) ∧ server'.WellFormed ∧
      ∀ s, server'.Holds s ↔ s = session := by
  simp only [acquireWriterLock, LockServer.connect, LockServer.tryAdvisoryLock] at ha
  by_cases hfree : LockServer.taken writerLockId server.opened { server with
      opened := server.opened + 1
      live := server.opened :: server.live } = true
  · simp only [hfree, if_true] at ha
    cases ha
  · rw [Bool.not_eq_true] at hfree
    simp only [hfree, Bool.false_eq_true, if_false, if_true] at ha
    obtain ⟨hsession, hserver⟩ := Prod.mk.inj ha
    obtain rfl := Except.ok.inj hsession
    subst hserver
    have hnone : ∀ s, ¬ server.Holds s := by
      intro s hs
      have hlt := h.holds_lt hs
      have hother := List.any_eq_false.mp hfree _ hs
      simp only [decide_true, Bool.true_and, decide_eq_true_eq] at hother
      omega
    have hholds : ∀ s, LockServer.Holds { server with
        opened := server.opened + 1
        live := server.opened :: server.live
        granted := (writerLockId, server.opened) :: server.granted } s ↔ s = server.opened := by
      intro s
      constructor
      · intro hs
        rcases List.mem_cons.mp hs with heq | hold
        · exact congrArg Prod.snd heq
        · exact absurd hold (hnone s)
      · rintro rfl
        exact List.mem_cons_self
    refine ⟨rfl, hnone, ⟨?_, ?_, ?_, ?_⟩, hholds⟩
    · intro s s' hs hs'
      rw [(hholds s).mp hs, (hholds s').mp hs']
    · intro l hl
      rcases List.mem_cons.mp hl with rfl | hl
      · rfl
      · exact h.lease l hl
    · intro l hl
      rcases List.mem_cons.mp hl with rfl | hl
      · exact List.mem_cons_self
      · exact List.mem_cons_of_mem _ (h.live l hl)
    · intro s hs
      rcases List.mem_cons.mp hs with rfl | hs
      · exact Nat.lt_succ_self _
      · exact Nat.lt_succ_of_lt (h.numbered s hs)

/-- A refusal leaves the locks alone. -/
theorem acquireWriterLock_error (h : server.WellFormed)
    (ha : acquireWriterLock server = (.error e, server')) :
    server'.WellFormed ∧ server'.opened = server.opened + 1 ∧
      ∀ s, server'.Holds s ↔ server.Holds s := by
  simp only [acquireWriterLock, LockServer.connect, LockServer.tryAdvisoryLock] at ha
  by_cases hfree : LockServer.taken writerLockId server.opened { server with
      opened := server.opened + 1
      live := server.opened :: server.live } = true
  · simp only [hfree, if_true] at ha
    obtain ⟨-, hserver⟩ := Prod.mk.inj ha
    subst hserver
    refine ⟨⟨h.exclusive, h.lease, ?_, ?_⟩, rfl, fun s => Iff.rfl⟩
    · intro l hl
      exact List.mem_cons_of_mem _ (h.live l hl)
    · intro s hs
      rcases List.mem_cons.mp hs with rfl | hs
      · exact Nat.lt_succ_self _
      · exact Nat.lt_succ_of_lt (h.numbered s hs)
  · rw [Bool.not_eq_true] at hfree
    simp only [hfree, Bool.false_eq_true, if_false, if_true] at ha
    cases ha

/-- The poll answers that the lease is held exactly where it is. -/
theorem writerLockIsHeld_iff (h : server.WellFormed) :
    writerLockIsHeld session server = .ok true ↔ server.Holds session := by
  unfold writerLockIsHeld
  constructor
  · intro hheld
    split at hheld
    · obtain ⟨l, hl, hsession⟩ := List.any_eq_true.mp (Except.ok.inj hheld)
      obtain rfl := of_decide_eq_true hsession
      exact h.holds_of_mem hl
    · cases hheld
  · intro hs
    rw [if_pos (h.live _ hs)]
    exact congrArg Except.ok (List.any_eq_true.mpr ⟨_, hs, by simp⟩)

end WcashExplorer
