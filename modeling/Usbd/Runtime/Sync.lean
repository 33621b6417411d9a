import Mathlib.Tactic

/-!
# Reader-writer locks

`sync.RWMutex`, one transition per point at which a goroutine can be held up.  A writer first
announces itself (`lockRequest`) and is granted the lock later (`lockAcquire`); from its
announcement on no new reader gets in, as the package documents.  A transition that has to wait is
`none`.
-/

namespace Usbd

/-- A reader-writer lock: the read holds on it, the writers waiting, whether a writer holds it. -/
structure RWMutex where
  readers : ℕ
  waiting : ℕ
  writer : Bool
  deriving DecidableEq, Repr

namespace RWMutex

def new : RWMutex := ⟨0, 0, false⟩

def rLock (m : RWMutex) : Option RWMutex :=
  if m.writer ∨ m.waiting ≠ 0 then none else some { m with readers := m.readers + 1 }

/-- `RUnlock`; without a read hold the runtime stops the program. -/
def rUnlock (m : RWMutex) : Option RWMutex :=
  if m.readers = 0 then none else some { m with readers := m.readers - 1 }

/-- The start of `Lock`. -/
def lockRequest (m : RWMutex) : RWMutex := { m with waiting := m.waiting + 1 }

/-- The end of `Lock`: the last reader has left and no writer is inside. -/
def lockAcquire (m : RWMutex) : Option RWMutex :=
  if m.readers = 0 ∧ m.writer = false ∧ m.waiting ≠ 0 then
    some { m with waiting := m.waiting - 1, writer := true }
  else none

def unlock (m : RWMutex) : RWMutex := { m with writer := false }

lemma rLock_eq_some {m m' : RWMutex} (h : m.rLock = some m') :
    m' = { m with readers := m.readers + 1 } := by
  unfold rLock at h
  split_ifs at h
  exact (Option.some.inj h).symm

lemma rUnlock_eq_some {m m' : RWMutex} (h : m.rUnlock = some m') :
    m.readers ≠ 0 ∧ m' = { m with readers := m.readers - 1 } := by
  unfold rUnlock at h
  split_ifs at h with h0
  exact ⟨h0, (Option.some.inj h).symm⟩

lemma lockAcquire_eq_some {m m' : RWMutex} (h : m.lockAcquire = some m') :
    m.readers = 0 ∧ m' = { m with waiting := m.waiting - 1, writer := true } := by
  unfold lockAcquire at h
  split_ifs at h with h0
  exact ⟨h0.1, (Option.some.inj h).symm⟩

end RWMutex
end Usbd
