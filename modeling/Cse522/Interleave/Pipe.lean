import Mathlib.Data.List.Basic

/-!
# Pipes

A pipe holds what has been written and not read, and counts the open descriptors of its two
ends. A reader waits for something to read while there is a writer, and is at the end of the
file when there is none. A writer waits for room while there is a reader, and is killed by
`SIGPIPE` when there is none.
-/
namespace Cse522.Interleave

structure Pipe (α : Type*) where
  held : List α
  readers : Nat
  writers : Nat
  deriving DecidableEq, Repr

namespace Pipe

variable {α : Type*} {p q : Pipe α} {a : α} {as : List α} {capacity : Nat}

/-- What a `read` of one element comes to. -/
inductive Read (α : Type*) where
  | blocked
  | eof
  | got (a : α) (p : Pipe α)

/-- What a `write` comes to. -/
inductive Write (α : Type*) where
  | blocked
  | sigpipe
  | put (p : Pipe α)

def read (p : Pipe α) : Read α :=
  match p.held with
  | [] => if p.writers = 0 then .eof else .blocked
  | a :: held => .got a { p with held }

/-- A write short enough to be atomic. -/
def write (capacity : Nat) (p : Pipe α) (as : List α) : Write α :=
  if p.readers = 0 then .sigpipe
  else if p.held.length + as.length ≤ capacity then .put { p with held := p.held ++ as }
  else .blocked

def closeRead (p : Pipe α) : Pipe α := { p with readers := p.readers - 1 }

def closeWrite (p : Pipe α) : Pipe α := { p with writers := p.writers - 1 }

@[simp] theorem closeRead_held (p : Pipe α) : p.closeRead.held = p.held := rfl

@[simp] theorem closeRead_readers (p : Pipe α) : p.closeRead.readers = p.readers - 1 := rfl

@[simp] theorem closeRead_writers (p : Pipe α) : p.closeRead.writers = p.writers := rfl

@[simp] theorem closeWrite_held (p : Pipe α) : p.closeWrite.held = p.held := rfl

@[simp] theorem closeWrite_readers (p : Pipe α) : p.closeWrite.readers = p.readers := rfl

@[simp] theorem closeWrite_writers (p : Pipe α) : p.closeWrite.writers = p.writers - 1 := rfl

theorem read_eq_got_iff : p.read = .got a q ↔ p.held = a :: q.held ∧
    q.readers = p.readers ∧ q.writers = p.writers := by
  obtain ⟨held, readers, writers⟩ := p
  obtain ⟨held', readers', writers'⟩ := q
  cases held with
  | nil =>
      simp only [read]
      split <;> simp
  | cons b held => simp [read, eq_comm, and_assoc]

theorem read_eq_eof_iff : p.read = .eof ↔ p.held = [] ∧ p.writers = 0 := by
  obtain ⟨held, readers, writers⟩ := p
  cases held <;> simp [read]

theorem read_eq_blocked_iff : p.read = .blocked ↔ p.held = [] ∧ 0 < p.writers := by
  obtain ⟨held, readers, writers⟩ := p
  cases held <;> simp [read, Nat.pos_iff_ne_zero]

theorem write_eq_put_iff : p.write capacity as = .put q ↔ 0 < p.readers ∧
    p.held.length + as.length ≤ capacity ∧ q = { p with held := p.held ++ as } := by
  unfold write
  split
  case isTrue h => simp [h]
  case isFalse h =>
    split
    case isTrue hroom => simp [Nat.pos_of_ne_zero h, hroom, eq_comm]
    case isFalse hroom => simp [hroom]

theorem write_eq_sigpipe_iff : p.write capacity as = .sigpipe ↔ p.readers = 0 := by
  unfold write
  split
  case isTrue h => simp [h]
  case isFalse h => split <;> simp [h]

end Pipe

end Cse522.Interleave
