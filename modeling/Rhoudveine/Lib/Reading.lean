import Rhoudveine.Lib.LittleEndian

/-!
# Computations that read bytes

A computation on a memory that it does not change, written once: what it returns and which
addresses it reads are two readings of one definition.
-/

namespace Rhoudveine

inductive Reading (α : Type) where
  | done (value : α)
  | byte (addr : ℕ) (next : UInt8 → Reading α)

namespace Reading

variable {α β : Type}

def bind : Reading α → (α → Reading β) → Reading β
  | done value, f => f value
  | byte addr next, f => byte addr fun b => (next b).bind f

instance : Monad Reading where
  pure := done
  bind := bind

/-- `*addr`. -/
def read (addr : ℕ) : Reading UInt8 := byte addr done

/-- What the computation returns. -/
def run (mem : ℕ → UInt8) : Reading α → α
  | done value => value
  | byte addr next => (next (mem addr)).run mem

/-- The addresses that it reads, in order. -/
def reads (mem : ℕ → UInt8) : Reading α → List ℕ
  | done _ => []
  | byte addr next => addr :: (next (mem addr)).reads mem

variable {mem mem' : ℕ → UInt8}

@[simp] theorem run_pure (value : α) : run mem (pure value) = value := rfl

@[simp] theorem reads_pure (value : α) : reads mem (pure value : Reading α) = [] := rfl

@[simp] theorem run_read (addr : ℕ) : run mem (read addr) = mem addr := rfl

@[simp] theorem reads_read (addr : ℕ) : reads mem (read addr) = [addr] := rfl

@[simp] theorem run_bind (x : Reading α) (f : α → Reading β) :
    run mem (x >>= f) = run mem (f (run mem x)) := by
  induction x with
  | done value => rfl
  | byte addr next ih => exact ih (mem addr)

@[simp] theorem reads_bind (x : Reading α) (f : α → Reading β) :
    reads mem (x >>= f) = reads mem x ++ reads mem (f (run mem x)) := by
  induction x with
  | done value => rfl
  | byte addr next ih => exact congrArg (addr :: ·) (ih (mem addr))

/-! ## Words -/

/-- A word of `n` bytes, least significant first. -/
def readLe (addr : ℕ) : (n : ℕ) → Reading ℕ
  | 0 => pure 0
  | n + 1 => do
    let b ← read addr
    let rest ← readLe (addr + 1) n
    pure (b.toNat + 256 * rest)

@[simp] theorem run_readLe (addr n : ℕ) : run mem (readLe addr n) = LittleEndian.le mem addr n := by
  induction n generalizing addr with
  | zero => rfl
  | succ n ih => simp [readLe, LittleEndian.le, ih]

@[simp] theorem reads_readLe (addr n : ℕ) : reads mem (readLe addr n) = List.range' addr n := by
  induction n generalizing addr with
  | zero => rfl
  | succ n ih => simp [readLe, ih, List.range'_succ]

end Reading

end Rhoudveine
