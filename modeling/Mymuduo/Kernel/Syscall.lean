import Mathlib.Algebra.Group.Nat.Defs
import Mathlib.Data.Int.Notation
import Mathlib.Tactic.Common

/-!
# Kernel/Syscall — what the library sees of `write`, `readv` and `errno`

The kernel is not modelled: a system call may give any answer its manual page allows, and a run
quantifies over the answers.  An answer carries what the caller can observe — the value returned
and, since the code reads `errno` even where the call did not set it, the value `errno` has when the
call returns.  A log line that comes between two readings of `errno` writes to `std::cout` and asks
for the local time, and may leave any value there; the answer carries that one too.
-/

namespace Mymuduo

/-- A `char` of a buffer or of a socket's byte stream. -/
abbrev Byte := UInt8

/-- A `size_t`, whose arithmetic wraps. -/
abbrev size_t := BitVec 64

/-- An `int` that is not negative converts to the `size_t` of the same value. -/
theorem toNat_signExtend {x : BitVec 32} (hx : x.toNat < 2 ^ 31) :
    (x.signExtend 64).toNat = x.toNat := by
  have hmsb : x.msb = false := by
    rw [BitVec.msb_eq_false_iff_two_mul_lt]
    omega
  rw [BitVec.signExtend_eq_setWidth_of_msb_false hmsb, BitVec.toNat_setWidth]
  exact Nat.mod_eq_of_lt (by omega)

/-- A value of `errno`. -/
abbrev Errno := ℕ

def EWOULDBLOCK : Errno := 11
def EPIPE : Errno := 32
def ECONNRESET : Errno := 104
def ETIMEDOUT : Errno := 110

/-- The answer to `::write`: the value returned, `errno` afterwards, and `errno` once a `LOG_ERROR`
has followed. -/
structure WriteResult where
  n : ℤ
  errno : Errno
  logged : Errno
  deriving DecidableEq, Repr

/-- **The answers the kernel may give to a `write` of `len` bytes**: an error, `0` for an empty
request, or any positive number of the bytes offered. -/
def WriteResult.Allowed (len : ℕ) (r : WriteResult) : Prop :=
  r.n = -1 ∨ (len = 0 ∧ r.n = 0) ∨ (1 ≤ r.n ∧ r.n ≤ len)

instance (len : ℕ) (r : WriteResult) : Decidable (r.Allowed len) :=
  inferInstanceAs (Decidable (_ ∨ _))

/-- The answer to `::readv`: an error, or the bytes delivered. -/
inductive ReadvResult
  | fail (errno : Errno)
  | data (bytes : List Byte)
  deriving DecidableEq, Repr

end Mymuduo
