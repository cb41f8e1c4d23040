import Mathlib.Data.Nat.Notation

/-!
# Lib/Types — statuses and growing storage

`lib/types`.  Growable storage in the repository is guarded alike everywhere: a capacity computed in
`lib_size`, a bound by what the address space can hold, then the allocator's own answer.
-/

namespace SoftPC

/-- `lib_status`. -/
inductive Status where
  | ok | invalidArgument | invalidState | unsupported | noMemory | ioError | internalError
  | limitExceeded
  deriving DecidableEq

/-- What the target and its allocator decide about one growth. -/
structure Allocation where
  /-- `LIB_SIZE_MAX`. -/
  sizeMax : ℕ
  /-- `sizeof` one entry. -/
  entryBytes : ℕ
  /-- The allocator returns storage. -/
  allocates : Bool

/-- `2u * capacity`, in `lib_size`. -/
def Allocation.doubled (a : Allocation) (capacity : ℕ) : ℕ := capacity * 2 % (a.sizeMax + 1)

/-- Storage for so many entries is had. -/
def Allocation.holds (a : Allocation) (entries : ℕ) : Bool :=
  entries ≤ a.sizeMax / a.entryBytes && a.allocates

end SoftPC
