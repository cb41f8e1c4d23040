import Mathlib.Algebra.GroupWithZero.Nat

/-!
# Machinery/Numerals — the sizes of small index types

A literal of `Fin n` rests on `NeZero n`.  For the sizes in use the evidence has a name, so that a
literal is one term wherever it stands.
-/

namespace SoftPC

instance (priority := 2000) neZero_two : NeZero 2 := ⟨Nat.succ_ne_zero 1⟩
instance (priority := 2000) neZero_three : NeZero 3 := ⟨Nat.succ_ne_zero 2⟩
instance (priority := 2000) neZero_four : NeZero 4 := ⟨Nat.succ_ne_zero 3⟩
instance (priority := 2000) neZero_eight : NeZero 8 := ⟨Nat.succ_ne_zero 7⟩
instance (priority := 2000) neZero_sixteen : NeZero 16 := ⟨Nat.succ_ne_zero 15⟩

end SoftPC
