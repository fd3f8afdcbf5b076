/-!
This module contains two ways to settle what holds of all bytes: trying them, and bit by bit.
-/

namespace ByteMachine
namespace Byte

theorem forall_of_fin {p : UInt8 → Prop} (all : ∀ n : Fin 256, p (UInt8.ofFin n)) (b : UInt8) :
    p b :=
  all b.toFin

theorem eq_of_bits {a b : UInt8}
    (bits : ∀ i, i < 8 → a.toBitVec.getLsbD i = b.toBitVec.getLsbD i) : a = b := by
  apply UInt8.toBitVec_inj.1
  apply BitVec.eq_of_getLsbD_eq
  exact bits

end Byte
end ByteMachine
