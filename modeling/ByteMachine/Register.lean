import ByteMachine.Byte

/-!
This module contains the eight registers, their packing in pairs into one operand byte, and the
register file that holds their values.
-/

namespace ByteMachine

structure Register where
  index : Fin 8
deriving DecidableEq

namespace Register

def all : List Register :=
  (List.finRange 8).map Register.mk

def ofByte? (byte : UInt8) : Option Register :=
  if h : byte.toNat < 8 then some ⟨byte.toNat, h⟩ else none

def toByte (r : Register) : UInt8 :=
  UInt8.ofNat r.index

def name (r : Register) : String :=
  s!"R{r.index.val}"

theorem toNat_toByte (r : Register) : r.toByte.toNat = r.index := by
  have := r.index.isLt
  simp only [toByte, UInt8.toNat_ofNat']
  omega

@[simp]
theorem ofByte?_toByte (r : Register) : ofByte? r.toByte = some r := by
  simp [ofByte?, toNat_toByte]

theorem toByte_of_ofByte? {byte : UInt8} {r : Register} (h : ofByte? byte = some r) :
    r.toByte = byte := by
  simp only [ofByte?] at h
  split at h
  . cases h
    simp [toByte]
  . simp at h

end Register

structure RegisterPair where
  source : Register
  destination : Register
deriving DecidableEq

namespace RegisterPair

def toByte (p : RegisterPair) : UInt8 :=
  p.source.toByte <<< 4 ||| p.destination.toByte

def ofByte? (byte : UInt8) : Option RegisterPair :=
  match Register.ofByte? (byte >>> 4), Register.ofByte? (byte &&& 0x0F) with
  | some source, some destination => some ⟨source, destination⟩
  | _, _ => none

@[simp]
theorem ofByte?_toByte (p : RegisterPair) : ofByte? p.toByte = some p := by
  obtain ⟨⟨s⟩, ⟨d⟩⟩ := p
  revert s d
  decide

theorem toByte_of_ofByte? {byte : UInt8} {p : RegisterPair} (h : ofByte? byte = some p) :
    p.toByte = byte := by
  have all : ((ofByte? byte).all fun p => p.toByte = byte) = true := by
    apply Byte.forall_of_fin _ byte
    decide +kernel
  rw [h] at all
  simpa using all

theorem toNat_toByte (p : RegisterPair) :
    p.toByte.toNat / 16 = p.source.index ∧ p.toByte.toNat % 16 = p.destination.index := by
  obtain ⟨⟨s⟩, ⟨d⟩⟩ := p
  revert s d
  decide

end RegisterPair

structure RegisterFile where
  cells : Vector UInt8 8
deriving DecidableEq

namespace RegisterFile

def zero : RegisterFile :=
  ⟨Vector.replicate 8 0⟩

def get (f : RegisterFile) (r : Register) : UInt8 :=
  f.cells[r.index]

def set (f : RegisterFile) (r : Register) (value : UInt8) : RegisterFile :=
  ⟨f.cells.set r.index value⟩

def toList (f : RegisterFile) : List UInt8 :=
  f.cells.toList

theorem ext_get {f g : RegisterFile} (h : ∀ r, f.get r = g.get r) : f = g := by
  obtain ⟨f⟩ := f
  obtain ⟨g⟩ := g
  exact congrArg RegisterFile.mk (Vector.ext fun i hi => h ⟨⟨i, hi⟩⟩)

theorem toList_inj {f g : RegisterFile} : f.toList = g.toList ↔ f = g := by
  cases f
  cases g
  simp [toList, Vector.toList_inj]

@[simp]
theorem get_zero (r : Register) : zero.get r = 0 := by
  simp [zero, get]

theorem get_set (f : RegisterFile) (r s : Register) (value : UInt8) :
    (f.set r value).get s = if r = s then value else f.get s := by
  obtain ⟨⟨i, hi⟩⟩ := r
  obtain ⟨⟨j, hj⟩⟩ := s
  simp [get, set, Vector.getElem_set]

@[simp]
theorem get_set_self (f : RegisterFile) (r : Register) (value : UInt8) :
    (f.set r value).get r = value := by
  simp [get_set]

end RegisterFile
end ByteMachine
