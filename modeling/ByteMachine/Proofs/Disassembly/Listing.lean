import ByteMachine.Proofs.Disassembly.Row
import Mathlib.Data.List.Chain

/-!
This module contains the listing of memory: its rows lie one behind another without gaps, and only
the end of memory cuts it short.
-/

namespace ByteMachine
namespace Disassembly

variable {set : InstructionSet} {memory : Memory}

/--
The rows lie one behind another in memory, from an address on. Addresses are counted as integers
here, so no row begins past the last address; the bytes of the last row go round at 256.
-/
structure Tiles (set : InstructionSet) (memory : Memory) (start : Nat) (rows : List Row) :
    Prop where
  first : ∀ row ∈ rows.head?, row.address.toNat = start
  next : rows.IsChain fun row next => next.address.toNat = row.stop
  decoded : ∀ shown ∈ rows, shown = row set memory shown.address
  bytes : rows.flatMap Row.bytes = bytesFrom memory start (rows.flatMap Row.bytes).length

theorem Tiles.nil (start : Nat) : Tiles set memory start [] where
  first := by simp
  next := .nil
  decoded := by simp
  bytes := rfl

theorem stop_row {start : Nat} (inside : start < 256) :
    (row set memory (UInt8.ofNat start)).stop =
      start + (row set memory (UInt8.ofNat start)).length := by
  rw [Row.stop, address_row, UInt8.toNat_ofNat_of_lt' inside]

theorem Tiles.cons {start : Nat} {rows : List Row} (inside : start < 256)
    (rest : Tiles set memory (start + (row set memory (UInt8.ofNat start)).length) rows) :
    Tiles set memory start (row set memory (UInt8.ofNat start) :: rows) := by
  constructor
  . intro shown mem
    cases mem
    rw [address_row, UInt8.toNat_ofNat_of_lt' inside]
  . rw [List.isChain_cons]
    refine ⟨?_, rest.next⟩
    intro next mem
    rw [stop_row inside]
    exact rest.first next mem
  . rw [List.forall_mem_cons, address_row]
    exact ⟨rfl, rest.decoded⟩
  . have here := bytes_row set memory (UInt8.ofNat start)
    have behind := rest.bytes
    rw [UInt8.toNat_ofNat_of_lt' inside] at here
    rw [List.flatMap_cons, List.length_append, bytesFrom_add, ← Row.length, ← here, ← behind]

theorem tiles_listing (start count : Nat) :
    Tiles set memory start (listing set memory start count) := by
  induction count generalizing start with
  | zero => exact .nil start
  | succ count ih =>
    rw [listing]
    split
    . next inside => exact .cons inside (ih _)
    . exact .nil start

theorem listing_of_le {start : Nat} (outside : 256 ≤ start) (count : Nat) :
    listing set memory start count = [] := by
  cases count with
  | zero => rfl
  | succ count => rw [listing, if_neg (Nat.not_lt.2 outside)]

theorem length_listing_or_stop {start : Nat} (inside : start < 256) (count : Nat) :
    (listing set memory start count).length = count ∨
      ∃ last, (listing set memory start count).getLast? = some last ∧ 256 ≤ last.stop := by
  induction count generalizing start with
  | zero => exact .inl rfl
  | succ count ih =>
    rw [listing, if_pos inside]
    let shown := row set memory (UInt8.ofNat start)
    by_cases within : start + shown.length < 256
    . rcases ih within with length | ⟨last, found, stop⟩
      . exact .inl (by rw [List.length_cons, length])
      . exact .inr ⟨last, by rw [List.getLast?_cons, found, Option.getD_some], stop⟩
    . have stop : 256 ≤ start + shown.length := Nat.not_lt.1 within
      simp only [listing_of_le stop, shown]
      refine .inr ⟨shown, rfl, ?_⟩
      rw [stop_row inside]
      exact stop

theorem listing_prefix (start count more : Nat) :
    listing set memory start count <+: listing set memory start (count + more) := by
  induction count generalizing start with
  | zero => exact List.nil_prefix
  | succ count ih =>
    rw [Nat.add_right_comm, listing, listing]
    split
    . exact (List.prefix_cons_inj _).2 (ih _)
    . exact List.nil_prefix

theorem listing_eq_nil_iff {start : Nat} (inside : start < 256) (count : Nat) :
    listing set memory start count = [] ↔ count = 0 := by
  cases count with
  | zero => simp [listing]
  | succ count => simp [listing, inside]

theorem disassemble_of_room {host : Host} {count : Nat}
    (limit : count * Row.room host ≤ host.allocationLimit)
    (memoryLeft : count * Row.room host ≤ host.memory) (start : UInt8) :
    disassemble host set memory start count = .ok (listing set memory start.toNat count) := by
  rw [disassemble, Host.allocate_of_le limit memoryLeft]
  rfl

theorem disassemble_of_memory_lt {host : Host} {count : Nat}
    (limit : count * Row.room host ≤ host.allocationLimit)
    (exceeds : host.memory < count * Row.room host) (start : UInt8) :
    disassemble host set memory start count = .error .outOfMemory := by
  rw [disassemble, Host.allocate_of_memory_lt limit exceeds]
  rfl

theorem disassemble_of_limit_lt {host : Host} {count : Nat}
    (exceeds : host.allocationLimit < count * Row.room host) (start : UInt8) :
    disassemble host set memory start count = .error .capacityOverflow := by
  rw [disassemble, Host.allocate_of_limit_lt exceeds]
  rfl

theorem disassemble_tiles_memory (host : Host) (set : InstructionSet) (memory : Memory)
    (start : UInt8) (count : Nat) :
    (count * Row.room host ≤ host.allocationLimit → count * Row.room host ≤ host.memory →
      ∃ rows, disassemble host set memory start count = .ok rows ∧
        (rows = [] ↔ count = 0) ∧
        Tiles set memory start.toNat rows ∧
        rows.length ≤ count ∧
        (rows.length = count ∨ ∃ last, rows.getLast? = some last ∧ 256 ≤ last.stop) ∧
        ∀ fewer ≤ count, ∃ front,
          disassemble host set memory start fewer = .ok front ∧ front <+: rows) ∧
    (count * Row.room host ≤ host.allocationLimit → host.memory < count * Row.room host →
      disassemble host set memory start count = .error .outOfMemory) ∧
    (host.allocationLimit < count * Row.room host →
      disassemble host set memory start count = .error .capacityOverflow) := by
  refine ⟨?_, fun limit exceeds => disassemble_of_memory_lt limit exceeds start,
    fun exceeds => disassemble_of_limit_lt exceeds start⟩
  intro limit memoryLeft
  refine ⟨listing set memory start.toNat count, disassemble_of_room limit memoryLeft start,
    listing_eq_nil_iff start.toNat_lt count, tiles_listing start.toNat count,
    length_listing_le set memory start.toNat count, length_listing_or_stop start.toNat_lt count, ?_⟩
  intro fewer le
  have room : fewer * Row.room host ≤ count * Row.room host := Nat.mul_le_mul_right _ le
  refine ⟨listing set memory start.toNat fewer,
    disassemble_of_room (room.trans limit) (room.trans memoryLeft) start, ?_⟩
  rw [← Nat.add_sub_cancel' le]
  exact listing_prefix start.toNat fewer (count - fewer)

theorem disassemble_tiles_memory_of_straddling :
    let memory := Engine.straddling.machine.memory
    (∃ rows, disassemble .wide .standard memory 254 9 = .ok rows ∧
      rows.map Row.bytes = [[0], [0x11, 5, 2]] ∧ Tiles .standard memory 254 rows) ∧
    disassemble .wide .standard .zero 0 Host.wide.counterLimit = .error .capacityOverflow := by
  intro memory
  refine ⟨?_, (disassemble_tiles_memory .wide .standard .zero 0 _).2.2 (by decide)⟩
  obtain ⟨rows, listed, -, tiles, -⟩ :=
    (disassemble_tiles_memory .wide .standard memory 254 9).1 (by decide) (by decide)
  refine ⟨rows, listed, ?_, tiles⟩
  rw [disassemble_of_room (by decide) (by decide)] at listed
  cases listed
  decide +kernel

end Disassembly
end ByteMachine
