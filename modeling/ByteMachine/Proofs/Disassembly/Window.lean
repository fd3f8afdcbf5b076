import ByteMachine.Proofs.Disassembly.Listing
import Mathlib.Data.List.DropRight

/-!
This module contains the window around an address: the last rows that end at or before the address,
and the listing from the address on. The window is a piece of the listing of all memory if a row of
that listing begins at the address.
-/

namespace ByteMachine
namespace Disassembly

variable {set : InstructionSet} {memory : Memory}

theorem bounds_of_mem_listing {start count : Nat} {shown : Row}
    (mem : shown ∈ listing set memory start count) :
    start ≤ shown.address.toNat ∧ shown.address.toNat < shown.stop := by
  induction count generalizing start with
  | zero => contradiction
  | succ count ih =>
    rw [listing] at mem
    split at mem
    . next inside =>
      have positive := length_row_pos set memory (UInt8.ofNat start)
      rw [List.mem_cons] at mem
      rcases mem with rfl | mem
      . rw [stop_row inside, address_row, UInt8.toNat_ofNat_of_lt' inside]
        omega
      . have later := ih mem
        omega
    . contradiction

theorem listing_cons {start : Nat} (inside : start < 256) (count : Nat) :
    listing set memory start (count + 1) =
      row set memory (UInt8.ofNat start) ::
        listing set memory (start + (row set memory (UInt8.ofNat start)).length) count := by
  rw [listing, if_pos inside]

theorem take_listing (start count n : Nat) :
    (listing set memory start count).take n = listing set memory start (min n count) := by
  induction n generalizing start count with
  | zero => rw [Nat.zero_min, List.take_zero, listing]
  | succ n ih =>
    cases count with
    | zero => rfl
    | succ count =>
      rw [Nat.add_min_add_right, listing, listing]
      split
      . rw [List.take_succ_cons, ih]
      . exact List.take_nil

theorem listing_of_enough {start count : Nat} (enough : 256 ≤ start + count) (more : Nat) :
    listing set memory start (count + more) = listing set memory start count := by
  induction count generalizing start with
  | zero =>
    have outside : 256 ≤ start := enough
    rw [listing_of_le outside, listing_of_le outside]
  | succ count ih =>
    rw [Nat.add_right_comm, listing, listing]
    split
    . next inside =>
      have positive := length_row_pos set memory (UInt8.ofNat start)
      dsimp only
      rw [ih]
      omega
    . rfl

theorem listing_eq_take {start count : Nat} (enough : 256 ≤ start + count) (n : Nat) :
    listing set memory start n = (listing set memory start count).take n := by
  rw [take_listing]
  rcases Nat.le_total n count with le | le
  . rw [Nat.min_eq_left le]
  . rw [Nat.min_eq_right le, ← Nat.add_sub_cancel' le, listing_of_enough enough]

theorem listing_from_row {start count : Nat} {front rest : List Row} {shown : Row}
    (split : listing set memory start count = front ++ shown :: rest) :
    shown :: rest = listing set memory shown.address.toNat (count - front.length) ∧
      start + front.length ≤ shown.address.toNat ∧
      ∀ earlier ∈ front, earlier.stop ≤ shown.address.toNat := by
  induction front generalizing start count with
  | nil =>
    have first := (tiles_listing start count).first shown (by rw [split]; rfl)
    rw [first]
    exact ⟨split.symm, Nat.le_refl _, List.forall_mem_nil _⟩
  | cons first front ih =>
    cases count with
    | zero => contradiction
    | succ count =>
      rw [listing] at split
      split at split
      . next inside =>
        rw [List.cons_append, List.cons.injEq] at split
        obtain ⟨here, split⟩ := split
        obtain ⟨listed, bound, earlier⟩ := ih split
        have positive := length_row_pos set memory (UInt8.ofNat start)
        rw [List.length_cons, Nat.add_sub_add_right, List.forall_mem_cons, ← here, stop_row inside]
        exact ⟨listed, by omega, by omega, earlier⟩
      . contradiction

def endingBy (set : InstructionSet) (memory : Memory) (center : UInt8) : List Row :=
  (listing set memory 0 256).filter (·.stop ≤ center.toNat)

theorem takeWhile_listing {start count center : Nat} (enough : center ≤ start + count)
    (more : Nat) :
    (listing set memory start count).takeWhile (·.stop ≤ center) =
      (listing set memory start (count + more)).filter (·.stop ≤ center) := by
  have none : ∀ {start count}, center ≤ start →
      (listing set memory start count).filter (·.stop ≤ center) = [] := by
    intro start count le
    rw [List.filter_eq_nil_iff]
    intro shown mem
    have := bounds_of_mem_listing mem
    rw [decide_eq_true_iff]
    omega
  -- rows only go forward, so none ends in time behind the first that does not
  induction count generalizing start with
  | zero => exact (none enough).symm
  | succ count ih =>
    rw [Nat.add_right_comm, listing, listing]
    split
    . next inside =>
      have positive := length_row_pos set memory (UInt8.ofNat start)
      rw [List.takeWhile_cons, List.filter_cons, stop_row inside]
      split
      . rw [ih]
        omega
      . next later =>
        rw [decide_eq_true_iff] at later
        exact (none (by omega)).symm
    . rfl

theorem leading_eq_takeWhile {center : UInt8} {start count : Nat}
    (enough : center.toNat ≤ start + count) :
    leading set memory center start =
      (listing set memory start count).takeWhile (·.stop ≤ center.toNat) := by
  -- on the rows that are still to come, as the loop itself has no bound
  induction count generalizing start with
  | zero =>
    rw [leading, listing, List.takeWhile_nil, if_neg]
    exact Nat.not_lt.2 enough
  | succ count ih =>
    have positive := length_row_pos set memory (UInt8.ofNat start)
    have bound := center.toNat_lt
    rw [leading, listing]
    by_cases ahead : start < center.toNat
    . have inside : start < 256 := by omega
      rw [if_pos ahead, if_pos inside, List.takeWhile_cons, stop_row inside]
      by_cases past : center.toNat < start + (row set memory (UInt8.ofNat start)).length
      . rw [if_pos past, if_neg]
        rw [decide_eq_true_iff]
        omega
      . rw [if_neg past, if_pos (decide_eq_true (Nat.not_lt.1 past)), ih]
        omega
    . rw [if_neg ahead]
      split
      . next inside =>
        rw [List.takeWhile_cons, stop_row inside, if_neg]
        rw [decide_eq_true_iff]
        omega
      . rfl

theorem leading_eq_endingBy (center : UInt8) :
    leading set memory center 0 = endingBy set memory center := by
  have bound := center.toNat_lt
  have enough : center.toNat ≤ 0 + center.toNat := by omega
  have all : 256 = center.toNat + (256 - center.toNat) := by omega
  rw [endingBy, all, leading_eq_takeWhile enough]
  exact takeWhile_listing enough _

theorem stop_le_of_mem_endingBy {center : UInt8} {shown : Row}
    (mem : shown ∈ endingBy set memory center) : shown.stop ≤ center.toNat := by
  have := (List.mem_filter.1 mem).2
  rwa [decide_eq_true_iff] at this

theorem endingBy_of_split {front rest : List Row} {shown : Row}
    (split : listing set memory 0 256 = front ++ shown :: rest) :
    endingBy set memory shown.address = front := by
  obtain ⟨listed, -, earlier⟩ := listing_from_row split
  have kept : front.filter (·.stop ≤ shown.address.toNat) = front := by
    rw [List.filter_eq_self]
    intro row mem
    exact decide_eq_true (earlier row mem)
  have dropped : (shown :: rest).filter (·.stop ≤ shown.address.toNat) = [] := by
    rw [List.filter_eq_nil_iff]
    intro row mem
    rw [listed] at mem
    have := bounds_of_mem_listing mem
    rw [decide_eq_true_iff]
    omega
  rw [endingBy, split, List.filter_append, kept, dropped, List.append_nil]

theorem window_eq (center : UInt8) (before after : Nat) :
    window set memory center before after =
      (endingBy set memory center).rtake before ++
        listing set memory center.toNat (after + 1) := by
  rw [window, leading_eq_endingBy]
  rfl

theorem rtake_min_length (rows : List Row) (n : Nat) :
    rows.rtake (min n rows.length) = rows.rtake n := by
  rw [List.rtake, List.rtake]
  congr 1
  omega

theorem listing_center (center : UInt8) (after : Nat) :
    listing set memory center.toNat (after + 1) =
      row set memory center ::
        listing set memory (center.toNat + (row set memory center).length) after := by
  rw [listing_cons center.toNat_lt, UInt8.ofNat_toNat]

theorem filter_window (center : UInt8) (before after : Nat) :
    (window set memory center before after).filter (·.address = center) =
      [row set memory center] := by
  have ahead : ((endingBy set memory center).rtake before).filter (·.address = center) = [] := by
    rw [List.filter_eq_nil_iff]
    intro shown mem
    have mem : shown ∈ endingBy set memory center := List.mem_of_mem_drop mem
    have bounds := bounds_of_mem_listing (List.mem_filter.1 mem).1
    have stop := stop_le_of_mem_endingBy mem
    rw [decide_eq_true_iff]
    rintro rfl
    omega
  have behind : (listing set memory (center.toNat + (row set memory center).length) after).filter
      (·.address = center) = [] := by
    rw [List.filter_eq_nil_iff]
    intro shown mem
    have bounds := bounds_of_mem_listing mem
    have positive := length_row_pos set memory center
    rw [decide_eq_true_iff]
    rintro rfl
    omega
  rw [window_eq, listing_center, List.filter_append, ahead, List.filter_cons, address_row,
    if_pos (decide_eq_true rfl), behind, List.nil_append]

theorem isChain_window (center : UInt8) (before after : Nat) :
    (window set memory center before after).IsChain
      fun row next => row.stop ≤ next.address.toNat := by
  have tiled : ∀ start count, (listing set memory start count).IsChain
      fun row next => row.stop ≤ next.address.toNat := by
    intro start count
    apply (tiles_listing start count).next.imp
    intro row next follows
    exact Nat.le_of_eq follows.symm
  rw [window, List.isChain_append]
  refine ⟨?_, tiled _ _, ?_⟩
  . obtain ⟨rest, split⟩ : leading set memory center 0 <+: listing set memory 0 center.toNat := by
      rw [leading_eq_takeWhile (Nat.le_add_left _ _)]
      exact List.takeWhile_prefix _
    have whole := tiled 0 center.toNat
    rw [← split] at whole
    exact whole.left_of_append.drop _
  . intro last found first begins
    have place := (tiles_listing _ _).first first begins
    have mem := List.mem_of_mem_drop (List.mem_of_getLast? found)
    rw [leading_eq_endingBy] at mem
    rw [place]
    exact stop_le_of_mem_endingBy mem

theorem window_of_split {front rest : List Row} {shown : Row}
    (split : listing set memory 0 256 = front ++ shown :: rest) (before after : Nat) :
    window set memory shown.address before after =
      front.rtake (min before front.length) ++ shown :: rest.take (min after rest.length) := by
  obtain ⟨listed, bound, -⟩ := listing_from_row split
  have enough : 256 ≤ shown.address.toNat + (256 - front.length) := by omega
  have behind : rest.take (min after rest.length) = rest.take after := by
    rw [← List.take_take, List.take_length]
  rw [window_eq, endingBy_of_split split, listing_eq_take enough, ← listed, List.take_succ_cons,
    rtake_min_length, behind]

theorem window_isInfix_of_split {front rest : List Row} {shown : Row}
    (split : listing set memory 0 256 = front ++ shown :: rest) (before after : Nat) :
    window set memory shown.address before after <:+: listing set memory 0 256 := by
  obtain ⟨first, front_eq⟩ : front.rtake (min before front.length) <:+ front :=
    List.drop_suffix _ _
  obtain ⟨last, rest_eq⟩ : rest.take (min after rest.length) <+: rest := List.take_prefix _ _
  refine ⟨first, last, ?_⟩
  rw [window_of_split split, split, ← List.append_assoc, front_eq, List.append_assoc,
    List.cons_append, rest_eq]

theorem window_eq_cons (center : UInt8) (before after : Nat) :
    let ended := endingBy set memory center
    ∃ behind, behind.length ≤ after ∧
      window set memory center before after =
        ended.rtake (min before ended.length) ++ row set memory center :: behind := by
  refine ⟨listing set memory (center.toNat + (row set memory center).length) after,
    length_listing_le set memory _ after, ?_⟩
  rw [rtake_min_length, ← listing_center]
  exact window_eq center before after

variable {host : Host}

theorem disassembleAround_eq_map {after : Nat} (counts : after < host.counterLimit)
    (center : UInt8) (before : Nat) :
    disassembleAround host set memory center before after =
      (disassemble host set memory center (after + 1)).map
        ((endingBy set memory center).rtake before ++ ·) := by
  rw [← leading_eq_endingBy, disassembleAround, Host.increment_of_lt counts]
  dsimp only [bind, Except.bind]
  cases disassemble host set memory center (after + 1) <;> rfl

theorem disassembleAround_of_room {after : Nat} (counts : after < host.counterLimit)
    (limit : (after + 1) * Row.room host ≤ host.allocationLimit)
    (memoryLeft : (after + 1) * Row.room host ≤ host.memory) (center : UInt8) (before : Nat) :
    disassembleAround host set memory center before after =
      .ok (window set memory center before after) := by
  rw [disassembleAround_eq_map counts, disassemble_of_room limit memoryLeft, window_eq]
  rfl

theorem disassembleAround_slices_listing {host : Host} {after : Nat}
    (counts : after < host.counterLimit) (set : InstructionSet) (memory : Memory) (center : UInt8)
    (before : Nat) :
    let ended := endingBy set memory center
    ((after + 1) * Row.room host ≤ host.allocationLimit →
      (after + 1) * Row.room host ≤ host.memory →
      ∃ rows, disassembleAround host set memory center before after = .ok rows ∧
        rows.filter (·.address = center) = [row set memory center] ∧
        (∃ behind, behind.length ≤ after ∧
          rows = ended.rtake (min before ended.length) ++ row set memory center :: behind) ∧
        rows.IsChain (fun row next => row.stop ≤ next.address.toNat) ∧
        ∀ front shown rest, listing set memory 0 256 = front ++ shown :: rest →
          shown.address = center →
          rows = front.rtake (min before front.length) ++
              shown :: rest.take (min after rest.length) ∧
            rows <:+: listing set memory 0 256) ∧
    ((after + 1) * Row.room host ≤ host.allocationLimit →
      host.memory < (after + 1) * Row.room host →
      disassembleAround host set memory center before after = .error .outOfMemory) ∧
    (host.allocationLimit < (after + 1) * Row.room host →
      disassembleAround host set memory center before after = .error .capacityOverflow) := by
  intro ended
  refine ⟨?_, ?_, ?_⟩
  . intro limit memoryLeft
    refine ⟨window set memory center before after,
      disassembleAround_of_room counts limit memoryLeft center before,
      filter_window center before after, window_eq_cons center before after,
      isChain_window center before after, ?_⟩
    rintro front shown rest split rfl
    exact ⟨window_of_split split before after, window_isInfix_of_split split before after⟩
  . intro limit exceeds
    rw [disassembleAround_eq_map counts, disassemble_of_memory_lt limit exceeds]
    rfl
  . intro exceeds
    rw [disassembleAround_eq_map counts, disassemble_of_limit_lt exceeds]
    rfl

def shortProgram : Memory :=
  .ofBytes [0x01, 1, 0, 0x17, 0]

theorem disassembleAround_slices_listing_of_shortProgram :
    let around := disassembleAround .wide .standard shortProgram
    2 < Host.wide.counterLimit ∧
      (∃ rows, around 5 1 2 = .ok rows ∧
        rows.map Row.address = [3, 5, 6, 7] ∧
        rows <:+: listing .standard shortProgram 0 256) ∧
      (∃ rows, around 4 2 1 = .ok rows ∧
        rows.map Row.address = [0, 4, 5] ∧
        rows.filter (·.address = 4) = [row .standard shortProgram 4]) ∧
      around 0 0 (Host.wide.counterLimit - 1) = .error .capacityOverflow := by
  intro around
  have first : (row .standard shortProgram (UInt8.ofNat 0)).length = 3 := by decide +kernel
  have second : (row .standard shortProgram (UInt8.ofNat 3)).length = 2 := by decide +kernel
  obtain ⟨rest, split⟩ : ∃ rest, listing .standard shortProgram 0 256 =
      [row .standard shortProgram 0, row .standard shortProgram 3] ++
        row .standard shortProgram 5 :: rest := by
    rw [listing_cons (by decide), first, listing_cons (by decide), second, listing_cons (by decide)]
    exact ⟨_, rfl⟩
  have center : (row .standard shortProgram 5).address = 5 := address_row ..
  refine ⟨by decide, ?_, ?_, ?_⟩
  . obtain ⟨rows, shown, -, -, -, slice⟩ := (disassembleAround_slices_listing
      (by decide : 2 < Host.wide.counterLimit) .standard shortProgram 5 1).1 (by decide) (by decide)
    refine ⟨rows, shown, ?_, (slice _ _ rest split center).2⟩
    rw [disassembleAround_of_room (by decide) (by decide) (by decide)] at shown
    cases shown
    rw [window, leading_eq_takeWhile (Nat.le_add_left _ 0)]
    decide +kernel
  . obtain ⟨rows, shown, single, -⟩ := (disassembleAround_slices_listing
      (by decide : 1 < Host.wide.counterLimit) .standard shortProgram 4 2).1 (by decide) (by decide)
    refine ⟨rows, shown, ?_, single⟩
    rw [disassembleAround_of_room (by decide) (by decide) (by decide)] at shown
    cases shown
    rw [window, leading_eq_takeWhile (Nat.le_add_left _ 0)]
    decide +kernel
  . exact (disassembleAround_slices_listing
      (by decide : Host.wide.counterLimit - 1 < Host.wide.counterLimit) .standard shortProgram 0
      0).2.2 (by decide)

end Disassembly
end ByteMachine
