/-!
This module contains a bank of 256 memory cells, addressed by a byte.
-/

namespace ByteMachine

structure Memory where
  cells : Vector UInt8 256
deriving DecidableEq

namespace Memory

def zero : Memory :=
  ⟨Vector.replicate 256 0⟩

def get (m : Memory) (address : UInt8) : UInt8 :=
  m.cells[address.toFin]

def set (m : Memory) (address value : UInt8) : Memory :=
  ⟨m.cells.set address.toNat value address.toNat_lt⟩

def overlay (m : Memory) (bytes : List UInt8) : Memory :=
  let bytes := bytes.toArray
  ⟨Vector.ofFn fun i => bytes.getD i m.cells[i]⟩

def ofBytes (bytes : List UInt8) : Memory :=
  zero.overlay bytes

def toList (m : Memory) : List UInt8 :=
  m.cells.toList

def addresses : List UInt8 :=
  (List.range 256).map UInt8.ofNat

@[simp]
theorem length_toList (m : Memory) : m.toList.length = 256 := by
  simp [toList]

theorem ext_get {m n : Memory} (h : ∀ address, m.get address = n.get address) : m = n := by
  obtain ⟨m⟩ := m
  obtain ⟨n⟩ := n
  exact congrArg Memory.mk (Vector.ext fun i hi => h (UInt8.ofFin ⟨i, hi⟩))

theorem toList_inj {m n : Memory} : m.toList = n.toList ↔ m = n := by
  cases m
  cases n
  simp [toList, Vector.toList_inj]

@[simp]
theorem get_zero (address : UInt8) : zero.get address = 0 := by
  simp [zero, get]

theorem get_set (m : Memory) (a b value : UInt8) :
    (m.set a value).get b = if a = b then value else m.get b := by
  simp [get, set, Vector.getElem_set, UInt8.toNat_inj]

@[simp]
theorem get_set_self (m : Memory) (address value : UInt8) :
    (m.set address value).get address = value := by
  simp [get_set]

theorem get_overlay (m : Memory) (bytes : List UInt8) (address : UInt8) :
    (m.overlay bytes).get address = bytes.getD address.toNat (m.get address) := by
  simp [overlay, get, List.getD_eq_getElem?_getD]

@[simp]
theorem get_ofBytes (bytes : List UInt8) (address : UInt8) :
    (ofBytes bytes).get address = bytes.getD address.toNat 0 := by
  simp [ofBytes, get_overlay]

@[simp]
theorem ofBytes_nil : ofBytes [] = zero := by
  apply ext_get
  intro address
  rw [get_ofBytes, get_zero]
  rfl

theorem getD_toList (m : Memory) (address : UInt8) (d : UInt8) :
    m.toList.getD address.toNat d = m.get address := by
  simp [toList, get, List.getD_eq_getElem?_getD, address.toNat_lt]

@[simp]
theorem ofBytes_toList (m : Memory) : ofBytes m.toList = m := by
  apply ext_get
  intro address
  rw [get_ofBytes, getD_toList]

theorem toList_eq_map (m : Memory) : m.toList = addresses.map m.get := by
  apply List.ext_getElem
  . simp [addresses]
  . intro i bound _
    rw [length_toList] at bound
    simp [toList, addresses, get, Nat.mod_eq_of_lt bound]

theorem toList_ofBytes (bytes : List UInt8) :
    (ofBytes bytes).toList = bytes.take 256 ++ List.replicate (256 - bytes.length) 0 := by
  rw [toList_eq_map]
  apply List.ext_getElem
  . simp [addresses]
    omega
  . intro i bound _
    simp only [addresses, List.length_map, List.length_range] at bound
    simp only [addresses, List.getElem_map, List.getElem_range, get_ofBytes, UInt8.toNat_ofNat',
      Nat.mod_eq_of_lt bound, List.getElem_append, List.length_take, List.getD_eq_getElem?_getD]
    split
    . next copied =>
      rw [List.getElem_take, List.getElem?_eq_getElem (by omega), Option.getD_some]
    . next beyond =>
      rw [List.getElem_replicate, List.getElem?_eq_none (by omega), Option.getD_none]

theorem map_zip_addresses (f : UInt8 → UInt8 → α) (bytes : List UInt8) :
    ((addresses.zip bytes).map fun (address, value) => f address value) =
      (bytes.take 256).mapIdx fun i value => f (UInt8.ofNat i) value := by
  apply List.ext_getElem
  . simp [addresses]
  . intro i _ _
    simp [addresses]

def write (m : Memory) (cells : List (UInt8 × UInt8)) : Memory :=
  cells.foldl (fun m (address, value) => m.set address value) m

theorem get_write_range {start n : Nat} (bound : start + n ≤ 256) (m : Memory)
    (bytes : List UInt8) (address : UInt8) :
    (m.write (((List.range' start n).map UInt8.ofNat).zip bytes)).get address =
      if start ≤ address.toNat ∧ address.toNat < start + n then
        bytes.getD (address.toNat - start) (m.get address)
      else
        m.get address := by
  induction n generalizing start m bytes with
  | zero =>
    rw [if_neg (by omega)]
    rfl
  | succ n ih =>
    cases bytes with
    | nil => simp [write]
    | cons byte bytes =>
      have inside : start + 1 + n ≤ 256 := by omega
      have rest := ih inside (m.set (UInt8.ofNat start) byte) bytes
      have first : (m.write (((List.range' start (n + 1)).map UInt8.ofNat).zip (byte :: bytes))) =
          (m.set (UInt8.ofNat start) byte).write
            (((List.range' (start + 1) n).map UInt8.ofNat).zip bytes) := rfl
      have start_toNat : (UInt8.ofNat start).toNat = start := by
        rw [UInt8.toNat_ofNat']
        omega
      rw [first, rest, get_set]
      by_cases same : UInt8.ofNat start = address
      . have : address.toNat = start := by rw [← same, start_toNat]
        rw [if_neg (by omega), if_pos same, if_pos (by omega), this]
        simp
      . have : address.toNat ≠ start := by
          intro h
          apply same
          rw [← UInt8.toNat_inj, start_toNat, h]
        rw [if_neg same]
        by_cases inside : start + 1 ≤ address.toNat ∧ address.toNat < start + 1 + n
        . have : address.toNat - start = address.toNat - (start + 1) + 1 := by omega
          rw [if_pos inside, if_pos (by omega), this]
          rfl
        . rw [if_neg inside, if_neg (by omega)]

theorem write_addresses (m : Memory) (bytes : List UInt8) :
    m.write (addresses.zip bytes) = m.overlay bytes := by
  apply ext_get
  intro address
  have := address.toNat_lt
  rw [addresses, List.range_eq_range', get_write_range (by omega), get_overlay, if_pos (by omega)]
  rfl

theorem set_eq_self {m : Memory} {address value : UInt8} (same : m.get address = value) :
    m.set address value = m := by
  apply ext_get
  intro b
  rw [get_set]
  split
  . next h => rw [← h, same]
  . rfl

theorem write_filter_ne_zero {m : Memory} {cells : List (UInt8 × UInt8)}
    (distinct : (cells.map Prod.fst).Nodup)
    (clear : ∀ address, (address, 0) ∈ cells → m.get address = 0) :
    m.write (cells.filter fun (_, value) => value ≠ 0) = m.write cells := by
  induction cells generalizing m with
  | nil => rfl
  | cons cell cells ih =>
    obtain ⟨a, value⟩ := cell
    rw [List.map_cons, List.nodup_cons] at distinct
    have first : m.write ((a, value) :: cells) = (m.set a value).write cells := rfl
    have rest : (m.set a value).write (cells.filter fun (_, value) => value ≠ 0) =
        (m.set a value).write cells := by
      apply ih distinct.2
      intro b mem
      have other : a ≠ b := by
        rintro rfl
        exact distinct.1 (List.mem_map.2 ⟨_, mem, rfl⟩)
      rw [get_set, if_neg other]
      exact clear b (List.mem_cons_of_mem _ mem)
    rw [first, ← rest]
    by_cases zero : value = 0
    . subst zero
      rw [List.filter_cons_of_neg (by simp), set_eq_self (clear a List.mem_cons_self)]
    . rw [List.filter_cons_of_pos (by simpa using zero)]
      rfl

theorem nodup_addresses : addresses.Nodup := by
  rw [addresses, List.Nodup, List.pairwise_map]
  apply List.Pairwise.imp_of_mem ?_ List.nodup_range
  intro i j hi hj different same
  have := congrArg UInt8.toNat same
  rw [List.mem_range] at hi hj
  rw [UInt8.toNat_ofNat', UInt8.toNat_ofNat'] at this
  omega

theorem overlay_take (m : Memory) (bytes : List UInt8) :
    m.overlay (bytes.take 256) = m.overlay bytes := by
  apply ext_get
  intro address
  have := address.toNat_lt
  rw [get_overlay, get_overlay, List.getD_eq_getElem?_getD, List.getD_eq_getElem?_getD,
    List.getElem?_take_of_lt this]

end Memory
end ByteMachine
