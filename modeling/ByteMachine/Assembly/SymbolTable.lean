import ByteMachine.Assembly.Error

/-!
This module contains the table of the labels a source declares.
-/

namespace ByteMachine
namespace Assembly

structure Symbol where
  /-- The address of the instruction after the label. -/
  offset : Nat
  line : Nat
deriving DecidableEq

/--
Labels and what they stand for, in the order of their declarations; no label comes twice.
-/
structure SymbolTable where
  entries : List (String × Symbol) := []
deriving DecidableEq

namespace SymbolTable

def get? (t : SymbolTable) (name : String) : Option Symbol :=
  (t.entries.find? (·.1 = name)).map (·.2)

def size (t : SymbolTable) : Nat :=
  t.entries.length

def define (t : SymbolTable) (name : String) (symbol : Symbol) : Except Problem SymbolTable :=
  match t.get? name with
  | some first => .error (.duplicateLabel name first.line)
  | none => .ok ⟨t.entries ++ [(name, symbol)]⟩

def sorted (t : SymbolTable) : List (String × Symbol) :=
  t.entries.mergeSort fun (a, s) (b, t) =>
    s.offset < t.offset || (s.offset = t.offset && !decide (b < a))

@[simp]
theorem get?_empty (name : String) : get? {} name = none := rfl

theorem define_eq_ok_iff {t u : SymbolTable} {name : String} {symbol : Symbol} :
    t.define name symbol = .ok u ↔
      t.get? name = none ∧ u = ⟨t.entries ++ [(name, symbol)]⟩ := by
  simp only [define]
  cases t.get? name with
  | none => simp [eq_comm]
  | some first => simp

theorem define_eq_error_iff {t : SymbolTable} {name : String} {symbol : Symbol}
    {problem : Problem} :
    t.define name symbol = .error problem ↔
      ∃ first, t.get? name = some first ∧ problem = .duplicateLabel name first.line := by
  simp only [define]
  cases t.get? name with
  | none => simp
  | some first => simp [eq_comm]

theorem get?_define {t u : SymbolTable} {name : String} {symbol : Symbol}
    (h : t.define name symbol = .ok u) (other : String) :
    u.get? other = if other = name then some symbol else t.get? other := by
  simp only [define] at h
  split at h
  . simp at h
  . next fresh =>
    cases h
    simp only [get?, Option.map_eq_none_iff] at fresh
    simp only [get?, List.find?_append]
    by_cases same : other = name
    . subst same
      simp [fresh]
    . simp [same, eq_comm]

theorem get?_of_define {t u : SymbolTable} {name other : String} {symbol found : Symbol}
    (h : t.define name symbol = .ok u) (declared : t.get? other = some found) :
    u.get? other = some found := by
  have fresh : other ≠ name := by
    rintro rfl
    rw [define, declared] at h
    contradiction
  rw [get?_define h, if_neg fresh, declared]

end SymbolTable
end Assembly
end ByteMachine
