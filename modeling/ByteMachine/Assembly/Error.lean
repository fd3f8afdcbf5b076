/-!
This module contains what can be wrong with a source text. Assembly ends at the first error.
-/

namespace ByteMachine
namespace Assembly

inductive Problem where
  | invalidLiteral (token : String)
  | registerOutOfRange (token : String)
  | malformedOperand (token : String)
  | unknownMnemonic (mnemonic : String)
  | invalidOperands (mnemonic operands : String)
  | labelNotFound (name : String)
  | duplicateLabel (name : String) (firstLine : Nat)
  | programTooLarge (size : Nat)
deriving DecidableEq

def Problem.message : Problem → String
  | .invalidLiteral token => s!"invalid literal `{token}`"
  | .registerOutOfRange token => s!"register `{token}` is out of range (R0..R7)"
  | .malformedOperand token => s!"malformed operand `{token}`"
  | .unknownMnemonic mnemonic => s!"unknown mnemonic `{mnemonic}`"
  | .invalidOperands mnemonic operands => s!"`{mnemonic}` does not accept operands ({operands})"
  | .labelNotFound name => s!"label `:{name}` is not defined"
  | .duplicateLabel name firstLine =>
    s!"label `:{name}` is already defined on line {firstLine}"
  | .programTooLarge size => s!"program needs {size} bytes but memory holds 256"

structure Error where
  /-- The line of the source, counted from one. -/
  line : Nat
  problem : Problem
deriving DecidableEq

def Error.message (e : Error) : String :=
  s!"line {e.line}: {e.problem.message}"

def onLine (line : Nat) : Except Problem α → Except Error α :=
  Except.mapError (Error.mk line)

theorem bind_eq_ok_iff {x : Except ε α} {f : α → Except ε β} {b : β} :
    x >>= f = .ok b ↔ ∃ a, x = .ok a ∧ f a = .ok b := by
  cases x <;> simp [bind, Except.bind]

theorem bind_eq_error_iff {x : Except ε α} {f : α → Except ε β} {e : ε} :
    x >>= f = .error e ↔ x = .error e ∨ ∃ a, x = .ok a ∧ f a = .error e := by
  cases x <;> simp [bind, Except.bind]

theorem onLine_eq_ok_iff {line : Nat} {x : Except Problem α} {a : α} :
    onLine line x = .ok a ↔ x = .ok a := by
  cases x with
  | ok b =>
    have same : onLine line (.ok b : Except Problem α) = .ok b := rfl
    rw [same, Except.ok.injEq, Except.ok.injEq]
  | error problem =>
    have same : onLine line (.error problem : Except Problem α) = .error ⟨line, problem⟩ := rfl
    simp [same]

theorem onLine_eq_error_iff {line : Nat} {x : Except Problem α} {e : Error} :
    onLine line x = .error e ↔ e.line = line ∧ x = .error e.problem := by
  obtain ⟨line', problem'⟩ := e
  cases x with
  | ok a =>
    have same : onLine line (.ok a : Except Problem α) = .ok a := rfl
    simp [same]
  | error problem =>
    have same : onLine line (.error problem : Except Problem α) = .error ⟨line, problem⟩ := rfl
    simp [same, eq_comm]

end Assembly
end ByteMachine
