import ByteMachine.Command.Disk

/-!
This module contains the round trip of files: what was written is read back by the same path.
-/

namespace ByteMachine
namespace Command
namespace Disk

theorem entry?_of_enter {d : Disk} {location next : Location} {name : String}
    (entered : d.enter location name = .ok next) : d.entry? location = some .directory := by
  rw [enter] at entered
  split at entered <;> first | assumption | contradiction

theorem foldlM_enter_of_entry? {d f : Disk} {location last : Location} {names : List String}
    (same : ∀ place, place ≠ last → f.entry? place = d.entry? place)
    (found : d.entry? last ≠ some .directory)
    (led : names.foldlM d.enter location = .ok last) :
    names.foldlM f.enter location = .ok last := by
  induction names generalizing location with
  | nil => exact led
  | cons name names ih =>
    rw [List.foldlM_cons] at led ⊢
    cases entered : d.enter location name with
    | error error =>
      rw [entered] at led
      contradiction
    | ok next =>
      rw [entered] at led
      have directory := entry?_of_enter entered
      have elsewhere : location ≠ last := by
        rintro rfl
        exact found directory
      have entered' : f.enter location name = .ok next := by
        rw [← entered, enter, enter, same location elsewhere]
      rw [entered']
      exact ih led

theorem write_eq_ok {d f : Disk} {path : String} {content : List UInt8}
    (written : d.write path content = .ok f) :
    namesDirectory path = false ∧
      ∃ location, d.locate path (names path) = .ok location ∧
        d.entry? location ≠ some .directory ∧
        f = { d with entries := (location, .file content) :: d.entries } := by
  rw [write] at written
  cases directory : namesDirectory path with
  | true =>
    rw [directory, if_pos rfl] at written
    cases located : d.locate path ((names path).dropLast ++ ["."]) <;>
      rw [located] at written <;>
      contradiction
  | false =>
    rw [directory, if_neg Bool.false_ne_true] at written
    cases located : d.locate path (names path) with
    | error error =>
      rw [located] at written
      contradiction
    | ok location =>
      rw [located] at written
      refine ⟨rfl, location, rfl, ?_⟩
      simp only [bind, Except.bind, pure, Except.pure] at written
      split at written
      . contradiction
      . next file =>
        cases written
        exact ⟨file, rfl⟩

theorem read_of_write {d f : Disk} {path : String} {content : List UInt8}
    (written : d.write path content = .ok f) : f.read path = .ok content := by
  obtain ⟨plain, location, located, found, rfl⟩ := write_eq_ok written
  have root : location ≠ [] := by
    rintro rfl
    exact found rfl
  have here : Disk.entry? { d with entries := (location, .file content) :: d.entries } location =
      some (.file content) := by
    simp [ entry?, root]
  have elsewhere : ∀ place, place ≠ location →
      Disk.entry? { d with entries := (location, .file content) :: d.entries } place =
        d.entry? place := by
    intro place other
    simp [ entry?, other.symm]
  have located' : Disk.locate { d with entries := (location, .file content) :: d.entries } path
      (names path) = .ok location := by
    rw [locate] at located ⊢
    cases wrong : pathError? path with
    | some error =>
      rw [wrong] at located
      contradiction
    | none =>
      rw [wrong] at located
      exact foldlM_enter_of_entry? elsewhere found located
  rw [read, located']
  simp only [bind, Except.bind, here, plain]
  rfl

end Disk
end Command
end ByteMachine
