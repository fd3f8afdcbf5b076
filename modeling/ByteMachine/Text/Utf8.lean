/-!
This module contains the UTF-8 form of a text as a list of bytes.
-/

namespace ByteMachine
namespace Text

def toUtf8 (s : String) : List UInt8 :=
  s.toByteArray.data.toList

def ofUtf8? (bytes : List UInt8) : Option String :=
  String.fromUTF8? ⟨bytes.toArray⟩

theorem ofUtf8?_eq_some_iff {bytes : List UInt8} {s : String} :
    ofUtf8? bytes = some s ↔ bytes = toUtf8 s := by
  simp only [ofUtf8?, toUtf8, String.fromUTF8?]
  split
  . next h =>
    constructor
    . intro h'
      cases h'
      rfl
    . rintro rfl
      rfl
  . next h =>
    constructor
    . intro h'
      cases h'
    . rintro rfl
      exact absurd s.isValidUTF8 (by simpa using h)

@[simp]
theorem ofUtf8?_toUtf8 (s : String) : ofUtf8? (toUtf8 s) = some s :=
  ofUtf8?_eq_some_iff.2 rfl

end Text
end ByteMachine
