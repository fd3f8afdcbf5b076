import ByteMachine.Proofs.Image.LongForm.Reading
import ByteMachine.Proofs.Text.Number
import Mathlib.Data.List.Induction
import Mathlib.Data.List.ReduceOption

/-!
This module contains the outline of any text, legal or not: what each of its lines is, which section
it is in, and the headers, bytes and warnings this makes. A line is the name if the line above it is
the header of a name; otherwise only its own text tells what it is. The section of a line is set by
the nearest header above it.
-/

namespace ByteMachine
namespace LongForm

def mapBehind (f : List α → α → β) (list : List α) : List β :=
  list.mapIdx fun i a => f (list.take i) a

theorem mapBehind_append_singleton (f : List α → α → β) (list : List α) (a : α) :
    mapBehind f (list ++ [a]) = mapBehind f list ++ [f list a] := by
  have before : (list.mapIdx fun i b => f ((list ++ [a]).take i) b) = mapBehind f list := by
    rw [mapBehind, List.mapIdx_eq_mapIdx_iff]
    intro i bound
    rw [List.take_append_of_le_length (Nat.le_of_lt bound)]
  rw [mapBehind, List.mapIdx_append, before]
  simp

/--
The lines of a text as they are read: a second carriage return at the end of a line goes as well.
-/
def textLines (text : String) : List (List Char) :=
  (Text.lines text.toList).map Decoder.dropReturn

inductive Role where
  | name
  | ignored
  | header (s : Section)
  | data
deriving DecidableEq

def heading? (text : List Char) : Option Section :=
  [.filename, .memory, .vram].find? fun s => s.header.map String.toList = some (Text.trim text)

/--
The line after these is a name: the last one, which comes first here, is the header of a name and
not a name itself.
-/
def awaitsName : List (List Char) → Bool
  | [] => false
  | text :: above => !awaitsName above && heading? text = some .filename

/--
A line and the lines above it, the nearest first.
-/
structure Place where
  text : List Char
  above : List (List Char)

namespace Place

def number (p : Place) : Nat :=
  p.above.length + 1

def role (p : Place) : Role :=
  if awaitsName p.above then
    .name
  else if Ignored p.text then
    .ignored
  else
    match heading? p.text with
    | some s => .header s
    | none => .data

end Place

def Role.below : Role → Section → Section
  | .header s, _ => s
  | _, s => s

def sectionBelow : List (List Char) → Section
  | [] => .start
  | text :: above => (Place.role ⟨text, above⟩).below (sectionBelow above)

def Place.inside (p : Place) : Section :=
  sectionBelow p.above

def places (lines : List (List Char)) : List Place :=
  mapBehind (fun before text => ⟨text, before.reverse⟩) lines

def givenNames (lines : List (List Char)) : List (List Char) :=
  ((places lines).filter (·.role = .name)).map Place.text

/--
The names of a text; one that ends right after the header of a name has an empty name at the end.
-/
def names (lines : List (List Char)) : List (List Char) :=
  givenNames lines ++ if awaitsName lines.reverse then [[]] else []

inductive Item where
  | header (number : Nat) (s inside : Section)
  | stray (number : Nat)
  | token (number : Nat) (inside : Section) (text : List Char)

def Place.items (p : Place) : List Item :=
  match p.role with
  | .header s => [.header p.number s p.inside]
  | .data =>
    if p.inside = .memory ∨ p.inside = .vram then
      (commaTokens p.text).map (.token p.number p.inside)
    else
      [.stray p.number]
  | .name | .ignored => []

def items (lines : List (List Char)) : List Item :=
  (places lines).flatMap Place.items

def Item.byte? (s : Section) : Item → Option UInt8
  | .token _ inside text => if inside = s then Number.writtenByte? text else none
  | _ => none

def sectionBytes (s : Section) (items : List Item) : List UInt8 :=
  items.filterMap (Item.byte? s)

def Item.warning? (before : List Item) : Item → Option Warning
  | .header number s inside =>
    if inside.mayPrecede s then none else some (.outOfOrderSection number s inside)
  | .stray number => some (.byteOutsideSection number)
  | .token number inside text =>
    match Number.writtenByte? text with
    | none => some (.illegalToken number (String.ofList text))
    | some _ =>
      if (sectionBytes inside before).length = 256 then
        some (.sectionOverflow number inside)
      else
        none

def itemWarnings (items : List Item) : List Warning :=
  (mapBehind (fun before item => item.warning? before) items).reduceOption

def endWarnings (s : Section) : List Warning :=
  if s.mayPrecede .stop then [] else [.outOfOrderSection 0 .stop s]

theorem heading?_eq_some_iff {s : Section} {text : List Char} :
    heading? text = some s ↔ IsHeader s text := by
  constructor
  . intro found
    have same := of_decide_eq_true (List.find?_eq_some_iff_append.1 found).1
    obtain ⟨title, known, trimmed⟩ := Option.map_eq_some_iff.1 same
    exact ⟨title, known, trimmed.symm⟩
  . rintro ⟨title, known, trimmed⟩
    rw [heading?, trimmed]
    cases s <;> cases known <;> decide

theorem heading?_eq_none {text : List Char} (other : ∀ s, ¬IsHeader s text) :
    heading? text = none := by
  rw [Option.eq_none_iff_forall_ne_some]
  intro s found
  exact other s (heading?_eq_some_iff.1 found)

theorem Place.role_of_awaitsName {p : Place} (awaits : awaitsName p.above) : p.role = .name :=
  if_pos awaits

section Role

variable {p : Place} (awaits : awaitsName p.above = false)
include awaits

theorem Place.role_of_ignored (ignored : Ignored p.text) : p.role = .ignored := by
  rw [role, awaits, if_neg Bool.false_ne_true, if_pos ignored]

theorem Place.role_of_header {s : Section} (header : IsHeader s p.text) : p.role = .header s := by
  rw [role, awaits, if_neg Bool.false_ne_true, if_neg header.not_ignored,
    heading?_eq_some_iff.2 header]

theorem Place.role_of_data (data : IsData p.text) : p.role = .data := by
  rw [role, awaits, if_neg Bool.false_ne_true, if_neg data.1, heading?_eq_none data.2]

end Role

theorem awaitsName_cons (text : List Char) (above : List (List Char)) :
    awaitsName (text :: above) = decide (Place.role ⟨text, above⟩ = .header .filename) := by
  rw [awaitsName]
  cases awaits : awaitsName above with
  | true =>
    rw [Place.role_of_awaitsName awaits]
    rfl
  | false =>
    rw [Bool.not_false, Bool.true_and, decide_eq_decide, heading?_eq_some_iff]
    rcases ignored_or_header_or_data text with ignored | ⟨s, header⟩ | data
    . rw [Place.role_of_ignored awaits ignored]
      exact iff_of_false (fun header => header.not_ignored ignored) (by decide)
    . rw [Place.role_of_header awaits header, header.iff_eq, Role.header.injEq, eq_comm]
    . rw [Place.role_of_data awaits data]
      exact iff_of_false (data.2 .filename) (by decide)

theorem places_append (lines : List (List Char)) (text : List Char) :
    places (lines ++ [text]) = places lines ++ [⟨text, lines.reverse⟩] :=
  mapBehind_append_singleton _ lines text

theorem givenNames_append (lines : List (List Char)) (text : List Char) :
    givenNames (lines ++ [text]) =
      givenNames lines ++ if Place.role ⟨text, lines.reverse⟩ = .name then [text] else [] := by
  rw [givenNames, places_append, List.filter_append, List.map_append, givenNames]
  congr 1
  rw [List.filter_singleton]
  split <;> simp_all

theorem items_append (lines : List (List Char)) (text : List Char) :
    items (lines ++ [text]) = items lines ++ Place.items ⟨text, lines.reverse⟩ := by
  rw [items, places_append, List.flatMap_append, List.flatMap_singleton, items]

theorem sectionBytes_append (s : Section) (items : List Item) (item : Item) :
    sectionBytes s (items ++ [item]) = sectionBytes s items ++ (item.byte? s).toList := by
  rw [sectionBytes, List.filterMap_append, sectionBytes]
  cases h : item.byte? s <;> simp [h]

theorem itemWarnings_append (items : List Item) (item : Item) :
    itemWarnings (items ++ [item]) = itemWarnings items ++ (item.warning? items).toList := by
  rw [itemWarnings, mapBehind_append_singleton, List.reduceOption_append, itemWarnings]
  cases item.warning? items <;> rfl

def Warning.isOverflow (s : Section) : Warning → Bool
  | .sectionOverflow _ inside => inside = s
  | _ => false

theorem Item.any_isOverflow (s : Section) (before : List Item) (item : Item) :
    (item.warning? before).any (Warning.isOverflow s) =
      ((item.byte? s).isSome && (sectionBytes s before).length = 256) := by
  cases item with
  | header number t inside =>
    rw [warning?]
    split <;> rfl
  | stray number => rfl
  | token number inside text =>
    rw [warning?, byte?]
    cases Number.writtenByte? text with
    | none =>
      rw [ite_self]
      rfl
    | some byte =>
      dsimp only
      by_cases here : inside = s
      . subst here
        split <;> simp [Warning.isOverflow, *]
      . split <;> simp [Warning.isOverflow, *]

theorem countP_isOverflow (s : Section) (items : List Item) :
    (itemWarnings items).countP (Warning.isOverflow s) =
      min 1 ((sectionBytes s items).length - 256) := by
  induction items using List.reverseRecOn with
  | nil => simp [itemWarnings, mapBehind, sectionBytes]
  | append_singleton items item ih =>
    have warned : (item.warning? items).toList.countP (Warning.isOverflow s) =
        if (item.byte? s).isSome ∧ (sectionBytes s items).length = 256 then 1 else 0 := by
      have counted : ∀ o : Option Warning, o.toList.countP (Warning.isOverflow s) =
          if o.any (Warning.isOverflow s) then 1 else 0 := by
        rintro (_ | warning) <;> simp
      simp only [counted, item.any_isOverflow, Bool.and_eq_true, decide_eq_true_eq]
    have grown : (item.byte? s).toList.length = if (item.byte? s).isSome then 1 else 0 := by
      cases item.byte? s <;> rfl
    rw [itemWarnings_append, List.countP_append, ih, sectionBytes_append, List.length_append,
      warned, grown]
    cases (item.byte? s).isSome with
    | false => simp
    | true =>
      simp only [true_and, if_true]
      split <;> omega

end LongForm
end ByteMachine
