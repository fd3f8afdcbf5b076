import ByteMachine.Proofs.Image.ShortForm

/-!
This module contains what a query says by its parameters: the last payload and all the names count,
whatever else is in the query. Reading one parameter after another is compared with gathering the
values of the two keys, from which it is plain what the order matters for.
-/

namespace ByteMachine
namespace ShortForm

def IsParameter (s : List Char) : Prop :=
  '&' ∉ s ∧ s.head? ≠ some '?'

instance : DecidablePred IsParameter :=
  fun s => inferInstanceAs (Decidable ('&' ∉ s ∧ s.head? ≠ some '?'))

def key (s : List Char) : List Char :=
  s.takeWhile (· ≠ '=')

def value (s : List Char) : List Char :=
  (s.dropWhile (· ≠ '=')).tail

def values (name : List Char) (segments : List (List Char)) : List (List Char) :=
  (segments.filter (key · = name)).map value

def query (segments : List (List Char)) : String :=
  String.ofList (List.intercalate ['&'] segments)

section Values

variable {name : List Char}

theorem values_append (first second : List (List Char)) :
    values name (first ++ second) = values name first ++ values name second := by
  rw [values, values, values, List.filter_append, List.map_append]

theorem values_eq_nil {segments : List (List Char)} (h : ∀ s ∈ segments, key s ≠ name) :
    values name segments = [] := by
  rw [values, List.map_eq_nil_iff, List.filter_eq_nil_iff]
  simpa using h

theorem values_cons_of_key {s : List Char} (h : key s = name) (segments : List (List Char)) :
    values name (s :: segments) = value s :: values name segments := by
  simp [values, h]

theorem mem_values {segments : List (List Char)} {v : List Char} :
    v ∈ values name segments ↔ ∃ s ∈ segments, key s = name ∧ value s = v := by
  simp [values, and_assoc]

theorem values_filter {keep : List Char → Bool} (h : ∀ s, key s = name → keep s)
    (segments : List (List Char)) : values name (segments.filter keep) = values name segments := by
  rw [values, values, List.filter_filter]
  congr 1
  apply List.filter_congr
  intro s _
  by_cases is : key s = name
  . simp [is, h s is]
  . simp [is]

theorem values_filter_ne_nil (h : name ≠ []) (segments : List (List Char)) :
    values name (segments.filter (· ≠ [])) = values name segments := by
  apply values_filter
  intro s is
  apply decide_eq_true
  rintro rfl
  exact h is.symm

theorem length_values (segments : List (List Char)) :
    (values name segments).length = segments.countP (key · = name) := by
  rw [values, List.length_map, List.countP_eq_length_filter]

theorem values_eq_of_perm {segments extras others : List (List Char)}
    (once : segments.countP (key · = name) ≤ 1) (other : ∀ s ∈ extras, key s ≠ name)
    (rearranged : others.Perm (segments ++ extras)) :
    values name others = values name segments := by
  have perm : (values name others).Perm (values name segments) := by
    have := (rearranged.filter (key · = name)).map value
    rwa [← values, ← values, values_append, values_eq_nil other, List.append_nil] at this
  rw [← length_values] at once
  match same : values name segments with
  | [] => simpa [same] using perm
  | [v] => simpa [same] using perm
  | _ :: _ :: _ => simp [same] at once

end Values

/--
What the parameters come to: the last payload and the last name count, and one malformed name makes
the whole query malformed.
-/
def gathered (segments : List (List Char)) : Parameters where
  payload := (values ['p'] segments).getLast?
  filename := (values ['f', 'n'] segments).getLast?.bind Percent.decode
  failed := (values ['f', 'n'] segments).any fun v => (Percent.decode v).isNone

theorem gathered_append_failed {done : List (List Char)} (failed : (gathered done).failed)
    (s : List Char) : (gathered (done ++ [s])).failed := by
  simp only [gathered, values_append, List.any_append, Bool.or_eq_true] at failed ⊢
  exact .inl failed

section Gathered

variable {s : List Char}

theorem gathered_append_payload (h : key s = ['p']) (done : List (List Char)) :
    gathered (done ++ [s]) = { gathered done with payload := some (value s) } := by
  have payloads : values ['p'] [s] = [value s] := values_cons_of_key h []
  have names : values ['f', 'n'] [s] = [] := values_eq_nil (by simp [h])
  simp [gathered, values_append, payloads, names]

theorem gathered_append_name (h : key s = ['f', 'n']) (done : List (List Char)) :
    gathered (done ++ [s]) =
      { gathered done with
        filename := Percent.decode (value s)
        failed := (gathered done).failed || (Percent.decode (value s)).isNone } := by
  have payloads : values ['p'] [s] = [] := values_eq_nil (by simp [h])
  have names : values ['f', 'n'] [s] = [value s] := values_cons_of_key h []
  simp [gathered, values_append, payloads, names]

theorem gathered_append_other (payload : key s ≠ ['p']) (name : key s ≠ ['f', 'n'])
    (done : List (List Char)) : gathered (done ++ [s]) = gathered done := by
  have payloads : values ['p'] [s] = [] := values_eq_nil (by simpa using payload)
  have names : values ['f', 'n'] [s] = [] := values_eq_nil (by simpa using name)
  rw [gathered, gathered, values_append, values_append, payloads, names, List.append_nil,
    List.append_nil]

end Gathered

namespace Parameters

/--
The parameters hold the same as far as an image depends on it. Once a name was malformed, nothing
else has to be the same, as nothing else is looked at.
-/
structure Alike (p q : Parameters) : Prop where
  failed : p.failed = q.failed
  payload : p.failed = false → p.payload = q.payload
  filename : p.failed = false → p.filename = q.filename

theorem Alike.image?_eq {p q : Parameters} (h : Alike p q) : p.image? = q.image? := by
  rw [image?, image?, ← h.failed]
  cases ok : p.failed with
  | true => rfl
  | false => rw [h.payload ok, h.filename ok]

theorem read_of_failed {p : Parameters} (failed : p.failed) (s : List Char) : p.read s = p := by
  rw [read, if_pos failed]

theorem cut_equals (s : List Char) :
    (Text.cut '=' s).1 = key s ∧ (Text.cut '=' s).2.getD [] = value s := by
  rw [Text.cut, key, value]
  cases tail : s.dropWhile (· ≠ '=') with
  | nil =>
    have whole := s.takeWhile_append_dropWhile (p := (· ≠ '='))
    rw [tail, List.append_nil] at whole
    exact ⟨whole.symm, rfl⟩
  | cons c rest => exact ⟨rfl, rfl⟩

theorem read_of_not_failed {p : Parameters} (ok : p.failed = false) (s : List Char) :
    p.read s =
      if key s = ['p'] then
        { p with payload := some (value s) }
      else if key s = ['f', 'n'] then
        match Percent.decode (value s) with
        | some name => { p with filename := some name }
        | none => { p with failed := true }
      else
        { p with ignored := key s :: p.ignored } := by
  obtain ⟨key_eq, value_eq⟩ := cut_equals s
  have going : ¬p.failed = true := by simp [ok]
  rw [← key_eq, ← value_eq]
  exact if_neg going

theorem Alike.read {done : List (List Char)} {p : Parameters} (h : Alike p (gathered done))
    (s : List Char) : Alike (p.read s) (gathered (done ++ [s])) := by
  cases ok : p.failed with
  | true =>
    have failed := gathered_append_failed (h.failed.symm.trans ok) s
    rw [read_of_failed ok]
    exact ⟨ok.trans failed.symm, by simp [ok], by simp [ok]⟩
  | false =>
    have before : (gathered done).failed = false := h.failed.symm.trans ok
    rw [read_of_not_failed ok]
    by_cases payload : key s = ['p']
    . rw [if_pos payload, gathered_append_payload payload]
      exact ⟨h.failed, fun _ => rfl, h.filename⟩
    rw [if_neg payload]
    by_cases named : key s = ['f', 'n']
    . rw [if_pos named, gathered_append_name named, before, Bool.false_or]
      cases Percent.decode (value s) with
      | none => exact ⟨rfl, nofun, nofun⟩
      | some name => exact ⟨ok, h.payload, fun _ => rfl⟩
    . rw [if_neg named, gathered_append_other payload named]
      exact ⟨h.failed, h.payload, h.filename⟩

theorem Alike.foldl_read {done : List (List Char)} {p : Parameters} (h : Alike p (gathered done))
    (rest : List (List Char)) :
    Alike (rest.foldl Parameters.read p) (gathered (done ++ rest)) := by
  -- what is read so far is part of `done`, which is gathered all at once
  induction rest generalizing done p with
  | nil =>
    rw [List.append_nil]
    exact h
  | cons s rest ih =>
    rw [List.foldl_cons, List.append_cons]
    exact ih (h.read s)

end Parameters

theorem gathered_filter_ne_nil (segments : List (List Char)) :
    gathered (segments.filter (· ≠ [])) = gathered segments := by
  rw [gathered, gathered, values_filter_ne_nil (List.cons_ne_nil _ _),
    values_filter_ne_nil (List.cons_ne_nil _ _)]

theorem head?_intercalate_ne {segments : List (List Char)} (h : ∀ s ∈ segments, IsParameter s) :
    (List.intercalate ['&'] segments).head? ≠ some '?' := by
  cases segments with
  | nil => simp
  | cons first segments =>
    have first := (h first (by simp)).2
    cases segments with
    | nil =>
      rw [List.intercalate_singleton]
      exact first
    | cons second segments =>
      rw [List.intercalate_cons_cons, List.append_assoc, List.head?_append]
      cases same : List.head? _ with
      | none => simp
      | some c => simpa [same] using first

theorem words_intercalate {segments : List (List Char)} (h : ∀ s ∈ segments, IsParameter s) :
    Text.words (· = '&') (List.intercalate ['&'] segments) = segments.filter (· ≠ []) := by
  apply Text.words_intercalate_eq_filter (by simp)
  intro s mem c inside
  apply decide_eq_false
  rintro rfl
  exact (h s mem).1 inside

theorem decode_query {segments : List (List Char)} (h : ∀ s ∈ segments, IsParameter s) :
    decode (query segments) = (gathered segments).image? := by
  have start : Parameters.Alike {} (gathered []) := ⟨rfl, fun _ => rfl, fun _ => rfl⟩
  have alike := start.foldl_read (segments.filter (· ≠ []))
  rw [decode, query, String.toList_ofList, parameters, if_neg (head?_intercalate_ne h),
    words_intercalate h, alike.image?_eq, List.nil_append, gathered_filter_ne_nil]

theorem decode_question_mark {segments : List (List Char)} (h : ∀ s ∈ segments, IsParameter s) :
    decode ("?" ++ query segments) = decode (query segments) := by
  have plain : (query segments).toList = List.intercalate ['&'] segments := String.toList_ofList
  have marked : ("?" ++ query segments).toList = '?' :: List.intercalate ['&'] segments := by
    rw [String.toList_append, plain]
    rfl
  rw [decode, decode, marked, plain, parameters, parameters, if_neg (head?_intercalate_ne h)]
  rfl

theorem decode_query_of_perm {segments extras others : List (List Char)}
    (h : ∀ s ∈ segments, IsParameter s) (payload : segments.countP (key · = ['p']) ≤ 1)
    (name : segments.countP (key · = ['f', 'n']) ≤ 1)
    (extra : ∀ s ∈ extras, IsParameter s ∧ key s ≠ ['p'] ∧ key s ≠ ['f', 'n'])
    (rearranged : others.Perm (segments ++ extras)) :
    (∀ s ∈ others, IsParameter s) ∧ decode (query others) = decode (query segments) := by
  have parameters : ∀ s ∈ others, IsParameter s := by
    intro s mem
    rcases List.mem_append.1 (rearranged.mem_iff.1 mem) with mem | mem
    . exact h s mem
    . exact (extra s mem).1
  refine ⟨parameters, ?_⟩
  have payloads := values_eq_of_perm payload (fun s mem => (extra s mem).2.1) rearranged
  have names := values_eq_of_perm name (fun s mem => (extra s mem).2.2) rearranged
  rw [decode_query parameters, decode_query h, gathered, gathered, payloads, names]

theorem getLast?_values {name last : List Char} {after : List (List Char)} (is : key last = name)
    (none : ∀ s ∈ after, key s ≠ name) (before : List (List Char)) :
    (values name (before ++ last :: after)).getLast? = some (value last) := by
  rw [values_append, values_cons_of_key is, values_eq_nil none]
  simp

theorem gathered_of_filter {before earlier : List (List Char)} {last : List Char}
    {after : List (List Char)} (is : key last = ['p']) (none : ∀ s ∈ after, key s ≠ ['p'])
    (rest : earlier.filter (key · ≠ ['p']) = before.filter (key · ≠ ['p'])) :
    gathered (earlier ++ last :: after) = gathered (before ++ last :: after) := by
  have differs : ∀ s, key s = ['f', 'n'] → decide (key s ≠ ['p']) := by
    intro s is
    rw [is]
    rfl
  have names : values ['f', 'n'] earlier = values ['f', 'n'] before := by
    rw [← values_filter differs earlier, rest, values_filter differs before]
  rw [gathered, gathered, getLast?_values is none, getLast?_values is none, values_append,
    values_append, names]

theorem failed_gathered_iff {segments : List (List Char)} :
    (gathered segments).failed ↔
      ∃ s ∈ segments, key s = ['f', 'n'] ∧ ∀ name, ¬Percent.Codes (value s) name := by
  simp only [gathered, List.any_eq_true, mem_values, Option.isNone_iff_eq_none,
    Percent.decode_eq_none_iff]
  constructor
  . rintro ⟨v, ⟨s, mem, named, rfl⟩, malformed⟩
    exact ⟨s, mem, named, malformed⟩
  . rintro ⟨s, mem, named, malformed⟩
    exact ⟨_, ⟨s, mem, named, rfl⟩, malformed⟩

theorem Parameters.image?_eq_none_iff {p : Parameters} :
    p.image? = none ↔ p.failed ∨ p.payload.bind Payload.decode = none := by
  rw [image?]
  cases p.failed with
  | true => simp
  | false =>
    cases p.payload with
    | none => simp
    | some payload => cases read : Payload.decode payload <;> simp [read]

theorem decode_ignores_order_and_extras {segments : List (List Char)}
    (h : ∀ s ∈ segments, IsParameter s) :
    (segments.countP (key · = ['p']) ≤ 1 → segments.countP (key · = ['f', 'n']) ≤ 1 →
      ∀ extras others : List (List Char),
        (∀ s ∈ extras, IsParameter s ∧ key s ≠ ['p'] ∧ key s ≠ ['f', 'n']) →
        others.Perm (segments ++ extras) →
          decode (query others) = decode (query segments) ∧
          decode ("?" ++ query others) = decode (query segments)) ∧
    (∀ before last after, segments = before ++ last :: after → key last = ['p'] →
      (∀ s ∈ after, key s ≠ ['p']) →
        (∀ earlier : List (List Char), (∀ s ∈ earlier, IsParameter s) →
          earlier.filter (key · ≠ ['p']) = before.filter (key · ≠ ['p']) →
            decode (query (earlier ++ last :: after)) = decode (query segments)) ∧
        ∀ image, decode (query segments) = some image →
          ∃ bytes, Payload.decode (value last) = some bytes ∧
            image = { Image.ofProgram bytes with filename := image.filename }) ∧
    (decode (query segments) = none ↔
      (∃ s ∈ segments, key s = ['f', 'n'] ∧ ∀ name, ¬Percent.Codes (value s) name) ∨
      (values ['p'] segments).getLast?.bind Payload.decode = none) := by
  refine ⟨?_, ?_, ?_⟩
  . intro payload name extras others extra rearranged
    obtain ⟨parameters, same⟩ := decode_query_of_perm h payload name extra rearranged
    exact ⟨same, (decode_question_mark parameters).trans same⟩
  . rintro before last after rfl is none
    rw [List.forall_mem_append] at h
    refine ⟨?_, ?_⟩
    . intro earlier parameters rest
      have others : ∀ s ∈ earlier ++ last :: after, IsParameter s :=
        List.forall_mem_append.2 ⟨parameters, h.2⟩
      rw [decode_query others, decode_query (List.forall_mem_append.2 h),
        gathered_of_filter is none rest]
    . intro image decoded
      rw [decode_query (List.forall_mem_append.2 h), Parameters.image?_eq_some_iff] at decoded
      obtain ⟨-, payload, bytes, kept, read, rfl⟩ := decoded
      have same := (getLast?_values is none before).symm.trans kept
      obtain rfl := Option.some.inj same
      exact ⟨bytes, read, rfl⟩
  . rw [decode_query h, Parameters.image?_eq_none_iff, failed_gathered_iff]
    rfl

def plain : List (List Char) :=
  ["fn=a+b%41", "p=AQAAAUkB"].map String.toList

def padded : List (List Char) :=
  ["", "p=AQAAAUkB", "zz", "x=%zz", "fn=a+b%41", ""].map String.toList

def repeated : List (List Char) :=
  ["p=!", "fn=a+b%41", "p=AQAAAUkB"].map String.toList

def broken : List (List Char) :=
  ["fn=%4", "p=AQAAAUkB", "fn=a"].map String.toList

theorem decode_ignores_order_and_extras_of_padded :
    query padded = "&p=AQAAAUkB&zz&x=%zz&fn=a+b%41&" ∧
    decode (query padded) = decode (query plain) ∧
    decode ("?" ++ query padded) = decode (query plain) ∧
    decode (query repeated) = decode (query plain) ∧
    decode (query plain) =
      some { filename := some "a bA", memory := .ofBytes [1, 0, 0, 1, 73, 1] } ∧
    decode (query broken) = none := by
  have parameters : ∀ s ∈ plain, IsParameter s := by decide +kernel
  obtain ⟨rearrange, replace, -⟩ := decode_ignores_order_and_extras parameters
  have extras : ∀ s ∈ ["", "zz", "x=%zz", ""].map String.toList,
      IsParameter s ∧ key s ≠ ['p'] ∧ key s ≠ ['f', 'n'] := by
    decide +kernel
  have rearranged := rearrange (by decide +kernel) (by decide +kernel) _ padded extras
    (by decide +kernel)
  have replaced := (replace ["fn=a+b%41".toList] "p=AQAAAUkB".toList [] rfl rfl (by simp)).1
    (["p=!", "fn=a+b%41"].map String.toList) (by decide +kernel) (by decide +kernel)
  have malformed : ∀ name, ¬Percent.Codes (value "fn=%4".toList) name :=
    Percent.decode_eq_none_iff.1 (by decide +kernel)
  have failed : decode (query broken) = none := by
    have parameters : ∀ s ∈ broken, IsParameter s := by decide +kernel
    apply (decode_ignores_order_and_extras parameters).2.2.2
    exact .inl ⟨"fn=%4".toList, by decide +kernel, by decide +kernel, malformed⟩
  have decoded : decode (query plain) =
      some { filename := some "a bA", memory := .ofBytes [1, 0, 0, 1, 73, 1] } := by
    have holds : gathered plain =
        { payload := some "AQAAAUkB".toList, filename := some "a bA" } := by
      decide +kernel
    rw [decode_query parameters, holds, Parameters.image?_eq_some_iff]
    exact ⟨rfl, _, [1, 0, 0, 1, 73, 1], rfl, by decide, rfl⟩
  exact ⟨by decide +kernel, rearranged.1, rearranged.2, replaced, decoded, failed⟩

end ShortForm
end ByteMachine
