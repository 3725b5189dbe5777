import Mathlib.Tactic

/-!
# Lists with distinct keys

A table is a list whose elements carry a key, no key twice.  Looking up, writing
and removing the first element under a key then concern exactly one element.
-/

namespace QosOlsr.Library

open List

universe u v

variable {Elem : Type u} {Key : Type v} [DecidableEq Key]

def modifyKey (keyOf : Elem → Key) (key : Key) (write : Elem → Elem) : List Elem → List Elem
  | [] => []
  | elem :: rest =>
    if keyOf elem = key then
      write elem :: rest
    else
      elem :: modifyKey keyOf key write rest

variable {keyOf : Elem → Key} {key : Key} {elems : List Elem}

theorem find?_key_eq_none_iff :
    elems.find? (fun elem => keyOf elem = key) = none ↔ key ∉ elems.map keyOf := by
  simp [find?_eq_none]

variable {elem : Elem}

theorem of_find?_key_eq_some (found : elems.find? (fun elem => keyOf elem = key) = some elem) :
    elem ∈ elems ∧ keyOf elem = key :=
  ⟨mem_of_find?_eq_some found, by simpa using find?_some found⟩

theorem find?_key_eq_some_iff (nodup : (elems.map keyOf).Nodup) :
    elems.find? (fun elem => keyOf elem = key) = some elem ↔ elem ∈ elems ∧ keyOf elem = key := by
  refine ⟨of_find?_key_eq_some, ?_⟩
  rintro ⟨mem, isKey⟩
  cases found : elems.find? (fun elem => keyOf elem = key) with
  | none => exact absurd (isKey ▸ mem_map_of_mem mem) (find?_key_eq_none_iff.mp found)
  | some other =>
    have isOther := of_find?_key_eq_some found
    rw [inj_on_of_nodup_map nodup isOther.1 mem (isOther.2.trans isKey.symm)]

variable {write : Elem → Elem}

theorem mem_modifyKey_iff
    (nodup : (elems.map keyOf).Nodup) : elem ∈ modifyKey keyOf key write elems ↔ elem ∈ elems ∧
      keyOf elem ≠ key ∨ ∃ written ∈ elems, keyOf written = key ∧ elem = write written := by
  induction elems with
  | nil => simp [modifyKey]
  | cons first rest ih =>
    rw [map_cons, nodup_cons] at nodup
    have inRest := ih nodup.2
    rw [modifyKey]
    split
    next isFirst =>
      have others : ∀ other ∈ rest, keyOf other ≠ key := by
        intro other mem isKey
        exact nodup.1 (isFirst ▸ isKey ▸ mem_map_of_mem mem)
      grind
    next notFirst =>
      simp only [mem_cons, inRest]
      grind

theorem map_modifyKey {Image : Type*} {image : Elem → Image}
    (keeps : ∀ elem, image (write elem) = image elem) :
    (modifyKey keyOf key write elems).map image = elems.map image := by
  induction elems with
  | nil => rfl
  | cons first rest ih =>
    rw [modifyKey]
    split
    · simp [keeps]
    · simp [ih]

theorem find?_modifyKey (keepsKey : ∀ elem, keyOf (write elem) = keyOf elem) (other : Key) :
    (modifyKey keyOf key write elems).find? (fun elem => keyOf elem = other) =
      if other = key then
        (elems.find? fun elem => keyOf elem = other).map write
      else
        elems.find? fun elem => keyOf elem = other := by
  induction elems with
  | nil => simp [modifyKey]
  | cons first rest ih =>
    rw [modifyKey]
    split
    next isFirst => grind
    next notFirst => grind

theorem mem_eraseP_key_iff (nodup : (elems.map keyOf).Nodup) :
    elem ∈ elems.eraseP (fun elem => keyOf elem = key) ↔ elem ∈ elems ∧ keyOf elem ≠ key := by
  induction elems with
  | nil => simp
  | cons first rest ih =>
    rw [map_cons, nodup_cons] at nodup
    have inRest := ih nodup.2
    by_cases isFirst : keyOf first = key
    · have others : ∀ other ∈ rest, keyOf other ≠ key := by
        intro other mem isKey
        exact nodup.1 (isFirst ▸ isKey ▸ mem_map_of_mem mem)
      rw [eraseP_cons_of_pos (by simpa using isFirst)]
      grind
    · rw [eraseP_cons_of_neg (by simpa using isFirst)]
      simp only [mem_cons, inRest]
      grind

theorem find?_eraseP_key (nodup : (elems.map keyOf).Nodup) (other : Key) :
    (elems.eraseP fun elem => keyOf elem = key).find? (fun elem => keyOf elem = other) =
      if other = key then
        none
      else
        elems.find? fun elem => keyOf elem = other := by
  have nodup' : ((elems.eraseP fun elem => keyOf elem = key).map keyOf).Nodup :=
    nodup.sublist (eraseP_sublist.map keyOf)
  apply Option.ext
  intro elem
  rw [find?_key_eq_some_iff nodup', mem_eraseP_key_iff nodup]
  split
  next same => grind
  next ne =>
    rw [find?_key_eq_some_iff nodup]
    grind

theorem eraseP_key_eq_filter (nodup : (elems.map keyOf).Nodup) :
    elems.eraseP (fun elem => keyOf elem = key) = elems.filter fun elem => keyOf elem ≠ key := by
  induction elems with
  | nil => rfl
  | cons first rest ih =>
    rw [map_cons, nodup_cons] at nodup
    by_cases isFirst : keyOf first = key
    · rw [eraseP_cons_of_pos (by simpa using isFirst),
        filter_cons_of_neg (by simpa using isFirst), eq_comm, filter_eq_self]
      intro elem mem
      rw [decide_eq_true_eq, ← isFirst]
      rintro isKey
      exact nodup.1 (isKey ▸ mem_map_of_mem mem)
    · rw [eraseP_cons_of_neg (by simpa using isFirst),
        filter_cons_of_pos (by simpa using isFirst), ih nodup.2]

theorem find?_filter_key (keeps : Key → Bool) (other : Key) :
    (elems.filter fun elem => keeps (keyOf elem)).find? (fun elem => keyOf elem = other) =
      if keeps other then elems.find? fun elem => keyOf elem = other
      else none := by
  induction elems with
  | nil => simp
  | cons first rest ih =>
    rw [filter_cons]
    split
    · grind
    · grind

theorem find?_filter_of_nodup (nodup : (elems.map keyOf).Nodup) (keeps : Elem → Bool) :
    (elems.filter keeps).find? (fun elem => keyOf elem = key) =
      (elems.find? fun elem => keyOf elem = key).filter keeps := by
  apply Option.ext
  intro elem
  rw [find?_key_eq_some_iff (nodup.sublist (filter_sublist.map _)), Option.filter_eq_some_iff,
    find?_key_eq_some_iff nodup, mem_filter, and_right_comm]

omit [DecidableEq Key] in
theorem mem_map_filter_iff (nodup : (elems.map keyOf).Nodup) {keeps : Elem → Bool} :
    key ∈ (elems.filter keeps).map keyOf ↔
      key ∈ elems.map keyOf ∧ key ∉ (elems.filter fun elem => ¬ keeps elem).map keyOf := by
  simp only [mem_map, mem_filter]
  constructor
  · rintro ⟨elem, ⟨mem, isKept⟩, isKey⟩
    refine ⟨⟨elem, mem, isKey⟩, ?_⟩
    rintro ⟨other, ⟨otherMem, notKept⟩, otherKey⟩
    have same := inj_on_of_nodup_map nodup otherMem mem (otherKey.trans isKey.symm)
    simp [same, isKept] at notKept
  · rintro ⟨⟨elem, mem, isKey⟩, notRemoved⟩
    refine ⟨elem, ⟨mem, ?_⟩, isKey⟩
    by_contra notKept
    exact notRemoved ⟨elem, ⟨mem, by simpa using notKept⟩, isKey⟩

end QosOlsr.Library
