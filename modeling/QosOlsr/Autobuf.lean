import QosOlsr.Library.Bytes
import QosOlsr.Library.Runs

/-!
# Auto-growing buffers

`autobuf.c`, with allocations that succeed.
-/

namespace QosOlsr

open List Library

def autobufsizemax : Nat := 2 ^ 24

structure Autobuf where
  size : Nat
  len : Nat
  buf : Memory

/-- The power is `AUTOBUFCHUNK` in all calls. -/
def roundUpToPowerOf2 (val : Nat) : Nat :=
  if val ≤ autobufsizemax - 4095 then (val + 4095) / 4096 * 4096 else autobufsizemax

namespace Autobuf

section

variable (st : Autobuf)

def text : List UInt8 := readBytes st.buf 0 st.len

/-- A write outside the allocated bytes has no result. -/
def write (offset : Nat) (bytes : List UInt8) : Option Autobuf :=
  if offset + bytes.length ≤ st.size then
    some { st with
      buf := fun i => if offset ≤ i then bytes[i - offset]?.getD (st.buf i) else st.buf i }
  else
    none

def abufInit (initialSize : Int) : Autobuf :=
  ⟨if initialSize ≤ 0 then 0 else roundUpToPowerOf2 initialSize.toNat, 0, fun _ => 0⟩

/-- The inner result is `none` if a failure is reported, the outer one if an
assertion fails. -/
def autobufEnlarge (newSize : Nat) : Option (Option Autobuf) :=
  let newSize := (newSize + 1) % 2 ^ 32
  if autobufsizemax ≤ st.size then some none
  else if newSize ≤ st.size then some (some st)
  else if 2 ^ 31 ≤ newSize then none
  else some (some ⟨roundUpToPowerOf2 newSize, st.len, fun i => if i < st.size then st.buf i else 0⟩)

/-- Enlarge, write and add to the length. -/
def fill (newSize count : Nat) (writes : Autobuf → Option Autobuf) : Option (Option Autobuf) :=
  (st.autobufEnlarge newSize).bind fun
    | none => some none
    | some large => (writes large).map fun filled => some { filled with len := filled.len + count }

def abufPuts (s : List UInt8) : Option (Option Autobuf) :=
  let string := s.takeWhile (· ≠ 0)
  if string = [] then some (some st)
  else st.fill (st.len + string.length + 1) string.length (·.write st.len (string ++ [0]))

/-- What `strncpy` writes: zeros from the first zero on. -/
def strncpy (src : Memory) (count : Nat) : List UInt8 :=
  (range count).map fun i => if ∃ j < i, src j = 0 then 0 else src i

def abufConcat (st s : Autobuf) : Option (Option Autobuf) :=
  if s.len = 0 then some (some st)
  else st.fill (st.len + s.len + 1) s.len (·.write st.len (strncpy s.buf (s.len + 1)))

def abufMemcpy (p : List UInt8) : Option (Option Autobuf) :=
  st.fill (st.len + p.length) p.length (·.write st.len p)

def abufMemcpyPrefix (p : List UInt8) : Option (Option Autobuf) :=
  st.fill (st.len + p.length) p.length fun large =>
    (large.write p.length large.text).bind (·.write 0 p)

/-- Behind the old bytes, `realloc` leaves what it finds. -/
def abufPull (len : Nat) (stale : Memory) : Option (Option Autobuf) :=
  (st.write 0 (st.text.drop len)).map fun moved =>
    some ⟨roundUpToPowerOf2 (st.len - len + 1), st.len - len,
      fun i => if i < st.size then moved.buf i else stale i⟩

end

inductive Event where
  | init (initialSize : Int)
  | puts (s : List UInt8)
  | concat (s : Autobuf)
  | memcpy (p : List UInt8)
  | memcpyPrefix (p : List UInt8)
  | pull (len : Nat) (stale : Memory)

namespace Event

def perform (st : Autobuf) : Event → Option (Option Autobuf)
  | init initialSize => some (some (.abufInit initialSize))
  | puts s => st.abufPuts s
  | concat s => st.abufConcat s
  | memcpy p => st.abufMemcpy p
  | memcpyPrefix p => st.abufMemcpyPrefix p
  | pull len stale => st.abufPull len stale

def ideal (text : List UInt8) : Event → List UInt8
  | init _ => []
  | puts s => text ++ s.takeWhile (· ≠ 0)
  | concat s => text ++ s.text
  | memcpy p => text ++ p
  | memcpyPrefix p => p ++ text
  | pull len _ => text.drop len

/-- A buffer beside the ideal string, which follows the operations that succeed. -/
def step (st : Autobuf × List UInt8) (event : Event) : Option (Autobuf × List UInt8) :=
  (event.perform st.1).map fun
    | none => st
    | some next => (next, event.ideal st.2)

end Event

def ValidSize (size : Nat) : Prop := size ≤ autobufsizemax ∧ size % 4096 = 0

/-- The buffer has the text at its start and room for a terminator; if it is
`clean`, all behind the text is zero. -/
structure Holds (clean : Prop) (st : Autobuf) (text : List UInt8) : Prop where
  len : st.len = text.length
  content : ∀ i < st.len, text[i]? = some (st.buf i)
  room : st.len = 0 ∨ st.len < st.size
  valid : ValidSize st.size
  zeros : clean → ∀ i, st.len ≤ i → i < st.size → st.buf i = 0

def Fits (st : Autobuf) (count : Nat) : Prop :=
  st.len + count < autobufsizemax ∨ st.size = autobufsizemax

/-- What the operations need: a text without zeros to concatenate, and for a
clean buffer, that what is pulled leaves zeros behind. -/
def Proper (clean : Prop) (st : Autobuf) : Event → Prop
  | .init _ => True
  | .puts s => Fits st (s.takeWhile (· ≠ 0)).length
  | .concat s => Fits st s.len ∧ 0 ∉ s.text ∧ Holds clean s s.text
  | .memcpy p | .memcpyPrefix p => Fits st p.length
  | .pull len _ => len ≤ st.len ∧
    (clean → 0 < st.size ∧ ∀ i < st.len, st.len - len ≤ i → st.buf i = 0)

variable {clean : Prop} {st : Autobuf} {text : List UInt8}

/-- The operation reports a failure, or leaves a buffer with the new text. -/
def Keeps (clean : Prop) (result : Option (Option Autobuf)) (text : List UInt8) : Prop :=
  result = some none ∨ ∃ next, result = some (some next) ∧ Holds clean next text

theorem roundUpToPowerOf2_bounds (val : Nat) :
    min val autobufsizemax ≤ roundUpToPowerOf2 val ∧ ValidSize (roundUpToPowerOf2 val) ∧
      ∀ size, ValidSize size → val ≤ size → roundUpToPowerOf2 val ≤ size := by
  unfold roundUpToPowerOf2 ValidSize autobufsizemax
  split
  · exact ⟨by omega, by omega, fun size valid below => by omega⟩
  · exact ⟨by omega, by omega, fun size valid below => by omega⟩

private theorem strncpy_succ {src : Memory} {count : Nat} (noZero : 0 ∉ readBytes src 0 count) :
    Autobuf.strncpy src (count + 1) = readBytes src 0 count ++ [src count] := by
  have nonzero : ∀ i ≤ count, ¬ ∃ j < i, src j = 0 := by
    rintro i within ⟨j, before, zero⟩
    exact noZero (mem_map.mpr ⟨j, by simp; omega, by simpa using zero⟩)
  rw [Autobuf.strncpy, range_succ, map_append, map_singleton, if_neg (nonzero count le_rfl)]
  congr 1
  apply map_congr_left
  intro i mem
  rw [if_neg (nonzero i (mem_range.mp mem).le), Nat.zero_add]

theorem holds_abufInit (clean : Prop) (initialSize : Int) :
    Holds clean (.abufInit initialSize) [] := by
  refine ⟨rfl, nofun, .inl rfl, ?_, fun _ _ _ _ => rfl⟩
  rw [Autobuf.abufInit]
  split
  · exact ⟨Nat.zero_le _, rfl⟩
  · exact (roundUpToPowerOf2_bounds initialSize.toNat).2.1

variable (holds : Holds clean st text)
include holds

theorem Holds.text_eq : st.text = text := by
  obtain ⟨len, content, -⟩ := holds
  apply ext_getElem?
  grind [Autobuf.text, readBytes]

section

variable {count newSize : Nat} (fits : Fits st count) (low : st.len + count ≤ newSize)
  (high : newSize ≤ st.len + count + 1)
include fits low high

theorem Holds.autobufEnlarge :
    st.autobufEnlarge newSize = some none ∨ ∃ large, st.autobufEnlarge newSize = some (some large) ∧
      large.len = st.len ∧ large.len + count < large.size ∧ Holds clean large text := by
  have ⟨len, content, room, ⟨below, _⟩, zeros⟩ := holds
  rw [Autobuf.autobufEnlarge]
  by_cases full : autobufsizemax ≤ st.size
  · exact .inl (if_pos full)
  have small := fits.resolve_right (by omega)
  have noWrap : (newSize + 1) % 2 ^ 32 = newSize + 1 := by
    unfold autobufsizemax at small
    omega
  obtain ⟨enough, valid, -⟩ := roundUpToPowerOf2_bounds (newSize + 1)
  simp only [noWrap, if_neg full]
  split_ifs with roomy huge
  · exact .inr ⟨st, rfl, rfl, by omega, holds⟩
  · unfold autobufsizemax at small
    omega
  · refine .inr ⟨_, rfl, rfl, by grind, len, by grind, by grind, valid, by grind⟩

theorem Holds.fill {after : List UInt8} {writes : Autobuf → Option Autobuf}
    (written : ∀ large, large.len = st.len → large.len + count < large.size →
      Holds clean large text → ∃ filled, writes large = some filled ∧
        Holds clean { filled with len := filled.len + count } after) :
    Keeps clean (st.fill newSize count writes) after := by
  rw [Autobuf.fill]
  obtain refused | ⟨large, enlarged, same, room, held⟩ := holds.autobufEnlarge fits low high
  · exact .inl (by rw [refused]; rfl)
  · obtain ⟨filled, done, holdsAfter⟩ := written large same room held
    exact .inr ⟨_, by simp [enlarged, done], holdsAfter⟩

end

theorem Holds.append {bytes terminator : List UInt8}
    (fits : Fits st bytes.length) (short : terminator.length ≤ 1)
    (zero : clean → ∀ byte ∈ terminator, byte = 0) :
    Keeps clean (st.fill (st.len + bytes.length + terminator.length) bytes.length
      (·.write st.len (bytes ++ terminator))) (text ++ bytes) := by
  refine holds.fill fits (by omega) (by omega) fun large same room held => ?_
  obtain ⟨len, content, -, valid, zeros⟩ := held
  rw [Autobuf.write, if_pos (by rw [length_append]; omega)]
  refine ⟨_, rfl, ?_, ?_, .inr room, valid, ?_⟩
  · grind
  · grind
  · grind [getElem_mem]

theorem Holds.abufMemcpyPrefix {p : List UInt8} (fits : Fits st p.length) :
    Keeps clean (st.abufMemcpyPrefix p) (p ++ text) := by
  refine holds.fill fits le_rfl (Nat.le_succ _) fun large same room held => ?_
  have isText := held.text_eq
  obtain ⟨len, content, -, valid, zeros⟩ := held
  rw [Autobuf.write, if_pos (by rw [isText]; omega), Option.bind_some, Autobuf.write,
    if_pos (by simp only; omega)]
  refine ⟨_, rfl, ?_, ?_, .inr room, valid, ?_⟩
  · grind
  · grind
  · grind

theorem Holds.abufPull {len : Nat} {stale : Memory} (proper : Proper clean st (.pull len stale)) :
    Keeps clean (st.abufPull len stale) (text.drop len) := by
  obtain ⟨within, leaves⟩ := proper
  obtain ⟨enough, validNew, least⟩ := roundUpToPowerOf2_bounds (st.len - len + 1)
  have isText := holds.text_eq
  obtain ⟨isLen, content, room, valid, zeros⟩ := holds
  rw [Autobuf.abufPull, Autobuf.write, if_pos (by grind), Option.map_some]
  refine .inr ⟨_, rfl, ?_, ?_, ?_, validNew, ?_⟩
  · grind
  · grind
  · grind [ValidSize]
  · grind

theorem Holds.perform {event : Event} (proper : Proper clean st event) :
    Keeps clean (event.perform st) (event.ideal text) := by
  cases event with
  | init initialSize => exact .inr ⟨_, rfl, holds_abufInit clean initialSize⟩
  | puts s =>
    rw [Event.perform, Autobuf.abufPuts, Event.ideal]
    split
    next empty =>
      rw [empty, append_nil]
      exact .inr ⟨st, rfl, holds⟩
    next => exact holds.append proper le_rfl fun _ _ => mem_singleton.mp
  | concat s =>
    obtain ⟨fits, noZero, source⟩ := proper
    rw [Event.perform, Autobuf.abufConcat, Event.ideal]
    split
    next empty =>
      rw [Autobuf.text, empty]
      exact .inr ⟨st, rfl, (append_nil text).symm ▸ holds⟩
    next nonempty =>
      have zero : clean → ∀ byte ∈ [s.buf s.len], byte = 0 := by
        intro isClean byte mem
        rw [mem_singleton.mp mem]
        exact source.zeros isClean s.len le_rfl (source.room.resolve_left nonempty)
      have kept := holds.append (source.len ▸ fits) le_rfl zero
      rw [← source.len] at kept
      rw [strncpy_succ noZero]
      exact kept
  | memcpy p =>
    simpa [Event.perform, Autobuf.abufMemcpy, Event.ideal] using
      @Holds.append clean st text holds p [] proper (Nat.zero_le 1) nofun
  | memcpyPrefix p => exact holds.abufMemcpyPrefix proper
  | pull len stale => exact holds.abufPull proper

private theorem Holds.length_lt : text.length < autobufsizemax := by
  obtain ⟨len, -, room, ⟨below, -⟩, -⟩ := holds
  unfold autobufsizemax at *
  omega

omit holds

/-- Operations that fit, or find the largest buffer, never write outside it and
follow the ideal string, if no zero is concatenated.  A terminator follows the
text as long as pulled bytes leave zeros. -/
theorem abuf_follows_ideal (clean : Prop) (initialSize : Int) (events : List Event)
    (meets : RunMeets Event.step (fun st => Proper clean st.1)
      (.abufInit initialSize, []) events) :
    ∃ st text, runEvents Event.step (.abufInit initialSize, []) events = some (st, text) ∧
      st.text = text ∧ (clean → 0 < st.size → st.buf st.len = 0) ∧
      ∀ event, Proper clean st event → autobufsizemax ≤ (event.ideal text).length →
        event.perform st = some none := by
  have run : ∃ final, runEvents Event.step (.abufInit initialSize, []) events = some final ∧
      Holds clean final.1 final.2 := by
    refine runEvents_exists_of_meets ?_ (holds_abufInit clean initialSize) meets
    intro st event holds proper
    obtain refused | ⟨next, done, kept⟩ := holds.perform proper
    · exact ⟨st, by rw [Event.step, refused]; rfl, holds⟩
    · exact ⟨(next, _), by rw [Event.step, done]; rfl, kept⟩
  obtain ⟨⟨st, text⟩, run, holds⟩ := run
  refine ⟨st, text, run, holds.text_eq, fun isClean allocated => ?_, fun event proper large => ?_⟩
  · exact holds.zeros isClean st.len le_rfl (holds.room.elim (fun empty => empty ▸ allocated) id)
  · obtain refused | ⟨next, -, kept⟩ := holds.perform proper
    · exact refused
    · exact absurd kept.length_lt (not_lt.mpr large)

theorem abuf_follows_ideal_pulled : ∃ st,
    runEvents Event.step (.abufInit 0, [])
        [.memcpy [97, 0], .memcpyPrefix [98, 99], .pull 1 fun _ => 0] =
      some (st, [99, 97, 0]) ∧ st.text = [99, 97, 0] := by
  have meets : RunMeets Event.step (fun st => Proper False st.1) (.abufInit 0, [])
      [.memcpy [97, 0], .memcpyPrefix [98, 99], .pull 1 fun _ => 0] := by
    refine ⟨.inl (by decide), ?_⟩
    rintro _ ⟨⟩
    refine ⟨.inl (by decide), ?_⟩
    rintro _ ⟨⟩
    exact ⟨⟨by decide, False.elim⟩, fun _ _ => trivial⟩
  have computed : (runEvents Event.step (.abufInit 0, [])
      [.memcpy [97, 0], .memcpyPrefix [98, 99], .pull 1 fun _ => 0]).map Prod.snd =
        some [99, 97, 0] := by
    decide +kernel
  obtain ⟨st, text, run, same, -⟩ := abuf_follows_ideal False 0 _ meets
  rw [run, Option.map_some, Option.some_inj] at computed
  subst computed
  exact ⟨st, run, same⟩

/-- A pull leaves the byte behind the text, a copy of a string stops at a zero,
and a buffer does not grow beyond the largest size. -/
theorem abuf_loses_text :
    (∃ final, runEvents Event.step (.abufInit 0, [])
        [.memcpy [97, 98], .pull 1 fun _ => 0] = some final ∧ final.1.buf final.1.len ≠ 0) ∧
      (∃ final, runEvents Event.step (.abufInit 0, [])
        [.concat ⟨4096, 3, fun i => [97, 0, 98].getD i 0⟩] = some final ∧ final.1.text ≠ final.2) ∧
      (Event.memcpy (replicate (2 ^ 24 + 1) 97)).perform (.abufInit 0) = none := by
  refine ⟨by decide +kernel, by decide +kernel, ?_⟩
  simp only [Event.perform, Autobuf.abufMemcpy, Autobuf.fill, Autobuf.write, length_replicate]
  decide +kernel

end Autobuf

end QosOlsr
