import ScriptEngine.Proofs.Script.Chunks
import ScriptEngine.Proofs.Script.Layout

/-!
# What reading a container accepts

A container is read exactly when it has all the bytes that its header announces and its string section splits into chunks. The
script is made of the words and the texts that are there, and bytes behind the container play no part. In any other case the error
is that of the first part that is cut off, or else that of the first string that is not there.

Reading takes many small steps, and each of them could go wrong by itself: a word is read where too few bytes are left, a slice
begins behind the end, the loop over the strings does not come nearer to its end. `ofBytes?` is reading in such steps. None of them
ever goes wrong, since the size of each part is checked before the part is read and each string takes four bytes at least.
-/

namespace ScriptEngine

namespace Container

/-! ## Reading in small steps -/

/-- A computation in steps that may be impossible, in which case there is no result at all, neither a value nor an error. -/
abbrev Stepwise := ExceptT ContainerError Option

/-- A computation of which every step is possible. -/
def Stepwise.of {α : Type} (x : Except ContainerError α) : Stepwise α := ExceptT.mk (some x)

/-- The first bytes and the others, if there are as many. -/
def take? (n : Nat) (bytes : List UInt8) : Option (List UInt8 × List UInt8) :=
  if n ≤ bytes.length then some (bytes.take n, bytes.drop n) else none

/-- Words one by one, if the bytes of each are there. -/
def takeWords? : Nat → List UInt8 → Option (List UInt32 × List UInt8)
  | 0, rest => some ([], rest)
  | n + 1, b0 :: b1 :: b2 :: b3 :: rest => do
    let (ws, rest) ← takeWords? n rest
    return (wordOfBytes b0 b1 b2 b3 :: ws, rest)
  | _ + 1, _ => none

/-- The words of one part, one by one. -/
def wordsOf? (part : Section) (count : Nat) (bytes : List UInt8) : Stepwise (List UInt32 × List UInt8) :=
  if bytes.length < count * 4 then throw (.truncated part (count * 4) bytes.length) else ExceptT.lift (takeWords? count bytes)

/-- The strings of a string section one by one, in so many rounds at most. Each is cut out of what is left up to the first zero, and
its padding ends with it or with what is left. -/
def stringsFrom? (rounds index : Nat) (bytes : List UInt8) : Stepwise (List String) :=
  if bytes.isEmpty then return []
  else
    match rounds with
    | 0 => ExceptT.lift none
    | rounds + 1 => do
      let some stop := bytes.findIdx? (· == 0) | throw (.unterminatedString index)
      let (text, _) ← ExceptT.lift (take? stop bytes)
      let some s := String.fromUTF8? ⟨text.toArray⟩ | throw (.invalidString index)
      let (_, rest) ← ExceptT.lift (take? (min (padded (stop + 1)) bytes.length) bytes)
      let strings ← stringsFrom? rounds (index + 1) rest
      return s :: strings

/-- The script in a container, in small steps. There are as many rounds for the strings as multiples of four bytes. -/
def ofBytes? (bytes : List UInt8) : Stepwise Script := do
  let (counts, rest) ← wordsOf? .header 4 bytes
  let count (i : Nat) : Nat := (counts.getD i 0).toNat
  let (code, rest) ← wordsOf? .code (count 0) rest
  let (ints, rest) ← wordsOf? .ints (count 1) rest
  let (floats, rest) ← wordsOf? .floats (count 2) rest
  if rest.length < count 3 then throw (.truncated .strings (count 3) rest.length)
  let (raw, _) ← ExceptT.lift (take? (count 3) rest)
  let strings ← stringsFrom? (padded raw.length / 4) 0 raw
  return { code := code.toArray, literals := { ints := ints.map (·.toInt32), floats := floats.map (⟨·⟩), strings } }

/-! ## Every step is possible -/

/-- Two computations in sequence are possible if the second one is for each value of the first one. -/
theorem Stepwise.of_bind {α β : Type} {x : Except ContainerError α} {f : α → Stepwise β} {g : α → Except ContainerError β}
    (h : ∀ a, f a = of (g a)) : of x >>= f = of (x >>= g) := by
  cases x with
  | error e => rfl
  | ok a => exact h a

/-- What was possible is carried on with. -/
theorem Stepwise.lift_some_bind {α β : Type} (a : α) (f : α → Stepwise β) : ExceptT.lift (some a) >>= f = f a := rfl

theorem takeWords?_eq_some {count : Nat} {bytes : List UInt8} (h : 4 * count ≤ bytes.length) :
    takeWords? count bytes = some (takeWords count bytes) := by
  induction count generalizing bytes with
  | zero => cases bytes <;> rfl
  | succ count ih =>
    match bytes, h with
    | b0 :: b1 :: b2 :: b3 :: rest, h =>
      have hcount : 4 * count ≤ rest.length := by
        simp only [List.length_cons] at h
        omega
      rw [takeWords?, ih hcount, takeWords]
      rfl

theorem wordsOf?_eq (part : Section) (count : Nat) (bytes : List UInt8) :
    wordsOf? part count bytes = .of (wordsOf part count bytes) := by
  unfold wordsOf? wordsOf
  split
  · rfl
  · rw [takeWords?_eq_some (by omega)]
    rfl

theorem take?_eq_some {n : Nat} {bytes : List UInt8} (h : n ≤ bytes.length) : take? n bytes = some (bytes.take n, bytes.drop n) :=
  if_pos h

/-- A slice that is cut off at the end can be taken in any case. -/
theorem take?_min (n : Nat) (bytes : List UInt8) : take? (min n bytes.length) bytes = some (bytes.take n, bytes.drop n) := by
  rw [take?_eq_some (Nat.min_le_right _ _)]
  rcases Nat.le_total n bytes.length with hn | hn
  · rw [Nat.min_eq_left hn]
  · rw [Nat.min_eq_right hn, List.take_length, List.drop_length, List.take_of_length_le hn, List.drop_eq_nil_of_le hn]

/-- Without a zero there is no first one. -/
theorem findIdx?_of_no_zero {bytes : List UInt8} (h : 0 ∉ bytes) : bytes.findIdx? (· == 0) = none :=
  List.findIdx?_eq_none_iff.mpr fun _ hb => beq_eq_false_iff_ne.mpr (ne_of_mem_of_not_mem hb h)

/-- The first zero is the one behind a text without zeros. -/
theorem findIdx?_text {text : List UInt8} (h : 0 ∉ text) (more : List UInt8) :
    (text ++ 0 :: more).findIdx? (· == 0) = some text.length := by
  rw [List.findIdx?_append, findIdx?_of_no_zero h, List.findIdx?_cons]
  simp

/-- There are rounds enough for as many strings as the bytes can hold, since each string takes four bytes at least. -/
theorem stringsFrom?_eq {rounds : Nat} {bytes : List UInt8} (index : Nat) (h : bytes.length ≤ 4 * rounds) :
    stringsFrom? rounds index bytes = .of (stringsFrom index bytes) := by
  induction rounds generalizing index bytes with
  | zero =>
    obtain rfl : bytes = [] := List.length_eq_zero_iff.mp (by omega)
    rw [stringsFrom]
    rfl
  | succ rounds ih =>
    by_cases hne : bytes = []
    · rw [hne, stringsFrom]
      rfl
    have hempty : ¬ bytes.isEmpty = true := by simpa using hne
    rw [stringsFrom?, if_neg hempty]
    by_cases hzero : 0 ∈ bytes
    · obtain ⟨text, more, rfl, htext⟩ := List.eq_append_cons_of_mem hzero
      have htake : take? text.length (text ++ 0 :: more) = some (text, 0 :: more) := by
        rw [take?_eq_some (by simp), List.take_left' rfl, List.drop_left' rfl]
      have hless : ((text ++ 0 :: more).drop (padded (text.length + 1))).length ≤ 4 * rounds := by
        rw [List.length_drop]
        unfold padded
        omega
      simp only [findIdx?_text htext more, htake, take?_min, Stepwise.lift_some_bind, ih (index + 1) hless,
        stringsFrom_append_zero index htext, ← drop_padded]
      cases String.fromUTF8? ⟨text.toArray⟩ with
      | none => rfl
      | some s => cases stringsFrom (index + 1) ((text ++ 0 :: more).drop (padded (text.length + 1))) <;> rfl
    · simp only [findIdx?_of_no_zero hzero]
      rw [stringsFrom_of_no_zero index hne hzero]
      rfl

/-- Reading in small steps is always possible, and gives what reading gives. -/
theorem ofBytes?_eq (bytes : List UInt8) : ofBytes? bytes = .of (Script.ofBytes bytes) := by
  rw [ofBytes?, wordsOf?_eq]
  refine Stepwise.of_bind ?_
  rintro ⟨counts, rest⟩
  simp only [wordsOf?_eq]
  refine Stepwise.of_bind ?_
  rintro ⟨code, rest⟩
  refine Stepwise.of_bind ?_
  rintro ⟨ints, rest⟩
  refine Stepwise.of_bind ?_
  rintro ⟨floats, rest⟩
  dsimp only
  by_cases hshort : rest.length < (counts.getD 3 0).toNat
  · rw [if_pos hshort, if_pos hshort]
    rfl
  · have hrounds (raw : List UInt8) : raw.length ≤ 4 * (padded raw.length / 4) := by
      unfold padded
      omega
    rw [if_neg hshort, if_neg hshort, take?_eq_some (Nat.le_of_not_lt hshort), Stepwise.lift_some_bind]
    dsimp only
    rw [stringsFrom?_eq 0 (hrounds _)]
    exact Stepwise.of_bind fun _ => rfl

end Container

/-! ## What is accepted -/

namespace Script

open Container

/-- A container is complete or cut off in one of its parts, and this decides how reading it goes on. -/
theorem ofBytes_cases (bytes : List UInt8) :
    Complete bytes ∧ ofBytes bytes = scriptIn bytes <$> stringsFrom 0 (partBytes bytes .strings) ∨
      ∃ part, part.Cut (announced bytes) bytes.length ∧
        ofBytes bytes = .error (.truncated part (announced bytes part) (bytes.length - part.start (announced bytes))) := by
  rcases Section.complete_or_cut (announced bytes) bytes.length with h | ⟨part, h⟩
  · exact Or.inl ⟨h, ofBytes_of_complete h⟩
  · exact Or.inr ⟨part, h, ofBytes_of_cut h⟩

/-- A container is read exactly when it is complete and its string section splits into chunks, and gives its words and their
texts. -/
theorem ofBytes_eq_ok_iff {bytes : List UInt8} {s : Script} :
    ofBytes bytes = .ok s ↔
      Complete bytes ∧ ∃ chunks, Splits (partBytes bytes .strings) chunks ∧ scriptIn bytes (chunks.map (·.text)) = s := by
  rcases ofBytes_cases bytes with ⟨hlong, hread⟩ | ⟨part, hcut, hread⟩
  · rw [hread, map_eq_ok_iff]
    constructor
    · rintro ⟨strings, hstrings, hs⟩
      obtain ⟨chunks, hsplits, rfl⟩ := stringsFrom_eq_ok_iff.mp hstrings
      exact ⟨hlong, chunks, hsplits, hs⟩
    · rintro ⟨-, chunks, hsplits, hs⟩
      exact ⟨_, hsplits.stringsFrom_eq 0, hs⟩
  · rw [hread]
    constructor
    · intro h
      cases h
    · rintro ⟨hlong, -⟩
      exact absurd (hlong.stop_le part) (Nat.not_le.mpr hcut.short)

/-- Reading fails exactly when the container is cut off in some part, or else when its string section does not split. -/
theorem ofBytes_eq_error_iff {bytes : List UInt8} {e : ContainerError} :
    ofBytes bytes = .error e ↔
      (∃ part, part.Cut (announced bytes) bytes.length ∧
          e = .truncated part (announced bytes part) (bytes.length - part.start (announced bytes))) ∨
        Complete bytes ∧ Breaks 0 (partBytes bytes .strings) e := by
  constructor
  · intro h
    rcases ofBytes_cases bytes with ⟨hlong, hread⟩ | ⟨part, hcut, hread⟩
    · rw [hread, map_eq_error_iff] at h
      exact Or.inr ⟨hlong, stringsFrom_eq_error_iff.mp h⟩
    · exact Or.inl ⟨part, hcut, Except.error.inj (h.symm.trans hread)⟩
  · rintro (⟨part, hcut, rfl⟩ | ⟨hlong, hbreaks⟩)
    · exact ofBytes_of_cut hcut
    · rw [ofBytes_of_complete hlong, hbreaks.stringsFrom_eq]
      rfl

/-- What a reader of untrusted bytes does with any of them. Every small step of it is possible. It takes exactly the complete
containers whose string section splits into chunks, and gives the words and the texts in them. Otherwise it reports the first part
that is cut off, with its size and what is left for it, or else the first string at which no chunk begins. What follows a container
plays no part. -/
theorem reads_exactly_containers (bytes : List UInt8) :
    ofBytes? bytes = .of (ofBytes bytes) ∧
      (∀ s, ofBytes bytes = .ok s ↔
        16 + 4 * (countAt bytes 0 + countAt bytes 1 + countAt bytes 2) + countAt bytes 3 ≤ bytes.length ∧
          ∃ chunks, Splits (partBytes bytes .strings) chunks ∧ scriptIn bytes (chunks.map (·.text)) = s) ∧
      (∀ e, ofBytes bytes = .error e ↔
        (∃ part, part.Cut (announced bytes) bytes.length ∧
            e = .truncated part (announced bytes part) (bytes.length - part.start (announced bytes))) ∨
          16 + 4 * (countAt bytes 0 + countAt bytes 1 + countAt bytes 2) + countAt bytes 3 ≤ bytes.length ∧
            Breaks 0 (partBytes bytes .strings) e) ∧
      ∀ s rest, ofBytes bytes = .ok s → ofBytes (bytes ++ rest) = .ok s := by
  rw [← complete_iff]
  refine ⟨ofBytes?_eq bytes, fun s => ofBytes_eq_ok_iff, fun e => ofBytes_eq_error_iff, ?_⟩
  intro s rest h
  rw [ofBytes_append_of_complete (ofBytes_eq_ok_iff.mp h).1 rest, h]

end Script

end ScriptEngine
