import Mathlib.Data.List.Induction
import ScriptEngine.Proofs.Registry.Signature

/-!
# The grammar of signatures

A signature is a word over `lsfcS`, and if a slash follows, a word over `lsfcSx` behind it. The beginnings of signatures are
signatures themselves, so a text that is none has a first character at which it stops being one. Reading stops there, and which
character it is and whether a slash stands in front of it tells why (`Stops`).
-/

namespace ScriptEngine

namespace Signature

/-! ## The grammar -/

/-- The letters of the parameters that may be required. -/
def requiredLetters : List Char := ['l', 's', 'f', 'c', 'S']

/-- The letters of the parameters that may be left out. -/
def optionalLetters : List Char := ['l', 's', 'f', 'c', 'S', 'x']

/-- The texts of signatures, with the numbers of letters in front of the slash and behind it. -/
inductive Form : List Char → Nat → Nat → Prop where
  | plain {front : List Char} : (∀ c ∈ front, c ∈ requiredLetters) → Form front front.length 0
  | slashed {front back : List Char} :
      (∀ c ∈ front, c ∈ requiredLetters) → (∀ c ∈ back, c ∈ optionalLetters) →
        Form (front ++ '/' :: back) front.length back.length

/-- A signature begins with a text. -/
def Begins (front : List Char) : Prop := ∃ rest required optional, Form (front ++ rest) required optional

/-- Why a character cannot follow the beginning of a signature. -/
inductive Stops (front : List Char) : Char → SignatureError → Prop where
  | repeatedSlash : '/' ∈ front → Stops front '/' .repeatedSlash
  | earlyIgnored : '/' ∉ front → Stops front 'x' .earlyIgnored
  | unknownParam {c : Char} : c ≠ '/' → c ∉ optionalLetters → Stops front c (.unknownParam c)

/-! ## Letters and parameters -/

/-- The letters of required parameters are those of all parameters that are not ignored. -/
theorem mem_requiredLetters_iff {c : Char} : c ∈ requiredLetters ↔ ∃ p, p ≠ .ignored ∧ Param.letter p = c := by
  constructor
  · intro h
    simp only [requiredLetters, List.mem_cons, List.not_mem_nil, or_false] at h
    rcases h with rfl | rfl | rfl | rfl | rfl
    · exact ⟨.long, by decide, rfl⟩
    · exact ⟨.short, by decide, rfl⟩
    · exact ⟨.float, by decide, rfl⟩
    · exact ⟨.identifier, by decide, rfl⟩
    · exact ⟨.string, by decide, rfl⟩
  · rintro ⟨p, hp, rfl⟩
    cases p with
    | ignored => exact absurd rfl hp
    | long | short | float | identifier | string => decide

/-- Only the letter of an ignored parameter is not that of a required one. -/
theorem mem_optionalLetters_or {c : Char} : c ∈ optionalLetters ↔ c ∈ requiredLetters ∨ c = 'x' := by
  simp [optionalLetters, requiredLetters, or_assoc]

/-- The letters of optional parameters are those of all parameters. -/
theorem mem_optionalLetters_iff {c : Char} : c ∈ optionalLetters ↔ ∃ p, Param.letter p = c := by
  rw [mem_optionalLetters_or, mem_requiredLetters_iff]
  constructor
  · rintro (⟨p, -, hp⟩ | rfl)
    · exact ⟨p, hp⟩
    · exact ⟨.ignored, rfl⟩
  · rintro ⟨p, rfl⟩
    by_cases hp : p = .ignored
    · exact Or.inr (by rw [hp]; rfl)
    · exact Or.inl ⟨p, hp, rfl⟩

/-- A character that is the letter of no parameter is not read as one. -/
theorem ofLetter?_eq_none {c : Char} (h : c ∉ optionalLetters) : Param.ofLetter? c = none := by
  rw [Option.eq_none_iff_forall_ne_some]
  intro p hp
  exact h (mem_optionalLetters_iff.mpr ⟨p, Param.ofLetter?_eq_some_iff.mp hp⟩)

/-- There is no slash among the letters of required parameters. -/
theorem slash_notMem {front : List Char} (h : ∀ c ∈ front, c ∈ requiredLetters) : '/' ∉ front :=
  fun hslash => absurd (h '/' hslash) (by decide)

/-- A word over the letters of some parameters writes such parameters. -/
theorem exists_params {P : Param → Prop} {cs : List Char} (h : ∀ c ∈ cs, ∃ p, P p ∧ p.letter = c) :
    ∃ ps : List Param, (∀ p ∈ ps, P p) ∧ ps.map Param.letter = cs := by
  induction cs with
  | nil => exact ⟨[], List.forall_mem_nil _, rfl⟩
  | cons c cs ih =>
    obtain ⟨⟨p, hp, rfl⟩, hcs⟩ := List.forall_mem_cons.mp h
    obtain ⟨ps, hps, rfl⟩ := ih hcs
    exact ⟨p :: ps, List.forall_mem_cons.mpr ⟨hp, hps⟩, rfl⟩

/-- A word over the letters of required parameters writes such parameters. -/
theorem exists_required {front : List Char} (h : ∀ c ∈ front, c ∈ requiredLetters) :
    ∃ ps : List Param, .ignored ∉ ps ∧ ps.map Param.letter = front := by
  obtain ⟨ps, hps, hfront⟩ := exists_params fun c hc => mem_requiredLetters_iff.mp (h c hc)
  exact ⟨ps, fun hmem => hps _ hmem rfl, hfront⟩

/-- A word over the letters of parameters writes parameters. -/
theorem exists_optional {back : List Char} (h : ∀ c ∈ back, c ∈ optionalLetters) :
    ∃ ps : List Param, ps.map Param.letter = back := by
  have hletter : ∀ c ∈ back, ∃ p, True ∧ Param.letter p = c := by simpa [mem_optionalLetters_iff] using h
  obtain ⟨ps, -, hback⟩ := exists_params hletter
  exact ⟨ps, hback⟩

/-! ## What is read -/

/-- The text of a valid signature has the form of one. -/
theorem Valid.form {s : Signature} (h : s.Valid) : Form s.text.toList s.requiredCount s.optionalCount := by
  obtain ⟨required, optional?⟩ := s
  have hrequired : ∀ c ∈ required.map Param.letter, c ∈ requiredLetters := by
    refine List.forall_mem_map.mpr fun p hp => mem_requiredLetters_iff.mpr ⟨p, ?_, rfl⟩
    exact ne_of_mem_of_not_mem hp h
  cases optional? with
  | none => simpa [text, requiredCount, optionalCount] using Form.plain hrequired
  | some ps =>
    have hoptional : ∀ c ∈ ps.map Param.letter, c ∈ optionalLetters :=
      List.forall_mem_map.mpr fun p _ => mem_optionalLetters_iff.mpr ⟨p, rfl⟩
    simpa [text, requiredCount, optionalCount] using Form.slashed hrequired hoptional

/-- A text in the form of a signature is that of a valid one. -/
theorem Form.exists_valid {cs : List Char} {required optional : Nat} (h : Form cs required optional) :
    ∃ s : Signature, s.Valid ∧ s.text.toList = cs ∧ s.requiredCount = required ∧ s.optionalCount = optional := by
  cases h with
  | plain hfront =>
    obtain ⟨ps, hps, rfl⟩ := exists_required hfront
    exact ⟨⟨ps, none⟩, hps, by simp [text], (List.length_map _).symm, rfl⟩
  | slashed hfront hback =>
    obtain ⟨ps, hps, rfl⟩ := exists_required hfront
    obtain ⟨qs, rfl⟩ := exists_optional hback
    exact ⟨⟨ps, some qs⟩, hps, by simp [text], (List.length_map _).symm, (List.length_map _).symm⟩

/-- A signature is read exactly from the texts of its form, and has as many parameters as there are letters. -/
theorem read_iff_form {cs : List Char} {required optional : Nat} :
    (∃ s, read cs = .ok s ∧ s.requiredCount = required ∧ s.optionalCount = optional) ↔ Form cs required optional := by
  constructor
  · rintro ⟨s, hs, rfl, rfl⟩
    obtain ⟨hvalid, rfl⟩ := valid_of_read hs
    exact hvalid.form
  · intro h
    obtain ⟨s, hvalid, rfl, hcounts⟩ := h.exists_valid
    exact ⟨s, hvalid.read_text, hcounts⟩

/-! ## What is refused -/

/-- The beginning of a signature is a signature. -/
theorem begins_iff {front : List Char} : Begins front ↔ ∃ required optional, Form front required optional := by
  constructor
  · rintro ⟨rest, required, optional, h⟩
    generalize hcs : front ++ rest = cs at h
    cases h with
    | plain hletters =>
      subst hcs
      exact ⟨_, _, .plain fun c hc => hletters c (List.mem_append_left _ hc)⟩
    | @slashed before back hbefore hback =>
      -- The beginning ends in front of the slash or behind it.
      rcases List.append_eq_append_iff.mp hcs with ⟨more, rfl, -⟩ | ⟨more, rfl, hmore⟩
      · exact ⟨_, _, .plain fun c hc => hbefore c (List.mem_append_left _ hc)⟩
      · cases more with
        | nil => exact ⟨_, _, by simpa using Form.plain hbefore⟩
        | cons c more =>
          cases hmore
          exact ⟨_, _, .slashed hbefore fun c hc => hback c (List.mem_append_left _ hc)⟩
  · rintro ⟨required, optional, h⟩
    exact ⟨[], required, optional, by rwa [List.append_nil]⟩

/-- Behind a slash the first character is refused if it is another slash or no letter. -/
theorem Stops.readOptional_cons {front : List Char} {c : Char} {e : SignatureError} (h : Stops front c e) (hslash : '/' ∈ front)
    (rest : List Char) : readOptional (c :: rest) = .error e := by
  rw [readOptional]
  cases h with
  | repeatedSlash => rfl
  | earlyIgnored hnone => exact absurd hslash hnone
  | unknownParam hc hletter => rw [if_neg hc, ofLetter?_eq_none hletter]

/-- In front of a slash the first character is refused if it is the letter of an ignored parameter or none at all. -/
theorem Stops.read_cons {front : List Char} {c : Char} {e : SignatureError} (h : Stops front c e) (hslash : '/' ∉ front)
    (rest : List Char) : read (c :: rest) = .error e := by
  rw [read]
  cases h with
  | repeatedSlash hfront => exact absurd hfront hslash
  | earlyIgnored => rfl
  | unknownParam hc hletter => rw [if_neg hc, ofLetter?_eq_none hletter]

/-- Reading stops at a character that cannot follow the signature in front of it. -/
theorem Stops.read_append {front : List Char} {required optional : Nat} (hform : Form front required optional) {c : Char}
    {e : SignatureError} (h : Stops front c e) (rest : List Char) : read (front ++ c :: rest) = .error e := by
  cases hform with
  | plain hfront =>
    have hslash := slash_notMem hfront
    obtain ⟨ps, hps, rfl⟩ := exists_required hfront
    rw [read_letters_append hps]
    exact map_eq_error_iff.mpr (h.read_cons hslash rest)
  | slashed hfront hback =>
    obtain ⟨ps, hps, rfl⟩ := exists_required hfront
    obtain ⟨qs, rfl⟩ := exists_optional hback
    have hslash : '/' ∈ ps.map Param.letter ++ '/' :: qs.map Param.letter := List.mem_append_right _ List.mem_cons_self
    rw [List.append_assoc, read_letters_append hps, List.cons_append, read, if_pos rfl, readOptional_letters_append]
    exact map_eq_error_iff.mpr (map_eq_error_iff.mpr (map_eq_error_iff.mpr (h.readOptional_cons hslash rest)))

/-- A character continues a signature, or there is a reason why it cannot. -/
theorem Form.continues_or_stops {front : List Char} {required optional : Nat} (h : Form front required optional) (c : Char) :
    (∃ required optional, Form (front ++ [c]) required optional) ∨ ∃ e, Stops front c e := by
  cases h with
  | plain hfront =>
    by_cases hslash : c = '/'
    · subst hslash
      exact Or.inl ⟨_, _, .slashed hfront (List.forall_mem_nil _)⟩
    by_cases hletter : c ∈ requiredLetters
    · exact Or.inl ⟨_, _, .plain (List.forall_mem_append.mpr ⟨hfront, List.forall_mem_singleton.mpr hletter⟩)⟩
    by_cases hignored : c = 'x'
    · subst hignored
      exact Or.inr ⟨_, .earlyIgnored (slash_notMem hfront)⟩
    · exact Or.inr ⟨_, .unknownParam hslash (mt mem_optionalLetters_or.mp (not_or.mpr ⟨hletter, hignored⟩))⟩
  | slashed hfront hback =>
    by_cases hslash : c = '/'
    · subst hslash
      exact Or.inr ⟨_, .repeatedSlash (List.mem_append_right _ List.mem_cons_self)⟩
    by_cases hletter : c ∈ optionalLetters
    · left
      rw [List.append_assoc, List.cons_append]
      exact ⟨_, _, .slashed hfront (List.forall_mem_append.mpr ⟨hback, List.forall_mem_singleton.mpr hletter⟩)⟩
    · exact Or.inr ⟨_, .unknownParam hslash hletter⟩

/-- A text is a signature, or it stops being one at some character. -/
theorem form_or_stops (cs : List Char) :
    (∃ required optional, Form cs required optional) ∨
      ∃ front c rest e, cs = front ++ c :: rest ∧ (∃ required optional, Form front required optional) ∧ Stops front c e := by
  -- The text is read further character by character, and only the first one that stops it matters.
  induction cs using List.reverseRecOn with
  | nil => exact Or.inl ⟨0, 0, .plain (List.forall_mem_nil _)⟩
  | append_singleton cs c ih =>
    rcases ih with ⟨required, optional, h⟩ | ⟨front, d, rest, e, rfl, hfront, hstops⟩
    · rcases h.continues_or_stops c with hform | ⟨e, hstops⟩
      · exact Or.inl hform
      · exact Or.inr ⟨cs, c, [], e, rfl, ⟨required, optional, h⟩, hstops⟩
    · exact Or.inr ⟨front, d, rest ++ [c], e, by simp, hfront, hstops⟩

/-- What cannot follow the beginning of a signature does not. -/
theorem Stops.not_begins {front : List Char} {c : Char} {e : SignatureError} (h : Stops front c e) (hfront : Begins front) :
    ¬ Begins (front ++ [c]) := by
  intro hbegins
  obtain ⟨required, optional, hform⟩ := begins_iff.mp hfront
  obtain ⟨required', optional', hform'⟩ := begins_iff.mp hbegins
  obtain ⟨s, hs, -⟩ := read_iff_form.mpr hform'
  cases hs.symm.trans (h.read_append hform [])

/-- Reading fails exactly at a character at which the text stops being the beginning of a signature, and says why. -/
theorem read_eq_error_iff {cs : List Char} {e : SignatureError} :
    read cs = .error e ↔
      ∃ front c rest, cs = front ++ c :: rest ∧ Begins front ∧ ¬ Begins (front ++ [c]) ∧ Stops front c e := by
  constructor
  · intro h
    rcases form_or_stops cs with ⟨required, optional, hform⟩ | ⟨front, c, rest, e', rfl, ⟨required, optional, hform⟩, hstops⟩
    · obtain ⟨s, hs, -⟩ := read_iff_form.mpr hform
      cases hs.symm.trans h
    · cases (hstops.read_append hform rest).symm.trans h
      have hfront : Begins front := begins_iff.mpr ⟨required, optional, hform⟩
      exact ⟨front, c, rest, rfl, hfront, hstops.not_begins hfront, hstops⟩
  · rintro ⟨front, c, rest, rfl, hfront, -, hstops⟩
    obtain ⟨required, optional, hform⟩ := begins_iff.mp hfront
    exact hstops.read_append hform rest

/-- What is read from a text. It is a signature exactly when it is a word over the letters of required parameters, or such a word,
a slash and a word over the letters of optional parameters. The signature has this text, and as many parameters of each kind as
there are letters. Any other text is refused at the first character at which it stops being the beginning of a signature: a second
slash, the letter of an ignored parameter in front of any slash, or a character that is no letter of a parameter. -/
theorem signatures_have_grammar (raw : String) :
    (∀ s, ofText raw = .ok s → s.text = raw) ∧
      (∀ required optional, (∃ s, ofText raw = .ok s ∧ s.requiredCount = required ∧ s.optionalCount = optional) ↔
        Form raw.toList required optional) ∧
      ∀ e, ofText raw = .error e ↔
        ∃ front c rest, raw.toList = front ++ c :: rest ∧ Begins front ∧ ¬ Begins (front ++ [c]) ∧ Stops front c e := by
  refine ⟨?_, fun required optional => read_iff_form, fun e => read_eq_error_iff⟩
  intro s h
  exact (ofText_eq_ok_iff.mp h).2

end Signature

end ScriptEngine
