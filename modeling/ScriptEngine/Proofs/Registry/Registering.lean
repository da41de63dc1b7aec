import ScriptEngine.Proofs.Registry.Correspondence

/-!
# How a registration is answered

Registering an instruction meets four questions, in this order: is its name new, can its signature be read, has its opcode been
reserved, and is the opcode free. `Registry.Answers` asks them of the registered descriptors and the granted ranges, and the
letter of a return type is asked for first of all. A registration that is refused changes nothing, and one that succeeds adds one
descriptor, which answers to its own name and opcode and to no others (`Registry.Gains`).
-/

namespace ScriptEngine

namespace ReturnType

/-- A letter is that of a return type when it is one of these three. -/
theorem exists_letter_iff {c : Char} : (∃ t : ReturnType, t.letter = c) ↔ c ∈ ['l', 's', 'f'] := by
  constructor
  · rintro ⟨t, rfl⟩
    cases t <;> decide
  · intro h
    rcases List.mem_cons.mp h with rfl | h
    · exact ⟨long, rfl⟩
    rcases List.mem_cons.mp h with rfl | h
    · exact ⟨short, rfl⟩
    rcases List.mem_singleton.mp h with rfl
    exact ⟨float, rfl⟩

end ReturnType

namespace Registry

/-! ## Answers -/

/-- A descriptor has the name, up to the case of its letters. -/
def Knows (r : Registry) (mnemonic : String) : Prop := ∃ d ∈ r.all, Text.fold d.mnemonic = Text.fold mnemonic

/-- A granted range holds the opcode. -/
def Reserves (r : Registry) (opcode : Opcode) : Prop := ∃ g ∈ r.space.reservations, g.Holds opcode

/-- What registering an instruction of some kind is answered. Each case says that no case above it applies. -/
inductive Answers (r : Registry) (mnemonic signature : String) (opcode : Opcode) (kind : Kind) :
    Except SetupError Registry → Prop where
  | duplicate : r.Knows mnemonic → Answers r mnemonic signature opcode kind (.error (.duplicateMnemonic (Text.fold mnemonic)))
  | unreadable (reason : SignatureError) : ¬ r.Knows mnemonic → Signature.ofText signature = .error reason →
      Answers r mnemonic signature opcode kind (.error (.invalidSignature (Text.fold mnemonic) signature reason))
  | unreserved (parsed : Signature) : ¬ r.Knows mnemonic → Signature.ofText signature = .ok parsed → ¬ r.Reserves opcode →
      Answers r mnemonic signature opcode kind (.error (.unreserved (Text.fold mnemonic) opcode))
  | taken (parsed : Signature) (other : Descriptor) : ¬ r.Knows mnemonic → Signature.ofText signature = .ok parsed →
      r.Reserves opcode → other ∈ r.all → other.opcode = opcode →
      Answers r mnemonic signature opcode kind (.error (.opcodeTaken (Text.fold mnemonic) other.mnemonic opcode))
  | added (parsed : Signature) : ¬ r.Knows mnemonic → Signature.ofText signature = .ok parsed → r.Reserves opcode →
      (∀ d ∈ r.all, d.opcode ≠ opcode) →
      Answers r mnemonic signature opcode kind
        (.ok { r with
          descriptors := r.descriptors.insert (Text.fold mnemonic) ⟨Text.fold mnemonic, parsed, opcode, kind⟩
          mnemonics := r.mnemonics.insert opcode (Text.fold mnemonic) })

/-- The second registry is the first one with one descriptor more. -/
structure Gains (r r' : Registry) (d : Descriptor) : Prop where
  new : d ∉ r.all
  all : r'.all.Perm (d :: r.all)
  size : r'.size = r.size + 1
  space : r'.space = r.space
  named : ∀ name, Text.fold name = d.mnemonic → r'.lookup name = .ok d
  coded : r'.byOpcode? d.opcode = some d
  otherNames : ∀ name, Text.fold name ≠ d.mnemonic → r'.lookup name = r.lookup name
  otherCodes : ∀ op, op ≠ d.opcode → r'.byOpcode? op = r.byOpcode? op

section Indexed

variable {r r' : Registry} (h : r.Indexed) {mnemonic signature : String} {opcode : Opcode} {kind : Kind}

include h

/-- A name is known when its lower case is the mnemonic of a descriptor. -/
theorem Indexed.contains_fold_iff : r.descriptors.contains (Text.fold mnemonic) = true ↔ r.Knows mnemonic := by
  rw [← not_iff_not, Bool.not_eq_true, h.contains_eq_false_iff, Knows]
  push Not
  refine forall₂_congr fun d hd => ?_
  rw [h.folded hd]

/-- In a registry that can be reached a registration gets its answer. -/
theorem Indexed.register_eq_iff {answer : Except SetupError Registry} :
    r.register mnemonic signature opcode kind = answer ↔ r.Answers mnemonic signature opcode kind answer := by
  have hknows : r.descriptors.contains (Text.fold mnemonic) = true ↔ r.Knows mnemonic := h.contains_fold_iff
  have howner : r.space.owner? opcode ≠ none ↔ r.Reserves opcode := OpcodeSpace.owner?_ne_none_iff
  constructor
  · rintro rfl
    simp only [register_eq]
    split
    · rename_i hname
      exact .duplicate (hknows.mp hname)
    rename_i hname
    have hname := mt hknows.mpr hname
    split
    · rename_i reason hreason
      exact .unreadable reason hname hreason
    rename_i parsed hparsed
    split
    · rename_i hnone
      exact .unreserved parsed hname hparsed fun hreserved => howner.mpr hreserved hnone
    rename_i howned
    have hreserved := howner.mp howned
    split
    · rename_i other hother
      obtain ⟨d, hmem, rfl, hop⟩ := h.mnemonic_eq_some_iff.mp hother
      exact .taken parsed d hname hparsed hreserved hmem hop
    · rename_i hnone
      exact .added parsed hname hparsed hreserved (h.mnemonic_eq_none_iff.mp hnone)
  · intro hanswer
    simp only [register_eq]
    cases hanswer with
    | duplicate hname => rw [if_pos (hknows.mpr hname)]
    | unreadable reason hname hreason => rw [if_neg (mt hknows.mp hname), hreason]
    | unreserved parsed hname hparsed hreserved =>
      have hnone : r.space.owner? opcode = none := not_not.mp (mt howner.mp hreserved)
      simp only [if_neg (mt hknows.mp hname), hparsed, if_pos hnone]
    | taken parsed other hname hparsed hreserved hmem hop =>
      have hother := h.mnemonic_eq_some_iff.mpr ⟨other, hmem, rfl, hop⟩
      simp only [if_neg (mt hknows.mp hname), hparsed, if_neg (howner.mpr hreserved), hother]
    | added parsed hname hparsed hreserved hnone =>
      simp only [if_neg (mt hknows.mp hname), hparsed, if_neg (howner.mpr hreserved), h.mnemonic_eq_none_iff.mpr hnone]

/-! ## Registrations that succeed -/

/-- A descriptor that is written into both tables makes one descriptor more. -/
theorem Indexed.gains_of_add {d : Descriptor} (hname : Text.fold d.mnemonic = d.mnemonic) (haccepts : r.Accepts d) :
    r.Gains (r.add d) d := by
  have h' := h.add hname haccepts
  have hmem {x : Descriptor} : x ∈ (r.add d).all ↔ x = d ∨ x ∈ r.all := mem_all_add haccepts.fresh
  have hperm := h.perm_all_add hname haccepts
  have hsize : (r.add d).size = r.size + 1 := by
    rw [← h'.length_all, ← h.length_all, hperm.length_eq, List.length_cons]
  obtain ⟨hcoded, hnamed⟩ := h'.found (hmem.mpr (Or.inl rfl))
  refine ⟨h.not_mem_of_accepts haccepts, hperm, hsize, rfl, hnamed, hcoded, ?_, ?_⟩
  · intro name hne
    have hfind : (r.add d).find? name = r.find? name := (NameTable.get?_insert _ _ _ _).trans (if_neg hne.symm)
    rw [lookup, lookup, hfind]
  · intro op hne
    refine Option.ext fun x => ?_
    rw [h'.byOpcode?_eq_some_iff, h.byOpcode?_eq_some_iff, hmem]
    refine and_congr_left fun hop => or_iff_right ?_
    rintro rfl
    exact hne hop.symm

/-- A registration that succeeds makes one descriptor more, with the name in lower case and the signature as it was written. -/
theorem Indexed.gains_of_register (hr : r.register mnemonic signature opcode kind = .ok r') :
    ∃ parsed : Signature, parsed.Valid ∧ parsed.text = signature ∧ r.Gains r' ⟨Text.fold mnemonic, parsed, opcode, kind⟩ := by
  obtain ⟨d, hd, haccepts, rfl⟩ := register_eq_ok_iff.mp hr
  obtain ⟨parsed, hparsed, rfl⟩ := Option.map_eq_some_iff.mp hd
  obtain ⟨hvalid, htext⟩ := Signature.ofText_eq_ok_iff.mp (eq_ok_of_toOption hparsed)
  exact ⟨parsed, hvalid, htext, h.gains_of_add (Text.fold_fold mnemonic) haccepts⟩

end Indexed

/-- After any steps, a registration is answered in this way. For a function the letter of the return type must be one of three,
and otherwise it is refused, whatever else is wrong. Then a name that is registered in any case of its letters is a duplicate; a
signature that cannot be read is invalid; an opcode that no granted range holds is unreserved; an opcode that a descriptor has is
taken, and that descriptor is named; and any other registration succeeds. One that is refused leaves the registry as it is. One
that succeeds adds one descriptor, with the signature, the opcode and the kind that were asked for, which is found under the name
in any case of its letters; all other names and opcodes are answered as before. -/
theorem registration_is_answered (steps : List Registration) (mnemonic signature : String) (opcode : Opcode) :
    let r := steps.foldl attempt {}
    (∀ answer, r.registerInstruction mnemonic signature opcode = answer ↔
      r.Answers mnemonic signature opcode .instruction answer) ∧
    (∀ returns answer, r.registerFunction mnemonic returns signature opcode = answer ↔
      (returns ∉ ['l', 's', 'f'] ∧ answer = .error (.invalidReturnType mnemonic returns)) ∨
        ∃ t : ReturnType, t.letter = returns ∧ r.Answers mnemonic signature opcode (.function t) answer) ∧
    (∀ s e, r.step s = .error e → r.attempt s = r) ∧
    ∀ kind r', r.Answers mnemonic signature opcode kind (.ok r') →
      ∃ d : Descriptor, d.mnemonic = Text.fold mnemonic ∧ d.signature.text = signature ∧ d.opcode = opcode ∧ d.kind = kind ∧
        r.Gains r' d := by
  intro r
  have h : r.Indexed := (Reachable.empty.attempts steps).indexed
  refine ⟨fun _ => h.register_eq_iff, ?_, ?_, ?_⟩
  · intro returns answer
    rw [← ReturnType.exists_letter_iff, registerFunction_eq]
    cases hreturns : ReturnType.ofLetter? returns with
    | none =>
      have hnone : ∀ t : ReturnType, t.letter ≠ returns := by
        intro t ht
        rw [ReturnType.ofLetter?_eq_some_iff.mpr ht] at hreturns
        cases hreturns
      simp [hnone, eq_comm]
    | some t =>
      obtain rfl := ReturnType.ofLetter?_eq_some_iff.mp hreturns
      constructor
      · intro hanswer
        exact Or.inr ⟨t, rfl, h.register_eq_iff.mp hanswer⟩
      · rintro (⟨hno, -⟩ | ⟨t', ht', hanswer⟩)
        · exact absurd ⟨t, rfl⟩ hno
        · rw [ReturnType.ofLetter?_eq_some_iff.mpr ht'] at hreturns
          cases hreturns
          exact h.register_eq_iff.mpr hanswer
  · intro s e
    exact attempt_of_error
  · intro kind r' hanswer
    obtain ⟨parsed, -, htext, hgains⟩ := h.gains_of_register (h.register_eq_iff.mpr hanswer)
    exact ⟨_, rfl, htext, rfl, rfl, hgains⟩

end Registry

end ScriptEngine
