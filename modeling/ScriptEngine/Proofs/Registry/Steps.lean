import ScriptEngine.Registry.Basic

/-!
# Steps in place

What the steps that fill a registry do to it in place. Each is refused by the first check that it does not pass, and all checks come
before anything is written: so a step that fails leaves the registry as it was, and its ranges as well. Everything that is known of
the registry after a step is read off the equations here.
-/

namespace ScriptEngine

/-! ## Ranges -/

namespace OpcodeSpace

variable {s s' : OpcodeSpace} {r : Reservation} {e : SetupError}

/-- What becomes of a request: it is refused by the first check that it does not pass, and is granted otherwise. -/
theorem reserve_eq (s : OpcodeSpace) (r : Reservation) :
    s.reserve r =
      if r.count = 0 then .error (.emptyReservation r.group)
      else if r.segment.opcodeLimit < r.stop then .error (.outOfSegment r.segment (r.stop - 1))
      else if ¬ r.InRegion then .error (.regionViolation r.group r.segment r.base r.count r.region)
      else
        match s.reservations.find? (·.Overlaps r) with
        | some other => .error (.rangeOverlap r.group other.group r.segment r.base r.count)
        | none => .ok ⟨s.reservations ++ [r]⟩ := by
  simp only [reserve, reserveInPlace, Setup.outcome_ite, Setup.outcome_throw_bind, Setup.outcome_get_bind]
  cases s.reservations.find? (·.Overlaps r) <;> rfl

/-- A request that is refused leaves the ranges as they are. -/
theorem clean_reserveInPlace (r : Reservation) : (reserveInPlace r).Clean := by
  refine Setup.clean_ite (Setup.clean_throw_bind _ _) (Setup.clean_ite (Setup.clean_throw_bind _ _) ?_)
  refine Setup.clean_ite (Setup.clean_throw_bind _ _) (Setup.clean_get_bind fun s => ?_)
  cases s.reservations.find? (·.Overlaps r) with
  | some other => exact Setup.clean_throw_bind _ _
  | none =>
    intro t e t' h
    cases h

theorem attempt_of_ok (h : s.reserve r = .ok s') : s.attempt r = s' := Setup.after_of_ok h

theorem attempt_of_error (h : s.reserve r = .error e) : s.attempt r = s := (clean_reserveInPlace r).after_of_error h

end OpcodeSpace

/-! ## Instructions -/

namespace Registry

variable {r r' : Registry} {s : Registration} {ss : List Registration} {e : SetupError}

/-- Granting a range does to the ranges of a registry what it does to them alone, and nothing else. -/
theorem on_reserveInPlace (r : Registry) (range : Reservation) :
    (reserveInPlace range).on r =
      let (granted, space) := (OpcodeSpace.reserveInPlace range).on r.space
      (granted, { r with space }) := by
  rcases hon : (OpcodeSpace.reserveInPlace range).on r.space with ⟨_ | _, space⟩ <;>
  · simp only [reserveInPlace, Setup.on_get_bind, hon]
    rfl

/-- What becomes of an instruction: it is refused by the first check that it does not pass, and is written into both tables
otherwise. -/
theorem register_eq (r : Registry) (mnemonic signature : String) (opcode : Opcode) (kind : Kind) :
    r.register mnemonic signature opcode kind =
      let key := Text.fold mnemonic
      if r.descriptors.contains key then .error (.duplicateMnemonic key)
      else
        match Signature.ofText signature with
        | .error reason => .error (.invalidSignature key signature reason)
        | .ok parsed =>
          if r.space.owner? opcode = none then .error (.unreserved key opcode)
          else
            match r.mnemonics.get? opcode with
            | some other => .error (.opcodeTaken key other opcode)
            | none =>
              .ok { r with
                descriptors := r.descriptors.insert key ⟨key, parsed, opcode, kind⟩
                mnemonics := r.mnemonics.insert opcode key } := by
  simp only [register, registerInPlace, Setup.outcome_ite, Setup.outcome_throw_bind, Setup.outcome_get_bind]
  cases Signature.ofText signature with
  | error reason => rfl
  | ok parsed =>
    simp only [Setup.outcome_ite, Setup.outcome_throw_bind, Setup.outcome_get_bind]
    cases r.mnemonics.get? opcode <;> rfl

theorem registerFunction_eq (r : Registry) (mnemonic : String) (returns : Char) (signature : String) (opcode : Opcode) :
    r.registerFunction mnemonic returns signature opcode =
      match ReturnType.ofLetter? returns with
      | none => .error (.invalidReturnType mnemonic returns)
      | some t => r.register mnemonic signature opcode (.function t) := by
  unfold registerFunction registerFunctionInPlace
  cases ReturnType.ofLetter? returns <;> rfl

theorem step_function (r : Registry) (mnemonic : String) (returns : Char) (signature : String) (opcode : Opcode) :
    r.step (.function mnemonic returns signature opcode) =
      match ReturnType.ofLetter? returns with
      | none => .error (.invalidReturnType mnemonic returns)
      | some t => r.register mnemonic signature opcode (.function t) :=
  registerFunction_eq r mnemonic returns signature opcode

/-- A step that asks for a range succeeds when the range is granted, which changes nothing but the ranges. -/
theorem step_reserve_eq_ok_iff {g : Reservation} :
    r.step (.reserve g) = .ok r' ↔ ∃ space, r.space.reserve g = .ok space ∧ r' = { r with space } := by
  simp only [step, stepInPlace, OpcodeSpace.reserve, Setup.outcome, Setup.on_bind, on_reserveInPlace]
  rcases (OpcodeSpace.reserveInPlace g).on r.space with ⟨_ | _, space⟩ <;> simp [Setup.result, eq_comm]

/-! ## Steps that fail -/

theorem clean_registerInPlace (mnemonic signature : String) (opcode : Opcode) (kind : Kind) :
    (registerInPlace mnemonic signature opcode kind).Clean := by
  refine Setup.clean_get_bind fun r => Setup.clean_ite (Setup.clean_throw_bind _ _) ?_
  cases Signature.ofText signature with
  | error reason => exact Setup.clean_throw _
  | ok parsed =>
    refine Setup.clean_get_bind fun r => Setup.clean_ite (Setup.clean_throw_bind _ _) (Setup.clean_get_bind fun r => ?_)
    cases r.mnemonics.get? opcode with
    | some other => exact Setup.clean_throw_bind _ _
    | none =>
      intro t e t' h
      cases h

/-- A step that fails leaves the registry as it was. -/
theorem clean_stepInPlace (s : Registration) : (stepInPlace s).Clean := by
  cases s with
  | reserve g =>
    intro r e r' h
    simp only [stepInPlace, Setup.on_bind, on_reserveInPlace] at h
    rcases hon : (OpcodeSpace.reserveInPlace g).on r.space with ⟨_ | _, space⟩ <;> rw [hon] at h <;> cases h
    rw [OpcodeSpace.clean_reserveInPlace g _ _ _ hon]
  | instruction mnemonic signature opcode => exact clean_registerInPlace _ _ _ _
  | function mnemonic returns signature opcode =>
    simp only [stepInPlace, registerFunctionInPlace]
    cases ReturnType.ofLetter? returns with
    | none => exact Setup.clean_throw _
    | some t => exact clean_registerInPlace _ _ _ _

theorem attempt_of_ok (h : r.step s = .ok r') : r.attempt s = r' := Setup.after_of_ok h

theorem attempt_of_error (h : r.step s = .error e) : r.attempt s = r := (clean_stepInPlace s).after_of_error h

/-- Loading steps is taking the first one and, if it succeeds, loading the others. -/
theorem load_of_ok (h : r.step s = .ok r') : r.load (s :: ss) = r'.load ss := by
  obtain ⟨a, hon⟩ := Setup.outcome_eq_ok_iff.mp h
  rw [load, hon]

theorem load_of_error (h : r.step s = .error e) : r.load (s :: ss) = (r, some e) := by
  obtain ⟨r', hon⟩ := Setup.outcome_eq_error_iff.mp h
  rw [load, hon, clean_stepInPlace s r e r' hon]

end Registry

end ScriptEngine
