import ScriptEngine.Proofs.Assembly.Operands
import ScriptEngine.Proofs.Text.Line

/-!
# The first lines of a source

Lines are assembled one after the other, and all that a line knows of the lines before it is the script that these have given. So
the assembly of some lines is that of the first ones, taken further by the others (`assembleLines_append`). An error is therefore
the error of the first line that is wrong after the lines before it, whatever follows; and as a line only adds to the end of the
code and of the literals, what the first lines of a source write is the beginning of what all of them write.
-/

namespace ScriptEngine

/-- The code and the literals of one script are the beginning of those of another. -/
structure Script.Extends (s s' : Script) : Prop where
  code : s.code.toList <+: s'.code.toList
  literals : s.literals.Extends s'.literals

namespace Script.Extends

theorem refl (s : Script) : s.Extends s := ⟨List.prefix_refl _, .refl _⟩

theorem trans {s s' s'' : Script} (h : s.Extends s') (h' : s'.Extends s'') : s.Extends s'' :=
  ⟨h.code.trans h'.code, h.literals.trans h'.literals⟩

end Script.Extends

namespace Assembly

variable {r : Registry} {number : Nat} {lines : List (List Char)} {s s' : Script}

/-! ## Lines that assemble -/

/-- A line adds at most a word to the code and literals to the pools. -/
theorem extends_of_assembleLine {line : List Char} (h : assembleLine r line s = .ok s') : s.Extends s' := by
  unfold assembleLine at h
  split at h
  · cases h
  · cases h
    exact .refl s
  · split at h
    · cases h
    simp only at h
    split at h
    · cases h
    split at h
    · cases h
    rename_i values literals harguments
    cases h
    refine ⟨?_, ?_⟩
    · rw [Array.toList_push]
      exact List.prefix_append _ _
    · rw [(arguments_eq_ok harguments).1]
      exact extends_foldl_note _ _

/-- Lines add to the ends of the code and of the literals. -/
theorem extends_of_assembleLines (h : assembleLines r number s lines = .ok s') : s.Extends s' := by
  induction lines generalizing number s with
  | nil =>
    cases h
    exact .refl _
  | cons line lines ih =>
    rw [assembleLines] at h
    split at h
    · cases h
    rename_i s₁ hline
    exact (extends_of_assembleLine hline).trans (ih h)

/-- Lines are assembled by assembling the first ones and then the others. -/
theorem assembleLines_append (r : Registry) (number : Nat) (s : Script) (lines more : List (List Char)) :
    assembleLines r number s (lines ++ more) =
      assembleLines r number s lines >>= fun s' => assembleLines r (number + lines.length) s' more := by
  induction lines generalizing number s with
  | nil => rfl
  | cons line lines ih =>
    rw [List.cons_append, assembleLines, assembleLines, List.length_cons, Nat.add_comm lines.length 1, ← Nat.add_assoc]
    cases assembleLine r line s with
    | error e => rfl
    | ok s₁ => exact ih (number + 1) s₁

/-- If lines assemble, the first ones of them do, to the beginning of the same script. -/
theorem assembleLines_of_prefix {first : List (List Char)} (hbegins : first <+: lines)
    (h : assembleLines r number s lines = .ok s') :
    ∃ s₁, assembleLines r number s first = .ok s₁ ∧ s₁.Extends s' := by
  obtain ⟨more, rfl⟩ := hbegins
  rw [assembleLines_append] at h
  obtain ⟨s₁, hfirst, hmore⟩ := bind_eq_ok_iff.mp h
  exact ⟨s₁, hfirst, extends_of_assembleLines hmore⟩

/-! ## The first line that is wrong -/

/-- Lines do not assemble when one of them is wrong after the lines before it. The error is that of this line, under its number. -/
theorem assembleLines_eq_error_iff {e : AssemblyError} :
    assembleLines r number s lines = .error e ↔
      ∃ before line after s₁, lines = before ++ line :: after ∧ assembleLines r number s before = .ok s₁ ∧
        assembleLine r line s₁ = .error e.error ∧ e.line = number + before.length := by
  constructor
  · intro h
    induction lines generalizing number s with
    | nil => cases h
    | cons line lines ih =>
      rw [assembleLines] at h
      cases hline : assembleLine r line s with
      | error err =>
        rw [hline] at h
        cases h
        exact ⟨[], line, lines, s, rfl, rfl, hline, rfl⟩
      | ok s₁ =>
        rw [hline] at h
        obtain ⟨before, wrong, after, s₂, rfl, hbefore, hwrong, hnumber⟩ := ih h
        refine ⟨line :: before, wrong, after, s₂, rfl, ?_, hwrong, ?_⟩
        · rw [assembleLines, hline]
          exact hbefore
        · rw [hnumber, List.length_cons]
          omega
  · rintro ⟨before, line, after, s₁, rfl, hbefore, hline, hnumber⟩
    rw [assembleLines_append, hbefore]
    simp only [bind, Except.bind, assembleLines, hline, ← hnumber]

/-- The assembler reports the first line that is wrong, and what it makes of the first lines does not depend on the others. If a
source does not assemble, the error has the number of one of its lines, counted from one: the lines before this one assemble, and
every source that begins with the same lines up to this one has the same error. If a source assembles, every source whose lines are
the first ones of it assembles, too, to a script whose code and whose literals of each kind are the beginning of those of the whole.
There is a source with any number of first lines of another. -/
theorem assembly_goes_line_by_line (r : Registry) :
    (∀ source e, assemble r source = .error e →
      0 < e.line ∧ e.line ≤ (Text.lines source.toList).length ∧
      (∀ source', Text.lines source'.toList = (Text.lines source.toList).take (e.line - 1) →
        ∃ s, assemble r source' = .ok s) ∧
      ∀ source', (Text.lines source'.toList).take e.line = (Text.lines source.toList).take e.line →
        assemble r source' = .error e) ∧
    (∀ source s, assemble r source = .ok s → ∀ source', Text.lines source'.toList <+: Text.lines source.toList →
      ∃ s', assemble r source' = .ok s' ∧ s'.code.toList <+: s.code.toList ∧
        s'.literals.ints <+: s.literals.ints ∧ s'.literals.floats <+: s.literals.floats ∧
        s'.literals.strings <+: s.literals.strings) ∧
    ∀ (source : String) n, ∃ source' : String, Text.lines source'.toList = (Text.lines source.toList).take n := by
  refine ⟨?_, ?_, ?_⟩
  · intro source e h
    obtain ⟨before, line, after, s₁, hlines, hbefore, hline, hnumber⟩ := assembleLines_eq_error_iff.mp h
    have htake : (Text.lines source.toList).take e.line = before ++ [line] := by
      rw [hlines, hnumber, Nat.add_comm, List.take_length_add_append]
      rfl
    refine ⟨by omega, ?_, ?_, ?_⟩
    · rw [hlines, hnumber, List.length_append, List.length_cons]
      omega
    · intro source' hsource'
      have hbefore' : (Text.lines source.toList).take (e.line - 1) = before := by
        rw [hlines, hnumber, Nat.add_sub_cancel_left]
        exact List.take_left
      refine ⟨s₁, ?_⟩
      rw [assemble, hsource', hbefore', hbefore]
    · intro source' hsource'
      have hsplit := List.take_append_drop e.line (Text.lines source'.toList)
      rw [hsource', htake, List.append_assoc, List.singleton_append] at hsplit
      exact assembleLines_eq_error_iff.mpr ⟨before, line, _, s₁, hsplit.symm, hbefore, hline, hnumber⟩
  · intro source s h source' hbegins
    obtain ⟨s', hs', hextends⟩ := assembleLines_of_prefix hbegins h
    exact ⟨s', hs', hextends.code, hextends.literals.ints, hextends.literals.floats, hextends.literals.strings⟩
  · intro source n
    obtain ⟨cs, hcs⟩ := Text.exists_lines_eq_take source.toList n
    exact ⟨String.ofList cs, by rw [String.toList_ofList, hcs]⟩

end Assembly

end ScriptEngine
