import ScriptEngine.Proofs.Assembly.Operands
import ScriptEngine.Proofs.Registry.Correspondence
import ScriptEngine.Proofs.Word.Codec

/-!
# The code of a source text

A line with tokens becomes one word. `WordOf` says which: it decodes to the instruction that the first token names, with
arguments that the other tokens stand for. The assembler checks the range of each argument before it packs the word, and a
registered opcode fits its segment, so that packing cuts nothing off.

The induction is on the lines. What is said of a word refers to the literals of the finished script, of which a line only knows
a beginning; `WordOf.mono` carries it over the lines that follow.
-/

namespace ScriptEngine.Assembly

/-! ## One line -/

/-- The lines that hold a token, as their tokens. -/
def statements (lines : List (List Char)) : List (List (List Char)) :=
  lines.filterMap fun line =>
    match tokens line with
    | .ok (name :: operands) => some (name :: operands)
    | _ => none

/-- The operands that the tokens of a line write after the name. -/
def operandsOf (statement : List (List Char)) : List Operand := statement.tail.filterMap Operand.ofToken?

/-- The word of a line of tokens, in a script with the literals `l`: it holds the opcode that the first token names, and its
arguments are what the other tokens stand for, with nothing cut off. -/
def WordOf (r : Registry) (l : Literals) (statement : List (List Char)) (word : UInt32) : Prop :=
  ∃ name operands d i, statement = name :: operands ∧ r.lookup (String.ofList name) = .ok d ∧
    d.mnemonic = Text.fold (String.ofList name) ∧ word = Instruction.encode i ∧ Instruction.decode? word = some i ∧
    i.opcode = d.opcode ∧ List.Forall₂ (Denotes l) operands i.args

theorem WordOf.mono {r : Registry} {l l' : Literals} (h : l.Extends l') {statement : List (List Char)} {word : UInt32}
    (hw : WordOf r l statement word) : WordOf r l' statement word := by
  obtain ⟨name, operands, d, i, hst, hlookup, hname, hword, hdecode, hop, hargs⟩ := hw
  exact ⟨name, operands, d, i, hst, hlookup, hname, hword, hdecode, hop, hargs.imp fun _ _ => Denotes.mono h⟩

/-- Operands that were read for the fields of a segment are as many as the segment carries, and stand for values that fit. -/
theorem args_of_fields {l : Literals} (s : Segment) {operands : List (List Char)} {values : List Nat}
    (hlen : operands.length = s.arity)
    (h : List.Forall₂ (fun field v => v < 2 ^ field.2 ∧ Denotes l field.1 v) (operands.zip s.argBits) values) :
    values.getD 0 0 < 2 ^ s.layout.firstBits ∧ values.getD 1 0 < 2 ^ s.layout.secondBits ∧
      List.Forall₂ (Denotes l) operands ([values.getD 0 0, values.getD 1 0].take s.arity) := by
  match operands with
  | [] =>
    cases h
    have harity : s.arity = 0 := hlen.symm
    rw [harity]
    exact ⟨Nat.two_pow_pos _, Nat.two_pow_pos _, .nil⟩
  | [_] =>
    obtain _ | ⟨⟨hlt, hden⟩, hrest⟩ := h
    cases hrest
    have harity : s.arity = 1 := hlen.symm
    rw [harity]
    exact ⟨hlt, Nat.two_pow_pos _, .cons hden .nil⟩
  | [_, _] =>
    obtain _ | ⟨⟨hlt, hden⟩, hrest⟩ := h
    obtain _ | ⟨⟨hlt', hden'⟩, hrest⟩ := hrest
    cases hrest
    have harity : s.arity = 2 := hlen.symm
    rw [harity]
    exact ⟨hlt, hlt', .cons hden (.cons hden' .nil)⟩
  | _ :: _ :: _ :: _ =>
    have harity : s.arity ≤ 2 := List.countP_le_length
    simp only [List.length_cons] at hlen
    omega

/-- A line either holds no token and changes nothing, or adds its word and the literals of its operands. -/
theorem assembleLine_eq_ok {r : Registry} (hr : r.Reachable) {line : List Char} {s s' : Script}
    (h : assembleLine r line s = .ok s') :
    tokens line = .ok [] ∧ s' = s ∨
      ∃ name operands word, tokens line = .ok (name :: operands) ∧ WordOf r s'.literals (name :: operands) word ∧
        s' = ⟨s.code.push word, (operandsOf (name :: operands)).foldl Operand.note s.literals⟩ := by
  unfold assembleLine at h
  split at h
  · cases h
  · rename_i htokens
    cases h
    exact Or.inl ⟨htokens, rfl⟩
  · rename_i name operands htokens
    split at h
    · cases h
    rename_i d hlookup
    simp only at h
    split at h
    · cases h
    rename_i hlen
    split at h
    · cases h
    rename_i values literals hargs
    cases h
    obtain ⟨hmem, hname⟩ := hr.indexed.lookup_eq_ok_iff.mp hlookup
    obtain ⟨hliterals, hfields⟩ := arguments_eq_ok hargs
    have hlen := Decidable.not_not.mp hlen
    obtain ⟨hfirst, hsecond, hden⟩ := args_of_fields d.opcode.segment hlen hfields
    have hfits : Instruction.Fits ⟨d.opcode, values.getD 0 0, values.getD 1 0⟩ := ⟨hr.wellFormed.opcode_fits hmem, hfirst, hsecond⟩
    have hzip : (operands.zip d.opcode.segment.argBits).map (·.1) = operands := by
      refine List.map_fst_zip ?_
      rw [hlen]
      exact List.countP_le_length
    rw [hzip] at hliterals
    refine Or.inr ⟨name, operands, _, htokens, ?_, by rw [hliterals]; rfl⟩
    exact ⟨name, operands, d, _, rfl, hlookup, hname, rfl, hfits.decode?_encode, rfl, hden⟩

/-- A line is assembled to the word of the instruction that its first token names, with the arguments that its other tokens
give. -/
theorem assembleLine_of_arguments {r : Registry} {line name : List Char} {operands : List (List Char)} {d : Descriptor}
    {s : Script} {values : List Nat} {l : Literals} (htokens : tokens line = .ok (name :: operands))
    (hlookup : r.lookup (String.ofList name) = .ok d) (hlength : operands.length = d.opcode.segment.arity)
    (harguments : arguments s.literals (operands.zip d.opcode.segment.argBits) = .ok (values, l)) :
    assembleLine r line s = .ok ⟨s.code.push (Instruction.encode ⟨d.opcode, values.getD 0 0, values.getD 1 0⟩), l⟩ := by
  simp only [assembleLine, htokens, hlookup, hlength, ne_eq, not_true_eq_false, if_false, harguments]

/-! ## All lines -/

/-- Assembling lines adds one word for each that holds a token, in order, and the literals of all operands. -/
theorem assembleLines_eq_ok {r : Registry} (hr : r.Reachable) {number : Nat} {lines : List (List Char)} {s s' : Script}
    (h : assembleLines r number s lines = .ok s') :
    (∀ line ∈ lines, ∃ ts, tokens line = .ok ts) ∧
      s'.literals = ((statements lines).flatMap operandsOf).foldl Operand.note s.literals ∧
      ∃ words, s'.code.toList = s.code.toList ++ words ∧ List.Forall₂ (WordOf r s'.literals) (statements lines) words := by
  induction lines generalizing number s with
  | nil =>
    cases h
    refine ⟨?_, rfl, [], (List.append_nil _).symm, .nil⟩
    intro line hl
    cases hl
  | cons line lines ih =>
    rw [assembleLines] at h
    split at h
    · cases h
    rename_i s₁ hline
    obtain ⟨hall, hliterals, words, hcode, hwords⟩ := ih h
    rcases assembleLine_eq_ok hr hline with ⟨htokens, rfl⟩ | ⟨name, operands, word, htokens, hword, rfl⟩
    · have hst : statements (line :: lines) = statements lines := List.filterMap_cons_none (by rw [htokens])
      rw [hst]
      exact ⟨List.forall_mem_cons.mpr ⟨⟨_, htokens⟩, hall⟩, hliterals, words, hcode, hwords⟩
    · have hst : statements (line :: lines) = (name :: operands) :: statements lines :=
        List.filterMap_cons_some (by rw [htokens])
      rw [hst, List.flatMap_cons, List.foldl_append]
      have hext := extends_foldl_note ((operandsOf (name :: operands)).foldl Operand.note s.literals)
        ((statements lines).flatMap operandsOf)
      rw [← hliterals] at hext
      have hcode : s'.code.toList = s.code.toList ++ word :: words := by
        rw [hcode, Array.toList_push, List.append_assoc, List.singleton_append]
      exact ⟨List.forall_mem_cons.mpr ⟨⟨_, htokens⟩, hall⟩, hliterals, word :: words, hcode, .cons (hword.mono hext) hwords⟩

/-- Every word of a script that was assembled decodes to an opcode that is registered. -/
theorem registered_of_assemble {r : Registry} (hr : r.Reachable) {source : String} {s : Script}
    (h : assemble r source = .ok s) :
    ∀ word ∈ s.code.toList, ∃ d ∈ r.all, ∃ i, Instruction.decode? word = some i ∧ i.opcode = d.opcode := by
  obtain ⟨-, -, words, hcode, hwords⟩ := assembleLines_eq_ok hr h
  intro word hword
  rw [hcode, List.mem_append] at hword
  obtain ⟨k, hk, rfl⟩ := List.getElem_of_mem (hword.resolve_left List.not_mem_nil)
  have hk' : k < (statements (Text.lines source.toList)).length := by
    rw [hwords.length_eq]
    exact hk
  obtain ⟨_, _, d, i, -, hlookup, -, -, hdecode, hop, -⟩ := hwords.get hk' hk
  exact ⟨d, (hr.indexed.lookup_eq_ok_iff.mp hlookup).1, i, hdecode, hop⟩

/-- A script that was assembled with a registry that can be reached. Each line has tokens that can be read. The code is the words
of the lines that hold any, in order, and the literals are those of their operands. -/
theorem code_and_literals_of_assemble {r : Registry} (hr : r.Reachable) {source : String} {s : Script}
    (h : assemble r source = .ok s) :
    (∀ line ∈ Text.lines source.toList, ∃ ts, tokens line = .ok ts) ∧
      List.Forall₂ (WordOf r s.literals) (statements (Text.lines source.toList)) s.code.toList ∧
      s.literals = literalsOf ((statements (Text.lines source.toList)).flatMap operandsOf) := by
  obtain ⟨hall, hliterals, words, hcode, hwords⟩ := assembleLines_eq_ok hr h
  rw [hcode]
  exact ⟨hall, hwords, hliterals.trans (foldl_note_literalsOf [] _)⟩

/-- A registry with one instruction, which takes one operand. -/
def pushOnly : Registry :=
  (Registry.attempt {} (.reserve ⟨"stack", .zero, 0, 4, .core⟩)).attempt (.instruction "Push" "" ⟨.zero, 3⟩)

/-- Assembling with comments, an empty line, and literals of all kinds, one of them twice. -/
theorem code_and_literals_of_pushes :
    let source := "PUSH \"a;b\" ; text\n\npush 0x10\npush #-0.5\npush, @-7\npush \"c\"\npush \"a;b\""
    let s : Script :=
      ⟨#[0x3000000, 0x3000010, 0x3000000, 0x3000000, 0x3000001, 0x3000000], ⟨[-7], [⟨0xbf000000⟩], ["a;b", "c"]⟩⟩
    pushOnly.Reachable ∧ assemble pushOnly source = .ok s ∧
      List.Forall₂ (WordOf pushOnly s.literals) (statements (Text.lines source.toList)) s.code.toList := by
  intro source s
  have hr : pushOnly.Reachable := (Registry.Reachable.empty.attempt _).attempt _
  have h : assemble pushOnly source = .ok s := by decide +kernel
  exact ⟨hr, h, (code_and_literals_of_assemble hr h).2.1⟩

end ScriptEngine.Assembly
