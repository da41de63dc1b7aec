import ScriptEngine.Assembly.Listing
import ScriptEngine.Proofs.Assembly.Code
import ScriptEngine.Proofs.Assembly.Integers
import ScriptEngine.Proofs.Session.Standard
import ScriptEngine.Proofs.Text.Line

/-!
# Described code assembles to itself

The description of a word is a line of plain words, if the mnemonic is one: the mnemonic and the arguments in decimal. Assembling
the line undoes each step of describing it. The line has these words as its tokens; the mnemonic finds the instruction that the
opcode found; a decimal text stands for the number itself and adds no literal; and packing the fields of a word gives the word.

The induction is on the words. It holds for any registry that can be reached in which all mnemonics are plain.
-/

namespace ScriptEngine.Assembly

/-! ## Decimal operands -/

/-- A decimal text writes its number. -/
theorem integer?_decimal {v : Nat} (hv : v < 2 ^ 63) : integer? (Nat.toDigits 10 v) = some (v : Int) :=
  (integer?_of_magnitude false (magnitude?_decimal v)).trans (if_pos hv)

/-- A decimal text is an operand that stands for its number. -/
theorem ofToken?_decimal {v : Nat} (hv : v < 2 ^ 63) : Operand.ofToken? (Nat.toDigits 10 v) = some (.number v) := by
  have hdigits : ∀ c ∈ Nat.toDigits 10 v, c.isDigit = true := fun _ => Text.isDigit_of_mem_decimal
  have hfirst {c : Char} {cs : List Char} (hcs : Nat.toDigits 10 v = c :: cs) : c.isDigit = true :=
    hdigits c (by rw [hcs]; exact List.mem_cons_self)
  unfold Operand.ofToken?
  split
  · rename_i hcs
    cases hfirst hcs
  · rename_i hcs
    cases hfirst hcs
  · rename_i hcs
    cases hfirst hcs
  · rw [integer?_decimal hv]
    rfl

/-- The decimal text of a number that fits its field is an argument, and adds no literal. -/
theorem argument_decimal (l : Literals) {v bits : Nat} (hv : v < 2 ^ bits) (hbits : bits ≤ 63) :
    argument l (Nat.toDigits 10 v) bits = .ok (v, l) := by
  have hrange : (0 : Int) ≤ v ∧ (v : Int) < 2 ^ bits := ⟨Int.natCast_nonneg v, by exact_mod_cast hv⟩
  have hsmall : v < 2 ^ 63 := Nat.lt_of_lt_of_le hv (Nat.pow_le_pow_right (by decide) hbits)
  rw [argument, ofToken?_decimal hsmall]
  exact if_pos hrange

/-- Decimal texts of numbers that fit their fields are arguments, and add no literals. -/
theorem arguments_decimal (l : Literals) {fields : List (Nat × Nat)} (h : ∀ f ∈ fields, f.1 < 2 ^ f.2 ∧ f.2 ≤ 63) :
    arguments l (fields.map fun f => (Nat.toDigits 10 f.1, f.2)) = .ok (fields.map (·.1), l) := by
  induction fields with
  | nil => rfl
  | cons f fields ih =>
    obtain ⟨⟨hv, hbits⟩, hfields⟩ := List.forall_mem_cons.mp h
    rw [List.map_cons, arguments, argument_decimal l hv hbits]
    exact bind_eq_ok_iff.mpr ⟨_, rfl, bind_eq_ok_iff.mpr ⟨_, ih hfields, rfl⟩⟩

/-- The decimal texts of an instruction's arguments are read back. -/
theorem arguments_args (l : Literals) {i : Instruction} (h : i.Fits) :
    arguments l ((i.args.map (Nat.toDigits 10)).zip i.opcode.segment.argBits) = .ok (i.args, l) := by
  have hfields : (i.args.map (Nat.toDigits 10)).zip i.opcode.segment.argBits =
      (i.args.zip i.opcode.segment.argBits).map fun f => (Nat.toDigits 10 f.1, f.2) := List.zip_map_left
  have hvalues : (i.args.zip i.opcode.segment.argBits).map (·.1) = i.args := by
    refine List.map_fst_zip ?_
    rw [Instruction.length_args]
    exact List.countP_le_length
  rw [hfields, arguments_decimal l, hvalues]
  intro f hf
  have hbits := i.opcode.segment.argBits_le f.2 (List.of_mem_zip hf).2
  exact ⟨h.args_lt f hf, Nat.le_trans hbits (by decide)⟩

/-- A decimal text is a plain word. -/
theorem plainWord_decimal (v : Nat) : PlainWord (Nat.toDigits 10 v) := by
  refine ⟨Nat.toDigits_ne_nil, fun c hc => ?_⟩
  obtain ⟨hlow, hhigh⟩ := Char.isDigit_iff_toNat.mp (Text.isDigit_of_mem_decimal hc)
  refine plainChar_of_toNat hlow (Nat.le_trans hhigh (by decide)) ?_
  rintro rfl
  exact absurd hhigh (by decide)

/-! ## One word -/

/-- A word decodes to an opcode that is registered. -/
def Known (r : Registry) (word : UInt32) : Prop :=
  ∃ i d, Instruction.decode? word = some i ∧ r.byOpcode? i.opcode = some d

/-- Whether a word is known is found out by decoding it and looking for its opcode. -/
theorem known_iff {r : Registry} {word : UInt32} :
    Known r word ↔ ((Instruction.decode? word).bind fun i => r.byOpcode? i.opcode).isSome = true := by
  simp only [Option.isSome_iff_exists, Option.bind_eq_some_iff]
  exact exists_comm

instance (r : Registry) (word : UInt32) : Decidable (Known r word) := decidable_of_iff _ known_iff.symm

/-- The words of the line that describes an instruction. -/
def describedWords (d : Descriptor) (i : Instruction) : List (List Char) :=
  d.mnemonic.toList :: i.args.map (Nat.toDigits 10)

/-- The description of a word that is known. -/
theorem describe_eq {r : Registry} {word : UInt32} {i : Instruction} {d : Descriptor}
    (hdecode : Instruction.decode? word = some i) (hd : r.byOpcode? i.opcode = some d) :
    (describe r word).toList = [' '].intercalate (describedWords d i) := by
  have hargs : (i.args.map Nat.repr).map String.toList = i.args.map (Nat.toDigits 10) := by
    rw [List.map_map]
    exact List.map_congr_left fun v _ => Nat.toList_repr
  rw [describe, hdecode]
  simp only [hd]
  rw [String.toList_intercalate, List.map_cons, hargs]
  rfl

section Word

variable {r : Registry} (hr : r.Reachable) (hnames : r.PlainNames)

include hr hnames

/-- The words of a description are plain. -/
theorem plainWord_of_mem_describedWords {i : Instruction} {d : Descriptor} (hd : r.byOpcode? i.opcode = some d) :
    ∀ w ∈ describedWords d i, PlainWord w := by
  refine List.forall_mem_cons.mpr ⟨hnames d (hr.indexed.byOpcode?_eq_some_iff.mp hd).1, ?_⟩
  intro w hw
  obtain ⟨v, -, rfl⟩ := List.mem_map.mp hw
  exact plainWord_decimal v

/-- The description of a word that is known assembles to the word. -/
theorem assembleLine_describe {word : UInt32} (hw : Known r word) (s : Script) :
    assembleLine r (describe r word).toList s = .ok { s with code := s.code.push word } := by
  obtain ⟨i, d, hdecode, hd⟩ := hw
  obtain ⟨hfits, hencode⟩ := Instruction.decode?_eq_some_iff.mp hdecode
  obtain ⟨hmem, hop⟩ := hr.indexed.byOpcode?_eq_some_iff.mp hd
  have htokens : tokens (describe r word).toList = .ok (describedWords d i) := by
    rw [describe_eq hdecode hd]
    exact tokens_intercalate (plainWord_of_mem_describedWords hr hnames hd)
  have hlookup : r.lookup (String.ofList d.mnemonic.toList) = .ok d := by
    rw [String.ofList_toList]
    exact hr.indexed.lookup_eq_ok_iff.mpr ⟨hmem, (hr.indexed.folded hmem).symm⟩
  have hlength : (i.args.map (Nat.toDigits 10)).length = d.opcode.segment.arity := by
    rw [List.length_map, Instruction.length_args, hop]
  have harguments : arguments s.literals ((i.args.map (Nat.toDigits 10)).zip d.opcode.segment.argBits) =
      .ok (i.args, s.literals) := by
    rw [hop]
    exact arguments_args s.literals hfits
  obtain ⟨hfirst, hsecond⟩ := hfits.getD_args
  have hinstruction : (⟨d.opcode, i.arg0, i.arg1⟩ : Instruction) = i := by rw [hop]
  rw [assembleLine_of_arguments htokens hlookup hlength harguments, hfirst, hsecond, hinstruction, hencode]

end Word

/-! ## Code -/

/-- The lines of a text are the descriptions of some words, in order. -/
def Describes (r : Registry) (words : List UInt32) (source : String) : Prop :=
  Text.lines source.toList = words.map fun word => (describe r word).toList

/-- The descriptions of some words, each ended by a line feed. -/
def described (r : Registry) (words : List UInt32) : String :=
  String.join (words.map fun word => describe r word ++ "\n")

/-- A plain character ends no line. -/
theorem PlainChar.ne_lineEnd {c : Char} (h : PlainChar c) : c ≠ '\n' ∧ c ≠ '\r' := by
  obtain ⟨-, -, hseparator⟩ := h
  refine ⟨?_, ?_⟩
  all_goals
    rintro rfl
    cases hseparator

/-- Plain words with blanks between them stay within a line. -/
theorem oneLine_intercalate {w : List Char} {ws : List (List Char)} (h : ∀ v ∈ w :: ws, PlainWord v) :
    Text.OneLine ([' '].intercalate (w :: ws)) := by
  have hword {v : List Char} (hv : PlainWord v) : Text.OneLine v := fun c hc => (hv.2 c hc).ne_lineEnd
  induction ws generalizing w with
  | nil =>
    rw [List.intercalate_singleton]
    exact hword (List.forall_mem_singleton.mp h)
  | cons v ws ih =>
    obtain ⟨hw, hws⟩ := List.forall_mem_cons.mp h
    rw [List.intercalate_cons_cons, List.append_assoc, List.singleton_append]
    exact List.forall_mem_append.mpr ⟨hword hw, List.forall_mem_cons.mpr ⟨by decide, ih hws⟩⟩

/-- Code that is described in a text is what the text assembles to, without literals. Assembling and describing may be repeated:
the code of a script that was assembled is described in a text that assembles to the same code. -/
structure Reassembles (r : Registry) : Prop where
  /-- There is a text that describes the words. -/
  describes : ∀ words : List UInt32, (∀ word ∈ words, Known r word) → Describes r words (described r words)
  /-- Every text that describes the words assembles to them. -/
  assembles : ∀ (words : List UInt32) (source : String), (∀ word ∈ words, Known r word) → Describes r words source →
    assemble r source = .ok ⟨words.toArray, {}⟩
  /-- The code of a source can be described, and every text that describes it assembles to it. -/
  again : ∀ (source : String) (s : Script), assemble r source = .ok s →
    Describes r s.code.toList (described r s.code.toList) ∧
      ∀ source', Describes r s.code.toList source' → assemble r source' = .ok ⟨s.code, {}⟩

section Code

variable {r : Registry} (hr : r.Reachable) (hnames : r.PlainNames)

include hr hnames

/-- The descriptions of words, each ended by a line feed, are the lines of a text. -/
theorem describes_described {words : List UInt32} (hwords : ∀ word ∈ words, Known r word) :
    Describes r words (described r words) := by
  have htext : (described r words).toList = (words.map fun word => (describe r word).toList).flatMap (· ++ ['\n']) := by
    rw [described, String.toList_join, List.flatMap_map, List.flatMap_map]
    refine List.flatMap_congr fun word _ => ?_
    rw [String.toList_append]
    rfl
  rw [Describes, htext]
  refine Text.lines_flatMap fun line hline => ?_
  obtain ⟨word, hmem, rfl⟩ := List.mem_map.mp hline
  obtain ⟨i, d, hdecode, hd⟩ := hwords word hmem
  rw [describe_eq hdecode hd]
  exact oneLine_intercalate (plainWord_of_mem_describedWords hr hnames hd)

/-- The descriptions of words assemble to the words, one after the other. -/
theorem assembleLines_described {words : List UInt32} (hwords : ∀ word ∈ words, Known r word) (number : Nat) (s : Script) :
    assembleLines r number s (words.map fun word => (describe r word).toList) =
      .ok { s with code := s.code ++ words.toArray } := by
  induction words generalizing number s with
  | nil => rw [Array.append_empty]; rfl
  | cons word words ih =>
    obtain ⟨hword, hwords⟩ := List.forall_mem_cons.mp hwords
    rw [List.map_cons, assembleLines, assembleLine_describe hr hnames hword, ← List.push_append_toArray]
    exact ih hwords (number + 1) _

/-- A text that describes words assembles to the words. -/
theorem assemble_of_describes {words : List UInt32} (hwords : ∀ word ∈ words, Known r word) {source : String}
    (h : Describes r words source) : assemble r source = .ok ⟨words.toArray, {}⟩ := by
  rw [assemble, h, assembleLines_described hr hnames hwords, Array.empty_append]

/-- Described code assembles to itself if all mnemonics are plain. -/
theorem reassembles_of_plainNames : Reassembles r := by
  refine ⟨fun _ => describes_described hr hnames, fun _ _ hwords hsource => assemble_of_describes hr hnames hwords hsource, ?_⟩
  intro source s hs
  have hwords : ∀ word ∈ s.code.toList, Known r word := by
    intro word hword
    obtain ⟨d, hd, i, hdecode, hop⟩ := registered_of_assemble hr hs word hword
    exact ⟨i, d, hdecode, hr.indexed.byOpcode?_eq_some_iff.mpr ⟨hd, hop.symm⟩⟩
  refine ⟨describes_described hr hnames hwords, ?_⟩
  intro source' hsource
  exact assemble_of_describes hr hnames hwords hsource

end Code

/-- Described code assembles to itself, in every registry that can be reached if its mnemonics can stand in a line without
quotes, and so in the registry of the standard engine, whichever host and limit the engine is for. -/
theorem described_code_reassembles :
    (∀ r : Registry, r.Reachable → (∀ d ∈ r.all, PlainWord d.mnemonic.toList) → Reassembles r) ∧
      ∃ r : Registry, Reassembles r ∧ ∀ {σ : Type} [Host σ],
        Engine.registryOf (Builtin.extension :: standardExtensions (σ := σ)) = .ok r ∧
          ∀ (limit : Nat) (e : Engine σ), Engine.standard limit = .ok e → e.registry = r := by
  refine ⟨fun r hr hnames => reassembles_of_plainNames hr hnames, ?_⟩
  obtain ⟨r, hr, hnames, hstandard⟩ := Engine.exists_standard_registry
  exact ⟨r, reassembles_of_plainNames hr hnames, hstandard⟩

/-- A registry with an instruction of each number of arguments. -/
def haltPushMove : Registry :=
  [.reserve ⟨"halt", .five, 0, 1, .core⟩, .instruction "Halt" "" ⟨.five, 0⟩, .reserve ⟨"push", .zero, 0, 4, .core⟩,
    .instruction "Push" "" ⟨.zero, 3⟩, .reserve ⟨"move", .one, 0, 4, .core⟩,
    .instruction "Move" "" ⟨.one, 2⟩].foldl Registry.attempt {}

/-- The descriptions of words whose fields are full in part assemble to the words. -/
theorem halt_push_move_reassemble :
    let words : List UInt32 := [0x3ffffff, 0x42fff007, 0xc8000000]
    described haltPushMove words = "push 16777215\nmove 4095 7\nhalt\n" ∧
      assemble haltPushMove (described haltPushMove words) = .ok ⟨words.toArray, {}⟩ := by
  intro words
  have hr : haltPushMove.Reachable := Registry.Reachable.empty.attempts _
  have hnames : ∀ d ∈ haltPushMove.all, PlainWord d.mnemonic.toList := by decide +kernel
  have hpush : Known haltPushMove 0x3ffffff := by decide +kernel
  have hmove : Known haltPushMove 0x42fff007 := by decide +kernel
  have hhalt : Known haltPushMove 0xc8000000 := by decide +kernel
  have hwords : ∀ word ∈ words, Known haltPushMove word :=
    List.forall_mem_cons.mpr ⟨hpush, List.forall_mem_cons.mpr ⟨hmove, List.forall_mem_singleton.mpr hhalt⟩⟩
  have h := described_code_reassembles.1 haltPushMove hr hnames
  exact ⟨by decide +kernel, h.assembles words _ hwords (h.describes words hwords)⟩

end ScriptEngine.Assembly
