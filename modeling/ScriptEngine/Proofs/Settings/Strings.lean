import ScriptEngine.Proofs.Script.Sections
import ScriptEngine.Proofs.Settings.Grammar
import ScriptEngine.Proofs.Text.Digits
import ScriptEngine.Settings.Json

/-!
# Reading strings of JSON documents

Every string that the grammar has is read as the text that it denotes. What stands for a character is read in one of three ways
(`ReadsChar`): as a short escape, as the number of a code unit, or as it is, in bytes none of which ends the string or begins an
escape. In each way it is read as pieces which stand for the encoding of the character.
-/

namespace ScriptEngine.Json

/-- The bytes of characters. -/
def encoded (cs : List Char) : List UInt8 := cs.flatMap String.utf8EncodeChar

theorem encoded_append (cs ds : List Char) : encoded (cs ++ ds) = encoded cs ++ encoded ds := List.flatMap_append

/-- An ASCII character is one byte. -/
theorem encoded_cons {c : Char} (h : c.toNat < 128) (cs : List Char) : encoded (c :: cs) = ascii c :: encoded cs := by
  rw [encoded, List.flatMap_cons, Text.utf8EncodeChar_of_ascii h]
  rfl

/-- The bytes of ASCII characters are their numbers. -/
theorem encoded_of_ascii {cs : List Char} (h : ∀ c ∈ cs, c.toNat < 128) : encoded cs = cs.map ascii := by
  rw [encoded, List.map_eq_flatMap, List.flatMap_def, List.flatMap_def]
  exact congrArg List.flatten (List.map_congr_left fun c hc => Text.utf8EncodeChar_of_ascii (h c hc))

/-- The byte of an ASCII character has its number. -/
theorem toNat_ascii {c : Char} (h : c.toNat < 128) : (ascii c).toNat = c.toNat := by
  rw [ascii, UInt8.toNat_ofNat']
  omega

/-- The characters of ASCII bytes. -/
theorem chars_of_ascii {cs : List Char} (h : ∀ c ∈ cs, c.toNat < 128) :
    (cs.map ascii).map (fun b => Char.ofNat b.toNat) = cs := by
  rw [List.map_map]
  refine (List.map_congr_left fun c hc => ?_).trans (List.map_id _)
  rw [Function.comp_apply, toNat_ascii (h c hc), Char.ofNat_toNat]
  rfl

/-! ## Characters -/

/-- A byte that stands for itself in a string. -/
def IsPlain (b : UInt8) : Prop := b ≠ ascii '"' ∧ b ≠ ascii '\\' ∧ 0x20 ≤ b

/-- Bytes stand for a character, and are read as some pieces. -/
inductive ReadsChar (c : Char) : List UInt8 → List JsonPiece → Prop where
  | escape {e b : UInt8} : escape? e = some b → String.utf8EncodeChar c = [b] → ReadsChar c [ascii '\\', e] [.byte b]
  | unit {h0 h1 h2 h3 : UInt8} : unit? h0 h1 h2 h3 = some c.toNat →
      ReadsChar c [ascii '\\', ascii 'u', h0, h1, h2, h3] [.unit c.toNat]
  | plain : (∀ b ∈ String.utf8EncodeChar c, IsPlain b) → ReadsChar c (String.utf8EncodeChar c) ((String.utf8EncodeChar c).map .byte)

/-- A plain byte is read as itself. -/
theorem stringBody_plain {b : UInt8} (h : IsPlain b) {bs rest : List UInt8} {ps : List JsonPiece}
    (hmore : stringBody bs = some (ps, rest)) : stringBody (b :: bs) = some (.byte b :: ps, rest) := by
  obtain ⟨hquote, hescape, hcontrol⟩ := h
  rw [stringBody.eq_def]
  simp only [hquote, if_false, UInt8.not_lt.mpr hcontrol, ne_eq, hescape, not_false_eq_true, if_true, hmore]
  rfl

/-- What follows a backslash is read as an escape. -/
theorem stringBody_escape {e b : UInt8} (h : escape? e = some b) {bs rest : List UInt8} {ps : List JsonPiece}
    (hmore : stringBody bs = some (ps, rest)) : stringBody (ascii '\\' :: e :: bs) = some (.byte b :: ps, rest) := by
  rw [stringBody.eq_def]
  simp only [h, hmore]
  rfl

/-- What follows a backslash and a `u` is read as the number of a code unit. -/
theorem stringBody_unit {h0 h1 h2 h3 : UInt8} {u : Nat} (h : unit? h0 h1 h2 h3 = some u) {bs rest : List UInt8}
    {ps : List JsonPiece} (hmore : stringBody bs = some (ps, rest)) :
    stringBody (ascii '\\' :: ascii 'u' :: h0 :: h1 :: h2 :: h3 :: bs) = some (.unit u :: ps, rest) := by
  have hnone : escape? (ascii 'u') = none := by decide
  rw [stringBody.eq_def]
  simp only [hnone, h, hmore]
  rfl

/-- What stands for a character is read as its pieces, and reading goes on behind it. -/
theorem ReadsChar.stringBody_append {c : Char} {text : List UInt8} {ps : List JsonPiece} (h : ReadsChar c text ps)
    {bs rest : List UInt8} {qs : List JsonPiece} (hmore : stringBody bs = some (qs, rest)) :
    stringBody (text ++ bs) = some (ps ++ qs, rest) := by
  cases h with
  | escape hescape => exact stringBody_escape hescape hmore
  | unit hunit => exact stringBody_unit hunit hmore
  | plain hplain =>
    generalize String.utf8EncodeChar c = bytes at hplain
    induction bytes with
    | nil => exact hmore
    | cons b bytes ih =>
      exact stringBody_plain (hplain b List.mem_cons_self) (ih fun b' hb' => hplain b' (List.mem_cons_of_mem b hb'))

/-- The pieces of a character stand for its encoding. -/
theorem ReadsChar.pieceBytes?_append {c : Char} {text : List UInt8} {ps : List JsonPiece} (h : ReadsChar c text ps)
    {qs : List JsonPiece} {bytes : List UInt8} (hmore : pieceBytes? qs = some bytes) :
    pieceBytes? (ps ++ qs) = some (String.utf8EncodeChar c ++ bytes) := by
  cases h with
  | escape _ hchar =>
    rw [hchar, List.singleton_append, pieceBytes?, hmore]
    rfl
  | unit _ =>
    have hcode : codePointBytes c.toNat = String.utf8EncodeChar c := by
      rw [codePointBytes, Char.ofNat_toNat]
      exact (Container.textBytes_eq_flatMap (String.singleton c)).trans (by simp)
    -- A character is never a half of a surrogate pair.
    have hwhole : c.toNat < 0xd800 ∨ 0xdfff < c.toNat := c.valid.imp id And.left
    rw [List.singleton_append, pieceBytes?.eq_def]
    simp only [hwhole, if_true, hmore, hcode]
    rfl
  | plain _ =>
    generalize String.utf8EncodeChar c = encoded
    induction encoded with
    | nil => exact hmore
    | cons b encoded ih =>
      rw [List.map_cons, List.cons_append, pieceBytes?, ih]
      rfl

/-- A character from the space on has plain bytes only, unless it is a quote or a backslash. -/
theorem isPlain_of_mem_utf8EncodeChar {c : Char} (hquote : c ≠ '"') (hescape : c ≠ '\\') (hcontrol : ¬ c < ' ') {b : UInt8}
    (hb : b ∈ String.utf8EncodeChar c) : IsPlain b := by
  have hplain : b.toNat ≠ 34 ∧ b.toNat ≠ 92 ∧ 32 ≤ b.toNat := by
    by_cases hascii : c.toNat < 128
    · rw [Text.utf8EncodeChar_of_ascii hascii] at hb
      have hbyte : b.toNat = c.toNat := by
        rw [List.mem_singleton.mp hb]
        exact toNat_ascii hascii
      have hne : c.toNat ≠ 34 ∧ c.toNat ≠ 92 := ⟨fun h => hquote (Char.toNat_inj.mp h), fun h => hescape (Char.toNat_inj.mp h)⟩
      have hle : 32 ≤ c.toNat := Nat.le_of_not_lt hcontrol
      omega
    · have hhigh := Text.le_of_mem_utf8EncodeChar (Nat.le_of_not_lt hascii) hb
      omega
  refine ⟨?_, ?_, hplain.2.2⟩
  · rintro rfl
    exact hplain.1 rfl
  · rintro rfl
    exact hplain.2.1 rfl

/-- In every way to denote a character it is read. -/
theorem exists_readsChar {w : List Char} {c : Char} (h : Value.DenotesChar w c) : ∃ ps, ReadsChar c (encoded w) ps := by
  cases h with
  | plain hquote hescape hcontrol =>
    have hplain : ∀ b ∈ String.utf8EncodeChar c, IsPlain b := fun _ => isPlain_of_mem_utf8EncodeChar hquote hescape hcontrol
    refine ⟨(String.utf8EncodeChar c).map .byte, ?_⟩
    rw [encoded, List.flatMap_singleton]
    exact .plain hplain
  | short hmem =>
    simp only [Value.shortEscapes, List.mem_cons, List.not_mem_nil, or_false, Prod.mk.injEq] at hmem
    rcases hmem with ⟨rfl, rfl⟩ | ⟨rfl, rfl⟩ | ⟨rfl, rfl⟩ | ⟨rfl, rfl⟩ | ⟨rfl, rfl⟩ | ⟨rfl, rfl⟩ | ⟨rfl, rfl⟩ | ⟨rfl, rfl⟩
    all_goals exact ⟨_, .escape rfl rfl⟩
  | @number h₀ h₁ h₂ h₃ _ hnumber =>
    have hascii := Text.ascii_of_digits? (by decide) hnumber
    have hunit : unit? (ascii h₀) (ascii h₁) (ascii h₂) (ascii h₃) = some c.toNat :=
      (congrArg (Text.digits? 16) (chars_of_ascii hascii)).trans hnumber
    have hbytes : encoded ['\\', 'u', h₀, h₁, h₂, h₃] = [ascii '\\', ascii 'u', ascii h₀, ascii h₁, ascii h₂, ascii h₃] := by
      refine encoded_of_ascii ?_
      exact List.forall_mem_cons.mpr ⟨by decide, List.forall_mem_cons.mpr ⟨by decide, hascii⟩⟩
    refine ⟨[.unit c.toNat], ?_⟩
    rw [hbytes]
    exact .unit hunit

/-! ## Whole strings -/

/-- What stands between the quotes of a string is read up to the closing quote, as pieces that stand for the text. -/
theorem exists_stringBody {ws cs : List Char} (h : Value.DenotesChars ws cs) :
    ∃ ps, pieceBytes? ps = some (encoded cs) ∧ ∀ rest, stringBody (encoded ws ++ ascii '"' :: rest) = some (ps, rest) := by
  induction h with
  | nil =>
    refine ⟨[], rfl, fun rest => ?_⟩
    rw [stringBody.eq_def]
    rfl
  | cons hchar _ ih =>
    obtain ⟨ps, hps⟩ := exists_readsChar hchar
    obtain ⟨qs, hqs, hmore⟩ := ih
    refine ⟨ps ++ qs, hps.pieceBytes?_append hqs, fun rest => ?_⟩
    rw [encoded_append, List.append_assoc]
    exact hps.stringBody_append (hmore rest)

/-- A text is read as a string: it begins with a quote, and what follows is read up to its end. -/
def ReadsString (text : List UInt8) (ps : List JsonPiece) : Prop :=
  ∃ inner, text = ascii '"' :: inner ∧ ∀ rest, stringBody (inner ++ rest) = some (ps, rest)

/-- A string begins with a quote. -/
theorem ReadsString.exists_eq_cons {text : List UInt8} {ps : List JsonPiece} (h : ReadsString text ps) :
    ∃ inner, text = ascii '"' :: inner := by
  obtain ⟨inner, htext, -⟩ := h
  exact ⟨inner, htext⟩

/-- A text that denotes a string is read as pieces that stand for it. -/
theorem exists_readsString {ws : List Char} {s : String} (h : Value.DenotesString ws s) :
    ∃ ps, ReadsString (encoded ws) ps ∧ text? ps = some s := by
  cases h with
  | @quoted ws _ hchars =>
    obtain ⟨ps, hps, hbody⟩ := exists_stringBody hchars
    refine ⟨ps, ⟨encoded ws ++ [ascii '"'], ?_, fun rest => ?_⟩, ?_⟩
    · rw [List.cons_append, encoded_cons (by decide), encoded_append]
      rfl
    · rw [List.append_assoc]
      exact hbody rest
    · have hbytes : encoded s.toList = Container.textBytes s := (Container.textBytes_eq_flatMap s).symm
      rw [text?, hps, Option.bind_some, hbytes]
      exact Container.fromUTF8?_textBytes s

end ScriptEngine.Json
