import ScriptEngine.Proofs.Session.Frame
import ScriptEngine.Proofs.Session.Position

/-!
# Forward code ends

Code without a jump to its own word or to an earlier one comes to its end by itself. Every instruction leads to a later address:
a jump by at least one word, a skip by two, and any other instruction to the next word, whatever the stack holds. So after `n` words
a run is at an address of at least `n`, and the code is left before more words are executed than it has.
-/

namespace ScriptEngine

/-- No word jumps back, and none jumps forward to itself. -/
def Script.JumpsForwardOnly (s : Script) : Prop :=
  ∀ a, (h : a < s.code.size) → ∀ i ∈ Instruction.decode? s.code[a],
    i.opcode ≠ Builtin.jumpBackward.opcode ∧ (i.opcode = Builtin.jumpForward.opcode → i.arg0 ≠ 0)

instance (s : Script) : Decidable s.JumpsForwardOnly := inferInstanceAs (Decidable (∀ _, _))

/-- An instruction leads from its own address to a later one, unless it is a jump back or a jump to itself. -/
theorem Standard.pc_lt_apply {σ : Type} [Host σ] (x : Standard) (arg0 arg1 : Nat) (l : Literals) (m : Machine σ)
    (hback : x ≠ builtin .jumpBackward) (hforward : x = builtin .jumpForward → arg0 ≠ 0)
    (hroom : m.pc + 2 < Machine.addressCount) : m.pc < (x.handler.apply arg0 arg1 l m.next).pc := by
  rcases x.pc_eq_or_mem_moves arg0 arg1 l m.next with hpc | hmoves
  · rw [hpc]
    exact Nat.lt_succ_self m.pc
  · obtain ⟨b, hb, rfl⟩ := List.mem_map.mp hmoves
    have hskip (wanted : Cell → Bool) : m.pc < (Builtin.skipWhen wanted m.next).pc := by
      have hnext : m.next.pc = m.pc + 1 := rfl
      have htarget : (m.next.pc + 1) % Machine.addressCount = m.pc + 2 := Nat.mod_eq_of_lt (by omega)
      rw [Builtin.skipWhen_eq, htarget, hnext]
      simp only
      split <;> omega
    simp only [Builtin.moves, List.mem_cons, List.not_mem_nil, or_false] at hb
    rcases hb with rfl | rfl | rfl | rfl
    · have hdistance := hforward rfl
      have htarget : m.pc < min (m.pc + arg0) (Machine.addressCount - 1) := by omega
      exact htarget
    · exact absurd rfl hback
    · exact hskip (·.int == 0)
    · exact hskip (·.int != 0)

namespace Engine

variable {σ : Type} [Host σ] {limit : Nat} {e : Engine σ} {s : Script}

/-- Every word of forward code leads to a later address. -/
theorem pc_lt_of_step (he : standard limit = .ok e) (hforward : s.JumpsForwardOnly) (hroom : s.Addressable) {m m' : Machine σ}
    (hstep : e.step? s m = some (.ok m')) : m.pc < m'.pc := by
  obtain ⟨word, i, x, hdue, hdecode, hop, rfl⟩ := (step?_of_standard he).mp hstep
  obtain ⟨hpc, hword⟩ := Array.getElem?_eq_some_iff.mp (getElem?_of_due? hdue)
  obtain ⟨hback, harg⟩ := hforward m.pc hpc i (hword ▸ hdecode)
  have hfar : s.code.size + 2 ^ 24 ≤ Machine.addressCount := hroom
  refine x.pc_lt_apply i.arg0 i.arg1 s.literals m ?_ ?_ (by omega)
  · rintro rfl
    exact hback hop.symm
  · rintro rfl
    exact harg hop.symm

/-- After `n` words of forward code the address is at least `n`, and the code has at least `n` words. -/
theorem le_pc_of_after? (he : standard limit = .ok e) (hforward : s.JumpsForwardOnly) (hroom : s.Addressable) {host : σ} {n : Nat}
    {m : Machine σ} (hafter : e.after? s n (.start host) = some m) : n ≤ m.pc ∧ n ≤ s.code.size := by
  have hstep : ∀ n m m', n ≤ m.pc ∧ n ≤ s.code.size → e.step? s m = some (.ok m') →
      n + 1 ≤ m'.pc ∧ n + 1 ≤ s.code.size := by
    rintro n m m' ⟨hpc, -⟩ hstep
    have hnext := pc_lt_of_step he hforward hroom hstep
    obtain ⟨word, act, hdue, -, -⟩ := step?_eq_ok_iff.mp hstep
    have hinside := pc_lt_of_due? hdue
    omega
  exact after?_keeps_from_first hstep ⟨Nat.zero_le _, Nat.zero_le _⟩ hafter

/-- Forward code ends. On the standard engine, let no word of a script that fits in memory jump back, and none jump forward to
itself. Then the address increases with every word that is executed, whatever the state is, and a run executes at most as many words
as there are in the code. Without a limit, and under a limit of at least that many words, every run comes to its end, and not by the
limit. -/
theorem forward_code_ends (limit : Nat) {s : Script} (hforward : s.JumpsForwardOnly) (hroom : s.Addressable) :
    ∃ (e : Engine σ) (forward back : Descriptor), standard limit = .ok e ∧
      e.registry.lookup "jumpforward" = .ok forward ∧ forward.opcode = Builtin.jumpForward.opcode ∧
      e.registry.lookup "jumpbackward" = .ok back ∧ back.opcode = Builtin.jumpBackward.opcode ∧
      (∀ m m', e.step? s m = some (.ok m') → m.pc < m'.pc) ∧
      (∀ patience host f, e.run patience s host = some f →
        ∃ n m, e.after? s n (.start host) = some m ∧ e.Stops s n m f ∧ n ≤ s.code.size) ∧
      (limit = 0 ∨ s.code.size ≤ limit → ∀ host, ∃ f,
        (∀ patience, s.code.size ≤ patience → e.run patience s host = some f) ∧
        ∀ pc limit', f.result ≠ .error ⟨pc, .stepLimit limit'⟩) := by
  obtain ⟨e, he⟩ := exists_standard (σ := σ) limit
  obtain ⟨forward, hlookup, hopcode⟩ := lookup_of_standard he (.builtin .jumpForward)
  obtain ⟨back, hlookup', hopcode'⟩ := lookup_of_standard he (.builtin .jumpBackward)
  refine ⟨e, forward, back, he, hlookup, hopcode, hlookup', hopcode', fun _ _ => pc_lt_of_step he hforward hroom, ?_, ?_⟩
  · intro patience host f hrun
    obtain ⟨n, m, hafter, hstop, -⟩ := run_eq_some_iff.mp hrun
    exact ⟨n, m, hafter, hstop, (le_pc_of_after? he hforward hroom hafter).2⟩
  · intro hlimit host
    rw [← stepLimit_of_build he] at hlimit
    refine exists_run_of_bounded (fun n m hafter => ?_) hlimit
    obtain ⟨hpc, hn⟩ := le_pc_of_after? he hforward hroom hafter
    refine ⟨hn, fun hdue => ?_⟩
    obtain ⟨word, hdue⟩ := Option.ne_none_iff_exists'.mp hdue
    exact Nat.lt_of_le_of_lt hpc (pc_lt_of_due? hdue)

/-- A script that skips a word that means nothing, its stack being empty, and jumps over another one. -/
def leap : Script where
  code := #[0xc8000013, 0xffffffff, 0x01000002, 0xffffffff]

/-- The script runs past its code after two words. -/
theorem leap_ends :
    leap.JumpsForwardOnly ∧ leap.Addressable ∧ ∃ e : Engine Replay, standard 0 = .ok e ∧
      ∃ f, (∀ patience, 4 ≤ patience → e.run patience leap {} = some f) ∧ f.result = .ok ⟨2, false⟩ := by
  have hforward : leap.JumpsForwardOnly := by decide
  have hroom : leap.Addressable := by decide
  obtain ⟨e, -, -, he, -, -, -, -, -, -, hends⟩ := forward_code_ends (σ := Replay) 0 hforward hroom
  obtain ⟨f, hruns, -⟩ := hends (Or.inl rfl) {}
  have hskip : e.step? leap (.start {}) = some (.ok ((Machine.start {}).goto 2)) :=
    (step?_of_standard he).mpr ⟨0xc8000013, ⟨Builtin.skipOnZero.opcode, 0, 0⟩, .builtin .skipOnZero, rfl, by decide, rfl, rfl⟩
  have hjump : e.step? leap ((Machine.start {}).goto 2) = some (.ok ((Machine.start {}).goto 4)) :=
    (step?_of_standard he).mpr ⟨0x01000002, ⟨Builtin.jumpForward.opcode, 2, 0⟩, .builtin .jumpForward, rfl, by decide, rfl, rfl⟩
  have hafter : e.after? leap 2 (.start {}) = some ((Machine.start {}).goto 4) := by
    simp only [after?, hskip, hjump]
  have hstop : e.Stops leap 2 ((Machine.start {}).goto 4) ⟨.ok ⟨2, false⟩, {}⟩ :=
    .finished (Or.inr (Nat.le_refl 4)) (Or.inl (stepLimit_of_build he))
  have hrun : e.run 4 leap {} = some ⟨.ok ⟨2, false⟩, {}⟩ := run_eq_some_iff.mpr ⟨2, _, hafter, hstop, by omega⟩
  refine ⟨hforward, hroom, e, he, f, hruns, ?_⟩
  rw [hruns 4 (Nat.le_refl 4), Option.some_inj] at hrun
  rw [hrun]

end Engine

end ScriptEngine
