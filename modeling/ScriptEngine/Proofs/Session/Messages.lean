import ScriptEngine.Proofs.Session.Recording

/-!
# What a message box shows

A message box takes its buttons and its text off the stack from the top, and shows the buttons in the order in which they were put
there. On a stack that is too short it reads zero cells below the bottom. A zero cell is a position like any other: what is missing
is not left out but shown as the first string literal.

So the texts are read off the stack with zero cells added at its bottom (`padded`), while what remains is what remains of the stack
itself.
-/

namespace ScriptEngine

namespace Engine

variable {σ : Type} [Host σ]

/-- The standard engine can be built for a host and for the host under record, and knows the message box by its keyword. With `n`
buttons, whatever the stack, the literals and the host are, it does the following. Let the stack be padded to `n + 1` cells. The
text is named by the cell `n` below the top, and the buttons are named by the `n` topmost cells, from the deepest one to the top.
The host receives one message with these and is otherwise as it was, which its record confirms: there is this call on it and no
other one. The cells are taken off the stack, as far as there are any, and neither the address changes nor whether the script has
returned. -/
theorem message_box_shows_named_texts (limit : Nat) : ∃ (e : Engine σ) (e' : Engine (Recording σ)) (d : Descriptor),
    standard limit = .ok e ∧ standard limit = .ok e' ∧ e.registry.lookup "messagebox" = .ok d ∧
    ∀ (n arg1 : Nat) (l : Literals) (m : Machine σ), ∃ text buttons,
      (∃ cell, (Machine.padded m.stack (n + 1))[n]? = some cell ∧ l.Names cell text) ∧
      List.Forall₂ l.Names ((Machine.padded m.stack (n + 1)).take n).reverse buttons ∧
      let shown : Machine σ :=
        { m with
          stack := m.stack.drop (min (n + 1) m.stack.length)
          host := Host.messageBox m.host text buttons }
      e.dispatch.perform ⟨d.opcode, n, arg1⟩ l m = .ok shown ∧
        ∀ calls, e'.dispatch.perform ⟨d.opcode, n, arg1⟩ l (m.recorded calls) =
          .ok (shown.recorded (calls.push (.messageBox text buttons))) := by
  obtain ⟨e, he⟩ := exists_standard (σ := σ) limit
  obtain ⟨e', he'⟩ := exists_standard (σ := Recording σ) limit
  obtain ⟨d, hlookup, hop⟩ := lookup_of_standard he (.builtin .messageBox)
  refine ⟨e, e', d, he, he', hlookup, fun n arg1 l m => ?_⟩
  have hdrop : m.stack.drop (n + 1) = m.stack.drop (min (n + 1) m.stack.length) := by
    rcases Nat.le_total (n + 1) m.stack.length with hle | hle
    · rw [Nat.min_eq_left hle]
    · rw [Nat.min_eq_right hle, List.drop_eq_nil_of_le hle, List.drop_length]
  have happly : (Standard.builtin .messageBox).handler.apply n arg1 l m = Builtin.showMessage n l m := rfl
  refine ⟨l.textAt (m.peek n), (List.range n).reverse.map fun depth => l.textAt (m.peek depth),
    ⟨m.peek n, m.getElem?_padded (Nat.lt_succ_self n), Literals.names_iff.mpr rfl⟩, ?_, ?_, ?_⟩
  · exact (Machine.names_take_padded_iff (Nat.le_succ n)).mpr rfl
  · rw [hop, perform_of_standard he, happly, Builtin.showMessage_eq, hdrop]
  · intro calls
    rw [hop, perform_of_standard he', Standard.apply_recorded, happly, Builtin.showMessage_eq, hdrop]
    simp only [Standard.call?, Option.toList_some, Array.appendList_cons, Array.appendList_nil]

end Engine

end ScriptEngine
