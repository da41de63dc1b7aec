import ScriptEngine.Proofs.Script.Layout

/-!
# Where a container ends

The container of a script says itself where it ends. Nothing of it can be missing: the header announces the sizes of the parts as
they are, and a container that is cut off keeps the header or lacks part of it, so reading stops in the part where the cut lies.
What follows the container is not looked at.
-/

namespace ScriptEngine

open Container

namespace Script

variable {s : Script} {bytes front : List UInt8}

/-- What is left of a container announces the same parts, if the header is left. -/
theorem CountsFit.announced_of_prefix (h : s.CountsFit) (hbytes : s.toBytes = .ok bytes) (hfront : front <+: bytes)
    (hheader : 16 ≤ front.length) : announced front = s.partSize := by
  obtain ⟨rest, rfl⟩ := hfront
  rw [← announced_append hheader rest, h.announced_eq hbytes]

/-- A container that is cut off is refused in the part where the cut lies. -/
theorem CountsFit.ofBytes_of_prefix (h : s.CountsFit) (hbytes : s.toBytes = .ok bytes) (hfront : front <+: bytes) {part : Section}
    (hcut : part.Cut s.partSize front.length) :
    ofBytes front = .error (.truncated part (s.partSize part) (front.length - part.start s.partSize)) := by
  rcases Nat.lt_or_ge front.length 16 with hshort | hheader
  · -- Nothing is announced yet, and no part but the header can be the first one that is not complete.
    have hpart : part = .header := by
      cases part with
      | header => rfl
      | code | ints | floats | strings => exact absurd (hcut.complete .header (by decide)) (Nat.not_le.mpr hshort)
    subst hpart
    exact ofBytes_of_cut ⟨List.forall_mem_nil _, hshort⟩
  · rw [← h.announced_of_prefix hbytes hfront hheader] at hcut ⊢
    exact ofBytes_of_cut hcut

/-- A container delimits itself. Whatever part of its end is missing, reading fails in the first part that is not complete, and says
how long this part is and how much of it is left. Whatever follows it, the script is read back. -/
theorem container_delimits_itself (h : s.CountsFit) (hbytes : s.toBytes = .ok bytes) :
    (∀ front, front <+: bytes → front ≠ bytes → ∃ part : Section, part.Cut s.partSize front.length ∧
      ofBytes front = .error (.truncated part (s.partSize part) (front.length - part.start s.partSize))) ∧
    ∀ rest, ofBytes (bytes ++ rest) = .ok s := by
  refine ⟨?_, h.ofBytes_append hbytes⟩
  intro front hfront hne
  have hshort : front.length < bytes.length :=
    Nat.lt_of_le_of_ne hfront.length_le fun heq => hne (hfront.eq_of_length heq)
  rcases Section.complete_or_cut s.partSize front.length with hlong | ⟨part, hcut⟩
  · rw [stop_partSize hbytes] at hlong
    exact absurd hlong (Nat.not_le.mpr hshort)
  · exact ⟨part, hcut, h.ofBytes_of_prefix hbytes hfront hcut⟩

/-- The container of a script with all kinds of literals lacks the last byte, which is a padding byte, or has others behind it. -/
theorem container_delimits_itself_mixed :
    mixed.CountsFit ∧ ∃ bytes, mixed.toBytes = .ok bytes ∧
      ofBytes (bytes.take 63) = .error (.truncated .strings 24 23) ∧ ofBytes (bytes ++ [1, 2, 3]) = .ok mixed := by
  have hmixed : mixed.CountsFit := ⟨by decide, by decide, by decide, by decide⟩
  obtain ⟨bytes, hbytes⟩ : ∃ bytes, mixed.toBytes = .ok bytes := ⟨_, rfl⟩
  have hlength : bytes.length = 64 := (stop_partSize hbytes).symm.trans (by decide)
  have hfront : (bytes.take 63).length = 63 := by
    rw [List.length_take, hlength]
    rfl
  have hne : bytes.take 63 ≠ bytes := by
    intro heq
    rw [heq, hlength] at hfront
    exact absurd hfront (by decide)
  obtain ⟨hprefixes, happend⟩ := container_delimits_itself hmixed hbytes
  obtain ⟨part, hcut, hread⟩ := hprefixes _ (List.take_prefix 63 bytes) hne
  rw [hfront] at hcut hread
  have hshort := hcut.short
  cases part with
  | header | code | ints | floats => exact absurd hshort (by decide)
  | strings => exact ⟨hmixed, bytes, hbytes, hread, happend [1, 2, 3]⟩

end Script

end ScriptEngine
