import AllowList.Proofs.Json.Lexemes
import AllowList.Proofs.Json.Reread

/-!
# Canonical text

The canonical text of any value is ASCII and one newline ends it. It spells a value that
agrees with the first, and at every level it lists the keys of an object in the order of the
bytes that they read as, each key once. This is not the order of the keys as they are spelled:
a pair of surrogates is spelled with smaller digits than the last code units of 16 bits, but
its character comes behind them. Where members were put first does not show.
-/

namespace AllowList.Json

/-- Canonical text is ASCII, in order, and the same for all values that agree.

It is made of newlines and of characters from the blank to the last of ASCII, and the last
newline stands behind another character. It spells a value that agrees with the one it is the
text of, and in whatever value it spells the keys of every object strictly ascend. -/
theorem canonical_ascii_ordered {value : Json} (once : value.Each KeysOnce) :
    (∀ c ∈ value.canonical.toList, c = '\n' ∨ 0x20 ≤ c.toNat ∧ c.toNat ≤ 0x7F) ∧
    (∃ front last, value.canonical.toList = front ++ [last, '\n'] ∧ last ≠ '\n') ∧
    (∃ shown, Spells value.canonical shown ∧ Agrees value shown) ∧
    (∀ shown, Spells value.canonical shown → shown.IsArranged) ∧
    ∀ other : Json, other.Each KeysOnce → Agrees value other →
      other.canonical = value.canonical := by
  have spells := spells_canonical value
  have isArranged := isArranged_arranged value
  refine ⟨?_, ?_, ⟨value.arranged, spells, ?_⟩, ?_, ?_⟩
  · rw [canonical, String.toList_ofList, canonicalChars]
    have newline : Shown ['\n'] := by
      intro c present
      exact Or.inl (List.mem_singleton.mp present)
    exact shown_append (shown_laidOut value.arranged 0) newline
  · obtain ⟨front, last, split, plain⟩ := endsPlain_laidOut value.arranged 0
    refine ⟨front, last, ?_, ?_⟩
    · rw [canonical, String.toList_ofList, canonicalChars, split, List.append_assoc]
      rfl
    · rintro rfl
      exact absurd plain (by decide)
  · have still := arranged_of_isArranged isArranged
    exact (agrees_iff once (keysOnce_of_isArranged isArranged)).mpr still.symm
  · intro shown other
    exact isArranged_of_spells isArranged spells other
  · intro other otherOnce agrees
    have same := (agrees_iff once otherOnce).mp agrees
    rw [canonical, canonicalChars, ← same, canonical, canonicalChars]

/-- A value whose keys are out of order at both levels. The outer ones stand as their spelling
would have it. -/
def unsettled : Json :=
  obj [("𝒳", arr [obj [("b", null), ("a", num (.int (-5)))]]), ("\uFFFF", str "é\u007F")]

/-- The same with its keys in the order of their bytes. -/
def settled : Json :=
  obj [("\uFFFF", str "é\u007F"), ("𝒳", arr [obj [("a", num (.int (-5))), ("b", null)]])]

theorem canonical_ascii_ordered_unsettled :
    unsettled.Each KeysOnce ∧ settled.Each KeysOnce ∧ Agrees unsettled settled ∧
    settled.canonical = unsettled.canonical ∧
    ∀ shown, Spells unsettled.canonical shown → shown.IsArranged := by
  have once : unsettled.Each KeysOnce := by
    refine ⟨?_, ⟨nofun, ⟨?_, nofun, nofun, trivial⟩, trivial⟩, nofun, trivial⟩
    all_goals
      rintro _ ⟨⟩
      decide
  have otherOnce : settled.Each KeysOnce := by
    refine ⟨?_, nofun, ⟨nofun, ⟨?_, nofun, nofun, trivial⟩, trivial⟩, trivial⟩
    all_goals
      rintro _ ⟨⟩
      decide
  have same : unsettled.arranged = settled.arranged := rfl
  have agrees := (agrees_iff once otherOnce).mpr same
  obtain ⟨_, _, _, ordered, alike⟩ := canonical_ascii_ordered once
  exact ⟨once, otherOnce, agrees, alike settled otherOnce agrees, ordered⟩

/-- The key that is spelled with the greater digits comes first. -/
example : (obj [("𝒳", null), ("\uFFFF", null)]).canonical =
    "\x7b\n  \"\\uffff\": null,\n  \"\\ud835\\udcb3\": null\n\x7d\n" := by
  rfl

end AllowList.Json
