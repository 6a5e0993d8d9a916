import TkinedRemix.Snmp.PduText

/-!
The printers `TnmOidToStr` and `TnmOidToString`, against `TnmStrToOid`. The buffer of 1024 octets is too small for
128 large sub-identifiers.
-/

namespace Tnm

def tnmOidToString (oid : Oid) : Option String := tnmOidToStr oid

instance (oid : Oid) : Decidable (LegalOid oid) := inferInstanceAs (Decidable (_ ∧ _))

theorem tnmStrToOid_text (oid : Oid) (short : oid.length ≤ tnmOidMaxSize) (bounds : ∀ subid ∈ oid, subid < 2 ^ 32)
    (fits : (dottedText oid).length ≤ tnmOidMaxSize * 8) :
    ∃ text, tnmOidToStr oid = some text ∧ tnmOidToString oid = some text ∧
      tnmStrToOid text = if oid = [] ∨ LegalOid oid then some oid else none := by
  have written : tnmOidToStr oid = some (String.ofList (dottedText oid).dropLast) := tnmOidToStr_eq_some.mpr ⟨fits, rfl⟩
  refine ⟨_, written, written, ?_⟩
  by_cases empty : oid = []
  · subst empty
    decide
  · rw [tnmStrToOid_tnmOidToStr empty short bounds written]
    by_cases legal : LegalOid oid
    · obtain ⟨long, arc⟩ := legal
      rw [if_neg (by omega), if_pos (.inr ⟨long, arc⟩)]
    · have refused : oid.length < 2 ∨ oid.headD 0 > 2 := by
        rw [LegalOid] at legal
        omega
      rw [if_pos refused, if_neg (not_or.mpr ⟨empty, legal⟩)]

theorem tnmStrToOid_text_example : ∃ text, tnmOidToStr [1, 3, 4294967295] = some text ∧
    tnmOidToString [1, 3, 4294967295] = some text ∧ tnmStrToOid text = some [1, 3, 4294967295] := by
  obtain ⟨text, written, same, read⟩ := tnmStrToOid_text [1, 3, 4294967295] (by decide) (by decide) (by decide)
  exact ⟨text, written, same, read.trans (if_pos (.inr ⟨by decide, by decide⟩))⟩

theorem tnmStrToOid_restricted : tnmOidToStr [3, 1] = some "3.1" ∧ tnmStrToOid "3.1" = none := by
  decide

end Tnm
