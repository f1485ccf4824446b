import EntityQuery.Uuid
import EntityQuery.Proofs.Text.Trimming

/-!
# Reading identifiers back

**The written form of a UUID is read as that UUID** (`Uuid.read?_text`). It is cut at its hyphens
into five groups of hexadecimal digits, none of which has a hyphen in it (`ofDigits?_of_mem`), and
groups of the right lengths are put together again (`ofGroups?_append`).
-/

namespace EntityQuery.Uuid

theorem digit?_digitChar (d : Fin 16) : digit? (digitChar d) = some d := by
  revert d
  decide

theorem isBlank_digitChar (d : Fin 16) : Text.isBlank (digitChar d) = false := by
  revert d
  decide

theorem mapM_digit? (digits : List (Fin 16)) :
    (digits.map digitChar).mapM digit? = some digits := by
  induction digits with
  | nil => rfl
  | cons d digits ih => simp [digit?_digitChar, ih]

theorem ofDigits?_map (u : Uuid) : ofDigits? (u.digits.map digitChar) = some u := by
  rw [ofDigits?, mapM_digit?]
  exact dif_pos u.length_digits

/-- A hyphen is no digit. -/
theorem ofDigits?_of_mem {s : List Char} (h : '-' ∈ s) : ofDigits? s = none := by
  have none : s.mapM digit? = none := by
    induction s with
    | nil => cases h
    | cons c s ih =>
      rcases List.mem_cons.mp h with rfl | h
      · have : digit? '-' = none := by decide
        simp [this]
      · simp [ih h]
  rw [ofDigits?, none]

/-- Groups of the right lengths are put together. -/
theorem ofGroups?_append {a b c d e : List Char} (ha : a.length = 8) (hb : b.length = 4)
    (hc : c.length = 4) (hd : d.length = 4) (he : e.length = 12) :
    ofGroups? (a ++ '-' :: b ++ '-' :: c ++ '-' :: d ++ '-' :: e) =
      ofDigits? (a ++ b ++ c ++ d ++ e) := by
  have grouped : a ++ '-' :: b ++ '-' :: c ++ '-' :: d ++ '-' :: e =
      a ++ '-' :: (b ++ '-' :: (c ++ '-' :: (d ++ '-' :: e))) := by simp
  rw [grouped, ofGroups?, if_pos (by simp [ha, hb, hc, hd, he])]
  simp (disch := omega) [ha, hb, hc, hd, List.drop_append, List.drop_eq_nil_of_le]

theorem read?_text (u : Uuid) : read? u.text = some u := by
  have length : (u.digits.map digitChar).length = 32 := by rw [List.length_map, u.length_digits]
  have joined (i n : Nat) (s : List Char) : (s.drop i).take n ++ s.drop (i + n) = s.drop i := by
    rw [← List.drop_drop, List.take_append_drop]
  have groups : ofGroups? u.text = some u := by
    rw [text, ofGroups?_append (by simp [length]) (by simp [length]) (by simp [length])
      (by simp [length]) (by simp [length])]
    simp only [List.append_assoc, joined 16 4, joined 12 4, joined 8 4, List.take_append_drop]
    exact u.ofDigits?_map
  have digits : ofDigits? u.text = none := ofDigits?_of_mem (by simp [text])
  show (ofDigits? u.text <|> ofGroups? u.text <|> _) = some u
  rw [digits, groups]
  rfl

theorem solid_text (u : Uuid) : Text.Solid u.text := by
  have digits : Text.Solid (u.digits.map digitChar) := by
    intro c hc
    obtain ⟨d, -, rfl⟩ := List.mem_map.mp hc
    exact isBlank_digitChar d
  have part {s : List Char} (h : s.Sublist (u.digits.map digitChar)) : Text.Solid s :=
    fun c hc => digits c (h.mem hc)
  have group (i n : Nat) : Text.Solid (((u.digits.map digitChar).drop i).take n) :=
    part ((List.take_sublist _ _).trans (List.drop_sublist _ _))
  have hyphen : Text.isBlank '-' = false := by decide
  simp only [text, Text.solid_append, Text.solid_cons]
  exact ⟨⟨⟨⟨part (List.take_sublist _ _), hyphen, group 8 4⟩, hyphen, group 12 4⟩, hyphen,
    group 16 4⟩, hyphen, part (List.drop_sublist _ _)⟩

end EntityQuery.Uuid
