import Mailroom.Label.Rebuild
import Mailroom.Proofs.Text.Pieces

/-! Names of labels as paths: when one name lies above another, how the names above one name are
ordered, and how many segments a path has. -/

namespace Mailroom

namespace Label

/-! ### Names above a name -/

/-- A path lies above a name that goes on from it behind a slash. -/
def Above (path name : String) : Prop := ∃ rest, name = path ++ "/" ++ rest

theorem above_iff_isPrefix {path name : String} :
    Above path name ↔ path.toList ++ ['/'] <+: name.toList := by
  constructor
  · rintro ⟨rest, rfl⟩
    exact ⟨rest.toList, by simp⟩
  · rintro ⟨rest, h⟩
    refine ⟨String.ofList rest, String.toList_injective ?_⟩
    simpa using h.symm

theorem startsWith_iff_above {path name : String} :
    Text.startsWith name (path ++ "/") = true ↔ Above path name := by
  rw [above_iff_isPrefix, Text.startsWith, List.isPrefixOf_iff_prefix]
  simp

instance (path name : String) : Decidable (Above path name) :=
  decidable_of_iff (Text.startsWith name (path ++ "/") = true) startsWith_iff_above

namespace Above

theorem trans {a b c : String} (hab : Above a b) (hbc : Above b c) : Above a c := by
  obtain ⟨r, rfl⟩ := hab
  obtain ⟨s, rfl⟩ := hbc
  exact ⟨r ++ "/" ++ s, by simp [String.append_assoc]⟩

theorem length_lt {a b : String} (h : Above a b) : a.length < b.length := by
  obtain ⟨r, rfl⟩ := h
  have hslash : ("/" : String).length = 1 := rfl
  rw [String.length_append, String.length_append]
  omega

theorem irrefl (a : String) : ¬Above a a := fun h => Nat.lt_irrefl _ h.length_lt

/-- Of two paths above one name, one lies above the other, or they are the same. -/
theorem linear {a b name : String} (ha : Above a name) (hb : Above b name) :
    a = b ∨ Above a b ∨ Above b a := by
  rw [above_iff_isPrefix] at ha hb
  have hcut : ∀ {x y : List Char}, x ++ ['/'] <+: y ++ ['/'] → x = y ∨ x ++ ['/'] <+: y := by
    intro x y h
    rcases List.prefix_concat_iff.mp h with heq | hpre
    · exact Or.inl (List.append_cancel_right heq)
    · exact Or.inr hpre
  rcases List.prefix_or_prefix_of_prefix ha hb with h | h
  · rcases hcut h with heq | hpre
    · exact Or.inl (String.toList_injective heq)
    · exact Or.inr (Or.inl (above_iff_isPrefix.mpr hpre))
  · rcases hcut h with heq | hpre
    · exact Or.inl (String.toList_injective heq).symm
    · exact Or.inr (Or.inr (above_iff_isPrefix.mpr hpre))

end Above

/-! ### What remains below a name -/

/-- What the names below `above` begin with: nothing at the top. -/
def stem (above : String) : String := if above.isEmpty then "" else above ++ "/"

theorem stem_of_ne {above : String} (h : above ≠ "") : stem above = above ++ "/" := by
  rw [stem, if_neg (by simpa using h)]

theorem restOf_stem (above rest : String) : Rebuild.restOf above (stem above ++ rest) = rest := by
  by_cases h : above = ""
  · subst h
    simp [Rebuild.restOf, stem]
  · have hempty : ¬above.isEmpty = true := by simpa using h
    rw [Rebuild.restOf, if_neg hempty, stem, if_neg hempty]
    apply String.toList_injective
    simp [List.drop_append]

theorem above_stem_iff (above a b : String) :
    Above (stem above ++ a) (stem above ++ b) ↔ Above a b := by
  simp only [above_iff_isPrefix, String.toList_append, List.append_assoc,
    List.prefix_append_right_inj]

/-! ### Numbers of segments -/

namespace Rebuild

theorem depth_pos (path : String) : 0 < depth path :=
  List.length_pos_iff.mpr (Text.split_ne_nil '/' path)

theorem depth_slash (a b : String) : depth (a ++ "/" ++ b) = depth a + depth b := by
  rw [depth, Text.split_slash, List.length_append]
  rfl

theorem depth_stem_le_iff (above a b : String) :
    depth (stem above ++ a) ≤ depth (stem above ++ b) ↔ depth a ≤ depth b := by
  by_cases h : above = ""
  · subst h
    simp [stem]
  · rw [stem_of_ne h, depth_slash, depth_slash]
    omega

end Rebuild

theorem Above.depth_lt {a b : String} (h : Above a b) : Rebuild.depth a < Rebuild.depth b := by
  obtain ⟨r, rfl⟩ := h
  rw [Rebuild.depth_slash]
  have := Rebuild.depth_pos r
  omega

end Label

end Mailroom
