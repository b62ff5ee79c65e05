import Mailroom.Text.Split
import Mathlib.Data.List.Basic

/-! Texts cut at a separator. The pieces joined again are the text; a text without the separator is
its only piece; a text behind a separator is cut by itself. -/

namespace Mailroom.Text

theorem pieces_append (separator : Char) (a b : List Char) :
    pieces separator (a ++ separator :: b) = pieces separator a ++ pieces separator b := by
  induction a with
  | nil => simp [pieces]
  | cons c rest ih =>
    by_cases h : c = separator
    · simp [pieces, h, ih]
    · rw [List.cons_append, pieces, if_neg h, ih, pieces, if_neg h]
      cases hp : pieces separator rest with
      | nil => exact absurd hp (pieces_ne_nil separator rest)
      | cons piece more => rfl

theorem intercalate_pieces (separator : Char) (cs : List Char) :
    [separator].intercalate (pieces separator cs) = cs := by
  induction cs with
  | nil => simp [pieces]
  | cons c rest ih =>
    by_cases h : c = separator
    · rw [pieces, if_pos h, List.intercalate_cons_of_ne_nil (pieces_ne_nil separator rest), ih, h]
      rfl
    · rw [pieces, if_neg h]
      cases hp : pieces separator rest with
      | nil => exact absurd hp (pieces_ne_nil separator rest)
      | cons piece more =>
        rw [hp] at ih
        simp only
        cases more with
        | nil => simpa using ih
        | cons next more => simpa using ih

theorem pieces_of_notMem {separator : Char} {cs : List Char} (h : separator ∉ cs) :
    pieces separator cs = [cs] := by
  induction cs with
  | nil => rfl
  | cons c rest ih =>
    obtain ⟨hc, hrest⟩ := not_or.mp (List.mem_cons.not.mp h)
    rw [pieces, if_neg (Ne.symm hc), ih hrest]

theorem split_ne_nil (separator : Char) (s : String) : split separator s ≠ [] := by
  simp [split, pieces_ne_nil]

theorem split_append (separator : Char) (a b : String) :
    split separator (a ++ String.singleton separator ++ b) =
      split separator a ++ split separator b := by
  have hlist : (a ++ String.singleton separator ++ b).toList = a.toList ++ separator :: b.toList := by
    simp
  rw [split, hlist, pieces_append, List.map_append]
  rfl

theorem intercalate_split (separator : Char) (s : String) :
    (String.singleton separator).intercalate (split separator s) = s := by
  apply String.toList_injective
  have hback : (String.toList ∘ String.ofList) = id := by
    funext cs
    simp
  rw [String.toList_intercalate, split, List.map_map, hback, List.map_id, String.toList_singleton]
  exact intercalate_pieces separator s.toList

theorem split_of_notMem {separator : Char} {s : String} (h : separator ∉ s.toList) :
    split separator s = [s] := by
  rw [split, pieces_of_notMem h, List.map_singleton, String.ofList_toList]

/-- Texts without the separator are the pieces of what they are joined to. -/
theorem split_intercalate {separator : Char} {parts : List String} (hne : parts ≠ [])
    (h : ∀ part ∈ parts, separator ∉ part.toList) :
    split separator ((String.singleton separator).intercalate parts) = parts := by
  induction parts with
  | nil => exact absurd rfl hne
  | cons part rest ih =>
    obtain ⟨hpart, hrest⟩ := List.forall_mem_cons.mp h
    cases rest with
    | nil => simpa using split_of_notMem hpart
    | cons next more =>
      rw [String.intercalate_cons_of_ne_nil (List.cons_ne_nil next more), split_append,
        split_of_notMem hpart, ih (List.cons_ne_nil next more) hrest]
      rfl

theorem split_slash (a b : String) : split '/' (a ++ "/" ++ b) = split '/' a ++ split '/' b :=
  split_append '/' a b

theorem join_split (s : String) : "/".intercalate (split '/' s) = s :=
  intercalate_split '/' s

end Mailroom.Text
