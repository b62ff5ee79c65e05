import Mailroom.Text.Blank
import Mathlib.Data.List.DropRight

/-! Words of a text. A text is blanks, the trimmed text and blanks; the trimmed text neither starts
nor ends with a blank. So its first word is all of it or misses a character that is no blank. -/

namespace Mailroom.Text

/-- What trimming takes from a text are blanks at both ends. -/
theorem trim_split (s : String) : ∃ front back, s.toList = front ++ ((trim s).toList ++ back) ∧
    trimLeft s.toList = (trim s).toList ++ back ∧ front.all isBlank = true ∧
    back.all isBlank = true := by
  have hleft : trimLeft s.toList = (trim s).toList ++ (trimLeft s.toList).rtakeWhile isBlank := by
    rw [trim, String.toList_ofList]
    exact (List.rdropWhile_append_rtakeWhile).symm
  refine ⟨s.toList.takeWhile isBlank, _, ?_, hleft, List.all_takeWhile, ?_⟩
  · rw [← hleft, trimLeft, List.takeWhile_append_dropWhile]
  · exact List.all_eq_true.mpr fun c hc => List.mem_rtakeWhile_imp hc

/-- The trimmed text ends in no blank. -/
theorem getLast_trim (s : String) (h : (trim s).toList ≠ []) :
    isBlank ((trim s).toList.getLast h) = false := by
  have hcore : (trim s).toList = (trimLeft s.toList).rdropWhile isBlank := String.toList_ofList
  simp only [hcore] at h ⊢
  simpa using List.rdropWhile_last_not isBlank (trimLeft s.toList) h

/-- Nothing is left to trim in front of the trimmed text. -/
theorem trimLeft_trim (s : String) : trimLeft (trim s).toList = (trim s).toList := by
  obtain ⟨-, back, -, hleft, -, -⟩ := trim_split s
  cases hcore : (trim s).toList with
  | nil => rfl
  | cons c cs =>
    have hagain : trimLeft (trimLeft s.toList) = trimLeft s.toList :=
      List.dropWhile_idempotent isBlank s.toList
    rw [hleft, hcore] at hagain
    have hc : isBlank c = false := by simpa [trimLeft, List.dropWhile_eq_self_iff] using hagain
    exact List.dropWhile_cons_of_neg (by simp [hc])

theorem trim_trim (s : String) : trim (trim s) = trim s := by
  rw [trim, trimLeft_trim]
  refine String.toList_inj.mp ?_
  simp only [trim, String.toList_ofList]
  exact List.rdropWhile_idempotent isBlank (trimLeft s.toList)

/-- The first word of a text is that of the trimmed text. -/
theorem toList_firstWord (s : String) :
    (firstWord s).toList = (trim s).toList.takeWhile (!isBlank ·) := by
  obtain ⟨-, back, -, hleft, -, hback⟩ := trim_split s
  have hstop : back.takeWhile (!isBlank ·) = [] := by
    cases back with
    | nil => rfl
    | cons c back => simp_all
  rw [firstWord, String.toList_ofList, hleft, List.takeWhile_append, hstop]
  split
  · next hlength => rw [List.append_nil, (List.takeWhile_prefix _).eq_of_length hlength]
  · rfl

theorem firstWord_trim (s : String) : firstWord (trim s) = firstWord s := by
  rw [← String.toList_inj, toList_firstWord, toList_firstWord, trim_trim]

/-- A text that is one word, but for blanks at its ends, has it as its first word. -/
theorem firstWord_of_not_hasBlank {s : String} (h : hasBlank (trim s) = false) :
    firstWord s = trim s := by
  rw [← String.toList_inj, toList_firstWord, List.takeWhile_eq_self_iff]
  simpa [hasBlank] using h

/-- Trimming leaves a text without blanks alone. -/
theorem trim_of_not_blank {cs : List Char} (h : ∀ c ∈ cs, isBlank c = false) :
    trim (String.ofList cs) = String.ofList cs := by
  have hfront : ∀ cs : List Char, (∀ c ∈ cs, isBlank c = false) →
      cs.dropWhile isBlank = cs := by
    intro cs hcs
    cases cs with
    | nil => rfl
    | cons c cs =>
      rw [List.dropWhile_cons, hcs c List.mem_cons_self]
      rfl
  rw [trim, String.toList_ofList, trimLeft, hfront cs h, trimRight,
    hfront cs.reverse fun c hc => h c (List.mem_reverse.mp hc), List.reverse_reverse]

theorem filter_trim (s : String) :
    s.toList.filter (!isBlank ·) = (trim s).toList.filter (!isBlank ·) := by
  obtain ⟨front, back, hsplit, -, hfront, hback⟩ := trim_split s
  have hnone : ∀ blanks : List Char, blanks.all isBlank = true →
      blanks.filter (!isBlank ·) = [] := by
    intro blanks hblanks
    simpa using hblanks
  rw [hsplit, List.filter_append, List.filter_append, hnone front hfront, hnone back hback,
    List.nil_append, List.append_nil]

theorem filter_eq_takeWhile_append {α : Type} (p : α → Bool) (l : List α) :
    l.filter p = l.takeWhile p ++ (l.dropWhile p).filter p := by
  conv_lhs => rw [← List.takeWhile_append_dropWhile (p := p) (l := l)]
  rw [List.filter_append, List.filter_eq_self.mpr (List.all_eq_true.mp List.all_takeWhile)]

/-- The first word of a text misses a character that is no blank exactly when the trimmed text
holds a blank. -/
theorem hasBlank_trim_iff (s : String) :
    hasBlank (trim s) = true ↔ (firstWord s).toList ≠ s.toList.filter (!isBlank ·) := by
  constructor
  · intro hblank heq
    have hne : (trim s).toList.dropWhile (!isBlank ·) ≠ [] := by
      simpa [hasBlank] using hblank
    -- What stands behind the first word ends like the trimmed text, so not in a blank.
    have hlast : isBlank (((trim s).toList.dropWhile (!isBlank ·)).getLast hne) = false := by
      rw [(List.dropWhile_suffix _).getLast hne]
      exact getLast_trim s _
    have hkept : ((trim s).toList.dropWhile (!isBlank ·)).filter (!isBlank ·) = [] := by
      rw [filter_trim, toList_firstWord, filter_eq_takeWhile_append] at heq
      exact List.self_eq_append_right.mp heq
    have hmem := List.filter_eq_nil_iff.mp hkept _ (List.getLast_mem hne)
    simp [hlast] at hmem
  · contrapose!
    intro hone
    have hone : hasBlank (trim s) = false := by simpa using hone
    have hall : (trim s).toList.filter (!isBlank ·) = (trim s).toList := by
      simpa [hasBlank] using hone
    rw [filter_trim, hall, firstWord_of_not_hasBlank hone]

end Mailroom.Text
