import Mailroom.Proofs.Filter.Flags
import Mailroom.Proofs.Text.Pieces
import Mailroom.Proofs.Text.Words
import Mathlib.Data.List.Forall2

/-! Orderings in writing. An item between commas writes an ordering as its field, or as its field
and its direction with a colon between them. Reading takes the items that do, and those that go on
behind a second colon; any other item makes the text invalid. Orderings that are printed are read
back. -/

namespace Mailroom.Filter

open Text (split trim)

theorem Field.ofName?_eq_some_iff {name : String} {f : Field} :
    Field.ofName? name = some f ↔ name = f.name := by
  constructor
  · intro h
    have hname := List.find?_some h
    exact (beq_iff_eq.mp hname).symm
  · rintro rfl
    cases f <;> decide

theorem Direction.ofName?_eq_some_iff {name : String} {d : Direction} :
    Direction.ofName? name = some d ↔ name = d.name := by
  constructor
  · intro h
    have hname := List.find?_some h
    exact (beq_iff_eq.mp hname).symm
  · rintro rfl
    cases d <;> decide

namespace Ordering

/-- An ordering in full: its field and its direction. -/
def written (o : Ordering) : String := o.field.name ++ ":" ++ o.direction.name

/-- An item writes an ordering: in full, or as the field alone if the direction ascends. -/
inductive Writes : String → Ordering → Prop
  | field (f : Field) : Writes f.name ⟨f, .ascending⟩
  | full (o : Ordering) : Writes o.written o

/-- An item reads as an ordering: it writes the ordering, or writes it in full and goes on behind
another colon. -/
def Reads (item : String) (o : Ordering) : Prop :=
  Writes item o ∨ ∃ rest, item = o.written ++ ":" ++ rest

/-- The items of a text: what stands between commas, trimmed, unless it is blank. -/
def items (text : String) : List String :=
  ((split ',' text).map trim).filter (!·.isEmpty)

/-! ### One item -/

theorem colon_notMem_field (f : Field) : ':' ∉ f.name.toList := by
  cases f <;> decide

theorem colon_notMem_direction (d : Direction) : ':' ∉ d.name.toList := by
  cases d <;> decide

theorem split_field (f : Field) : split ':' f.name = [f.name] :=
  Text.split_of_notMem (colon_notMem_field f)

theorem split_written (o : Ordering) :
    split ':' o.written = [o.field.name, o.direction.name] := by
  have hjoin := Text.split_append ':' o.field.name o.direction.name
  rwa [split_field, Text.split_of_notMem (colon_notMem_direction o.direction)] at hjoin

theorem split_overlong (o : Ordering) (rest : String) :
    split ':' (o.written ++ ":" ++ rest) = o.field.name :: o.direction.name :: split ':' rest := by
  have hjoin := Text.split_append ':' o.written rest
  rwa [split_written] at hjoin

/-- The first two pieces of an item between colons decide; the second may be missing. -/
theorem ofItem_of_split {item name : String} {more : List String}
    (h : split ':' item = name :: more) {o : Ordering} :
    ofItem item = .ok o ↔ name = o.field.name ∧ more.headD "asc" = o.direction.name := by
  have hsecond : ((name :: more)[1]?).getD "asc" = more.headD "asc" := by cases more <;> rfl
  simp only [ofItem, h, List.headD_cons, hsecond]
  rw [← Field.ofName?_eq_some_iff, ← Direction.ofName?_eq_some_iff]
  obtain ⟨field, direction⟩ := o
  cases Field.ofName? name with
  | none => simp [throw, throwThe, MonadExceptOf.throw]
  | some f =>
    cases Direction.ofName? (more.headD "asc") with
    | none => simp [throw, throwThe, MonadExceptOf.throw]
    | some d => simp [pure, Except.pure]

theorem ofItem_eq_ok_iff {item : String} {o : Ordering} :
    ofItem item = .ok o ↔ Reads item o := by
  constructor
  · intro h
    obtain ⟨name, more, hsplit⟩ := List.exists_cons_of_ne_nil (Text.split_ne_nil ':' item)
    obtain ⟨field, direction⟩ := o
    obtain ⟨rfl, hdirection⟩ := (ofItem_of_split hsplit).mp h
    have hitem := Text.intercalate_split ':' item
    rw [hsplit] at hitem
    match more with
    | [] =>
      obtain rfl : direction = .ascending := by
        cases direction with
        | ascending => rfl
        | descending => simp [Direction.name] at hdirection
      rw [← hitem]
      exact .inl (.field field)
    | [second] =>
      obtain rfl : second = direction.name := hdirection
      rw [← hitem]
      exact .inl (.full ⟨field, direction⟩)
    | second :: third :: others =>
      obtain rfl : second = direction.name := hdirection
      refine .inr ⟨":".intercalate (third :: others), hitem.symm.trans ?_⟩
      rw [String.intercalate_cons_of_ne_nil (by simp), String.intercalate_cons_of_ne_nil (by simp),
        ← String.append_assoc, ← String.append_assoc]
      rfl
  · rintro ((f | o) | ⟨rest, rfl⟩)
    · exact (ofItem_of_split (split_field f)).mpr ⟨rfl, rfl⟩
    · exact (ofItem_of_split (split_written o)).mpr ⟨rfl, rfl⟩
    · exact (ofItem_of_split (split_overlong o rest)).mpr ⟨rfl, rfl⟩

/-- An item is refused as invalid, for its field or for its direction. -/
theorem ofItem_invalid {item : String} {failure : Failure} (h : ofItem item = .error failure) :
    ∃ field reason, failure = .validation field reason := by
  simp only [ofItem, throw, throwThe, MonadExceptOf.throw] at h
  cases hfield : Field.ofName? ((split ':' item).headD "") with
  | none =>
    rw [hfield] at h
    exact ⟨_, _, (Except.error.inj h).symm⟩
  | some f =>
    rw [hfield] at h
    cases hdirection : Direction.ofName? (((split ':' item)[1]?).getD "asc") with
    | none =>
      rw [hdirection] at h
      exact ⟨_, _, (Except.error.inj h).symm⟩
    | some d =>
      rw [hdirection] at h
      cases h

/-- What is refused reads as no ordering. -/
theorem exists_ofItem_error_iff {item : String} :
    (∃ failure, ofItem item = .error failure) ↔ ∀ o, ¬Reads item o := by
  simp only [← ofItem_eq_ok_iff]
  cases ofItem item <;> simp

/-! ### All items -/

theorem ofText_eq (text : String) : ofText text = ((items text).map ofItem).mapM id := by
  rw [List.mapM_map]
  rfl

theorem ofText_eq_ok_iff {text : String} {os : List Ordering} :
    ofText text = .ok os ↔ List.Forall₂ Reads (items text) os := by
  rw [ofText_eq, mapM_id_eq_ok_iff, ← List.forall₂_eq_eq_eq, List.forall₂_map_left_iff,
    List.forall₂_map_right_iff]
  simp only [ofItem_eq_ok_iff]

/-- The failures of the items that read as no ordering. -/
def refusals (text : String) : List Failure := ((items text).map ofItem).filterMap failure?

theorem mem_refusals {text : String} {failure : Failure} :
    failure ∈ refusals text ↔ ∃ item ∈ items text, ofItem item = .error failure := by
  simp only [refusals, List.mem_filterMap, List.mem_map, exists_exists_and_eq_and]
  refine exists_congr fun item => and_congr_right fun _ => ?_
  cases ofItem item <;> simp [failure?]

/-- A text is refused for the first of its items that is. -/
theorem ofText_eq_error_iff {text : String} {failure : Failure} :
    ofText text = .error failure ↔ (refusals text).head? = some failure := by
  rw [ofText_eq, mapM_id_eq_error_iff, refusals]

theorem ofText_invalid {text : String} {failure : Failure} (h : ofText text = .error failure) :
    ∃ field reason, failure = .validation field reason := by
  obtain ⟨item, -, hitem⟩ :=
    mem_refusals.mp (List.mem_of_mem_head? (ofText_eq_error_iff.mp h))
  exact ofItem_invalid hitem

theorem exists_ofText_error_iff {text : String} :
    (∃ failure, ofText text = .error failure) ↔ ∃ item ∈ items text, ∀ o, ¬Reads item o := by
  constructor
  · rintro ⟨failure, h⟩
    obtain ⟨item, hmem, hitem⟩ :=
      mem_refusals.mp (List.mem_of_mem_head? (ofText_eq_error_iff.mp h))
    exact ⟨item, hmem, exists_ofItem_error_iff.mp ⟨failure, hitem⟩⟩
  · rintro ⟨item, hmem, hnone⟩
    obtain ⟨failure, hitem⟩ := exists_ofItem_error_iff.mpr hnone
    have hrefused := mem_refusals.mpr ⟨item, hmem, hitem⟩
    exact ⟨(refusals text).head (List.ne_nil_of_mem hrefused),
      ofText_eq_error_iff.mpr (List.head?_eq_some_head _)⟩

/-- Orderings that are printed are their items. -/
theorem items_written (os : List Ordering) :
    items (",".intercalate (os.map written)) = os.map written := by
  have hclean : ∀ o : Ordering, ∀ c ∈ o.written.toList, c ≠ ',' ∧ Text.isBlank c = false := by
    intro o
    have hall : (o.written.toList.all fun c => c != ',' && !Text.isBlank c) = true := by
      obtain ⟨field, direction⟩ := o
      cases field <;> cases direction <;> decide
    simpa using hall
  have htrim : ∀ o : Ordering, trim o.written = o.written := by
    intro o
    have hkept := Text.trim_of_not_blank fun c hc => (hclean o c hc).2
    rwa [String.ofList_toList] at hkept
  cases os with
  | nil => decide
  | cons o os =>
    have hsplit : split ',' (",".intercalate ((o :: os).map written)) = (o :: os).map written := by
      refine Text.split_intercalate (List.cons_ne_nil _ _) fun part hpart hcomma => ?_
      obtain ⟨o, -, rfl⟩ := List.mem_map.mp hpart
      exact (hclean o ',' hcomma).1 rfl
    have hmap : (trim ∘ written) = written := funext htrim
    rw [items, hsplit, List.map_map, hmap]
    refine List.filter_eq_self.mpr fun item hitem => ?_
    obtain ⟨o, -, rfl⟩ := List.mem_map.mp hitem
    simp [written]

/-- Orderings are read from the items of a text, one from each and in order, exactly if every item
reads as one; else the text is invalid. What printing orderings gives is read back. -/
theorem ofText_reads (text : String) (os : List Ordering) :
    (ofText text = .ok os ↔ List.Forall₂ Reads (items text) os) ∧
    ((∃ field reason, ofText text = .error (.validation field reason)) ↔
      ∃ item ∈ items text, ∀ o, ¬Reads item o) ∧
    ofText (",".intercalate (os.map written)) = .ok os := by
  refine ⟨ofText_eq_ok_iff, ?_, ?_⟩
  · rw [← exists_ofText_error_iff]
    constructor
    · rintro ⟨field, reason, h⟩
      exact ⟨_, h⟩
    · rintro ⟨failure, h⟩
      obtain ⟨field, reason, rfl⟩ := ofText_invalid h
      exact ⟨field, reason, h⟩
  · rw [ofText_eq_ok_iff, items_written, List.forall₂_map_left_iff, List.forall₂_same]
    exact fun o _ => .inl (.full o)

example : (ofText "size, date:desc:size").toOption =
    some [⟨.size, .ascending⟩, ⟨.date, .descending⟩] := by
  decide +kernel

end Ordering

end Mailroom.Filter
