import Mathlib.Algebra.Order.Ring.Rat
import Mathlib.Data.List.Lex
import Mathlib.Data.Sum.Order
import Mailroom.Proofs.Number.Whole
import Mailroom.Session.Query

/-! The order of a query's answer. An ordering ranks the messages by one field. Sorting by one
ordering after the other, the last one first, is one stable sort by the lexicographic comparison
whose first key is the first ordering. -/

namespace Mailroom

/-! ### Stable sorting -/

section Sorting

variable {α : Type} {le : α → α → Bool}
  (htrans : ∀ a b c, le a b = true → le b c = true → le a c = true)
  (htotal : ∀ a b, (le a b || le b a) = true)
include htrans htotal

/-- Elements of which each may stand before each other one stay in their order. -/
theorem filter_mergeSort {p : α → Bool}
    (hp : ∀ a b, p a = true → p b = true → le a b = true) (l : List α) :
    (l.mergeSort le).filter p = l.filter p := by
  have hpairs : (l.filter p).Pairwise fun a b => le a b = true :=
    List.pairwise_of_forall_mem_list fun a ha b hb =>
      hp a b (List.of_mem_filter ha) (List.of_mem_filter hb)
  have hkept := (List.sublist_mergeSort htrans htotal hpairs List.filter_sublist).filter p
  rw [List.filter_filter, show (fun a => p a && p a) = p from funext fun a => Bool.and_self _]
    at hkept
  exact (hkept.eq_of_length ((List.mergeSort_perm l le).filter p).length_eq.symm).symm

/-- What held of each pair in a list holds in the sorted list of each pair that the sort does not
tell apart. -/
theorem pairwise_mergeSort_of_pairwise {R : α → α → Prop} {l : List α} (h : l.Pairwise R) :
    (l.mergeSort le).Pairwise fun a b => le a b = true ∧ (le b a = true → R a b) := by
  rw [List.pairwise_iff_forall_sublist]
  intro a b hab
  have hle : le a b = true :=
    List.pairwise_iff_forall_sublist.mp (List.pairwise_mergeSort htrans htotal l) hab
  refine ⟨hle, fun hback => ?_⟩
  have hself : le a a = true := by simpa using htotal a a
  have hclass : ∀ c d, (le a c && le c a) = true → (le a d && le d a) = true →
      le c d = true := by
    intro c d hc hd
    rw [Bool.and_eq_true] at hc hd
    exact htrans c a d hc.2 hd.1
  have hpair := hab.filter fun c => le a c && le c a
  rw [filter_mergeSort htrans htotal hclass] at hpair
  have hboth : [a, b].filter (fun c => le a c && le c a) = [a, b] := by
    simp [hself, hle, hback]
  rw [hboth] at hpair
  exact List.pairwise_iff_forall_sublist.mp h (hpair.trans List.filter_sublist)

end Sorting

/-! ### Ranks -/

/-- The value of a number, infinity above and minus infinity below all others. -/
def Number.value (x : Number) : WithBot (WithTop ℚ) :=
  match x.toRat? with
  | some q => ((q : WithTop ℚ) : WithBot (WithTop ℚ))
  | none => if x = infinite false then ⊤ else ⊥

theorem Number.value_of_toRat? {x : Number} {q : Rat} (h : x.toRat? = some q) :
    x.value = ((q : WithTop ℚ) : WithBot (WithTop ℚ)) := by
  rw [value, h]

theorem Number.lt_iff_value {x y : Number} (hx : x ≠ nan) (hy : y ≠ nan) :
    x.lt y = true ↔ x.value < y.value := by
  have hfinite : ∀ (s : Bool) (m : Nat) (e : Int), ∃ q, (finite s m e).toRat? = some q :=
    fun s m e => ⟨_, rfl⟩
  cases x with
  | nan => exact absurd rfl hx
  | infinite p =>
    cases y with
    | nan => exact absurd rfl hy
    | infinite q => cases p <;> cases q <;> decide
    | finite s m e =>
      obtain ⟨q, hq⟩ := hfinite s m e
      rw [value_of_toRat? hq]
      cases p
      · simp [lt, value, toRat?]
      · simp [lt, value, toRat?, WithBot.bot_lt_coe]
  | finite s m e =>
    obtain ⟨r, hr⟩ := hfinite s m e
    rw [value_of_toRat? hr]
    cases y with
    | nan => exact absurd rfl hy
    | infinite q =>
      cases q
      · have htop : ((r : WithTop ℚ) : WithBot (WithTop ℚ)) < ⊤ :=
          WithBot.coe_lt_coe.mpr (WithTop.coe_lt_top r)
        simp [lt, value, toRat?, htop]
      · simp [lt, value, toRat?]
    | finite s' m' e' =>
      obtain ⟨q, hq⟩ := hfinite s' m' e'
      rw [value_of_toRat? hq, WithBot.coe_lt_coe, WithTop.coe_lt_coe]
      simp [lt, hr, hq]

/-- What messages are ranked by: a number, or the 16-bit units of a text. -/
abbrev Rank : Type := WithBot (WithTop ℚ) ⊕ₗ List ℕ

namespace Message

/-- The rank of a message by a field: the instant of its date, the value of its size, the texts
unit by unit. -/
def rank (m : Message) : Filter.Field → Rank
  | .date => Sum.inlₗ (m.date.elim ⊥ fun t => (((t.ms : ℚ) : WithTop ℚ) : WithBot (WithTop ℚ)))
  | .size => Sum.inlₗ m.size.value
  | .subject => Sum.inrₗ (Text.units m.subject)
  | .sender => Sum.inrₗ (Text.units ((m.sender.map (·.email)).getD ""))
  | .recipients => Sum.inrₗ (Text.units (", ".intercalate (m.recipients.map (·.email))))
  | .copies => Sum.inrₗ (Text.units (", ".intercalate (m.copies.map (·.email))))
  | .blindCopies => Sum.inrₗ (Text.units (", ".intercalate (m.blindCopies.map (·.email))))

/-- Whether a message has something to be ranked by: a date that is valid, a size that is a
number. Its texts it always has. -/
def Ranked (m : Message) : Filter.Field → Prop
  | .date => m.date.isSome = true
  | .size => m.size ≠ .nan
  | _ => True

instance (m : Message) (field : Filter.Field) : Decidable (m.Ranked field) :=
  match field with
  | .date => inferInstanceAs (Decidable (m.date.isSome = true))
  | .size => inferInstanceAs (Decidable (m.size ≠ .nan))
  | .subject | .sender | .recipients | .copies | .blindCopies => .isTrue trivial

theorem before_iff_rank {a b : Message} {field : Filter.Field} (ha : a.Ranked field)
    (hb : b.Ranked field) :
    (Query.sortKey a field).before (Query.sortKey b field) = true ↔
      a.rank field < b.rank field := by
  have htext : ∀ s t : String, (Query.SortKey.text s).before (.text t) = true ↔
      (Sum.inrₗ (Text.units s) : Rank) < Sum.inrₗ (Text.units t) := fun s t => by
    rw [Sum.Lex.inr_lt_inr_iff, Query.SortKey.before, Text.before, decide_eq_true_iff]
  cases field with
  | date =>
    obtain ⟨t, ht⟩ := Option.isSome_iff_exists.mp ha
    obtain ⟨u, hu⟩ := Option.isSome_iff_exists.mp hb
    have hexact : ∀ t : Instant, (Number.ofInt t.ms).toRat? = some (t.ms : Rat) := fun t =>
      Number.toRat?_ofInt (Nat.lt_of_le_of_lt t.ms_le (by decide))
    have hnum : ∀ t : Instant, Number.ofInt t.ms ≠ .nan := fun t hnan => by
      have hnone := hexact t
      rw [hnan] at hnone
      cases hnone
    simp only [Query.sortKey, Query.SortKey.before, rank, ht, hu, Option.map_some, Option.getD_some,
      Option.elim_some, Sum.Lex.inl_lt_inl_iff]
    rw [Number.lt_iff_value (hnum t) (hnum u), Number.value_of_toRat? (hexact t),
      Number.value_of_toRat? (hexact u)]
  | size =>
    simp only [Query.sortKey, Query.SortKey.before, rank, Sum.Lex.inl_lt_inl_iff]
    exact Number.lt_iff_value ha hb
  | subject => exact htext _ _
  | sender => exact htext _ _
  | recipients => exact htext _ _
  | copies => exact htext _ _
  | blindCopies => exact htext _ _

end Message

/-! ### The lexicographic comparison -/

/-- Whether a message comes strictly before another by one key. -/
def Filter.Ordering.Precedes (o : Filter.Ordering) (a b : Message) : Prop :=
  match o.direction with
  | .ascending => a.rank o.field < b.rank o.field
  | .descending => b.rank o.field < a.rank o.field

namespace Filter.Ordering

variable {o : Filter.Ordering} {a b c : Message}

instance (o : Filter.Ordering) (a b : Message) : Decidable (o.Precedes a b) :=
  match h : o.direction with
  | .ascending => decidable_of_iff (a.rank o.field < b.rank o.field) (by rw [Precedes, h])
  | .descending => decidable_of_iff (b.rank o.field < a.rank o.field) (by rw [Precedes, h])

theorem Precedes.asymm (h : o.Precedes a b) : ¬o.Precedes b a := by
  unfold Precedes at h ⊢
  cases hd : o.direction <;> simp only [hd] at h ⊢ <;> exact lt_asymm h

theorem rank_eq_of_not_precedes (hab : ¬o.Precedes a b) (hba : ¬o.Precedes b a) :
    a.rank o.field = b.rank o.field := by
  unfold Precedes at hab hba
  cases hd : o.direction with
  | ascending =>
    simp only [hd] at hab hba
    exact le_antisymm (not_lt.mp hba) (not_lt.mp hab)
  | descending =>
    simp only [hd] at hab hba
    exact le_antisymm (not_lt.mp hab) (not_lt.mp hba)

theorem not_precedes_of_rank_eq (h : a.rank o.field = b.rank o.field) : ¬o.Precedes a b := by
  unfold Precedes
  cases o.direction <;> simp [h]

theorem not_precedes_trans (hab : ¬o.Precedes b a) (hbc : ¬o.Precedes c b) : ¬o.Precedes c a := by
  unfold Precedes at hab hbc ⊢
  cases hd : o.direction with
  | ascending =>
    simp only [hd, not_lt] at hab hbc ⊢
    exact hab.trans hbc
  | descending =>
    simp only [hd, not_lt] at hab hbc ⊢
    exact hbc.trans hab

/-- The comparison that sorts by the key, for messages that have what it looks at. -/
theorem mayPrecede_eq (ha : a.Ranked o.field) (hb : b.Ranked o.field) :
    Query.mayPrecede o a b = decide (¬o.Precedes b a) := by
  rw [Bool.eq_iff_iff, decide_eq_true_iff]
  unfold Query.mayPrecede Precedes
  cases o.direction with
  | ascending => rw [Bool.not_eq_true', ← Bool.not_eq_true, Message.before_iff_rank hb ha]
  | descending => rw [Bool.not_eq_true', ← Bool.not_eq_true, Message.before_iff_rank ha hb]

end Filter.Ordering

namespace Query

/-- The lexicographic comparison by some keys: the first one that tells two messages apart
decides. -/
def Before : List Filter.Ordering → Message → Message → Prop
  | [], _, _ => False
  | o :: os, a, b => o.Precedes a b ∨ a.rank o.field = b.rank o.field ∧ Before os a b

/-- Whether no key tells two messages apart. -/
def Alike (orderings : List Filter.Ordering) (a b : Message) : Prop :=
  ∀ o ∈ orderings, a.rank o.field = b.rank o.field

instance (orderings : List Filter.Ordering) (a b : Message) : Decidable (Alike orderings a b) :=
  inferInstanceAs (Decidable (∀ o ∈ orderings, a.rank o.field = b.rank o.field))

/-- A stable sort of messages by the lexicographic comparison: a permutation in which none stands
behind one that it comes before, and in which messages alike stand as they did. -/
structure Ordered (orderings : List Filter.Ordering) (messages answer : List Message) : Prop where
  perm : answer.Perm messages
  sorted : answer.Pairwise fun a b => ¬Before orderings b a
  stable : ∀ m, answer.filter (fun n => decide (Alike orderings m n)) =
    messages.filter fun n => decide (Alike orderings m n)

variable {orderings : List Filter.Ordering} {messages : List Message}

theorem alike_of_not_before {a b : Message} (hab : ¬Before orderings a b)
    (hba : ¬Before orderings b a) : Alike orderings a b := by
  induction orderings with
  | nil => exact fun o ho => absurd ho List.not_mem_nil
  | cons o os ih =>
    have heq : a.rank o.field = b.rank o.field :=
      Filter.Ordering.rank_eq_of_not_precedes (fun h => hab (.inl h)) fun h => hba (.inl h)
    have hrest : Alike os a b :=
      ih (fun h => hab (.inr ⟨heq, h⟩)) fun h => hba (.inr ⟨heq.symm, h⟩)
    exact List.forall_mem_cons.mpr ⟨heq, hrest⟩

theorem not_before_self (orderings : List Filter.Ordering) (a : Message) :
    ¬Before orderings a a := by
  induction orderings with
  | nil => exact id
  | cons o os ih =>
    rintro (h | ⟨-, h⟩)
    · exact h.asymm h
    · exact ih h

theorem Ordered.unique {first second : List Message} (h : Ordered orderings messages first)
    (h' : Ordered orderings messages second) : first = second := by
  have hstable := fun m => (h.stable m).trans (h'.stable m).symm
  have hfirst := h.sorted
  have hsecond := h'.sorted
  have hperm := h.perm.trans h'.perm.symm
  clear h h'
  induction first generalizing second with
  | nil => exact hperm.symm.eq_nil.symm
  | cons a rest ih =>
    cases second with
    | nil => exact hperm.eq_nil
    | cons b others =>
      obtain ⟨hleast, hrest⟩ := List.pairwise_cons.mp hfirst
      obtain ⟨hleast', hothers⟩ := List.pairwise_cons.mp hsecond
      -- Each head is among the messages of the other list, so neither comes before the other.
      have hba : ¬Before orderings b a := by
        rcases List.mem_cons.mp (hperm.symm.subset List.mem_cons_self) with rfl | hb
        · exact not_before_self orderings b
        · exact hleast b hb
      have hab : ¬Before orderings a b := by
        rcases List.mem_cons.mp (hperm.subset List.mem_cons_self) with rfl | ha
        · exact not_before_self orderings a
        · exact hleast' a ha
      have hself : Alike orderings a a := fun o _ => rfl
      have halike : Alike orderings a b := alike_of_not_before hab hba
      have hheads := hstable a
      simp only [List.filter_cons, hself, halike, decide_true, if_true] at hheads
      obtain ⟨rfl, -⟩ := List.cons.inj hheads
      refine congrArg (a :: ·) (ih (fun m => ?_) hrest hothers hperm.cons_inv)
      have hm := hstable m
      simp only [List.filter_cons] at hm
      split at hm
      · exact (List.cons.inj hm).2
      · exact hm

theorem Ordered.trans {first second : List Message} (h : Ordered orderings messages first)
    (h' : Ordered orderings first second) : Ordered orderings messages second where
  perm := h'.perm.trans h.perm
  sorted := h'.sorted
  stable := fun m => (h'.stable m).trans (h.stable m)

/-! ### Sorting by one key after the other -/

/-- A list that is sorted by the later keys, sorted by one more key in front of them. -/
theorem Ordered.cons {o : Filter.Ordering} {sorted : List Message}
    (h : Ordered orderings messages sorted) (ho : ∀ m ∈ messages, m.Ranked o.field) :
    Ordered (o :: orderings) messages (sorted.mergeSort (mayPrecede o)) := by
  have hkey : sorted.mergeSort (mayPrecede o) =
      sorted.mergeSort fun a b => decide (¬o.Precedes b a) := by
    have hmap := List.map_mergeSort (f := id) (l := sorted) (r := mayPrecede o)
      (s := fun a b => decide (¬o.Precedes b a)) fun a ha b hb =>
        Filter.Ordering.mayPrecede_eq (ho a (h.perm.subset ha)) (ho b (h.perm.subset hb))
    rwa [List.map_id, List.map_id] at hmap
  have htrans : ∀ a b c, decide (¬o.Precedes b a) = true → decide (¬o.Precedes c b) = true →
      decide (¬o.Precedes c a) = true := by
    intro a b c hab hbc
    rw [decide_eq_true_iff] at hab hbc ⊢
    exact Filter.Ordering.not_precedes_trans hab hbc
  have htotal : ∀ a b, (decide (¬o.Precedes b a) || decide (¬o.Precedes a b)) = true := by
    intro a b
    rw [Bool.or_eq_true, decide_eq_true_iff, decide_eq_true_iff]
    exact not_and_or.mp fun hboth => hboth.1.asymm hboth.2
  rw [hkey]
  refine ⟨(List.mergeSort_perm _ _).trans h.perm, ?_, fun m => ?_⟩
  · refine (pairwise_mergeSort_of_pairwise htrans htotal h.sorted).imp ?_
    rintro a b ⟨hab, htie⟩ (hba | ⟨heq, hba⟩)
    · exact of_decide_eq_true hab hba
    · exact htie (decide_eq_true (Filter.Ordering.not_precedes_of_rank_eq heq.symm)) hba
  · have hclass : ∀ a b, decide (Alike (o :: orderings) m a) = true →
        decide (Alike (o :: orderings) m b) = true → decide (¬o.Precedes b a) = true := by
      intro a b ha hb
      rw [decide_eq_true_iff] at ha hb ⊢
      exact Filter.Ordering.not_precedes_of_rank_eq
        ((hb o List.mem_cons_self).symm.trans (ha o List.mem_cons_self))
    have hsplit : (fun n => decide (Alike (o :: orderings) m n)) = fun n =>
        decide (m.rank o.field = n.rank o.field) && decide (Alike orderings m n) := by
      funext n
      rw [← Bool.decide_and, decide_eq_decide]
      exact List.forall_mem_cons
    rw [filter_mergeSort htrans htotal hclass, hsplit, ← List.filter_filter, h.stable m,
      List.filter_filter]

theorem order_ordered (orderings : List Filter.Ordering) (messages : List Message)
    (h : ∀ o ∈ orderings, ∀ m ∈ messages, m.Ranked o.field) :
    Ordered orderings messages (order orderings messages) := by
  induction orderings with
  | nil =>
    have hnone : messages.Pairwise fun a b => ¬Before [] b a :=
      List.pairwise_of_forall fun _ _ => id
    exact ⟨.refl _, hnone, fun _ => rfl⟩
  | cons o os ih =>
    obtain ⟨ho, hos⟩ := List.forall_mem_cons.mp h
    exact (ih hos).cons ho

/-- The messages in order are a stable sort by the lexicographic comparison, the first ordering
first, and are in order already. -/
theorem order_lexicographic (orderings : List Filter.Ordering) (messages : List Message)
    (h : ∀ o ∈ orderings, ∀ m ∈ messages, m.Ranked o.field) :
    Ordered orderings messages (order orderings messages) ∧
      order orderings (order orderings messages) = order orderings messages := by
  have hfirst := order_ordered orderings messages h
  have hagain : Ordered orderings (order orderings messages)
      (order orderings (order orderings messages)) :=
    order_ordered orderings _ fun o ho m hm => h o ho m (hfirst.perm.subset hm)
  exact ⟨hfirst, (hfirst.trans hagain).unique hfirst⟩

/-- Newest first, and by subject within a date, where two messages are alike in both. -/
theorem order_lexicographic_newest :
    let letter := fun id ms subject => Message.ofResource
      { id := some id, internalDate := some ms,
        payload := .mk none none [⟨some "Subject", some subject⟩] {} [] } [] none
    let messages := [letter "a" "1000" "tea", letter "b" "2000" "tea", letter "c" "1000" "milk",
      letter "d" "1000" "tea"]
    let orderings : List Filter.Ordering := [⟨.date, .descending⟩, ⟨.subject, .ascending⟩]
    (∀ o ∈ orderings, ∀ m ∈ messages, m.Ranked o.field) ∧
      Ordered orderings messages (order orderings messages) ∧
      order orderings (order orderings messages) = order orderings messages := by
  intro letter messages orderings
  have hranked : ∀ o ∈ orderings, ∀ m ∈ messages, m.Ranked o.field := by decide +kernel
  exact ⟨hranked, order_lexicographic orderings messages hranked⟩

end Query

end Mailroom
