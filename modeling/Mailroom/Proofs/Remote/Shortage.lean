import Mailroom.Fault

/-! Shortages of quota among faults. A fault lacks quota by its status, or by the first of its
details that gives a reason of quota. What stands for the details is whatever was raised: where it
is no list, or null comes before every reason of quota, the fault cannot be asked, and a fault of
another sort is raised instead. In no other case is one. -/

namespace Mailroom

namespace Fault

variable {f raised : Fault}

/-! ### Asking the details -/

/-- A search through a list comes to something else than no at the first item that does. -/
theorem anyM_eq_iff {α ε : Type} {p : α → Except ε Bool} {r : Except ε Bool} (hr : r ≠ .ok false)
    (l : List α) : l.anyM p = r ↔
      ∃ before x after, l = before ++ x :: after ∧ (∀ y ∈ before, p y = .ok false) ∧ p x = r := by
  induction l with
  | nil => simpa [List.anyM, pure, Except.pure] using hr.symm
  | cons x l ih =>
    by_cases hx : p x = .ok false
    · have hgo : (x :: l).anyM p = l.anyM p := by rw [List.anyM, hx]; rfl
      rw [hgo, ih]
      constructor
      · rintro ⟨before, y, after, rfl, hbefore, hy⟩
        exact ⟨x :: before, y, after, rfl, List.forall_mem_cons.mpr ⟨hx, hbefore⟩, hy⟩
      · rintro ⟨_ | ⟨x', before⟩, y, after, heq, hbefore, hy⟩
        · obtain rfl := (List.cons.inj heq).1
          exact absurd (hy.symm.trans hx) hr
        · obtain ⟨rfl, rfl⟩ := List.cons.inj heq
          exact ⟨before, y, after, rfl, (List.forall_mem_cons.mp hbefore).2, hy⟩
    · have hstop : (x :: l).anyM p = p x := by
        rw [List.anyM]
        rcases hpx : p x with e | _ | _
        · rfl
        · exact absurd hpx hx
        · rfl
      rw [hstop]
      constructor
      · exact fun hy => ⟨[], x, l, rfl, by simp, hy⟩
      · rintro ⟨_ | ⟨x', before⟩, y, after, heq, hbefore, hy⟩
        · exact (List.cons.inj heq).1 ▸ hy
        · obtain ⟨rfl, rfl⟩ := List.cons.inj heq
          exact absurd ((List.forall_mem_cons.mp hbefore).1) hx

/-- A detail that gives a reason of quota. -/
def GivesReason (detail : Value) : Prop :=
  ∃ reason ∈ quotaReasons, detail.textAt? "reason" = some reason

/-- A detail that is passed over in looking for a reason of quota. -/
def PassedOver (detail : Value) : Prop := detail ≠ .null ∧ ¬GivesReason detail

theorem givesQuota_eq {detail : Value} (h : detail ≠ .null) :
    givesQuota detail = .ok ((detail.textAt? "reason").any quotaReasons.contains) := by
  cases detail <;> first | rfl | exact absurd rfl h

theorem givesQuota_eq_error_iff {detail : Value} : givesQuota detail = .error raised ↔
    detail = .null ∧ raised = ofMisuse "Cannot read properties of null (reading 'reason')" := by
  by_cases h : detail = .null
  · subst h
    simp [givesQuota, eq_comm]
  · simp [givesQuota_eq h, h]

theorem givesQuota_eq_true_iff {detail : Value} :
    givesQuota detail = .ok true ↔ GivesReason detail := by
  by_cases h : detail = .null
  · subst h
    simp [givesQuota, GivesReason, Value.textAt?, Value.field?]
  · rw [givesQuota_eq h, GivesReason]
    cases detail.textAt? "reason" <;> simp

theorem givesQuota_eq_false_iff {detail : Value} :
    givesQuota detail = .ok false ↔ PassedOver detail := by
  rw [PassedOver, ← givesQuota_eq_true_iff]
  by_cases h : detail = .null
  · subst h
    simp [givesQuota]
  · simp [givesQuota_eq h, h]

/-! ### What a fault says of itself -/

/-- A fault for want of quota: status 429, or status 403 with a detail that gives a reason of quota
behind others that are passed over. -/
inductive LacksQuota (f : Fault) : Prop
  | status : f.hasStatus 429 = true → LacksQuota f
  | reason {before detail after} : f.hasStatus 403 = true →
      f.listed? = some (.arr (before ++ detail :: after)) → (∀ d ∈ before, PassedOver d) →
      GivesReason detail → LacksQuota f

/-- A fault that cannot be asked for a reason of quota, and what is raised instead: its details are
no list, or there is a null behind others that are passed over. -/
inductive Misread (f : Fault) : Fault → Prop
  | unlisted {details} : f.hasStatus 403 = true → f.listed? = some details →
      (∀ items, details ≠ .arr items) → Misread f (ofMisuse "errors.some is not a function")
  | unnamed {before after} : f.hasStatus 403 = true →
      f.listed? = some (.arr (before ++ .null :: after)) → (∀ d ∈ before, PassedOver d) →
      Misread f (ofMisuse "Cannot read properties of null (reading 'reason')")

theorem eq_of_same {n x : Number} (h : n.same x = true) (hx : x.isTruthy = true) : n = x := by
  unfold Number.same at h
  split at h
  · cases h
  · cases h
  · cases hx
  · exact beq_iff_eq.mp h

theorem status?_of_hasStatus {code : Nat} (h : f.hasStatus code = true)
    (hcode : (Number.ofNat code).isTruthy = true) :
    f.status? = some (.num (Number.ofNat code)) := by
  unfold hasStatus at h
  split at h
  · next n hstatus => rw [hstatus, eq_of_same h hcode]
  · cases h

/-- A fault has one status. -/
theorem hasStatus_unique {code other : Nat} (hcode : (Number.ofNat code).isTruthy = true)
    (hother : (Number.ofNat other).isTruthy = true) (hne : Number.ofNat code ≠ Number.ofNat other)
    (h : f.hasStatus code = true) : f.hasStatus other = false := by
  refine Bool.eq_false_iff.mpr fun h' => ?_
  have hstatus := status?_of_hasStatus h' hother
  rw [status?_of_hasStatus h hcode] at hstatus
  exact hne (Value.num.inj (Option.some.inj hstatus))

/-- A forbidden fault is judged by its details. -/
theorem isRateLimit_of_forbidden (h : f.hasStatus 403 = true) {details : Value}
    (hdetails : f.listed? = some details) : f.isRateLimit = listsQuota details := by
  have hlimited : f.hasStatus 429 = false :=
    hasStatus_unique (by decide +kernel) (by decide +kernel) (by decide +kernel) h
  simp [isRateLimit, hlimited, h, hdetails]

theorem listsQuota_eq_iff {details : Value} {r : Except Fault Bool} (hr : r ≠ .ok false) :
    listsQuota details = r ↔
      (∃ before detail after, details = .arr (before ++ detail :: after) ∧
        (∀ d ∈ before, PassedOver d) ∧ givesQuota detail = r) ∨
      (∀ items, details ≠ .arr items) ∧ r = .error (ofMisuse "errors.some is not a function") := by
  cases details with
  | arr items => simp [listsQuota, anyM_eq_iff hr, givesQuota_eq_false_iff]
  | _ => simp [listsQuota, eq_comm]

/-- What is not said outright is said by the details. -/
theorem isRateLimit_cases (f : Fault) : f.hasStatus 429 = true ∧ f.isRateLimit = .ok true ∨
    (∃ details, f.hasStatus 403 = true ∧ f.listed? = some details ∧
      f.isRateLimit = listsQuota details) ∨ f.hasStatus 429 = false ∧
      (f.hasStatus 403 = true → f.listed? = none) ∧ f.isRateLimit = .ok false := by
  cases hlimited : f.hasStatus 429 with
  | true => exact .inl ⟨rfl, by simp [isRateLimit, hlimited]⟩
  | false =>
    cases hforbidden : f.hasStatus 403 with
    | false => exact .inr (.inr ⟨rfl, nofun, by simp [isRateLimit, hlimited, hforbidden]⟩)
    | true =>
      cases hdetails : f.listed? with
      | none => exact .inr (.inr ⟨rfl, fun _ => rfl, by simp [isRateLimit, *]⟩)
      | some details =>
        exact .inr (.inl ⟨details, rfl, rfl, isRateLimit_of_forbidden hforbidden hdetails⟩)

theorem isRateLimit_eq_true_iff : f.isRateLimit = .ok true ↔ f.LacksQuota := by
  constructor
  · intro h
    rcases f.isRateLimit_cases with
      ⟨hlimited, -⟩ | ⟨details, hforbidden, hdetails, heq⟩ | ⟨-, -, heq⟩
    · exact .status hlimited
    · rcases (listsQuota_eq_iff (by simp)).mp (heq.symm.trans h) with
        ⟨before, detail, after, rfl, hbefore, hgives⟩ | ⟨-, hother⟩
      · exact .reason hforbidden hdetails hbefore (givesQuota_eq_true_iff.mp hgives)
      · cases hother
    · cases heq.symm.trans h
  · rintro (hlimited | ⟨hforbidden, hdetails, hbefore, hgives⟩)
    · simp [isRateLimit, hlimited]
    · rw [isRateLimit_of_forbidden hforbidden hdetails]
      exact (listsQuota_eq_iff (by simp)).mpr
        (.inl ⟨_, _, _, rfl, hbefore, givesQuota_eq_true_iff.mpr hgives⟩)

theorem isRateLimit_eq_error_iff : f.isRateLimit = .error raised ↔ f.Misread raised := by
  constructor
  · intro h
    rcases f.isRateLimit_cases with ⟨-, heq⟩ | ⟨details, hforbidden, hdetails, heq⟩ | ⟨-, -, heq⟩
    · cases heq.symm.trans h
    · rcases (listsQuota_eq_iff (by simp)).mp (heq.symm.trans h) with
        ⟨before, detail, after, rfl, hbefore, hasked⟩ | ⟨hnone, hraised⟩
      · obtain ⟨rfl, rfl⟩ := givesQuota_eq_error_iff.mp hasked
        exact .unnamed hforbidden hdetails hbefore
      · cases hraised
        exact .unlisted hforbidden hdetails hnone
    · cases heq.symm.trans h
  · rintro (⟨hforbidden, hdetails, hnone⟩ | ⟨hforbidden, hdetails, hbefore⟩)
    · rw [isRateLimit_of_forbidden hforbidden hdetails]
      exact (listsQuota_eq_iff (by simp)).mpr (.inr ⟨hnone, rfl⟩)
    · rw [isRateLimit_of_forbidden hforbidden hdetails]
      exact (listsQuota_eq_iff (by simp)).mpr (.inl ⟨_, _, _, rfl, hbefore, rfl⟩)

theorem Misread.unique {other : Fault} (h : f.Misread raised) (h' : f.Misread other) :
    raised = other :=
  Except.error.inj ((isRateLimit_eq_error_iff.mpr h).symm.trans (isRateLimit_eq_error_iff.mpr h'))

theorem not_misread_of_ok {isShort : Bool} (h : f.isRateLimit = .ok isShort) :
    ¬f.Misread raised := by
  intro hmisread
  cases h.symm.trans (isRateLimit_eq_error_iff.mpr hmisread)

/-- What is left of a fault that is asked whether the quota is short: the fault, or what is raised
instead if it is misread. -/
def surfaced (f : Fault) : Fault :=
  match f.isRateLimit with
  | .ok _ => f
  | .error raised => raised

theorem surfaced_of_misread (h : f.Misread raised) : f.surfaced = raised := by
  rw [surfaced, isRateLimit_eq_error_iff.mpr h]

theorem surfaced_of_ok {isShort : Bool} (h : f.isRateLimit = .ok isShort) : f.surfaced = f := by
  rw [surfaced, h]

/-! ### Authorization -/

/-- A shortage of quota is taken for a matter of authorization only for its text. -/
theorem isAuthorization_of_isRateLimit (h : f.isRateLimit = .ok true) :
    f.isAuthorization = .ok (authorizationTexts.any (Text.contains f.text)) := by
  have hnone : f.hasStatus 401 = false := by
    rcases isRateLimit_eq_true_iff.mp h with hlimited | ⟨hforbidden, -, -, -⟩
    · exact hasStatus_unique (by decide +kernel) (by decide +kernel) (by decide +kernel) hlimited
    · exact hasStatus_unique (by decide +kernel) (by decide +kernel) (by decide +kernel) hforbidden
  unfold isAuthorization
  rw [hnone, h]
  cases f.hasStatus 403 <;> rfl

/-- A fault that is not misread is judged. -/
theorem isAuthorization_of_ok {isShort : Bool} (h : f.isRateLimit = .ok isShort) :
    ∃ isRefusal, f.isAuthorization = .ok isRefusal := by
  unfold isAuthorization
  rw [h]
  cases f.hasStatus 401 <;> cases f.hasStatus 403 <;> exact ⟨_, rfl⟩

end Fault

end Mailroom
