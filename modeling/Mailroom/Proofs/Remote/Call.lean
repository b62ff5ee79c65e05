import Mailroom.Remote.Service

/-! Runs of calls: a computation that may fail and keeps its state, taken apart at its steps. -/

namespace Mailroom.Call

variable {σ α β : Type}

/-- A computation goes on where the first part of it ended, unless that failed. -/
theorem run_bind (x : Call σ α) (f : α → Call σ β) (s : σ) : (x >>= f).run s =
    match x.run s with
    | (.ok a, t) => (f a).run t
    | (.error failure, t) => (.error failure, t) := by
  simp only [ExceptT.run, bind, ExceptT.bind, ExceptT.mk, StateT.bind]
  rcases x s with ⟨failure | a, t⟩
  · rfl
  · rfl

theorem run_bind_congr {x y : Call σ α} {s : σ} (h : x.run s = y.run s) (f : α → Call σ β) :
    (x >>= f).run s = (y >>= f).run s := by
  rw [run_bind, run_bind, h]

@[simp] theorem run_pure (a : α) (s : σ) : (pure a : Call σ α).run s = (.ok a, s) := rfl

@[simp] theorem run_throw (failure : Failure) (s : σ) :
    (throw failure : Call σ α).run s = (.error failure, s) := rfl

@[simp] theorem run_get (s : σ) : (get : Call σ σ).run s = (.ok s, s) := rfl

@[simp] theorem run_modify (f : σ → σ) (s : σ) :
    (modify f : Call σ PUnit).run s = (.ok ⟨⟩, f s) := rfl

/-- A computation that cannot fail as one that might. -/
theorem run_liftM (x : StateM σ α) (s : σ) :
    (liftM x : Call σ α).run s = (.ok (x s).1, (x s).2) := by
  simp only [liftM, monadLift, MonadLift.monadLift, ExceptT.run_lift]
  rfl

@[simp] theorem run_attempt (x : Call σ α) (s : σ) :
    (attempt x).run s = (.ok (x.run s).1, (x.run s).2) := rfl

/-- A computation answers with its outcome. -/
theorem attempt_bind_mk (x : Call σ α) :
    (do let outcome ← attempt x; ExceptT.mk (pure outcome)) = x := rfl

theorem exists_ok {x : Call σ α} {s : σ} (h : (x.run s).1.toOption.isSome = true) :
    ∃ a t, x.run s = (.ok a, t) := by
  rcases hx : x.run s with ⟨failure | a, t⟩
  · simp [hx, Except.toOption] at h
  · exact ⟨a, t, rfl⟩

theorem exists_error {x : Call σ α} {s : σ} (h : (x.run s).1.toOption.isNone = true) :
    ∃ failure t, x.run s = (.error failure, t) := by
  rcases hx : x.run s with ⟨failure | a, t⟩
  · exact ⟨failure, t, rfl⟩
  · simp [hx, Except.toOption] at h

theorem run_of_toOption {x : Call σ α} {s : σ} {a : α} (h : (x.run s).1.toOption = some a) :
    x.run s = (.ok a, (x.run s).2) := by
  rcases hx : x.run s with ⟨failure | b, t⟩ <;> rw [hx] at h <;> cases h
  rfl

/-! ### How computations end -/

/-- What a computation from a state ends with: an answer and a state as `done` says, or a failure
and a state as `failed` says. -/
def Ends (x : Call σ α) (s : σ) (done : α → σ → Prop) (failed : Failure → σ → Prop) : Prop :=
  match x.run s with
  | (.ok a, t) => done a t
  | (.error failure, t) => failed failure t

namespace Ends

variable {x : Call σ α} {f : α → Call σ β} {s : σ} {done done' : α → σ → Prop}
  {next : β → σ → Prop} {failed failed' : Failure → σ → Prop} {P : σ → Prop}

theorem imp (h : Ends x s done failed) (hdone : ∀ a t, done a t → done' a t)
    (hfailed : ∀ failure t, failed failure t → failed' failure t) : Ends x s done' failed' := by
  unfold Ends at h ⊢
  rcases hx : x.run s with ⟨failure | a, t⟩ <;> rw [hx] at h
  · exact hfailed failure t h
  · exact hdone a t h

theorem impDone (h : Ends x s done failed) (hdone : ∀ a t, done a t → done' a t) :
    Ends x s done' failed :=
  h.imp hdone fun _ _ => id

theorem impFailed (h : Ends x s done failed)
    (hfailed : ∀ failure t, failed failure t → failed' failure t) : Ends x s done failed' :=
  h.imp (fun _ _ => id) hfailed

theorem bind (h : Ends x s (fun a t => Ends (f a) t next failed) failed) :
    Ends (x >>= f) s next failed := by
  unfold Ends at h ⊢
  rw [run_bind]
  rcases hx : x.run s with ⟨failure | a, t⟩ <;> rw [hx] at h
  · exact h
  · exact h

/-- A computation that goes on after a first part. -/
theorem andThen (h : Ends x s done failed) (hnext : ∀ a t, done a t → Ends (f a) t next failed) :
    Ends (x >>= f) s next failed :=
  bind (h.impDone hnext)

theorem of_run {a : α} {t : σ} (h : x.run s = (.ok a, t)) (hdone : done a t) :
    Ends x s done failed := by
  rw [Ends, h]
  exact hdone

/-- The answer or the failure as what the run gave. -/
theorem withRun (h : Ends x s done failed) :
    Ends x s (fun a t => done a t ∧ x.run s = (.ok a, t))
      fun failure t => failed failure t ∧ x.run s = (.error failure, t) := by
  unfold Ends at h ⊢
  rcases hx : x.run s with ⟨failure | a, t⟩ <;> rw [hx] at h
  · exact ⟨h, rfl⟩
  · exact ⟨h, rfl⟩

/-- A computation that does not fail. -/
theorem exists_ok (h : Ends x s done fun _ _ => False) :
    ∃ a t, x.run s = (.ok a, t) ∧ done a t := by
  unfold Ends at h
  rcases hx : x.run s with ⟨failure | a, t⟩ <;> rw [hx] at h
  · exact h.elim
  · exact ⟨a, t, rfl, h⟩

/-- A computation that looks at its state first. -/
theorem getThen {f : σ → Call σ β} (h : Ends (f s) s next failed) :
    Ends (get >>= f) s next failed :=
  bind h

theorem ok (h : Ends x s done failed) {a : α} {t : σ} (hrun : x.run s = (.ok a, t)) : done a t := by
  rwa [Ends, hrun] at h

theorem error (h : Ends x s done failed) {failure : Failure}
    (hrun : (x.run s).1 = .error failure) : failed failure (x.run s).2 := by
  unfold Ends at h
  rcases hx : x.run s with ⟨other | a, t⟩ <;> rw [hx] at h hrun <;> cases hrun
  exact h

/-- A computation made for each item, over which an invariant is kept. -/
theorem mapM {I : σ → Prop} {Q : β → Prop} {F : Failure → Prop} {g : α → Call σ β}
    {items : List α} (hs : I s) (h : ∀ a ∈ items, ∀ t, I t →
      Ends (g a) t (fun b u => I u ∧ Q b) fun failure u => I u ∧ F failure) :
    Ends (items.mapM g) s (fun bs t => I t ∧ ∀ b ∈ bs, Q b) fun failure t => I t ∧ F failure := by
  induction items generalizing s with
  | nil => exact ⟨hs, by simp⟩
  | cons a items ih =>
    rw [List.mapM_cons]
    refine (h a List.mem_cons_self s hs).andThen fun b t hhead => ?_
    obtain ⟨ht, hb⟩ := hhead
    refine (ih ht fun a ha => h a (List.mem_cons_of_mem _ ha)).andThen fun bs u htail => ?_
    obtain ⟨hu, hbs⟩ := htail
    exact ⟨hu, List.forall_mem_cons.mpr ⟨hb, hbs⟩⟩

theorem mapM_keeps {I : σ → Prop} {F : Failure → Prop} {g : α → Call σ β} {items : List α}
    (hs : I s) (h : ∀ a ∈ items, ∀ t, I t →
      Ends (g a) t (fun _ => I) fun failure u => I u ∧ F failure) :
    Ends (items.mapM g) s (fun _ => I) fun failure t => I t ∧ F failure := by
  refine (mapM (Q := fun _ => True) hs fun a ha t ht => ?_).imp (fun _ _ h => h.1) fun _ _ h => h
  exact (h a ha t ht).imp (fun _ _ hu => ⟨hu, trivial⟩) fun _ _ h => h

theorem forM {I : σ → Prop} {g : α → Call σ PUnit} {items : List α} (hs : I s)
    (h : ∀ a ∈ items, ∀ t, I t → Ends (g a) t (fun _ => I) failed) :
    Ends (items.forM g) s (fun _ => I) failed := by
  induction items generalizing s with
  | nil => exact hs
  | cons a items ih =>
    rw [List.forM]
    refine (h a List.mem_cons_self s hs).andThen fun _ t ht => ?_
    exact ih ht fun b hb => h b (List.mem_cons_of_mem _ hb)

/-- A computation that fails in its first part goes no further. -/
theorem bind_of_fails (h : Ends x s (fun _ _ => False) failed) : Ends (x >>= f) s next failed :=
  h.andThen fun _ _ => False.elim

theorem error_of_fails {failure : Failure}
    (h : Ends x s (fun _ _ => False) fun other _ => other = failure) :
    (x.run s).1 = .error failure := by
  unfold Ends at h
  rcases hx : x.run s with ⟨other | a, t⟩ <;> rw [hx] at h
  · exact congrArg Except.error h
  · exact h.elim

/-- A computation that succeeds under a condition fails only without it. -/
theorem fails_without {p : Prop} (h : Ends x s done failed) (hok : p → ∃ a t, x.run s = (.ok a, t)) :
    Ends x s done fun failure t => failed failure t ∧ ¬p := by
  unfold Ends at h ⊢
  rcases hx : x.run s with ⟨failure | a, t⟩ <;> rw [hx] at h hok
  · refine ⟨h, fun hp => ?_⟩
    obtain ⟨a, u, herror⟩ := hok hp
    cases herror
  · exact h

/-- What holds of the state however a computation ends. -/
theorem state (h : Ends x s (fun _ => P) fun _ => P) : P (x.run s).2 := by
  unfold Ends at h
  rcases hx : x.run s with ⟨failure | a, t⟩ <;> rw [hx] at h
  · exact h
  · exact h

end Ends

/-! ### What computations leave alone -/

/-- A computation that leaves a part of its state as it is, however it ends. -/
def Leaves {τ : Type} (view : σ → τ) (x : Call σ α) : Prop := ∀ s, view (x.run s).2 = view s

namespace Leaves

variable {τ : Type} {view : σ → τ} {x : Call σ α} {f : α → Call σ β}

theorem pure (a : α) : Leaves view (Pure.pure a : Call σ α) := fun _ => rfl

theorem get : Leaves view (MonadState.get : Call σ σ) := fun _ => rfl

theorem modify {g : σ → σ} (h : ∀ s, view (g s) = view s) :
    Leaves view (modifyThe σ g : Call σ PUnit) := h

theorem bind (hx : Leaves view x) (hf : ∀ a, Leaves view (f a)) : Leaves view (x >>= f) := by
  intro s
  have hfirst := hx s
  rw [run_bind]
  rcases hrun : x.run s with ⟨failure | a, t⟩ <;> rw [hrun] at hfirst
  · exact hfirst
  · exact (hf a t).trans hfirst

end Leaves

/-! ### Computations that agree -/

section Agree

variable {τ : Type}

/-- Two computations that, from related states, succeed together, and then answer alike and leave
related states. -/
def Agree (R : σ → τ → Prop) (x : Call σ α) (y : Call τ α) : Prop :=
  ∀ s t, R s t →
    match x.run s, y.run t with
    | (.ok a, u), (.ok b, v) => a = b ∧ R u v
    | (.error _, _), (.error _, _) => True
    | _, _ => False

namespace Agree

variable {R : σ → τ → Prop} {x : Call σ α} {y : Call τ α} {f : α → Call σ β} {g : α → Call τ β}

theorem pure (a : α) : Agree R (pure a) (Pure.pure a) := fun _ _ h => ⟨rfl, h⟩

theorem throw (failure other : Failure) :
    Agree (α := α) R (throw failure) (MonadExcept.throw other) :=
  fun _ _ _ => trivial

theorem bind (h : Agree R x y) (hnext : ∀ a, Agree R (f a) (g a)) :
    Agree R (x >>= f) (y >>= g) := by
  intro s t hst
  have hfirst := h s t hst
  rw [run_bind, run_bind]
  rcases hx : x.run s with ⟨failure | a, u⟩ <;> rcases hy : y.run t with ⟨other | b, v⟩ <;>
    rw [hx, hy] at hfirst
  · trivial
  · exact hfirst.elim
  · exact hfirst.elim
  · obtain ⟨rfl, huv⟩ := hfirst
    exact hnext a u v huv

/-- Computations that look at their states first. -/
theorem getThen {f : σ → Call σ β} {g : τ → Call τ β}
    (h : ∀ s t, R s t → Agree R (f s) (g t)) : Agree R (get >>= f) (get >>= g) :=
  fun s t hst => h s t hst s t hst

/-- A first step that only the left computation makes. -/
theorem thenLeft {z : Call τ β} (h : ∀ s t, R s t → ∃ a u, x.run s = (.ok a, u) ∧ R u t ∧
    Agree R (f a) z) : Agree R (x >>= f) z := by
  intro s t hst
  obtain ⟨a, u, hx, hut, hnext⟩ := h s t hst
  rw [run_bind, hx]
  exact hnext u t hut

/-- A first step that only the right computation makes. -/
theorem thenRight {z : Call σ β} (h : ∀ s t, R s t → ∃ a v, y.run t = (.ok a, v) ∧ R s v ∧
    Agree R z (g a)) : Agree R z (y >>= g) := by
  intro s t hst
  obtain ⟨a, v, hy, hsv, hnext⟩ := h s t hst
  rw [run_bind, hy]
  exact hnext s v hsv

theorem ok (h : Agree R x y) {s u : σ} {t : τ} {a : α} (hst : R s t) (hx : x.run s = (.ok a, u)) :
    ∃ v, y.run t = (.ok a, v) ∧ R u v := by
  have hboth := h s t hst
  rw [hx] at hboth
  rcases hy : y.run t with ⟨other | b, v⟩ <;> rw [hy] at hboth
  · exact hboth.elim
  · obtain ⟨rfl, huv⟩ := hboth
    exact ⟨v, rfl, huv⟩

end Agree

end Agree

end Mailroom.Call
