import Mailroom.Proofs.Session.Traffic

/-! Freshness of labels. What is kept for a node came of a request that was made at the count of
refreshes it is kept under, however late the reply arrived. So a call that begins after a refresh is
never served with a label that was asked for before it. Where calls do not overlap and nothing is
forgotten, a label that came is kept until the next refresh, and there is no second request. -/

namespace Mailroom.Label.Directory

variable {d : Directory} {r : NodeRef}

theorem living_of_standing {standing : Standing} (h : d.standing r = .ok standing) :
    (d.node r).evicted = false := by
  by_contra hevicted
  rw [Bool.not_eq_false] at hevicted
  simp [Directory.standing, hevicted] at h

theorem not_cached_of_standing {g : Nat} (h : d.standing r = .ok (.missing g)) (e : EntityRef) :
    (d.node r).cached ≠ some (e, d.generation) := by
  intro hcached
  simp [Directory.standing, living_of_standing h, hcached] at h

end Mailroom.Label.Directory

namespace Mailroom.Session

open Label (Directory Entity EntityRef Node NodeRef)
open Remote (LabelRecord)
open Log

/-! ### What traffic keeps -/

/-- A call that waits: its node exists, its request is in the log and not answered, and the label
will be kept under the count of refreshes at the time of the request. -/
structure Waits (d : Directory) (log : Log) (w : Waiting) : Prop where
  has : d.Has w.node
  requested : log[w.call]? = some (.requested w.node)
  generation : w.generation = generation (log.take w.call)
  unanswered : ¬log.Answered w.call

theorem Waits.concat {d e : Directory} {log : Log} {w : Waiting} {x : Event} (h : Waits d log w)
    (hd : d.Has w.node → e.Has w.node) (hx : x.answered? ≠ some w.call) :
    Waits e (log ++ [x]) w := by
  refine ⟨hd h.has, getElem?_concat h.requested, ?_, fun hanswered => ?_⟩
  · rw [take_concat h.requested]
    exact h.generation
  · exact (answered_concat.mp hanswered).elim h.unanswered hx

/-- Traffic whose log fits together, and whose directory is as the log says: what is kept for a node
was brought by a request of the count of refreshes it is kept under. -/
structure Traffic.Sound (t : Traffic) : Prop where
  based : Directory.Based .initial t.directory
  fits : Along Event.Fits t.log
  generation : t.directory.generation = t.log.generation
  waiting : ∀ w ∈ t.waiting, Waits t.directory t.log w
  loaded : ∀ k e, .loaded k e ∈ t.log → e.index < t.entities.size
  kept : ∀ r e g, (t.directory.node r).cached = some (e, g) →
    ∃ k, t.log.Brought k r e ∧ Log.generation (t.log.take k) = g
  evicted : ∀ r, (t.directory.node r).evicted = true ↔ t.log.Gone r

namespace Traffic

variable {t u : Traffic} {r : NodeRef} {w : Waiting}

theorem Sound.start : Sound {} where
  based := Directory.fresh_initial.based
  fits := by rintro j x ⟨⟩
  generation := rfl
  waiting := by rintro w ⟨⟩
  loaded := by rintro k e ⟨⟩
  kept r e g h := by
    obtain ⟨x, hx, -⟩ := (Label.Node.Coherent.initial #[] r).cached e g h
    cases hx
  evicted r := by simp [Directory.fresh_initial.living r, Gone]

namespace Sound

variable (h : t.Sound)
include h

/-- Traffic stays sound when an event is noted that says what became of the directory. -/
theorem noted {d : Directory} {entities : Array Entity} {waiting : List Waiting} {x : Event}
    (hd : Directory.Based .initial d) (hx : x.Fits t.log)
    (hgeneration : d.generation = Log.generation (t.log ++ [x]))
    (hwaiting : ∀ w ∈ waiting, Waits d (t.log ++ [x]) w)
    (hsize : t.entities.size ≤ entities.size)
    (hloaded : ∀ k e, x = .loaded k e → e.index < entities.size)
    (hkept : ∀ r e g, (d.node r).cached = some (e, g) →
      (t.directory.node r).cached = some (e, g) ∨
        ∃ k, Brought (t.log ++ [x]) k r e ∧ Log.generation ((t.log ++ [x]).take k) = g)
    (hevicted : ∀ r, (d.node r).evicted = true ↔
      (t.directory.node r).evicted = true ∨ x.Evicts r) :
    Sound ⟨d, entities, waiting, t.log ++ [x]⟩ := by
  refine ⟨hd, along_concat.mpr ⟨h.fits, hx⟩, hgeneration, hwaiting, fun k e hmem => ?_,
    fun r e g hcached => ?_, fun r => ?_⟩
  · rcases List.mem_append.mp hmem with hold | hnew
    · exact Nat.lt_of_lt_of_le (h.loaded k e hold) hsize
    · exact hloaded k e (List.mem_singleton.mp hnew).symm
  · rcases hkept r e g hcached with hold | hnew
    · obtain ⟨k, hbrought, hg⟩ := h.kept r e g hold
      exact ⟨k, hbrought.concat, by rw [take_concat hbrought.1, hg]⟩
    · exact hnew
  · rw [hevicted, h.evicted, gone_concat]

/-- An event that leaves the directory and the loaded labels alone. -/
theorem noted_quiet {waiting : List Waiting} {x : Event} (hx : x.Fits t.log)
    (hloaded : ∀ k e, x ≠ .loaded k e) (hrefreshed : x.isRefreshed = false)
    (hevicts : ∀ r, ¬x.Evicts r)
    (hwaiting : ∀ w ∈ waiting, Waits t.directory (t.log ++ [x]) w) :
    Sound ⟨t.directory, t.entities, waiting, t.log ++ [x]⟩ := by
  refine h.noted h.based hx ?_ hwaiting (Nat.le_refl _) (fun k e hx => absurd hx (hloaded k e))
    (fun _ _ _ => Or.inl) fun r => ?_
  · rw [generation_concat, hrefreshed, h.generation]
    rfl
  · simp [hevicts r]

theorem begin (hr : t.directory.Has r) : (t.begin r).Sound := by
  have hwaiting : ∀ {x : Event}, x.answered? = none → ∀ w ∈ t.waiting,
      Waits t.directory (t.log ++ [x]) w := fun hx w hw =>
    (h.waiting w hw).concat id (by simp [hx])
  have hliving : ∀ {standing}, t.directory.standing r = .ok standing → ¬t.log.Gone r :=
    fun hstanding hgone => by
      have hevicted := (h.evicted r).mpr hgone
      cases hevicted.symm.trans (Directory.living_of_standing hstanding)
  rcases hstanding : t.directory.standing r with failure | (e | g)
  · obtain ⟨hevicted, rfl⟩ := Directory.evicted_of_standing hstanding
    rw [begin_of_error hstanding]
    exact h.noted_quiet ⟨(h.evicted r).mp hevicted, _, rfl⟩ (by simp) rfl (fun _ => id)
      (hwaiting rfl)
  · obtain ⟨k, hbrought, hg⟩ := h.kept r e _ (Directory.cached_of_standing hstanding)
    rw [begin_of_loaded hstanding]
    exact h.noted_quiet ⟨hliving hstanding, k, hbrought, hg.trans h.generation⟩ (by simp) rfl
      (fun _ => id) (hwaiting rfl)
  · obtain rfl := Directory.generation_of_standing hstanding
    rw [begin_of_missing hstanding]
    refine h.noted_quiet (hliving hstanding) (by simp) rfl (fun _ => id) fun w hw => ?_
    rcases List.mem_append.mp hw with hold | hnew
    · exact hwaiting rfl w hold
    · obtain rfl := List.mem_singleton.mp hnew
      refine ⟨hr, by simp, by simp [h.generation], fun hanswered => ?_⟩
      -- A reply so far is to an earlier request.
      obtain ⟨x, hx, hxk⟩ :=
        (answered_concat.mp hanswered).resolve_right (by simp [Event.answered?])
      obtain ⟨l, hl⟩ := List.mem_iff_getElem?.mp hx
      obtain ⟨⟨q, hq⟩, -⟩ := fits_of_answered h.fits hl hxk
      exact Nat.lt_irrefl _ (List.getElem?_eq_some_iff.mp (getElem?_of_take hq).2).1

theorem others_wait (w : Waiting) {d : Directory} {x : Event}
    (hd : ∀ r, t.directory.Has r → d.Has r) (hx : x.answered? = some w.call) :
    ∀ v ∈ t.others w, Waits d (t.log ++ [x]) v := by
  intro v hv
  obtain ⟨hmem, hne⟩ := List.mem_filter.mp hv
  refine (h.waiting v hmem).concat (hd _) fun hsame => ?_
  rw [hx] at hsame
  exact of_decide_eq_true hne (Option.some.inj hsame).symm

theorem finish (hw : w ∈ t.waiting) (reply : Except Failure LabelRecord) :
    (t.finish w reply).Sound := by
  have hwaits := h.waiting w hw
  cases reply with
  | error failure =>
    exact h.noted_quiet (x := .failed w.call failure)
      ⟨⟨_, hwaits.requested⟩, hwaits.unanswered⟩ (by simp) rfl (fun _ => id)
      (h.others_wait w (fun _ => id) rfl)
  | ok record =>
    have hnew : ∀ k, Event.loaded k ⟨t.entities.size⟩ ∉ t.log := fun k hmem =>
      Nat.lt_irrefl _ (h.loaded k _ hmem)
    let keep : Node → Node := fun n => { n with cached := some (⟨t.entities.size⟩, w.generation) }
    refine h.noted (x := .loaded w.call ⟨t.entities.size⟩)
      (h.based.modifyNode keep (fun _ => rfl) (fun _ => rfl) _)
      ⟨⟨_, hwaits.requested⟩, hwaits.unanswered, hnew⟩ ?_
      (h.others_wait w (fun _ => (Directory.has_modifyNode _).mpr) rfl) (by simp)
      (fun k e hx => by cases hx; simp) (fun r e g hcached => ?_) fun r => ?_
    · rw [generation_concat]
      exact h.generation
    · obtain hnode | ⟨rfl, hnode⟩ :=
        Directory.node_keep (d := t.directory) w.node ⟨t.entities.size⟩ w.generation r <;>
        rw [hnode] at hcached
      · exact Or.inl hcached
      · cases hcached
        refine Or.inr ⟨w.call, ⟨getElem?_concat hwaits.requested, List.mem_concat_self⟩, ?_⟩
        rw [take_concat hwaits.requested, hwaits.generation]
    · rw [Directory.keep, Directory.field_modifyNode (f := keep) Node.evicted fun _ => rfl]
      simp [Event.Evicts]

theorem refresh (records : List LabelRecord) : (t.refresh records).Sound := by
  have hkeyed := h.based.keyed
  have hbased := (h.based.rebuild Directory.plain_initial
    (Directory.free_userLabels records)).1
  refine h.noted (x := .refreshed (refreshed t.directory records).1)
    (hbased.transfer rfl rfl fun _ hr => ⟨hr, rfl⟩) trivial ?_ (fun w hw => ?_) (Nat.le_refl _)
    (by simp) (fun r e g hcached => Or.inl (Directory.cached_rebuild hkeyed hcached))
    fun r => Directory.evicted_rebuild hkeyed _ r
  · rw [generation_concat]
    exact congrArg (· + 1) h.generation
  · exact (h.waiting w hw).concat (fun hr => (Directory.rebuild_keeps hkeyed _ hr).1)
      (by simp [Event.answered?])

/-- A node changes by itself, and no label is kept anew. -/
theorem noted_modified (f : Node → Node) (hid : ∀ n, (f n).id = n.id)
    (hname : ∀ n, (f n).name = n.name)
    (hcached : ∀ n e g, (f n).cached = some (e, g) → n.cached = some (e, g)) (r : NodeRef)
    {x : Event} (hx : x.Fits t.log) (hrefreshed : x.isRefreshed = false)
    (hanswered : x.answered? = none)
    (hevicted : ∀ q, ((t.directory.modifyNode r f).node q).evicted = true ↔
      (t.directory.node q).evicted = true ∨ x.Evicts q) :
    Sound ⟨t.directory.modifyNode r f, t.entities, t.waiting, t.log ++ [x]⟩ := by
  refine h.noted (h.based.modifyNode f hid hname r) hx ?_ (fun w hw => ?_) (Nat.le_refl _) ?_
    (fun q e g => ?_) hevicted
  · rw [generation_concat, hrefreshed]
    exact h.generation
  · exact (h.waiting w hw).concat (Directory.has_modifyNode _).mpr (by simp [hanswered])
  · rintro k e rfl
    cases hanswered
  · exact Directory.holds_modifyNode (f := f) (P := fun n => n.cached = some (e, g) → _)
      (fun n hn hkept => hn (hcached n e g hkept)) r Or.inl

theorem invalidate (r : NodeRef) : (t.invalidate r).Sound := by
  let forget : Node → Node := fun n => { n with cached := none }
  refine h.noted_modified forget (fun _ => rfl) (fun _ => rfl) (fun _ _ _ => by rintro ⟨⟩) r
    (x := .invalidated r) trivial rfl rfl fun q => ?_
  rw [Directory.field_modifyNode (f := forget) Node.evicted fun _ => rfl]
  simp [Event.Evicts]

theorem evict (hr : t.directory.Has r) : (t.evict r).Sound := by
  refine h.noted_modified Directory.evictNode (fun _ => rfl) (fun _ => rfl)
    (fun _ _ _ => by rintro ⟨⟩) r (x := .evicted r) trivial rfl rfl fun q => ?_
  by_cases hq : q = r
  · subst hq
    rw [Directory.node_modifyNode_self _ hr]
    simp [Event.Evicts, Directory.evictNode]
  · rw [Directory.node_modifyNode_of_ne _ hq]
    simp [Event.Evicts, Ne.symm hq]

theorem step (hstep : Step t u) : u.Sound := by
  cases hstep with
  | begin r hr => exact h.begin hr
  | finish w reply hw => exact h.finish hw reply
  | refresh records => exact h.refresh records
  | invalidate r => exact h.invalidate r
  | evict r hr => exact h.evict hr

end Sound

theorem Reached.sound (h : t.Reached) : t.Sound := by
  induction h with
  | refl => exact .start
  | tail _ hstep ih => exact ih.step hstep

end Traffic

/-! ### Calls that do not overlap -/

/-- A call for a label that came since the last refresh does not ask for it again. -/
def Event.Repeats (past : Log) (x : Event) : Prop :=
  ∀ r k e, x.begun? = some r → past.Brought k r e →
    Log.generation (past.take k) = past.generation →
    x = .served r e ∨ ∃ failure, x = .refused r failure

namespace Log

variable {log : Log} {j k l : Nat} {r : NodeRef} {e : EntityRef} {x : Event}
  (hfits : Along Event.Fits log)
include hfits

/-- After a refresh, a call ends with a label that was asked for since. -/
theorem exists_later_request {i : Nat} {gone : List NodeRef}
    (hi : log[i]? = some (.refreshed gone)) (hij : i < j) (h : Returns log j r e) :
    ∃ k, i < k ∧ k ≤ j ∧ Brought log k r e := by
  rcases h with hserved | hbrought
  · obtain ⟨-, k, hbrought, hgeneration⟩ := hfits j _ hserved
    obtain ⟨hkj, hbrought⟩ := hbrought.of_take
    rw [List.take_take, Nat.min_eq_left (Nat.le_of_lt hkj)] at hgeneration
    refine ⟨k, Nat.not_le.mp fun hki => ?_, Nat.le_of_lt hkj, hbrought⟩
    have hle := generation_take_le log hki
    exact absurd (generation_take_lt hi hij) (Nat.not_lt.mpr (hgeneration ▸ hle))
  · exact ⟨j, hij, Nat.le_refl j, hbrought⟩

/-- A call after a label came, at the same count of refreshes, finds the label. -/
theorem repeats_of_loaded (hrepeats : Along Event.Repeats log)
    (hk : log[k]? = some (.requested r)) (hl : log[l]? = some (.loaded k e)) (hlj : l < j)
    (hj : log[j]? = some x) (hx : x.begun? = some r)
    (hsame : generation (log.take j) = generation (log.take k)) :
    x = .served r e ∨ ∃ failure, x = .refused r failure := by
  obtain ⟨⟨q, hq⟩, -⟩ := fits_of_answered hfits hl rfl
  have hkj := Nat.lt_trans (getElem?_of_take hq).1 hlj
  refine hrepeats j x hj r k e hx ⟨?_, mem_take_iff.mpr ⟨l, hlj, hl⟩⟩ ?_
  · rw [List.getElem?_take, if_pos hkj, hk]
  · rw [List.take_take, Nat.min_eq_left (Nat.le_of_lt hkj), hsame]

/-- A node that was in use and is refused at the same count of refreshes was evicted by itself. -/
theorem exists_evicted {failure : Failure} (hk : log[k]? = some (.requested r))
    (hj : log[j]? = some (.refused r failure))
    (hsame : generation (log.take j) = generation (log.take k)) :
    ∃ i, k < i ∧ i < j ∧ log[i]? = some (.evicted r) := by
  obtain ⟨⟨y, hy, hevicts⟩, -⟩ := hfits j _ hj
  obtain ⟨i, hij, hi⟩ := mem_take_iff.mp hy
  have hki : k < i := by
    rcases Nat.lt_trichotomy k i with hlt | rfl | hlt
    · exact hlt
    · cases hi.symm.trans hk
      exact hevicts.elim
    · exact absurd ⟨y, mem_take_iff.mpr ⟨i, hlt, hi⟩, hevicts⟩ (hfits k _ hk)
  refine ⟨i, hki, hij, hi.trans ?_⟩
  cases y with
  | refreshed gone =>
    have hle := generation_take_le log (Nat.le_of_lt hki)
    exact absurd (generation_take_lt hi hij) (Nat.not_lt.mpr (hsame ▸ hle))
  | evicted q => rw [show q = r from hevicts]
  | refused | served | requested | loaded | failed | invalidated => exact hevicts.elim

/-- Where calls do not overlap, what a request brought is not asked for again before the next
refresh. -/
theorem generation_ne_of_requested (hserial : Serial log) (hrepeats : Along Event.Repeats log)
    (hb : Brought log k r e) (hj : log[j]? = some (.requested r)) (hkj : k < j) :
    generation (log.take j) ≠ generation (log.take k) := by
  intro hsame
  have hk : (log.take j)[k]? = some (.requested r) := by
    rw [List.getElem?_take, if_pos hkj, hb.1]
  obtain ⟨y, hy, hyk⟩ := hserial j _ hj (by simp [Event.begun?]) k r hk
  obtain rfl := answer_eq hfits (mem_of_take hy) hb.2 hyk rfl
  obtain ⟨l, hlj, hl⟩ := mem_take_iff.mp hy
  rcases repeats_of_loaded hfits hrepeats hb.1 hl hlj hj rfl hsame with hx | ⟨_, hx⟩ <;> cases hx

end Log

namespace Traffic

variable {t u : Traffic}

/-- A label that came since the last refresh is kept as long as its node is in use. -/
def Keeps (t : Traffic) : Prop :=
  ∀ k r e, t.log.Brought k r e → Log.generation (t.log.take k) = t.log.generation →
    (t.directory.node r).evicted = true ∨
      (t.directory.node r).cached = some (e, t.directory.generation)

theorem Step.exists_event (h : Step t u) : ∃ x, u.log = t.log ++ [x] := by
  cases h with
  | begin r =>
    rcases hstanding : t.directory.standing r with failure | (e | g)
    · exact ⟨_, congrArg Traffic.log (begin_of_error hstanding)⟩
    · exact ⟨_, congrArg Traffic.log (begin_of_loaded hstanding)⟩
    · exact ⟨_, congrArg Traffic.log (begin_of_missing hstanding)⟩
  | finish w reply => cases reply <;> exact ⟨_, rfl⟩
  | refresh | invalidate | evict => exact ⟨_, rfl⟩

section Keeping

variable (h : t.Sound) (hkeeps : t.Keeps)
include h hkeeps

/-- An event between refreshes that brings no label, when nothing is forgotten in use. -/
theorem Keeps.noted {d : Directory} {entities : Array Entity} {waiting : List Waiting} {x : Event}
    (hx : ∀ k e, x ≠ .loaded k e) (hrefreshed : x.isRefreshed = false)
    (hgeneration : d.generation = t.directory.generation)
    (hnode : ∀ r, (d.node r).evicted = true ∨ d.node r = t.directory.node r) :
    Keeps ⟨d, entities, waiting, t.log ++ [x]⟩ := by
  intro k r e hb hg
  have hb := hb.of_concat h.fits (hx k e)
  change Log.generation ((t.log ++ [x]).take k) = Log.generation (t.log ++ [x]) at hg
  rw [take_concat hb.1, generation_concat, hrefreshed] at hg
  rcases hnode r with hevicted | hsame
  · exact Or.inl hevicted
  · change (d.node r).evicted = true ∨ (d.node r).cached = some (e, d.generation)
    rw [hsame, hgeneration]
    exact hkeeps k r e hb hg

theorem Keeps.begin (hrepeats : Along Event.Repeats t.log) (r : NodeRef) :
    (t.begin r).Keeps ∧ Along Event.Repeats (t.begin r).log := by
  have hquiet : ∀ {waiting x}, (∀ k e, x ≠ .loaded k e) → x.isRefreshed = false →
      Keeps ⟨t.directory, t.entities, waiting, t.log ++ [x]⟩ := fun hx hrefreshed =>
    hkeeps.noted h hx hrefreshed rfl fun _ => Or.inr rfl
  rcases hstanding : t.directory.standing r with failure | (other | g)
  · rw [begin_of_error hstanding]
    refine ⟨hquiet (by simp) rfl, along_concat.mpr ⟨hrepeats, fun q k e hq _ _ => ?_⟩⟩
    cases hq
    exact Or.inr ⟨failure, rfl⟩
  · rw [begin_of_loaded hstanding]
    refine ⟨hquiet (by simp) rfl, along_concat.mpr ⟨hrepeats, fun q k e hq hb hg => ?_⟩⟩
    cases hq
    rcases hkeeps k r e hb hg with hevicted | hcached
    · cases hevicted.symm.trans (Directory.living_of_standing hstanding)
    · cases hcached.symm.trans (Directory.cached_of_standing hstanding)
      exact Or.inl rfl
  · rw [begin_of_missing hstanding]
    refine ⟨hquiet (by simp) rfl, along_concat.mpr ⟨hrepeats, fun q k e hq hb hg => ?_⟩⟩
    cases hq
    rcases hkeeps k r e hb hg with hevicted | hcached
    · cases hevicted.symm.trans (Directory.living_of_standing hstanding)
    · exact absurd hcached (Directory.not_cached_of_standing hstanding e)

variable (hserial : Serial t.log) (hrepeats : Along Event.Repeats t.log)
include hserial hrepeats

omit hkeeps in
/-- A call does not wait for a label that came since the last refresh. -/
theorem Sound.not_brought {w : Waiting} (hw : w ∈ t.waiting) {k : Nat} {e : EntityRef}
    (hb : t.log.Brought k w.node e) :
    Log.generation (t.log.take k) ≠ t.log.generation := by
  intro hg
  have hwaits := h.waiting w hw
  rcases Nat.lt_trichotomy k w.call with hlt | rfl | hlt
  · have hle := generation_take_le t.log (Nat.le_of_lt hlt)
    have hge := generation_take_le_self t.log w.call
    exact generation_ne_of_requested h.fits hserial hrepeats hb hwaits.requested hlt (by omega)
  · exact hwaits.unanswered ⟨_, hb.2, rfl⟩
  · refine hwaits.unanswered (Answered.of_take (j := k) ?_)
    refine hserial k _ hb.1 (by simp [Event.begun?]) w.call w.node ?_
    rw [List.getElem?_take, if_pos hlt, hwaits.requested]

theorem Keeps.finish {w : Waiting} (hw : w ∈ t.waiting) (reply : Except Failure LabelRecord) :
    (t.finish w reply).Keeps := by
  have hwaits := h.waiting w hw
  cases reply with
  | error failure =>
    exact hkeeps.noted h (x := .failed w.call failure) (by simp) rfl rfl fun _ => Or.inr rfl
  | ok record =>
    intro k r e hb hg
    let keep : Node → Node := fun n => { n with cached := some (⟨t.entities.size⟩, w.generation) }
    change ((t.directory.modifyNode w.node keep).node r).evicted = true ∨
      ((t.directory.modifyNode w.node keep).node r).cached = some (e, t.directory.generation)
    change Log.generation ((t.log ++ [_]).take k) = Log.generation (t.log ++ [_]) at hg
    by_cases hx : Event.loaded w.call ⟨t.entities.size⟩ = .loaded k e
    · cases hx
      rw [take_concat hwaits.requested, ← hwaits.generation, generation_concat] at hg
      cases (getElem?_concat hwaits.requested).symm.trans hb.1
      rw [Directory.node_modifyNode_self _ hwaits.has, h.generation]
      exact Or.inr (congrArg (fun g => some (_, g)) hg)
    · have hb := hb.of_concat h.fits hx
      rw [take_concat hb.1, generation_concat] at hg
      have hne : r ≠ w.node := by
        rintro rfl
        exact h.not_brought hserial hrepeats hw hb hg
      rw [Directory.node_modifyNode_of_ne _ hne]
      exact hkeeps k r e hb hg

end Keeping

/-- Where calls do not overlap and nothing is forgotten, labels are kept and not asked for again. -/
theorem Reached.keeps (h : t.Reached) (hserial : Serial t.log)
    (hkept : ∀ r, .invalidated r ∉ t.log) : t.Keeps ∧ Along Event.Repeats t.log := by
  induction h with
  | refl => exact ⟨fun _ _ _ hb => (nomatch hb.1), fun _ _ hx => (nomatch hx)⟩
  | @tail t u ht hstep ih =>
    have hsound : t.Sound := Reached.sound ht
    obtain ⟨x, hx⟩ := hstep.exists_event
    rw [hx] at hserial hkept
    obtain ⟨hserial, -⟩ := along_concat.mp hserial
    obtain ⟨hkeeps, hrepeats⟩ := ih hserial fun r hr => hkept r (List.mem_append_left _ hr)
    have hnone : ∀ {x : Event}, x.begun? = none → x.Repeats t.log := fun hx r k e hr => by
      cases hx.symm.trans hr
    cases hstep with
    | begin r hr => exact hkeeps.begin hsound hrepeats r
    | finish w reply hw =>
      refine ⟨hkeeps.finish hsound hserial hrepeats hw reply, ?_⟩
      cases reply <;> exact along_concat.mpr ⟨hrepeats, hnone rfl⟩
    | refresh records =>
      refine ⟨fun k r e hb hg => ?_, along_concat.mpr ⟨hrepeats, hnone rfl⟩⟩
      -- Nothing came yet at the new count of refreshes.
      have hb := hb.of_concat hsound.fits (by simp)
      change Log.generation ((t.log ++ [_]).take k) = Log.generation (t.log ++ [_]) at hg
      rw [take_concat hb.1, generation_concat] at hg
      have hle := generation_take_le_self t.log k
      exact absurd (hg ▸ hle) (Nat.not_succ_le_self _)
    | invalidate r =>
      rw [← List.append_cancel_left hx] at hkept
      exact absurd List.mem_concat_self (hkept r)
    | evict r hr =>
      refine ⟨hkeeps.noted hsound (by simp) rfl rfl fun q => ?_,
        along_concat.mpr ⟨hrepeats, hnone rfl⟩⟩
      by_cases hq : q = r
      · subst hq
        rw [Directory.node_modifyNode_self _ hr]
        exact Or.inl rfl
      · exact Or.inr (Directory.node_modifyNode_of_ne _ hq)

/-- A call that begins when the one before it is answered does not overlap it. -/
theorem serial_of_answered (r : NodeRef) (e : EntityRef) :
    Serial [.requested r, .loaded 0 e, .served r e] := by
  intro j x hj hbegun k q hk
  obtain ⟨hkj, hk⟩ := getElem?_of_take hk
  match j, hj with
  | 1, hj =>
    cases hj
    exact absurd rfl hbegun
  | 2, _ =>
    match k, hk with
    | 0, _ => exact ⟨.loaded 0 e, by simp, rfl⟩
    | k + 2, _ => omega

/-- Labels are never served stale, whatever comes between the steps of the calls for them. A call
that begins after a refresh ends with a label only if the label was asked for after that refresh,
and a label was asked for once. A call for a node that was evicted at any time is refused without a
request. What is kept for a node was brought by a request for it, at the count of refreshes it is
kept under, and never by one that failed. Where calls do not overlap and nothing is forgotten, at
most one request between two refreshes brings a label of a node, and the calls after it, until the
next refresh, are served with that label, unless the node was evicted by itself. -/
theorem entity_never_stale (h : t.Reached) :
    (∀ i j r e gone, t.log[i]? = some (.refreshed gone) → i < j → t.log.Returns j r e →
      ∃ k, i < k ∧ k ≤ j ∧ t.log.Brought k r e) ∧
    (∀ k k' r r' e, t.log.Brought k r e → t.log.Brought k' r' e → k = k' ∧ r = r') ∧
    (∀ r, t.log.Gone r → t.begin r = { t with log := t.log ++ [.refused r (.notFound
      ("label \"" ++ (t.directory.node r).name ++ "\" (" ++ (t.directory.node r).id ++ ")"))] }) ∧
    (∀ r e g, (t.directory.node r).cached = some (e, g) →
      ∃ k, t.log.Brought k r e ∧ Log.generation (t.log.take k) = g) ∧
    (∀ k failure r e, .failed k failure ∈ t.log → ¬t.log.Brought k r e) ∧
    (Serial t.log → (∀ r, .invalidated r ∉ t.log) →
      (∀ k k' r e e', t.log.Brought k r e → t.log.Brought k' r e' →
        Log.generation (t.log.take k) = Log.generation (t.log.take k') → k = k') ∧
      ∀ k l j r e x, t.log[k]? = some (.requested r) → t.log[l]? = some (.loaded k e) → l < j →
        t.log[j]? = some x → x.begun? = some r →
        Log.generation (t.log.take j) = Log.generation (t.log.take k) →
        x = .served r e ∨ ∃ i, k < i ∧ i < j ∧ t.log[i]? = some (.evicted r)) := by
  have hsound := h.sound
  have hfits := hsound.fits
  refine ⟨fun i j r e gone hi hij hreturns => exists_later_request hfits hi hij hreturns,
    fun k k' r r' e hb hb' => ?_, fun r hgone => ?_, hsound.kept,
    fun k failure r e hfailed hb => ?_, fun hserial hkept => ?_⟩
  · obtain rfl := loaded_once hfits hb.2 hb'.2
    cases hb.1.symm.trans hb'.1
    exact ⟨rfl, rfl⟩
  · have hevicted := (hsound.evicted r).mpr hgone
    exact begin_of_error (by simp only [Directory.standing, hevicted, if_true])
  · cases answer_eq hfits hfailed hb.2 rfl rfl
  · obtain ⟨-, hrepeats⟩ := h.keeps hserial hkept
    constructor
    · intro k k' r e e' hb hb' hsame
      rcases Nat.lt_trichotomy k k' with hlt | heq | hlt
      · exact absurd hsame.symm
          (generation_ne_of_requested hfits hserial hrepeats hb hb'.1 hlt)
      · exact heq
      · exact absurd hsame (generation_ne_of_requested hfits hserial hrepeats hb' hb.1 hlt)
    · intro k l j r e x hk hl hlj hj hx hsame
      rcases repeats_of_loaded hfits hrepeats hk hl hlj hj hx hsame with hserved | ⟨failure, rfl⟩
      · exact Or.inl hserved
      · exact Or.inr (exists_evicted hfits hk hj hsame)

/-- A reply that comes late takes the place of a newer label in what is kept. The next call asks
again instead of being served with it. Without overlaps, the second call is served. -/
theorem entity_never_stale_late :
    let r := Directory.system .inbox
    let record : LabelRecord := { id := "INBOX", name := "INBOX", origin := .system }
    let start := (({} : Traffic).begin r).refresh []
    let late := ((start.begin r).finish ⟨2, r, 1⟩ (.ok record)).finish ⟨0, r, 0⟩ (.ok record)
    let t := ((late.begin r).finish ⟨5, r, 1⟩ (.ok record)).begin r
    let u := ((({} : Traffic).begin r).finish ⟨0, r, 0⟩ (.ok record)).begin r
    t.log = [.requested r, .refreshed [], .requested r, .loaded 2 ⟨0⟩, .loaded 0 ⟨1⟩, .requested r,
      .loaded 5 ⟨2⟩, .served r ⟨2⟩] ∧ (late.directory.node r).cached = some (⟨1⟩, 0) ∧
      (∃ k, 1 < k ∧ k ≤ 7 ∧ t.log.Brought k r ⟨2⟩) ∧
      Serial u.log ∧ u.log[2]? = some (.served r ⟨0⟩) := by
  intro r record start
  have hstart : start = ⟨{ Directory.initial with generation := 1 }, #[], [⟨0, r, 0⟩],
      [.requested r, .refreshed []]⟩ := by
    have hlisted : refreshed .initial [] = ([], { Directory.initial with generation := 1 }) := by
      simp only [Session.refreshed, userLabels, Directory.rebuild, Directory.rebuildInto,
        List.filter_nil, List.map_nil, Label.Rebuild.rebuildLevel, List.mergeSort_nil,
        List.foldl_nil]
      decide +kernel
    change Traffic.refresh ⟨.initial, #[], [⟨0, r, 0⟩], [.requested r]⟩ [] = _
    rw [Traffic.refresh, hlisted]
    rfl
  have hfirst : Reached (({} : Traffic).begin r) := .single (.begin r (by decide +kernel))
  have hreached : start.Reached := hfirst.tail (.refresh [])
  clear_value start
  subst hstart
  intro late t u
  have hlate : late.Reached := ((hreached.tail (.begin r (by decide +kernel))).tail
    (.finish ⟨2, r, 1⟩ (.ok record) (by decide +kernel))).tail
    (.finish ⟨0, r, 0⟩ (.ok record) (by decide +kernel))
  have ht : t.Reached := ((hlate.tail (.begin r (by decide +kernel))).tail
    (.finish ⟨5, r, 1⟩ (.ok record) (by decide +kernel))).tail (.begin r (by decide +kernel))
  have hu : u.Reached := (hfirst.tail (.finish ⟨0, r, 0⟩ (.ok record) (by decide +kernel))).tail
    (.begin r (by decide +kernel))
  have htlog : t.log = [.requested r, .refreshed [], .requested r, .loaded 2 ⟨0⟩, .loaded 0 ⟨1⟩,
      .requested r, .loaded 5 ⟨2⟩, .served r ⟨2⟩] := by
    subst t late record r
    rfl
  have hulog : u.log = [.requested r, .loaded 0 ⟨0⟩, .served r ⟨0⟩] := by
    subst u record r
    rfl
  have hserial : Serial u.log := hulog ▸ serial_of_answered r ⟨0⟩
  obtain ⟨hfresh, -⟩ := entity_never_stale ht
  obtain ⟨-, -, -, -, -, hserved⟩ := entity_never_stale hu
  rw [htlog] at hfresh
  rw [hulog] at hserved hserial
  refine ⟨htlog, by decide +kernel, htlog ▸ hfresh 1 7 r ⟨2⟩ [] rfl (by decide) (Or.inl rfl),
    hulog ▸ hserial, ?_⟩
  have hsecond := (hserved hserial (by simp)).2 0 1 2 r ⟨0⟩ _ rfl rfl (by decide) rfl rfl rfl
  rw [hulog]
  refine congrArg some (hsecond.resolve_right ?_)
  rintro ⟨i, hi, hi', hevicted⟩
  obtain rfl : i = 1 := by omega
  cases hevicted

end Traffic

end Mailroom.Session
