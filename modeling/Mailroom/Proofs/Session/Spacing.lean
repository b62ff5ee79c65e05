import Mathlib.Algebra.Order.Ring.Rat
import Mathlib.Tactic.Linarith
import Mailroom.Proofs.Data.Runs
import Mailroom.Proofs.Session.Operation
import Mailroom.Proofs.Session.Refresh

/-! Batches of messages start a least time apart. A batch reads the clock before it asks for its
messages and again when they are built, and sleeps for what the least time lacks; so when it is over
the least time since its first reading is, and whatever comes next reads the clock later. Between
the readings and between queries any time may pass. -/

namespace Mailroom.Session

open Label (NodeRef)
open Remote (Bench MailService Store)

/-! ### Watched worlds -/

/-- What a batch does with the outside world: it reads the clock, asks for messages in a world as it
then is, and sleeps. -/
inductive Sight (σ : Type)
  | reading (time : Rat)
  | fetch (ids : List String) (outside : σ)
  | sleep (delay : Rat)

/-- An outside world with what was seen of batches. -/
structure Watched (σ : Type) where
  outside : σ
  seen : List (Sight σ) := []

/-- The time that a clock shows, and the world after it was read. -/
def readClock {σ : Type} [Clock σ] (w : σ) : Rat × σ := (Clock.now : StateM σ Rat) w

/-- The world after a sleep. -/
def afterSleep {σ : Type} [Clock σ] (delay : Rat) (w : σ) : σ :=
  ((Clock.sleep delay : StateM σ Unit) w).2

namespace Watched

variable {σ α : Type}

def within (x : Call σ α) : Call (Watched σ) α := ExceptT.mk fun w =>
  let (a, outside) := x.run w.outside
  (a, { w with outside })

instance [MailService σ] : MailService (Watched σ) where
  profile := within MailService.profile
  listLabels := within MailService.listLabels
  getLabel id := within (MailService.getLabel id)
  createLabel body := within (MailService.createLabel body)
  updateLabel id body := within (MailService.updateLabel id body)
  deleteLabel id := within (MailService.deleteLabel id)
  listMessages q := within (MailService.listMessages q)
  getMessage id := within (MailService.getMessage id)
  getMessages ids := do
    modify fun w => { w with seen := w.seen ++ [.fetch ids w.outside] }
    within (MailService.getMessages ids)
  modifyMessage id change := within (MailService.modifyMessage id change)
  trashMessage id := within (MailService.trashMessage id)
  untrashMessage id := within (MailService.untrashMessage id)
  deleteMessage id := within (MailService.deleteMessage id)
  deleteMessages ids := within (MailService.deleteMessages ids)
  modifyMessages ids change := within (MailService.modifyMessages ids change)

instance [Clock σ] : Clock (Watched σ) where
  now w :=
    let (time, outside) := readClock w.outside
    (time, ⟨outside, w.seen ++ [.reading time]⟩)
  sleep delay w := ((), ⟨afterSleep delay w.outside, w.seen ++ [.sleep delay]⟩)

end Watched

/-- The world that a session works with. -/
abbrev world {σ : Type} (s : Session (Watched σ)) : σ := s.outside.outside

/-! ### Batches and time -/

section Batches

variable {σ : Type} [Clock σ]

/-- A batch: its ids, the world in which the clock is read at its start, and the time that the clock
shows when its messages are built. -/
structure Batch (σ : Type) where
  ids : List String
  before : σ
  ended : Rat

namespace Batch

/-- The time that the clock shows at the start. -/
def started (b : Batch σ) : Rat := (readClock b.before).1

/-- The world in which the messages are asked for. -/
def asked (b : Batch σ) : σ := (readClock b.before).2

/-- What is seen of a batch: a sleep only if the least time is not over. -/
def sights (b : Batch σ) (delay : Rat) : List (Sight σ) :=
  [.reading b.started, .fetch b.ids b.asked, .reading b.ended] ++
    if b.ended - b.started < delay then [.sleep (delay - (b.ended - b.started))] else []

end Batch

end Batches

section Spacing

variable {σ : Type} [MailService σ]

/-- The requests that queries make. -/
inductive Gathers : {α : Type} → Call σ α → Prop
  | listLabels : Gathers MailService.listLabels
  | getLabel (id : String) : Gathers (MailService.getLabel id)
  | listMessages (q : Remote.ListQuery) : Gathers (MailService.listMessages q)
  | getMessages (ids : List String) : Gathers (MailService.getMessages ids)

variable [Clock σ]

variable (σ) in
/-- How time goes in the worlds that can come up. A reading of the clock lies between the times
before and after it, a sleep lets at least its time pass, and nothing sets the time back. -/
structure Chronology where
  time : σ → Rat
  /-- The worlds that can come up. -/
  sound : σ → Prop
  read : ∀ {w}, sound w → sound (readClock w).2 ∧ time w ≤ (readClock w).1 ∧
    (readClock w).1 ≤ time (readClock w).2
  sleep : ∀ {w} {delay : Rat}, 0 < delay → sound w → sound (afterSleep delay w) ∧
    time w + delay ≤ time (afterSleep delay w)
  request : ∀ {α : Type} {x : Call σ α}, Gathers x → ∀ {w}, sound w →
    sound (x.run w).2 ∧ time w ≤ time (x.run w).2

variable (c : Chronology σ)

/-- A session that goes on to another, with what is seen on the way. -/
structure Goes (s : Session (Watched σ)) (sights : List (Sight σ)) (t : Session (Watched σ)) :
    Prop where
  settings : t.settings = s.settings
  sound : c.sound t.world
  time : c.time s.world ≤ c.time t.world
  seen : t.outside.seen = s.outside.seen ++ sights

/-- A session that goes on to another by batches, which are apart from each other and from whatever
comes before and after. -/
structure Spaced (s : Session (Watched σ)) (batches : List (Batch σ)) (t : Session (Watched σ)) :
    Prop extends Goes c s (batches.flatMap (·.sights s.settings.batchDelay)) t where
  pairwise : batches.Pairwise fun a b => a.started + s.settings.batchDelay ≤ b.started
  -- The next two put batches in a row: none starts before the session goes on, and the least time
  -- since every start is over in the end.
  since : ∀ b ∈ batches, c.time s.world ≤ b.started
  rested : ∀ b ∈ batches, b.started + s.settings.batchDelay ≤ c.time t.world
  during : ∀ b ∈ batches, c.sound b.before ∧ c.time b.asked ≤ b.ended

variable {c} {s t u : Session (Watched σ)} {batches more : List (Batch σ)}

theorem Goes.trans {sights others : List (Sight σ)} (h : Goes c s sights t)
    (hmore : Goes c t others u) : Goes c s (sights ++ others) u where
  settings := hmore.settings.trans h.settings
  sound := hmore.sound
  time := h.time.trans hmore.time
  seen := by rw [hmore.seen, h.seen, List.append_assoc]

namespace Spaced

/-- Time that passes without a batch. -/
theorem passing (h : Goes c s [] t) : Spaced c s [] t where
  toGoes := h
  pairwise := .nil
  since _ hb := nomatch hb
  rested _ hb := nomatch hb
  during _ hb := nomatch hb

/-- One batch, from the world in which it starts. -/
theorem single {b : Batch σ} (hbefore : b.before = s.world) (hs : c.sound s.world)
    (hgoes : Goes c s (b.sights s.settings.batchDelay) t)
    (hrested : b.started + s.settings.batchDelay ≤ c.time t.world)
    (hduring : c.time b.asked ≤ b.ended) : Spaced c s [b] t := by
  have hsince : c.time s.world ≤ b.started := by
    rw [Batch.started, hbefore]
    exact (c.read hs).2.1
  constructor
  · rwa [List.flatMap_singleton]
  · exact List.pairwise_singleton _ _
  · exact List.forall_mem_singleton.mpr hsince
  · exact List.forall_mem_singleton.mpr hrested
  · exact List.forall_mem_singleton.mpr ⟨hbefore ▸ hs, hduring⟩

/-- Batches after others start later than the least time after these. -/
theorem trans (h : Spaced c s batches t) (hmore : Spaced c t more u) :
    Spaced c s (batches ++ more) u := by
  obtain ⟨hgoes, hpairwise, hsince, hrested, hduring⟩ := hmore
  rw [h.settings] at hgoes hpairwise hrested
  constructor
  · rw [List.flatMap_append]
    exact h.toGoes.trans hgoes
  · exact List.pairwise_append.mpr ⟨h.pairwise, hpairwise,
      fun a ha b hb => (h.rested a ha).trans (hsince b hb)⟩
  · exact List.forall_mem_append.mpr ⟨h.since, fun b hb => h.time.trans (hsince b hb)⟩
  · exact List.forall_mem_append.mpr ⟨fun b hb => (h.rested b hb).trans hgoes.time, hrested⟩
  · exact List.forall_mem_append.mpr ⟨h.during, hduring⟩

end Spaced

/-! ### What only lets time pass -/

variable (c) in
/-- A computation in which no batch is seen. -/
def Passes {α : Type} (x : Op (Watched σ) α) : Prop :=
  ∀ s, c.sound s.world → Goes c s [] (x.run s).2

namespace Passes

variable {α : Type}

/-- A computation that has to do with neither the outside world nor the settings. -/
theorem of_still {x : Op (Watched σ) α} (h : ∀ s, (x.run s).2.settings = s.settings ∧
    (x.run s).2.outside = s.outside) : Passes c x := by
  intro s hs
  obtain ⟨hsettings, houtside⟩ := h s
  have hworld : (x.run s).2.world = s.world := congrArg Watched.outside houtside
  exact ⟨hsettings, hworld.symm ▸ hs, (congrArg c.time hworld).ge,
    (congrArg Watched.seen houtside).trans (List.append_nil _).symm⟩

theorem composes : Composes (σ := Watched σ) (Passes c) where
  state hstate hy s hs := by
    rw [hstate s]
    exact hy s hs
  pure _ := of_still fun _ => ⟨rfl, rfl⟩
  get := of_still fun _ => ⟨rfl, rfl⟩
  bind := by
    intro α β x f hx hf s hs
    have hfirst := hx s hs
    rw [Call.run_bind]
    rcases hrun : x.run s with ⟨failure | a, t⟩ <;> rw [hrun] at hfirst
    · exact hfirst
    · exact hfirst.trans (hf a t hfirst.sound)

theorem modify {f : Session (Watched σ) → Session (Watched σ)}
    (h : ∀ s, (f s).settings = s.settings ∧ (f s).outside = s.outside) :
    Passes c (modifyThe (Session (Watched σ)) f : Op (Watched σ) PUnit) :=
  of_still h

theorem request {x : Call σ α} (hx : Gathers x) : Passes c (onOutside (Watched.within x)) := by
  intro s hs
  obtain ⟨hsound, htime⟩ := c.request hx hs
  exact ⟨rfl, hsound, htime, (List.append_nil _).symm⟩

theorem refresh : Passes c (refresh (σ := Watched σ)) :=
  composes.bind (request .listLabels) fun _ => composes.getThen fun _ =>
    composes.bind (modify fun _ => ⟨rfl, rfl⟩) fun _ => composes.pure _

theorem load (r : NodeRef) : Passes c (load (σ := Watched σ) r) :=
  composes.getThen fun _ => composes.bind (request (.getLabel _)) fun _ =>
    composes.getThen fun _ => composes.bind (modify fun _ => ⟨rfl, rfl⟩) fun _ => composes.pure _

theorem entity (r : NodeRef) : Passes c (entity (σ := Watched σ) r) := by
  refine composes.getThen fun s => composes.bind (composes.ofExcept _) fun standing => ?_
  cases standing with
  | loaded e => exact composes.pure e
  | missing generation =>
    exact composes.bind (load r) fun _ =>
      composes.bind (modify fun _ => ⟨rfl, rfl⟩) fun _ => composes.pure _

theorem messageIds (q : Query) : Passes c (messageIds (σ := Watched σ) q) :=
  composes.messageIds (fun _ => request (.listMessages _)) q

theorem messageOf (r : Message.Resource) : Passes c (messageOf (σ := Watched σ) r) :=
  composes.messageOf refresh entity r

end Passes

/-! ### Fetching in batches -/

theorem Goes.ends {α : Type} {x : Op (Watched σ) α} {sights : List (Sight σ)}
    (h : Goes c s sights (x.run s).2) :
    Call.Ends x s (fun _ t => Goes c s sights t) fun _ _ => True := by
  unfold Call.Ends
  rcases hrun : x.run s with ⟨failure | a, t⟩ <;> rw [hrun] at h
  · trivial
  · exact h

theorem now_goes (hs : c.sound s.world) {failed : Failure → Session (Watched σ) → Prop} :
    Call.Ends (onClock Clock.now) s (fun time t => Goes c s [.reading time] t ∧
      time = (readClock s.world).1 ∧ t.world = (readClock s.world).2 ∧
      c.time s.world ≤ time ∧ time ≤ c.time t.world) failed := by
  obtain ⟨hsound, hbefore, hafter⟩ := c.read hs
  exact ⟨⟨rfl, hsound, hbefore.trans hafter, rfl⟩, rfl, rfl, hbefore, hafter⟩

theorem sleep_goes (hs : c.sound s.world) {delay : Rat} (hdelay : 0 < delay)
    {failed : Failure → Session (Watched σ) → Prop} :
    Call.Ends (onClock (Clock.sleep delay)) s (fun _ t => Goes c s [.sleep delay] t ∧
      c.time s.world + delay ≤ c.time t.world) failed := by
  obtain ⟨hsound, htime⟩ := c.sleep hdelay hs
  have hlater : c.time s.world ≤ c.time (afterSleep delay s.world) := by linarith
  exact ⟨⟨rfl, hsound, hlater, rfl⟩, htime⟩

theorem getMessages_goes (ids : List String) (hs : c.sound s.world) :
    Goes c s [.fetch ids s.world] ((onOutside (MailService.getMessages ids)).run s).2 := by
  obtain ⟨hsound, htime⟩ := c.request (.getMessages ids) hs
  exact ⟨rfl, hsound, htime, rfl⟩

/-- A batch that succeeds is over when the least time since its start is. -/
theorem fetchBatch_spaced (ids : List String) (hs : c.sound s.world) :
    Call.Ends (fetchBatch ids) s (fun _ t => ∃ b : Batch σ, b.ids = ids ∧ Spaced c s [b] t)
      fun _ _ => True := by
  rw [fetchBatch]
  refine .getThen ((now_goes hs).andThen fun started s1 hfirst => ?_)
  obtain ⟨hgoes1, rfl, hworld, -, -⟩ := hfirst
  refine (getMessages_goes ids hgoes1.sound).ends.andThen fun resources s2 hgoes2 => ?_
  have hbuild := Passes.composes.mapM Passes.messageOf resources s2 hgoes2.sound
  refine hbuild.ends.andThen fun messages s3 hgoes3 => ?_
  refine (now_goes hgoes3.sound).andThen fun ended s4 hlast => ?_
  obtain ⟨hgoes4, -, -, hended, hafter⟩ := hlast
  let b : Batch σ := ⟨ids, s.world, ended⟩
  have hduring : c.time b.asked ≤ b.ended := by
    rw [Batch.asked, ← hworld]
    exact hgoes2.time.trans (hgoes3.time.trans hended)
  have hgoes : Goes c s [.reading b.started, .fetch b.ids b.asked, .reading b.ended] s4 := by
    rw [Batch.asked, ← hworld]
    exact ((hgoes1.trans hgoes2).trans hgoes3).trans hgoes4
  -- Either the sleep adds what the readings are short of the least time, or they are not.
  change Call.Ends (if b.ended - b.started < s.settings.batchDelay then _ else _) s4 _ _
  by_cases hshort : b.ended - b.started < s.settings.batchDelay
  · rw [if_pos hshort]
    refine (sleep_goes hgoes.sound (sub_pos.mpr hshort)).andThen fun _ t hslept => ?_
    obtain ⟨hgoes5, htime⟩ := hslept
    refine ⟨b, rfl, .single rfl hs ?_ (by linarith) hduring⟩
    rw [Batch.sights, if_pos hshort]
    exact hgoes.trans hgoes5
  · rw [if_neg hshort]
    refine ⟨b, rfl, .single rfl hs ?_ (by linarith) hduring⟩
    rw [Batch.sights, if_neg hshort, List.append_nil]
    exact hgoes

theorem mapM_fetchBatch_spaced (pieces : List (List String)) (hs : c.sound s.world) :
    Call.Ends (pieces.mapM fetchBatch) s
      (fun _ t => ∃ batches : List (Batch σ), batches.map (·.ids) = pieces ∧ Spaced c s batches t)
      fun _ _ => True := by
  induction pieces generalizing s with
  | nil => exact ⟨[], rfl, .passing ⟨rfl, hs, le_rfl, (List.append_nil _).symm⟩⟩
  | cons ids pieces ih =>
    rw [List.mapM_cons]
    refine (fetchBatch_spaced ids hs).andThen fun _ t hhead => ?_
    obtain ⟨b, hids, hfirst⟩ := hhead
    refine (ih hfirst.sound).andThen fun _ u htail => ?_
    obtain ⟨batches, hpieces, hrest⟩ := htail
    exact ⟨b :: batches, congrArg₂ List.cons hids hpieces, hfirst.trans hrest⟩

theorem fetch_spaced (ids : List String) {size : Nat} (hsize : 0 < size) (hs : c.sound s.world)
    (hbatch : s.settings.batchSize = some size) :
    Call.Ends (fetch ids) s (fun _ t => ∃ batches : List (Batch σ),
      batches.map (·.ids) = Runs.chunks size ids ∧ Spaced c s batches t) fun _ _ => True := by
  obtain ⟨n, rfl⟩ := Nat.exists_eq_succ_of_ne_zero hsize.ne'
  rw [fetch]
  refine .getThen ?_
  rw [hbatch]
  exact (mapM_fetchBatch_spaced (Runs.chunks (n + 1) ids) hs).andThen fun _ _ h => h

/-- A query that succeeds fetches its messages in batches that are apart. -/
theorem execute_spaced (q : Query) {size : Nat} (hsize : 0 < size) (hs : c.sound s.world)
    (hbatch : s.settings.batchSize = some size) :
    Call.Ends (execute q) s (fun _ t => ∃ batches : List (Batch σ),
      (∀ b ∈ batches, b.ids ≠ [] ∧ b.ids.length ≤ size) ∧ Spaced c s batches t)
      fun _ _ => True := by
  refine ((Passes.messageIds q) s hs).ends.andThen fun ids t hlisted => ?_
  have hsettings : t.settings.batchSize = some size := by rw [hlisted.settings, hbatch]
  refine (fetch_spaced ids hsize hlisted.sound hsettings).andThen fun _ u hfetched => ?_
  obtain ⟨batches, hpieces, hspaced⟩ := hfetched
  refine ⟨batches, fun b hb => ?_, (Spaced.passing hlisted).trans hspaced⟩
  exact Runs.mem_chunks hsize (hpieces ▸ List.mem_map_of_mem hb)

/-! ### Queries one after another -/

/-- The sessions that come of one by queries that succeed. Between them time passes, and whatever
else the outside world and the labels of the session go through. -/
inductive Executes (c : Chronology σ) (first : Session (Watched σ)) : Session (Watched σ) → Prop
  | start : Executes c first first
  | pass {t u : Session (Watched σ)} : Executes c first t → Goes c t [] u → Executes c first u
  | execute {t u : Session (Watched σ)} {messages : List Message} (q : Query) :
      Executes c first t → (execute q).run t = (.ok messages, u) → Executes c first u

/-- A query that is seen to succeed. -/
theorem Executes.success (h : Executes c s t) (q : Query)
    (hok : ((Session.execute q).run t).1.toOption.isSome = true) :
    Executes c s ((Session.execute q).run t).2 := by
  obtain ⟨messages, u, hrun⟩ := Call.exists_ok hok
  rw [hrun]
  exact h.execute q hrun

/-- A world that is found later than it was left. -/
theorem Executes.outside (h : Executes c s t) {w : σ} (hw : c.sound w)
    (htime : c.time t.world ≤ c.time w) :
    Executes c s { t with outside := { t.outside with outside := w } } :=
  h.pass ⟨rfl, hw, htime, (List.append_nil _).symm⟩

theorem Executes.spaced {size : Nat} (hsize : 0 < size) (hs : c.sound s.world)
    (hbatch : s.settings.batchSize = some size) (h : Executes c s t) :
    ∃ batches : List (Batch σ), (∀ b ∈ batches, b.ids ≠ [] ∧ b.ids.length ≤ size) ∧
      Spaced c s batches t := by
  induction h with
  | start => exact ⟨[], by simp, .passing ⟨rfl, hs, le_rfl, (List.append_nil _).symm⟩⟩
  | pass _ hgoes ih =>
    obtain ⟨batches, hids, hspaced⟩ := ih
    have hlonger := hspaced.trans (.passing hgoes)
    rw [List.append_nil] at hlonger
    exact ⟨batches, hids, hlonger⟩
  | execute q _ hrun ih =>
    obtain ⟨batches, hids, hspaced⟩ := ih
    obtain ⟨more, hmore, hafter⟩ := (execute_spaced q hsize hspaced.sound
      (by rw [hspaced.settings, hbatch])).ok hrun
    exact ⟨batches ++ more, List.forall_mem_append.mpr ⟨hids, hmore⟩, hspaced.trans hafter⟩

end Spacing

end Mailroom.Session
