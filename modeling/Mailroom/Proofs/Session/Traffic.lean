import Mailroom.Proofs.Session.Order

/-! Traffic: calls for the labels of nodes when several are under way. Such a call has two steps. It
begins with a look at what is kept for the node and, if that is not enough, with a request; it
finishes when the reply arrives, by keeping the label under the count of refreshes at which it
began. Between the two steps other calls begin and finish, refreshes complete, and nodes are
forgotten and evicted: by the refreshes, and by themselves, which no operation does but which is
allowed for too. A log records one event for each step; the position of an event in the log is its
time. -/

namespace Mailroom.Session

open Label (Directory Entity EntityRef NodeRef)
open Remote (LabelRecord MailService)

/-! ### Events and logs -/

/-- What happens in a step: a call for the label of a node begins, and it is refused, served with
what is kept, or asks the service; the reply to the call that began at some time arrives; a refresh
completes; a node is forgotten, or taken out of use by itself. -/
inductive Event
  | refused (r : NodeRef) (failure : Failure)
  | served (r : NodeRef) (e : EntityRef)
  | requested (r : NodeRef)
  | loaded (call : Nat) (e : EntityRef)
  | failed (call : Nat) (failure : Failure)
  | refreshed (gone : List NodeRef)
  | invalidated (r : NodeRef)
  | evicted (r : NodeRef)

abbrev Log := List Event

namespace Event

/-- The node that a call begins for. -/
def begun? : Event → Option NodeRef
  | refused r _ | served r _ | requested r => some r
  | _ => none

/-- The call that a reply is for. -/
def answered? : Event → Option Nat
  | loaded call _ | failed call _ => some call
  | _ => none

def isRefreshed : Event → Bool
  | refreshed _ => true
  | _ => false

/-- A node is taken out of use. -/
def Evicts (r : NodeRef) : Event → Prop
  | refreshed gone => r ∈ gone
  | evicted q => q = r
  | _ => False

end Event

namespace Log

def generation (log : Log) : Nat := log.countP Event.isRefreshed

def Answered (log : Log) (k : Nat) : Prop := ∃ x ∈ log, x.answered? = some k

/-- The request made at a time for a node was answered with a label. -/
def Brought (log : Log) (k : Nat) (r : NodeRef) (e : EntityRef) : Prop :=
  log[k]? = some (.requested r) ∧ .loaded k e ∈ log

/-- The call that began at a time for a node ended with a label. -/
def Returns (log : Log) (j : Nat) (r : NodeRef) (e : EntityRef) : Prop :=
  log[j]? = some (.served r e) ∨ Brought log j r e

def Gone (log : Log) (r : NodeRef) : Prop := ∃ x ∈ log, x.Evicts r

/-- Every event of a log is as a property of it and of the log before it says. -/
def Along (P : Log → Event → Prop) (log : Log) : Prop :=
  ∀ j x, log[j]? = some x → P (log.take j) x

/-- Calls do not overlap: whenever one begins, the requests so far are answered. -/
def Serial (log : Log) : Prop :=
  log.Along fun past x => x.begun? ≠ none →
    ∀ k r, past[k]? = some (.requested r) → past.Answered k

end Log

/-- What an event says of the events before it. A call is refused just when its node is gone. It is
served with a label that came of a request of the same count of refreshes. A reply is the only one
to its request, and a label comes with one reply. -/
def Event.Fits (past : Log) : Event → Prop
  | .refused r failure => past.Gone r ∧ ∃ what, failure = .notFound what
  | .served r e => ¬past.Gone r ∧ ∃ k, past.Brought k r e ∧
      Log.generation (past.take k) = past.generation
  | .requested r => ¬past.Gone r
  | .loaded k e => (∃ r, past[k]? = some (.requested r)) ∧ ¬past.Answered k ∧
      ∀ k', .loaded k' e ∉ past
  | .failed k _ => (∃ r, past[k]? = some (.requested r)) ∧ ¬past.Answered k
  | .refreshed _ | .invalidated _ | .evicted _ => True

namespace Log

variable {log : Log} {x y : Event} {i j k l : Nat} {r : NodeRef} {e : EntityRef}
  {P : Log → Event → Prop}

theorem along_concat : Along P (log ++ [x]) ↔ Along P log ∧ P log x := by
  constructor
  · intro h
    refine ⟨fun j y hy => ?_, ?_⟩
    · have hlt := (List.getElem?_eq_some_iff.mp hy).1
      have hold := h j y ((List.getElem?_append_left hlt).trans hy)
      rwa [List.take_append_of_le_length (Nat.le_of_lt hlt)] at hold
    · simpa using h log.length x (by simp)
  · rintro ⟨h, hx⟩ j y hy
    by_cases hj : j < log.length
    · rw [List.getElem?_append_left hj] at hy
      rw [List.take_append_of_le_length (Nat.le_of_lt hj)]
      exact h j y hy
    · have hlt := (List.getElem?_eq_some_iff.mp hy).1
      rw [List.length_append, List.length_singleton] at hlt
      obtain rfl : j = log.length := by omega
      obtain rfl : x = y := by simpa using hy
      simpa using hx

theorem mem_of_take (h : x ∈ log.take j) : x ∈ log := List.mem_of_mem_take h

theorem mem_take_iff : x ∈ log.take j ↔ ∃ i < j, log[i]? = some x := by
  constructor
  · intro h
    obtain ⟨i, hi⟩ := List.mem_iff_getElem?.mp h
    rw [List.getElem?_take] at hi
    split at hi
    · exact ⟨i, ‹_›, hi⟩
    · cases hi
  · rintro ⟨i, hij, hi⟩
    exact List.mem_iff_getElem?.mpr ⟨i, by rw [List.getElem?_take, if_pos hij, hi]⟩

theorem getElem?_of_take (h : (log.take j)[k]? = some x) : k < j ∧ log[k]? = some x := by
  rw [List.getElem?_take] at h
  split at h
  · exact ⟨‹_›, h⟩
  · cases h

theorem getElem?_concat (h : log[k]? = some x) : (log ++ [y])[k]? = some x :=
  (List.getElem?_append_left (List.getElem?_eq_some_iff.mp h).1).trans h

theorem take_concat (h : log[k]? = some x) : (log ++ [y]).take k = log.take k :=
  List.take_append_of_le_length (Nat.le_of_lt (List.getElem?_eq_some_iff.mp h).1)

/-! ### The count of refreshes -/

theorem generation_concat : generation (log ++ [x]) =
    generation log + if x.isRefreshed then 1 else 0 := by
  rw [generation, generation, List.countP_append, List.countP_singleton]

theorem generation_take_le (log : Log) (h : i ≤ j) :
    generation (log.take i) ≤ generation (log.take j) :=
  (List.take_prefix_take_left h).sublist.countP_le

theorem generation_take_le_self (log : Log) (i : Nat) :
    generation (log.take i) ≤ generation log :=
  (List.take_sublist i log).countP_le

theorem generation_take_lt {gone : List NodeRef} (h : log[i]? = some (.refreshed gone))
    (hij : i < j) : generation (log.take i) < generation (log.take j) := by
  have hsucc : generation (log.take (i + 1)) = generation (log.take i) + 1 := by
    rw [List.take_add_one, h, Option.toList_some, generation_concat]
    rfl
  exact Nat.lt_of_lt_of_le (hsucc ▸ Nat.lt_succ_self _) (generation_take_le log hij)

/-! ### What logs keep -/

theorem Answered.of_take (h : Answered (log.take j) k) : log.Answered k := by
  obtain ⟨x, hx, hk⟩ := h
  exact ⟨x, mem_of_take hx, hk⟩

theorem Brought.of_take (h : Brought (log.take j) k r e) : k < j ∧ Brought log k r e := by
  obtain ⟨hk, hrequested⟩ := getElem?_of_take h.1
  exact ⟨hk, hrequested, mem_of_take h.2⟩

theorem Brought.concat (h : log.Brought k r e) : Brought (log ++ [x]) k r e :=
  ⟨getElem?_concat h.1, List.mem_append_left _ h.2⟩

theorem answered_concat : Answered (log ++ [x]) k ↔ Answered log k ∨ x.answered? = some k := by
  simp [Answered, or_and_right, exists_or]

theorem gone_concat : Gone (log ++ [x]) r ↔ Gone log r ∨ x.Evicts r := by
  simp [Gone, or_and_right, exists_or]

section Fitting

variable (h : Along Event.Fits log)
include h

/-- A reply arrives after its request, and is the first one to it. -/
theorem fits_of_answered (hl : log[l]? = some x) (hx : x.answered? = some k) :
    (∃ r, (log.take l)[k]? = some (.requested r)) ∧ ¬Answered (log.take l) k := by
  have hfits := h l x hl
  cases x <;> cases hx
  case loaded => exact ⟨hfits.1, hfits.2.1⟩
  case failed => exact hfits

theorem answered_once {l' : Nat} (hl : log[l]? = some x) (hl' : log[l']? = some y)
    (hx : x.answered? = some k) (hy : y.answered? = some k) : l = l' := by
  have hearlier : ∀ {l l' : Nat} {x y : Event}, log[l]? = some x → log[l']? = some y →
      x.answered? = some k → y.answered? = some k → ¬l < l' := fun hl hl' hx hy hlt =>
    (fits_of_answered h hl' hy).2 ⟨_, mem_take_iff.mpr ⟨_, hlt, hl⟩, hx⟩
  exact Nat.le_antisymm (Nat.not_lt.mp (hearlier hl' hl hy hx))
    (Nat.not_lt.mp (hearlier hl hl' hx hy))

theorem answer_eq (hx : x ∈ log) (hy : y ∈ log) (hxk : x.answered? = some k)
    (hyk : y.answered? = some k) : x = y := by
  obtain ⟨l, hl⟩ := List.mem_iff_getElem?.mp hx
  obtain ⟨l', hl'⟩ := List.mem_iff_getElem?.mp hy
  obtain rfl := answered_once h hl hl' hxk hyk
  exact Option.some.inj (hl.symm.trans hl')

theorem loaded_once {k' : Nat} (hk : .loaded k e ∈ log) (hk' : .loaded k' e ∈ log) : k = k' := by
  obtain ⟨l, hl⟩ := List.mem_iff_getElem?.mp hk
  obtain ⟨l', hl'⟩ := List.mem_iff_getElem?.mp hk'
  rcases Nat.lt_trichotomy l l' with hlt | rfl | hlt
  · exact absurd (mem_take_iff.mpr ⟨l, hlt, hl⟩) ((h l' _ hl').2.2 k)
  · cases hl.symm.trans hl'
    rfl
  · exact absurd (mem_take_iff.mpr ⟨l', hlt, hl'⟩) ((h l _ hl).2.2 k')

theorem Brought.of_concat (hb : Brought (log ++ [x]) k r e) (hx : x ≠ .loaded k e) :
    Brought log k r e := by
  have hmem := (List.mem_append.mp hb.2).resolve_right fun hlast =>
    hx (List.mem_singleton.mp hlast).symm
  obtain ⟨l, hl⟩ := List.mem_iff_getElem?.mp hmem
  obtain ⟨⟨q, hq⟩, -⟩ := fits_of_answered h hl rfl
  have hk := (getElem?_of_take hq).2
  have hlt := (List.getElem?_eq_some_iff.mp hk).1
  exact ⟨(List.getElem?_append_left hlt).symm.trans hb.1, hmem⟩

end Fitting

end Log

/-! ### Steps -/

/-- A call that waits for its reply: when it began, its node, and the count of refreshes that the
label will be kept under. -/
structure Waiting where
  call : Nat
  node : NodeRef
  generation : Nat
deriving DecidableEq

/-- A mailbox with calls under way. -/
structure Traffic where
  directory : Directory := .initial
  entities : Array Entity := #[]
  waiting : List Waiting := []
  log : Log := []

namespace Traffic

def begin (t : Traffic) (r : NodeRef) : Traffic :=
  match t.directory.standing r with
  | .error failure => { t with log := t.log ++ [.refused r failure] }
  | .ok (.loaded e) => { t with log := t.log ++ [.served r e] }
  | .ok (.missing generation) => { t with
      waiting := t.waiting ++ [⟨t.log.length, r, generation⟩], log := t.log ++ [.requested r] }

/-- The calls that still wait when one of them has its reply. -/
def others (t : Traffic) (w : Waiting) : List Waiting := t.waiting.filter (·.call ≠ w.call)

/-- The reply to the request of a call arrives. -/
def finish (t : Traffic) (w : Waiting) : Except Failure LabelRecord → Traffic
  | .error failure =>
    { t with waiting := t.others w, log := t.log ++ [.failed w.call failure] }
  | .ok record =>
    let e : EntityRef := ⟨t.entities.size⟩
    { directory := t.directory.keep w.node e w.generation
      entities := t.entities.push (.ofRecord (t.directory.node w.node).kind record)
      waiting := t.others w
      log := t.log ++ [.loaded w.call e] }

def refresh (t : Traffic) (records : List LabelRecord) : Traffic :=
  let (gone, directory) := refreshed t.directory records
  { t with directory, log := t.log ++ [.refreshed gone] }

def invalidate (t : Traffic) (r : NodeRef) : Traffic :=
  { t with
    directory := t.directory.modifyNode r fun n => { n with cached := none }
    log := t.log ++ [.invalidated r] }

def evict (t : Traffic) (r : NodeRef) : Traffic :=
  { t with
    directory := t.directory.modifyNode r Directory.evictNode
    log := t.log ++ [.evicted r] }

/-- One step of the traffic. Replies arrive in any order. -/
inductive Step : Traffic → Traffic → Prop
  | begin {t} (r : NodeRef) : t.directory.Has r → Step t (t.begin r)
  | finish {t} (w : Waiting) (reply : Except Failure LabelRecord) :
      w ∈ t.waiting → Step t (t.finish w reply)
  | refresh {t} (records : List LabelRecord) : Step t (t.refresh records)
  | invalidate {t} (r : NodeRef) : Step t (t.invalidate r)
  | evict {t} (r : NodeRef) : t.directory.Has r → Step t (t.evict r)

/-- The traffic that comes of a new mailbox. -/
def Reached (t : Traffic) : Prop := Relation.ReflTransGen Step {} t

/-! ### Whole operations

When nothing comes between its steps, a call is the operation that loads the label of a node, and
the completion of a refresh is what refreshing does. -/

section Begin

variable {t : Traffic} {r : NodeRef}

theorem begin_of_error {failure : Failure} (h : t.directory.standing r = .error failure) :
    t.begin r = { t with log := t.log ++ [.refused r failure] } := by
  rw [begin, h]

theorem begin_of_loaded {e : EntityRef} (h : t.directory.standing r = .ok (.loaded e)) :
    t.begin r = { t with log := t.log ++ [.served r e] } := by
  rw [begin, h]

theorem begin_of_missing {generation : Nat}
    (h : t.directory.standing r = .ok (.missing generation)) :
    t.begin r = { t with
      waiting := t.waiting ++ [⟨t.log.length, r, generation⟩]
      log := t.log ++ [.requested r] } := by
  rw [begin, h]

end Begin

section Whole

variable {σ : Type} [MailService σ] {s u : Session σ} {t : Traffic}
  (hdirectory : t.directory = s.directory) (hentities : t.entities = s.entities)
include hdirectory hentities

/-- Loading the label of a node is a call that finishes at once. -/
theorem of_entity {r : NodeRef} {answer : Except Failure EntityRef} (hr : s.directory.Has r)
    (hwaiting : ∀ w ∈ t.waiting, w.call < t.log.length)
    (hrun : (entity r).run s = (answer, u)) : ∃ v, Relation.ReflTransGen Step t v ∧
      v.directory = u.directory ∧ v.entities = u.entities ∧ v.waiting = t.waiting ∧
      match answer with
      | .ok e => v.log.Returns t.log.length r e
      | .error failure => v.log[t.log.length]? = some (.refused r failure) ∨
          v.log[t.log.length]? = some (.requested r) ∧ .failed t.log.length failure ∈ v.log := by
  have hbegin : Step t (t.begin r) := .begin r (hdirectory ▸ hr)
  rw [entity_run, ← hdirectory] at hrun
  rcases hstanding : t.directory.standing r with failure | (e | generation) <;>
    rw [hstanding] at hrun
  · obtain ⟨rfl, rfl⟩ := Prod.mk.inj hrun
    rw [begin_of_error hstanding] at hbegin
    exact ⟨_, .single hbegin, hdirectory, hentities, rfl, Or.inl (by simp)⟩
  · obtain ⟨rfl, rfl⟩ := Prod.mk.inj hrun
    rw [begin_of_loaded hstanding] at hbegin
    exact ⟨_, .single hbegin, hdirectory, hentities, rfl, Or.inl (by simp)⟩
  · rw [begin_of_missing hstanding] at hbegin
    let w : Waiting := ⟨t.log.length, r, generation⟩
    have hothers : (t.waiting ++ [w]).filter (·.call ≠ w.call) = t.waiting := by
      rw [List.filter_append, List.filter_eq_self.mpr fun v hv => by
        simpa [w] using Nat.ne_of_lt (hwaiting v hv)]
      simp
    have hfinish := fun reply => Relation.ReflTransGen.tail (.single hbegin)
      (Step.finish w reply List.mem_concat_self)
    rw [load_run, ← hdirectory, ← hentities] at hrun
    rcases hreply : (MailService.getLabel (t.directory.node r).id).run s.outside with
      ⟨failure | record, outside⟩ <;> rw [hreply] at hrun <;>
      obtain ⟨rfl, rfl⟩ := Prod.mk.inj hrun
    · refine ⟨_, hfinish (.error failure), rfl, rfl, hothers, Or.inr ⟨?_, ?_⟩⟩ <;>
        simp [finish, w]
    · refine ⟨_, hfinish (.ok record), rfl, rfl, hothers, Or.inr ⟨?_, ?_⟩⟩ <;>
        simp [finish, w]

omit hentities in
/-- A refresh that succeeds completes with the listing that was answered. -/
theorem of_refresh {gone : List NodeRef} (hrun : Session.refresh.run s = (.ok gone, u)) :
    ∃ records, (t.refresh records).directory = u.directory ∧ u.entities = s.entities ∧
      (t.refresh records).log = t.log ++ [.refreshed gone] := by
  rw [refresh_run, ← hdirectory] at hrun
  rcases hlisted : (MailService.listLabels (σ := σ)).run s.outside with ⟨failure | records, o⟩ <;>
    rw [hlisted] at hrun
  · cases hrun
  · obtain ⟨hgone, rfl⟩ := Prod.mk.inj hrun
    exact ⟨records, rfl, rfl, by rw [← Except.ok.inj hgone]; rfl⟩

end Whole

end Traffic

end Mailroom.Session
