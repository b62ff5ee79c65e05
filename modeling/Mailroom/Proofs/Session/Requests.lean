import Mailroom.Proofs.Remote.Taped
import Mailroom.Proofs.Session.Basic
import Mailroom.Session.Connecting

/-! The requests of operations on labels. Over a taped wire each operation makes its requests in a
fixed order, up to the first that is not delivered in the end, and after that one nothing. -/

namespace Mailroom.Session

open Label (EntityRef NodeRef)
open Remote (Client LabelBody LabelOptions LabelRecord MailService Request RoundTrip Taped Tries
  Wire)

section

variable {ω : Type}

/-- The exchanges over the wire of a session. -/
def tape (s : Session (Client (Taped ω))) : List RoundTrip := s.outside.wire.exchanges

/-- What some requests leave of a session: their tries are on the tape, all delivered in the end or
not. -/
def Sends (s : Session (Client (Taped ω))) (plan : List Request) (isDelivered : Bool)
    (t : Session (Client (Taped ω))) : Prop :=
  ∃ tries, Client.Follows plan tries ∧ tries.all Tries.isDelivered = isDelivered ∧
    t.tape = s.tape ++ tries.flatMap Tries.exchanges

/-- A computation that makes some requests in order. When all are delivered it ends as `done` says,
else it fails. -/
def Pursues {α : Type} (x : Op (Client (Taped ω)) α) (s : Session (Client (Taped ω)))
    (plan : List Request) (done : α → Session (Client (Taped ω)) → Prop) : Prop :=
  Call.Ends x s (fun a t => Sends s plan true t ∧ done a t) fun _ => Sends s plan false

end

variable {ω α β : Type} {s t u : Session (Client (Taped ω))} {plan more : List Request}
  {isDelivered : Bool}

namespace Sends

theorem nothing (h : t.tape = s.tape) : Sends s [] true t :=
  ⟨[], .done, rfl, by simpa using h⟩

theorem once {r : Request} {tries : Tries} (h : tries.Lawful r Client.maxAttempts)
    (htape : t.tape = s.tape ++ tries.exchanges) : Sends s [r] tries.isDelivered t := by
  refine ⟨[tries], ?_, by simp, by rw [htape, List.flatMap_singleton]⟩
  cases hdelivered : tries.isDelivered with
  | true => exact .next h hdelivered .done
  | false => exact .stopped h hdelivered

theorem trans (h : Sends s plan true t) (hmore : Sends t more isDelivered u) :
    Sends s (plan ++ more) isDelivered u := by
  obtain ⟨tries, hfollows, hall, htape⟩ := h
  obtain ⟨others, hothers, hrest, hend⟩ := hmore
  refine ⟨tries ++ others, hfollows.append hall hothers, ?_, ?_⟩
  · rw [List.all_append, hall, hrest, Bool.true_and]
  · rw [hend, htape, List.flatMap_append, List.append_assoc]

theorem stop (h : Sends s plan false t) (more : List Request) :
    Sends s (plan ++ more) false t := by
  obtain ⟨tries, hfollows, hall, htape⟩ := h
  exact ⟨tries, hfollows.stop hall more, hall, htape⟩

theorem tape_subset (h : Sends s plan isDelivered t) : s.tape ⊆ t.tape := by
  obtain ⟨tries, -, -, htape⟩ := h
  rw [htape]
  exact List.subset_append_left _ _

end Sends

namespace Pursues

variable {x : Op (Client (Taped ω)) α} {f : α → Op (Client (Taped ω)) β}
  {done done' : α → Session (Client (Taped ω)) → Prop}
  {next : β → Session (Client (Taped ω)) → Prop}

theorem of_run {a : α} (hrun : x.run s = (.ok a, t)) (htape : t.tape = s.tape) (hdone : done a t) :
    Pursues x s [] done :=
  Call.Ends.of_run hrun ⟨.nothing htape, hdone⟩

theorem imp (h : Pursues x s plan done) (hdone : ∀ a t, done a t → done' a t) :
    Pursues x s plan done' :=
  Call.Ends.impDone h fun a t ht => ⟨ht.1, hdone a t ht.2⟩

theorem bind (hx : Pursues x s plan done) (hf : ∀ a t, done a t → Pursues (f a) t more next) :
    Pursues (x >>= f) s (plan ++ more) next := by
  refine (Call.Ends.impFailed hx fun _ _ hstop => hstop.stop more).andThen fun a t ht => ?_
  obtain ⟨hsends, hdone⟩ := ht
  exact Call.Ends.imp (hf a t hdone) (fun _ _ hend => ⟨hsends.trans hend.1, hend.2⟩)
    fun _ _ hstop => hsends.trans hstop

theorem getThen {f : Session (Client (Taped ω)) → Op (Client (Taped ω)) β}
    (h : Pursues (f s) s plan next) : Pursues (get >>= f) s plan next :=
  Call.Ends.getThen h

end Pursues

/-! ### One request -/

/-- A session after a request that was answered: nothing changed but the outside world. -/
structure Replied (s : Session (Client (Taped ω))) (r : Request) (v : Value)
    (t : Session (Client (Taped ω))) : Prop where
  last : t.tape.getLast? = some (r, .ok v)
  beside : t = { s with outside := t.outside }

/-- The labels in an answer to the request for all of them. -/
def labelsIn (answer : Value) : List LabelRecord :=
  (answer.get "labels").items.map (LabelRecord.ofValue · "")

variable [Wire ω] [Clock ω]

theorem onOutside_sends (r : Request) {g : Value → Call (Client (Taped ω)) α}
    {made : Value → α → Prop}
    (hg : ∀ v c, ∃ a d, (g v).run c = (.ok a, d) ∧ d.wire = c.wire ∧ made v a) :
    Pursues (onOutside (Client.request r >>= g)) s [r]
      fun a t => ∃ v, made v a ∧ Replied s r v t := by
  have hanswers := Client.request_answers r s.outside
  rw [Call.Ends] at hanswers
  rw [Pursues, Call.Ends, run_onOutside, Call.run_bind]
  rcases hrun : (Client.request r).run s.outside with ⟨failure | v, c⟩ <;> rw [hrun] at hanswers
  · obtain ⟨tries, hlawful, hfailed, htape⟩ := hanswers
    exact hfailed ▸ .once hlawful htape
  · obtain ⟨tries, hlawful, hlast, htape⟩ := hanswers
    obtain ⟨a, d, hend, hwire, hmade⟩ := hg v c
    have hdelivered : tries.isDelivered = true := by
      rw [Tries.isDelivered, hlast]
      rfl
    have htape : d.wire.exchanges = s.tape ++ tries.exchanges := hwire ▸ htape
    simp only [hend]
    refine ⟨hdelivered ▸ .once hlawful htape, v, hmade, ?_, rfl⟩
    change d.wire.exchanges.getLast? = _
    rw [htape, Tries.exchanges, hlawful.request, hlast, ← List.append_assoc, List.getLast?_concat]

variable (s)

theorem getLabel_sends (id : String) :
    Pursues (onOutside (MailService.getLabel id)) s [.getLabel id]
      fun record t => ∃ v, record = .ofValue v id ∧ Replied s (.getLabel id) v t :=
  onOutside_sends _ fun _ _ => ⟨_, _, rfl, rfl, rfl⟩

theorem listLabels_sends :
    Pursues (onOutside MailService.listLabels) s [.listLabels]
      fun records t => ∃ v, records = labelsIn v ∧ Replied s .listLabels v t :=
  onOutside_sends _ fun _ _ => ⟨_, _, rfl, rfl, rfl⟩

theorem profile_sends : Pursues (onOutside MailService.profile) s [.profile]
    fun _ t => ∃ v, Replied s .profile v t := by
  have hany : Pursues (onOutside MailService.profile) s [.profile]
      fun _ t => ∃ v, True ∧ Replied s .profile v t :=
    onOutside_sends _ fun _ _ => ⟨_, _, rfl, rfl, trivial⟩
  exact hany.imp fun _ _ ⟨v, _, ht⟩ => ⟨v, ht⟩

theorem perform_sends (r : Request) : Pursues (onOutside (Client.perform r)) s [r]
    fun _ t => ∃ v, Replied s r v t := by
  have hany : Pursues (onOutside (Client.perform r)) s [r]
      fun _ t => ∃ v, True ∧ Replied s r v t :=
    onOutside_sends _ fun _ _ => ⟨_, _, rfl, rfl, trivial⟩
  exact hany.imp fun _ _ ⟨v, _, ht⟩ => ⟨v, ht⟩

/-! ### Operations -/

theorem refresh_sends : Pursues refresh s [.listLabels]
    fun _ t => ∃ v, t.tape.getLast? = some (.listLabels, .ok v) ∧
      t.directory = (refreshed s.directory (labelsIn v)).2 := by
  refine (listLabels_sends s).bind fun records t ht => .getThen ?_
  obtain ⟨v, rfl, hlast, ht⟩ := ht
  exact .of_run rfl rfl ⟨v, hlast, by rw [ht]; rfl⟩

theorem connect_sends : Pursues (connect (ω := Taped ω)) s [.profile, .listLabels]
    fun _ t => ∃ v, t.tape.getLast? = some (.listLabels, .ok v) ∧
      t.directory = (refreshed s.directory (labelsIn v)).2 := by
  refine (profile_sends s).bind fun email t ht => ?_
  obtain ⟨_, ht⟩ := ht
  have hset : Pursues (modify fun s => { s with email := some email }) t []
      fun _ u => u.directory = s.directory := .of_run rfl rfl (by rw [ht.beside])
  refine hset.bind fun _ u hu => ?_
  refine (refresh_sends u).bind fun _ v hv => .of_run rfl rfl ?_
  rwa [hu] at hv

/-- A label that is loaded is read from the answer to the request for it. -/
theorem load_sends (r : NodeRef) :
    let n := s.directory.node r
    Pursues (load r) s [.getLabel n.id] fun e t => ∃ v,
      t.tape.getLast? = some (.getLabel n.id, .ok v) ∧
        t.entity? e = some (.ofRecord n.kind (.ofValue v n.id)) := by
  refine .getThen ((getLabel_sends s _).bind fun record t ht => ?_)
  obtain ⟨v, rfl, hlast, ht⟩ := ht
  exact .of_run rfl rfl ⟨v, hlast, Array.getElem?_push_size⟩

theorem entity_sends {r : NodeRef} {g : Nat} (h : s.directory.standing r = .ok (.missing g)) :
    let n := s.directory.node r
    Pursues (entity r) s [.getLabel n.id] fun e t => ∃ v,
      t.tape.getLast? = some (.getLabel n.id, .ok v) ∧
        t.entity? e = some (.ofRecord n.kind (.ofValue v n.id)) := by
  refine .getThen ?_
  rw [h]
  exact (load_sends s r).bind fun e t ht => .of_run rfl rfl ht

/-- A label is changed, read again and listed with all others, all by the id that it is loaded
under. -/
theorem updateLabel_sends (e : EntityRef) {name : Option String} {options : LabelOptions}
    (hbody : (LabelBody.of name options).isEmpty = false) :
    let id := s.entityId e
    Pursues (updateLabel e name options) s
      [.updateLabel id (.of name options), .getLabel id, .listLabels] fun _ _ => True := by
  rw [updateLabel]
  simp only [hbody]
  refine .getThen ((perform_sends s _).bind fun _ t ht => ?_)
  obtain ⟨_, ht⟩ := ht
  have hid : t.entityId e = s.entityId e := by rw [ht.beside]; rfl
  have hreload : Pursues (reload e) t [.getLabel (s.entityId e)] fun _ _ => True := by
    refine .getThen ?_
    rw [hid]
    exact (getLabel_sends t _).bind fun _ _ _ => .of_run rfl rfl trivial
  refine hreload.bind fun _ u _ => ?_
  exact (refresh_sends u).bind fun _ _ _ => .of_run rfl rfl trivial

theorem deleteLabel_sends (e : EntityRef) : Pursues (deleteLabel e false) s
    [.deleteLabel (s.entityId e), .listLabels] fun _ _ => True := by
  refine .getThen ((perform_sends s _).bind fun _ t _ => ?_)
  exact (refresh_sends t).bind fun _ _ _ => .of_run rfl rfl trivial

end Mailroom.Session
