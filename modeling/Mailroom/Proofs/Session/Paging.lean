import Mailroom.Proofs.Remote.Listing
import Mailroom.Proofs.Session.Coherence
import Mailroom.Session.Query

/-! Listing the messages of a query page by page. Whatever the service answers, each page is asked
for where the one before ended and for as many ids as are still wanted, and none is asked for after
an error, a page without a token, or enough ids. The store answers so that the ids of all its pages
are the ids on the list of the query, as many as are wanted. -/

namespace Mailroom

open Remote (Bench ListQuery MailService Page Store)
open Remote.LabelBody (chosen)

/-- What every page of a query is asked for. -/
def Query.listing (q : Query) (search : Option String) : ListQuery where
  search := chosen search
  labelIds := q.labels.map fun tags => tags.map (·.id)
  includeTrash := q.includeTrash

namespace Session

/-- The requests for pages that were made, in order, with their answers. -/
abbrev Exchange := List (ListQuery × Except Failure Page)

namespace Exchange

/-- The ids on the pages. -/
def listed (e : Exchange) : List String :=
  e.flatMap fun asked =>
    match asked.2 with
    | .ok page => page.ids
    | .error _ => []

/-- Where the next page begins; nowhere after an error. -/
def token (e : Exchange) : Option String :=
  match e.getLast? with
  | some (_, .ok page) => chosen page.nextPageToken
  | _ => none

/-- No page is asked for after the last one: it is an error, it has no token, or enough ids are
listed. -/
def Stops (limit : Option Nat) (e : Exchange) : Prop :=
  e ≠ [] ∧ (e.token = none ∨ ∃ n ∈ limit, n ≤ e.listed.length)

/-- How many ids the next page may have. -/
def wanted (limit : Option Nat) (e : Exchange) : Nat :=
  match limit with
  | some n => min (n - e.listed.length) 500
  | none => 500

/-- The request for the next page. -/
def next (base : ListQuery) (limit : Option Nat) (e : Exchange) : ListQuery :=
  { base with maxResults := some (e.wanted limit : Rat), pageToken := e.token }

/-- The first ids, as many as are wanted. -/
def cut (limit : Option Nat) (ids : List String) : List String :=
  match limit with
  | some n => ids.take n
  | none => ids

/-- What comes of the pages: the error that ended them, or their ids. -/
def outcome (limit : Option Nat) (e : Exchange) : Except Failure (List String) :=
  match e.getLast? with
  | some (_, .error failure) => .error failure
  | _ => .ok (cut limit e.listed)

theorem wanted_pos {e : Exchange} {limit : Option Nat} (hpositive : ∀ n ∈ limit, 0 < n)
    (h : ¬e.Stops limit) : 1 ≤ e.wanted limit := by
  cases limit with
  | none => exact (by decide : 1 ≤ 500)
  | some n =>
    have hn := hpositive n rfl
    cases e with
    | nil =>
      simp only [wanted, listed, List.flatMap_nil, List.length_nil]
      omega
    | cons asked e =>
      have hlt : (listed (asked :: e)).length < n :=
        not_le.mp fun hle => h ⟨List.cons_ne_nil _ _, .inr ⟨n, rfl, hle⟩⟩
      simp only [wanted]
      omega

theorem wanted_le (limit : Option Nat) (e : Exchange) : e.wanted limit ≤ 500 := by
  cases limit with
  | none => exact le_rfl
  | some n => exact Nat.min_le_right ..

/-- Behind some pages, each request is the next one, and none is made that is not wanted. -/
def Orderly (base : ListQuery) (limit : Option Nat) (past more : Exchange) : Prop :=
  ∀ (before : Exchange) request answer after, more = before ++ (request, answer) :: after →
    ¬(past ++ before).Stops limit ∧ request = (past ++ before).next base limit

variable {base : ListQuery} {e more : Exchange} {limit : Option Nat}

theorem Orderly.nil : Orderly base limit e [] := by
  intro before request answer after heq
  simp at heq

theorem Orderly.cons {answer : Except Failure Page} (h : ¬e.Stops limit)
    (hmore : Orderly base limit (e ++ [(e.next base limit, answer)]) more) :
    Orderly base limit e ((e.next base limit, answer) :: more) := by
  intro before request other after heq
  cases before with
  | nil =>
    obtain ⟨hhead, -⟩ := List.cons.inj heq
    obtain ⟨rfl, -⟩ := Prod.mk.inj hhead
    rw [List.append_nil]
    exact ⟨h, rfl⟩
  | cons first before =>
    obtain ⟨rfl, hrest⟩ := List.cons.inj heq
    have hlater := hmore before request other after hrest
    rwa [← List.append_cons] at hlater

/-- Between one and five hundred ids are asked for. -/
theorem Orderly.sizes (h : Orderly base limit [] e) (hpositive : ∀ n ∈ limit, 0 < n)
    {request : ListQuery} {answer : Except Failure Page} (hmem : (request, answer) ∈ e) :
    ∃ n : Nat, request.maxResults = some (n : Rat) ∧ 1 ≤ n ∧ n ≤ 500 := by
  obtain ⟨before, after, rfl⟩ := List.append_of_mem hmem
  obtain ⟨hwanted, hnext⟩ := h before request answer after rfl
  exact ⟨wanted limit before, congrArg ListQuery.maxResults hnext, wanted_pos hpositive hwanted,
    wanted_le limit before⟩

theorem outcome_none (limit : Option Nat) (e : Exchange) :
    outcome limit e = (outcome none e).map (cut limit) := by
  unfold outcome
  split <;> rfl

theorem not_stops_nil : ¬Stops limit [] := fun h => h.1 rfl

theorem listed_concat (e : Exchange) (request : ListQuery) (page : Page) :
    listed (e ++ [(request, .ok page)]) = e.listed ++ page.ids := by
  rw [listed, List.flatMap_append, List.flatMap_singleton]
  rfl

theorem token_concat (e : Exchange) (request : ListQuery) (page : Page) :
    token (e ++ [(request, .ok page)]) = chosen page.nextPageToken := by
  rw [token, List.getLast?_concat]

end Exchange

/-- The service answers requests for pages one after the other. -/
inductive Asked {σ : Type} [MailService σ] : σ → Exchange → σ → Prop
  | nil (o : σ) : Asked o [] o
  | cons {o o' last : σ} {request : ListQuery} {answer : Except Failure Page} {rest : Exchange} :
      (MailService.listMessages request).run o = (answer, o') → Asked o' rest last →
      Asked o ((request, answer) :: rest) last

/-! ### Any service -/

section Any

variable {σ : Type} [MailService σ] {q : Query} {limit : Option Nat}

/-- The listing of a query page by page, and what it answers. -/
structure Paged (q : Query) (base : ListQuery) (limit : Option Nat) (s : Session σ)
    (exchange : Exchange) (last : σ) : Prop where
  asked : Asked s.outside exchange last
  orderly : ∀ (before : Exchange) request answer after,
    exchange = before ++ (request, answer) :: after →
    ¬before.Stops limit ∧ request = before.next base limit
  sizes : ∀ request answer, (request, answer) ∈ exchange →
    ∃ n : Nat, request.maxResults = some (n : Rat) ∧ 1 ≤ n ∧ n ≤ 500
  stopped : exchange.Stops limit →
    (messageIds q).run s = (exchange.outcome limit, { s with outside := last })
  endless : ¬exchange.Stops limit → exchange.length = s.settings.pageBudget + 1 ∧
    (messageIds q).run s = (.error endlessListing, { s with outside := last })

theorem pageLimit_eq (limit : Option Nat) (e : Exchange)
    (h : ∀ n ∈ limit, e.listed.length ≤ n) :
    pageLimit (limit.map Nat.cast) e.listed.length = (e.wanted limit : Rat) := by
  cases limit with
  | none => rfl
  | some n =>
    have hsub : ((n : Rat) - (e.listed.length : Rat)) = ((n - e.listed.length : Nat) : Rat) :=
      (Nat.cast_sub (h n rfl)).symm
    exact (congrArg (Runs.lesser · 500) hsub).trans (Runs.lesser_natCast _ 500)

/-- The request for a further page, in terms of the pages so far. -/
theorem followUp_eq (base : ListQuery) (limit : Option Nat) {e : Exchange}
    {token : Option String} (hne : e ≠ []) (htoken : e.token = chosen token) :
    (e.Stops limit → followUp base (limit.map Nat.cast) e.listed token = none) ∧
    (¬e.Stops limit →
      followUp base (limit.map Nat.cast) e.listed token = some (e.next base limit)) := by
  unfold followUp Exchange.next
  rw [← htoken]
  cases hlast : e.token with
  | none => exact ⟨fun _ => rfl, fun h => absurd ⟨hne, .inl hlast⟩ h⟩
  | some token =>
    have hstops : e.Stops limit ↔ ∃ n ∈ limit, n ≤ e.listed.length := by
      simp [Exchange.Stops, hne, hlast]
    have hany : (limit.map (Nat.cast (R := Rat))).any (· ≤ (e.listed.length : Rat)) = true ↔
        e.Stops limit := by
      rw [hstops]
      cases limit <;> simp
    by_cases h : e.Stops limit
    · exact ⟨fun _ => if_pos (hany.mpr h), fun hnot => absurd h hnot⟩
    · refine ⟨fun hyes => absurd hyes h, fun _ => ?_⟩
      have hwanted := pageLimit_eq limit e fun n hn =>
        (not_le.mp fun hle => h (hstops.mpr ⟨n, hn, hle⟩)).le
      rw [← hwanted]
      exact if_neg (mt hany.mp h)

/-- Reading more pages behind some that were read. -/
structure Continued (base : ListQuery) (limit : Option Nat) (budget : Nat) (s : Session σ)
    (e : Exchange) (token : Option String) (more : Exchange) (last : σ) : Prop where
  asked : Asked s.outside more last
  orderly : Exchange.Orderly base limit e more
  stopped : Exchange.Stops limit (e ++ more) →
    (readPages base (limit.map Nat.cast) budget e.listed token).run s =
      (Exchange.outcome none (e ++ more), { s with outside := last })
  endless : ¬Exchange.Stops limit (e ++ more) → more.length = budget ∧
    (readPages base (limit.map Nat.cast) budget e.listed token).run s =
      (.error endlessListing, { s with outside := last })

namespace Continued

variable {base : ListQuery} {budget : Nat} {s : Session σ} {e : Exchange} {request : ListQuery}
  {page : Page}

theorem ne_nil (he : e.getLast? = some (request, .ok page)) : e ≠ [] := by
  rintro rfl
  cases he

theorem token_eq (he : e.getLast? = some (request, .ok page)) :
    e.token = chosen page.nextPageToken := by rw [Exchange.token, he]

/-- Nothing more is read. -/
theorem none (he : e.getLast? = some (request, .ok page)) (h : e.Stops limit) :
    Continued base limit budget s e page.nextPageToken [] s.outside := by
  have hstop := (followUp_eq base limit (ne_nil he) (token_eq he)).1 h
  refine ⟨.nil _, .nil, fun _ => ?_, fun hnot => absurd h (by rwa [List.append_nil] at hnot)⟩
  rw [List.append_nil, Exchange.outcome, he, readPages.eq_def, hstop]
  rfl

/-- The budget is used up. -/
theorem exhausted (he : e.getLast? = some (request, .ok page)) (h : ¬e.Stops limit) :
    Continued base limit 0 s e page.nextPageToken [] s.outside := by
  have hnext := (followUp_eq base limit (ne_nil he) (token_eq he)).2 h
  refine ⟨.nil _, .nil, fun hyes => absurd (by rwa [List.append_nil] at hyes) h,
    fun _ => ⟨rfl, ?_⟩⟩
  rw [readPages.eq_def, hnext]
  rfl

/-- The next page is an error. -/
theorem failed (he : e.getLast? = some (request, .ok page)) (h : ¬e.Stops limit)
    {failure : Failure} {o : σ}
    (hask : (MailService.listMessages (e.next base limit)).run s.outside = (.error failure, o)) :
    Continued base limit (budget + 1) s e page.nextPageToken
      [(e.next base limit, .error failure)] o := by
  have hnext := (followUp_eq base limit (ne_nil he) (token_eq he)).2 h
  have hlast : (e ++ [(e.next base limit, Except.error failure)]).getLast? =
      some (e.next base limit, Except.error failure) := List.getLast?_concat ..
  refine ⟨.cons hask (.nil o), .cons h .nil, fun _ => ?_, fun hnot => ?_⟩
  · rw [Exchange.outcome, hlast, readPages.eq_def, hnext]
    simp only [Call.run_bind, run_onOutside, hask]
  · refine absurd ⟨by simp, .inl ?_⟩ hnot
    rw [Exchange.token, hlast]

/-- One more page, and those behind it. -/
theorem cons (he : e.getLast? = some (request, .ok page)) (h : ¬e.Stops limit) {next : Page} {o : σ}
    (hask : (MailService.listMessages (e.next base limit)).run s.outside = (.ok next, o))
    {more : Exchange} {last : σ}
    (hmore : Continued base limit budget { s with outside := o }
      (e ++ [(e.next base limit, .ok next)]) next.nextPageToken more last) :
    Continued base limit (budget + 1) s e page.nextPageToken
      ((e.next base limit, .ok next) :: more) last := by
  have hnext := (followUp_eq base limit (ne_nil he) (token_eq he)).2 h
  have hrun : (readPages base (limit.map Nat.cast) (budget + 1) e.listed page.nextPageToken).run s =
      (readPages base (limit.map Nat.cast) budget
        (Exchange.listed (e ++ [(e.next base limit, .ok next)])) next.nextPageToken).run
          { s with outside := o } := by
    rw [readPages.eq_def, hnext]
    simp only [Call.run_bind, run_onOutside, hask, Exchange.listed_concat]
  have happend : e ++ (e.next base limit, .ok next) :: more =
      (e ++ [(e.next base limit, .ok next)]) ++ more := List.append_cons ..
  refine ⟨.cons hask hmore.asked, .cons h hmore.orderly, fun hyes => ?_, fun hnot => ?_⟩
  · rw [happend] at hyes ⊢
    exact hrun.trans (hmore.stopped hyes)
  · rw [happend] at hnot
    obtain ⟨hlength, hend⟩ := hmore.endless hnot
    exact ⟨by rw [List.length_cons, hlength], hrun.trans hend⟩

end Continued

/-- The pages after those that were read already, by induction on the budget. -/
theorem exists_continued (base : ListQuery) (limit : Option Nat) (budget : Nat) (s : Session σ)
    {e : Exchange} {request : ListQuery} {page : Page}
    (he : e.getLast? = some (request, .ok page)) :
    ∃ more last, Continued base limit budget s e page.nextPageToken more last := by
  induction budget generalizing s e request page with
  | zero =>
    by_cases h : e.Stops limit
    · exact ⟨_, _, .none he h⟩
    · exact ⟨_, _, .exhausted he h⟩
  | succ budget ih =>
    by_cases h : e.Stops limit
    · exact ⟨_, _, .none he h⟩
    · rcases hask : (MailService.listMessages (e.next base limit)).run s.outside with
        ⟨failure | next, o⟩
      · exact ⟨_, _, .failed he h hask⟩
      · obtain ⟨more, last, hmore⟩ := ih { s with outside := o } (List.getLast?_concat ..)
        exact ⟨_, _, .cons he h hask hmore⟩

/-- The listing of a query is a first page and those behind it. -/
theorem messageIds_run (hlimit : q.limit = limit.map Nat.cast) (s : Session σ)
    {search : Option String} (hsearch : q.searchText s.settings = .ok search) :
    let first := Exchange.next (q.listing search) limit []
    (messageIds q).run s =
      match (MailService.listMessages first).run s.outside with
      | (.error failure, o) => (.error failure, { s with outside := o })
      | (.ok page, o) =>
        match (readPages first (limit.map Nat.cast) s.settings.pageBudget page.ids
            page.nextPageToken).run { s with outside := o } with
        | (.ok ids, t) => (.ok (Exchange.cut limit ids), t)
        | (.error failure, t) => (.error failure, t) := by
  intro first
  have hfirst : ({
      search := chosen search
      labelIds := q.labels.map fun tags => tags.map (·.id)
      maxResults := some (pageLimit (limit.map Nat.cast) 0)
      includeTrash := q.includeTrash } : ListQuery) = first := by
    have hwanted := pageLimit_eq limit [] fun n _ => Nat.zero_le n
    exact congrArg (fun wanted => { q.listing search with maxResults := some wanted }) hwanted
  simp only [messageIds, Call.run_bind, Call.run_get, hsearch, ofExcept, Call.run_pure, hlimit,
    hfirst, run_onOutside]
  rcases (MailService.listMessages first).run s.outside with ⟨failure | page, o⟩
  · rfl
  · dsimp only
    rcases (readPages first (limit.map Nat.cast) s.settings.pageBudget page.ids
      page.nextPageToken).run { s with outside := o } with ⟨failure | ids, t⟩
    · rfl
    · cases limit with
      | none => rfl
      | some n => exact congrArg (fun cut => (Except.ok cut, t)) (Runs.slice_zero_natCast ids n)

/-- The pages of a query: the first one, and those behind it. -/
theorem exists_paged (hlimit : q.limit = limit.map Nat.cast) (hpositive : ∀ n ∈ limit, 0 < n)
    (s : Session σ) {search : Option String} (hsearch : q.searchText s.settings = .ok search) :
    ∃ exchange last, Paged q (q.listing search) limit s exchange last := by
  have hrun := messageIds_run hlimit s hsearch
  let first := Exchange.next (q.listing search) limit []
  rcases hask : (MailService.listMessages first).run s.outside with ⟨failure | page, o⟩
  · have horderly : Exchange.Orderly (q.listing search) limit [] [(first, .error failure)] :=
      .cons Exchange.not_stops_nil .nil
    refine ⟨[(first, .error failure)], o, .cons hask (.nil o), horderly,
      fun _ _ => horderly.sizes hpositive, fun _ => ?_, fun hnot => ?_⟩
    · rw [hrun, hask]
      rfl
    · exact absurd ⟨List.cons_ne_nil _ _, .inl rfl⟩ hnot
  · obtain ⟨more, last, hmore⟩ := exists_continued first limit s.settings.pageBudget
      { s with outside := o } (e := [(first, .ok page)]) rfl
    have hlisted : Exchange.listed [(first, .ok page)] = page.ids := by
      simp [Exchange.listed]
    have hstopped := hmore.stopped
    have hendless := hmore.endless
    rw [hlisted, List.singleton_append] at hstopped hendless
    -- The requests behind the first one change nothing else of it.
    have horderly : Exchange.Orderly (q.listing search) limit [] ((first, .ok page) :: more) :=
      .cons Exchange.not_stops_nil hmore.orderly
    refine ⟨(first, .ok page) :: more, last, .cons hask hmore.asked, horderly,
      fun _ _ => horderly.sizes hpositive, fun hyes => ?_, fun hnot => ?_⟩
    · rw [hrun, hask]
      dsimp only
      rw [hstopped hyes, Exchange.outcome_none limit]
      cases Exchange.outcome none ((first, .ok page) :: more) <;> rfl
    · obtain ⟨hlength, hend⟩ := hendless hnot
      rw [hrun, hask]
      dsimp only
      rw [hend]
      exact ⟨by rw [List.length_cons, hlength], rfl⟩

end Any

/-! ### The store -/

section InStore

variable {q : Query} {limit : Option Nat} {s : Session Bench}

/-- The store answers every request for a page, and keeps its messages. -/
theorem Asked.pages {o last : Bench} {exchange : Exchange} (h : Asked o exchange last)
    (hfree : o.store.planned.get? .listMessages = none) :
    ∀ request answer, (request, answer) ∈ exchange → answer = .ok (o.store.page request) := by
  induction h with
  | nil => simp
  | @cons o o' last request answer rest hask _ ih =>
    obtain ⟨rfl, rfl⟩ := Prod.mk.inj (hask.symm.trans (Bench.listMessages_run request hfree))
    intro other later hmem
    rcases List.mem_cons.mp hmem with heq | hrest
    · obtain ⟨rfl, rfl⟩ := Prod.mk.inj heq
      rfl
    · exact ih hfree other later hrest

/-- What the pages so far list: the ids up to some place in the list, and a token for the rest. -/
structure ReadUpTo (ids : List String) (e : Exchange) (stop : Nat) : Prop where
  le : stop ≤ ids.length
  listed : e.listed = ids.take stop
  token : e ≠ [] → e.token =
    if stop < ids.length then some (Number.ofRat (stop : Rat)).text else none
  start : e = [] → stop = 0
  long : stop < ids.length → e.length ≤ stop

/-- Each page goes on where the one before ended. -/
theorem exists_readUpTo {base : ListQuery} {last : Bench} {exchange : Exchange}
    (hpaged : Paged q base limit s exchange last)
    (hfree : s.outside.store.planned.get? .listMessages = none)
    (hfiled : s.outside.store.Filed) (hsize : 1 ≤ s.outside.store.pageSize)
    (hfew : (s.outside.store.matching base).length < 2 ^ 53) (before after : Exchange)
    (heq : exchange = before ++ after) :
    ∃ stop, ReadUpTo (s.outside.store.matching base) before stop := by
  induction before using List.reverseRecOn generalizing after with
  | nil => exact ⟨0, Nat.zero_le _, rfl, fun h => absurd rfl h, fun _ => rfl, fun _ => le_rfl⟩
  | append_singleton before asked ih =>
    obtain ⟨request, answer⟩ := asked
    rw [List.append_assoc, List.singleton_append] at heq
    obtain ⟨stop, hr⟩ := ih _ heq
    obtain ⟨hwanted, rfl⟩ := hpaged.orderly before request answer after heq
    have hmem : (Exchange.next base limit before, answer) ∈ exchange := by simp [heq]
    obtain rfl := hpaged.asked.pages hfree _ _ hmem
    obtain ⟨asked, hasked, hsome, -⟩ := hpaged.sizes _ _ hmem
    -- The next page begins where the pages so far end.
    have hoffset : Store.offset (Exchange.next base limit before) = stop ∧
        (before ≠ [] → stop < (s.outside.store.matching base).length) := by
      cases before with
      | nil =>
        rw [hr.start rfl]
        exact ⟨rfl, fun h => absurd rfl h⟩
      | cons first before =>
        have hne : first :: before ≠ [] := List.cons_ne_nil _ _
        have htoken := hr.token hne
        by_cases hmore : stop < (s.outside.store.matching base).length
        · rw [if_pos hmore] at htoken
          have hlong := hr.long hmore
          rw [List.length_cons] at hlong
          exact ⟨Store.offset_text (by omega) (by omega) htoken, fun _ => hmore⟩
        · rw [if_neg hmore] at htoken
          exact absurd ⟨hne, .inl htoken⟩ hwanted
    obtain ⟨hoffset, hmore⟩ := hoffset
    obtain ⟨stop', hle, hend, hlt, hpage⟩ :=
      Store.page_eq hfiled hoffset hr.le hasked hsome hsize
    have hmatching : s.outside.store.matching (Exchange.next base limit before) =
        s.outside.store.matching base := rfl
    rw [hmatching] at hend hlt hpage
    rw [hpage]
    refine ⟨stop', hend, ?_, fun _ => ?_, fun h => by simp at h, fun hrest => ?_⟩
    · rw [Exchange.listed_concat, hr.listed]
      have hfront : (s.outside.store.matching base).take stop =
          ((s.outside.store.matching base).take stop').take stop := by
        rw [List.take_take, Nat.min_eq_left hle]
      rw [hfront, List.take_append_drop]
    · rw [Exchange.token_concat]
      dsimp only
      by_cases hrest : stop' < (s.outside.store.matching base).length
      · have hpos := hlt (by omega)
        rw [if_pos hrest, Store.chosen_text (by omega) (by omega)]
      · rw [if_neg hrest]
        rfl
    · have hlater := hlt (by omega)
      have hlong := hr.long (by omega)
      rw [List.length_append, List.length_singleton]
      omega

/-- Listing the messages of the store ends with the ids on the list, as many as are wanted. -/
theorem messageIds_store (hlimit : q.limit = limit.map Nat.cast) (hpositive : ∀ n ∈ limit, 0 < n)
    {search : Option String} (hsearch : q.searchText s.settings = .ok search)
    (hfree : s.outside.store.planned.get? .listMessages = none)
    (hfiled : s.outside.store.Filed) (hsize : 1 ≤ s.outside.store.pageSize)
    (hfew : (s.outside.store.matching (q.listing search)).length < 2 ^ 53)
    (hbudget : (s.outside.store.matching (q.listing search)).length ≤
      s.settings.pageBudget + 1) :
    ((messageIds q).run s).1 =
      .ok (Exchange.cut limit (s.outside.store.matching (q.listing search))) := by
  obtain ⟨exchange, last, hpaged⟩ := exists_paged hlimit hpositive s hsearch
  obtain ⟨stop, hr⟩ := exists_readUpTo hpaged hfree hfiled hsize hfew exchange []
    (List.append_nil _).symm
  by_cases h : exchange.Stops limit
  case neg =>
    obtain ⟨hlength, -⟩ := hpaged.endless h
    have hne : exchange ≠ [] := List.ne_nil_of_length_pos (by omega)
    have htoken := hr.token hne
    split at htoken
    case isTrue hmore =>
      have hlong := hr.long hmore
      omega
    case isFalse => exact absurd ⟨hne, .inl htoken⟩ h
  case pos =>
    rw [hpaged.stopped h]
    obtain ⟨hne, hwhy⟩ := h
    obtain ⟨⟨request, answer⟩, hlast⟩ :=
      Option.ne_none_iff_exists'.mp (mt List.getLast?_eq_none_iff.mp hne)
    obtain rfl := hpaged.asked.pages hfree _ _ (List.mem_of_getLast? hlast)
    have houtcome : exchange.outcome limit = .ok (Exchange.cut limit exchange.listed) := by
      rw [Exchange.outcome, hlast]
    rw [houtcome, hr.listed]
    obtain hend | ⟨n, rfl, hn⟩ := hwhy
    · have htoken := hr.token hne
      rw [hend] at htoken
      split at htoken
      case isTrue => cases htoken
      case isFalse hend =>
        rw [List.take_of_length_le (not_lt.mp hend)]
    · rw [hr.listed, List.length_take] at hn
      rw [Exchange.cut, Exchange.cut, List.take_take, Nat.min_eq_left (by omega)]

/-- Listing the messages of a query reads pages in order until one is an error, has no token, or
brings enough ids. Every page is asked for where the one before ended, and for as many ids as are
still wanted, at most five hundred; what comes of the pages is that error, or their ids, as many as
are wanted. Only a listing that outlasts the budget of pages is given up. The store gives the ids of
its messages on the list, each once and in order. -/
theorem messageIds_by_pages (hlimit : q.limit = limit.map Nat.cast)
    (hpositive : ∀ n ∈ limit, 0 < n) :
    (∀ {σ : Type} [MailService σ] (s : Session σ) {search : Option String},
      q.searchText s.settings = .ok search →
        ∃ exchange last, Paged q (q.listing search) limit s exchange last) ∧
    ∀ (s : Session Bench) {search : Option String}, q.searchText s.settings = .ok search →
      s.outside.store.planned.get? .listMessages = none → s.outside.store.Filed →
      1 ≤ s.outside.store.pageSize →
      let ids := s.outside.store.matching (q.listing search)
      ids.length < 2 ^ 53 → ids.length ≤ s.settings.pageBudget + 1 →
        ((messageIds q).run s).1 = .ok (Exchange.cut limit ids) ∧ ids.Nodup := by
  refine ⟨fun s _ hsearch => exists_paged hlimit hpositive s hsearch, ?_⟩
  intro s search hsearch hfree hfiled hsize ids hfew hbudget
  exact ⟨messageIds_store hlimit hpositive hsearch hfree hfiled hsize hfew hbudget,
    Store.matching_nodup hfiled _⟩

/-- Three of five messages are wanted, on pages of two: the second page is asked for one id. -/
theorem messageIds_by_pages_three :
    let message (id : String) : Message.Resource := { id := some id, labelIds := some ["INBOX"] }
    let store : Store := ["a", "b", "c", "d", "e"].foldl (fun s id => s.seedMessage (message id))
      { Store.initial with pageSize := 2 }
    let s : Session Bench := { outside := { store } }
    let q : Query := { limit := some 3 }
    ∃ exchange last, Paged q (q.listing none) (some 3) s exchange last ∧
      ((messageIds q).run s).1 = .ok ["a", "b", "c"] ∧
      last.store.calls = [.listMessages { maxResults := some 3 },
        .listMessages { maxResults := some 1, pageToken := some "2" }] := by
  intro message store s q
  have hfiled : store.Filed := ⟨by decide +kernel, by decide +kernel⟩
  have hlimit : q.limit = (some 3 : Option Nat).map Nat.cast := rfl
  obtain ⟨hany, hstore⟩ := messageIds_by_pages hlimit (by simp)
  obtain ⟨exchange, last, hpaged⟩ := hany s rfl
  have hlast : ((messageIds q).run s).2.outside = last := by
    by_cases h : exchange.Stops (some 3)
    · rw [hpaged.stopped h]
    · rw [(hpaged.endless h).2]
  have hids := (hstore s rfl rfl hfiled (by decide) (by decide +kernel) (by decide +kernel)).1
  refine ⟨exchange, last, hpaged, hids.trans (congrArg Except.ok ?_), ?_⟩
  · decide +kernel
  · rw [← hlast]
    decide +kernel

end InStore

end Session

end Mailroom
