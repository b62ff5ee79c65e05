import Mailroom.Proofs.Data.Runs
import Mailroom.Proofs.Number.Whole
import Mailroom.Proofs.Remote.Answers

/-! The pages of the store. A page holds the ids on the list from its offset on, as many as fit, and
its token is the offset of the next page, which is read back as it was written. -/

namespace Mailroom.Remote

namespace Store

variable {s t : Store} {q : ListQuery}

/-- The ids of the messages on the list of a query, in order. -/
def matching (s : Store) (q : ListQuery) : List String :=
  (s.messages.entries.filter fun entry => isListed q entry.2).map Prod.fst

/-- Every message is kept under its own id, each once. -/
structure Filed (s : Store) : Prop where
  own : ∀ entry ∈ s.messages.entries, entry.2.id = some entry.1
  nodup : s.messages.keys.Nodup

theorem matching_nodup (h : s.Filed) (q : ListQuery) : (s.matching q).Nodup :=
  h.nodup.sublist (List.filter_sublist.map _)

/-- Where the page of a query begins. -/
def offset (q : ListQuery) : Rat :=
  match LabelBody.chosen q.pageToken with
  | some token => ((Number.read token).toRat?).getD 0
  | none => 0

theorem values_filter (s : Store) (q : ListQuery) : s.messages.values.filter (isListed q) =
    (s.messages.entries.filter fun entry => isListed q entry.2).map Prod.snd :=
  List.filter_map

theorem filterMap_id (h : s.Filed) {entries : List (String × Message.Resource)}
    (hentries : ∀ entry ∈ entries, entry ∈ s.messages.entries) :
    (entries.map Prod.snd).filterMap (·.id) = entries.map Prod.fst := by
  have hown : ∀ entry ∈ entries, entry.2.id = some entry.1 := fun entry hentry =>
    h.own entry (hentries entry hentry)
  rw [List.filterMap_map, ← List.filterMap_eq_map]
  exact List.filterMap_congr hown

theorem page_of_shown {shown : List Message.Resource} (hshown : Runs.slice
      (s.messages.values.filter (isListed q)) (offset q)
      (offset q + Runs.lesser (q.maxResults.getD s.pageSize) s.pageSize) = shown) :
    s.page q = ⟨shown.filterMap (·.id),
      if offset q + (shown.length : Rat) <
          ((s.messages.values.filter (isListed q)).length : Rat) then
        some (Number.ofRat (offset q + shown.length)).text
      else none⟩ := by
  subst hshown
  rfl

/-- The page at an offset goes on to some later one; at the end of the list there is no token. -/
theorem page_eq (h : s.Filed) {start : Nat} (hstart : offset q = start)
    (hle : start ≤ (s.matching q).length) {asked : Nat} (hasked : q.maxResults = some (asked : Rat))
    (hsome : 1 ≤ asked) (hsize : 1 ≤ s.pageSize) :
    ∃ stop, start ≤ stop ∧ stop ≤ (s.matching q).length ∧
      (start < (s.matching q).length → start < stop) ∧
      s.page q = ⟨((s.matching q).take stop).drop start,
        if stop < (s.matching q).length then some (Number.ofRat (stop : Rat)).text else none⟩ := by
  let entries := s.messages.entries.filter fun entry => isListed q entry.2
  have hlength : (s.matching q).length = entries.length := List.length_map ..
  let room := Runs.lesser (asked : Rat) s.pageSize
  have hroom : (1 : Rat) ≤ room := by
    simp only [room, Runs.lesser]
    split
    · exact hsize
    · exact_mod_cast hsome
  have hwhole : (1 : Int) ≤ room.floor := Rat.le_floor_iff.mpr (by simpa using hroom)
  obtain ⟨stop, hstop⟩ : ∃ stop, min (start + room.floor.toNat) entries.length = stop := ⟨_, rfl⟩
  have hshown : Runs.slice (s.messages.values.filter (isListed q)) (offset q)
      (offset q + Runs.lesser (q.maxResults.getD s.pageSize) s.pageSize) =
      ((entries.take stop).drop start).map Prod.snd := by
    rw [values_filter, hstart, hasked, Option.getD_some,
      Runs.slice_natCast_add _ _ (le_trans (by decide) hroom), ← List.map_take, ← List.map_drop,
      List.take_eq_take_min, hstop]
  have hids : ∀ entry ∈ (entries.take stop).drop start, entry ∈ s.messages.entries :=
    fun entry hentry =>
      List.mem_of_mem_filter (List.mem_of_mem_take (List.mem_of_mem_drop hentry))
  have hend : offset q + ((((entries.take stop).drop start).map Prod.snd).length : Rat) =
      (stop : Rat) := by
    rw [hstart, List.length_map, List.length_drop, List.length_take]
    have hsum : start + (min stop entries.length - start) = stop := by omega
    exact_mod_cast congrArg (Nat.cast (R := Rat)) hsum
  refine ⟨stop, by omega, by omega, by omega, ?_⟩
  rw [page_of_shown hshown, filterMap_id h hids, hend, values_filter, List.length_map, hlength,
    matching, ← List.map_take, ← List.map_drop]
  simp only [Nat.cast_lt]
  rfl

theorem listMessages_run (q : ListQuery) (h : s.planned.get? .listMessages = none) :
    (MailService.listMessages (σ := Store) q).run s =
      (.ok (s.page q), s.logged (.listMessages q)) := by
  simp only [MailService.listMessages, Call.run_bind, record_run (.listMessages q) h]
  rfl

/-! ### Tokens -/

section Tokens

variable {n : Nat} (hpos : 0 < n) (hn : n < 2 ^ 53)
include hpos hn

theorem chosen_text :
    LabelBody.chosen (some (Number.ofRat (n : Rat)).text) = some (Number.ofRat (n : Rat)).text := by
  have hread := Number.read_text_ofRat hn
  have hne : (Number.ofRat (n : Rat)).text ≠ "" := by
    intro hempty
    rw [hempty, show (Number.read "").toRat? = some 0 by decide +kernel] at hread
    have hzero : (0 : Rat) = n := Option.some.inj hread
    exact hpos.ne (by exact_mod_cast hzero)
  simp [LabelBody.chosen, Option.filter, hne]

/-- The token of a page is read as the offset it was made of. -/
theorem offset_text (h : q.pageToken = some (Number.ofRat (n : Rat)).text) : offset q = n := by
  rw [offset, h, chosen_text hpos hn]
  dsimp only
  rw [Number.read_text_ofRat hn, Option.getD_some]

end Tokens

end Store

theorem Bench.run_onStore {α : Type} (x : Call Store α) (b : Bench) : (onStore x).run b =
    ((x.run b.store).1, { b with store := (x.run b.store).2 }) := rfl

theorem Bench.listMessages_run {b : Bench} (q : ListQuery)
    (h : b.store.planned.get? .listMessages = none) :
    (MailService.listMessages (σ := Bench) q).run b =
      (.ok (b.store.page q), { b with store := b.store.logged (.listMessages q) }) := by
  rw [show MailService.listMessages q = onStore (MailService.listMessages q) from rfl,
    run_onStore, Store.listMessages_run q h]

end Mailroom.Remote

