import Mathlib.Data.List.Lex
import Mathlib.Data.List.Sort
import Mailroom.Message.Basic

/-! What is read of the parts of a message. A part stands at a place, the way down to it by
positions among parts; places in lexicographic order put a part before the parts in it, and what is
in a part before what is in a later one. The walk through a tree meets the part at every place once,
in that order. So the bodies and the attachments of a message are what is read at its places, in
their order, and no part is read for two of them. -/

namespace Mailroom.Message

/-- A way down a tree of parts, by positions among the parts of a part. -/
abbrev Place := List Nat

namespace Part

/-- The part at a place. -/
def at? : Part → Place → Option Part
  | p, [] => some p
  | p, i :: rest => p.parts[i]?.bind fun q => q.at? rest

mutual

/-- The places of a tree, in the order of the walk. -/
def places : Part → List Place
  | mk _ _ _ _ parts => [] :: placesFrom 0 parts

/-- The places below parts that stand side by side, from a position on. -/
def placesFrom : Nat → List Part → List Place
  | _, [] => []
  | i, p :: rest => p.places.map (i :: ·) ++ placesFrom (i + 1) rest

end

mutual

/-- A property that passes from the parts of a part to the part itself. -/
theorem induction {motive : Part → Prop} (step : ∀ p, (∀ q ∈ p.parts, motive q) → motive p) :
    ∀ p, motive p
  | mk _ _ _ _ parts => step _ (inductionAll step parts)

theorem inductionAll {motive : Part → Prop} (step : ∀ p, (∀ q ∈ p.parts, motive q) → motive p) :
    ∀ parts : List Part, ∀ q ∈ parts, motive q
  | [], _, hq => nomatch hq
  | p :: rest, q, hq =>
    match List.mem_cons.mp hq with
    | .inl heq => heq ▸ induction step p
    | .inr hrest => inductionAll step rest q hrest

end

/-! ### Places -/

variable {p : Part}

theorem placesFrom_eq (i : Nat) (parts : List Part) :
    placesFrom i parts = (parts.zipIdx i).flatMap fun e => e.1.places.map (e.2 :: ·) := by
  induction parts generalizing i with
  | nil => simp [placesFrom]
  | cons q rest ih => simp [placesFrom, List.zipIdx_cons, ih]

theorem places_eq (p : Part) :
    p.places = [] :: p.parts.zipIdx.flatMap fun e => e.1.places.map (e.2 :: ·) := by
  obtain ⟨mimeType, filename, headers, content, inner⟩ := p
  rw [places, placesFrom_eq, parts]

theorem walkAll_eq (parts : List Part) : walkAll parts = parts.flatMap walk := by
  induction parts with
  | nil => rfl
  | cons q rest ih => rw [walkAll, ih, List.flatMap_cons]

theorem walk_eq (p : Part) : p.walk = p :: p.parts.flatMap walk := by
  obtain ⟨mimeType, filename, headers, content, inner⟩ := p
  rw [walk, walkAll_eq, parts]

/-- The walk meets the parts at all places, in the order of the places. -/
theorem map_at?_places (p : Part) : p.places.map p.at? = p.walk.map some := by
  induction p using Part.induction with
  | step p ih =>
    have hbelow : ∀ e ∈ p.parts.zipIdx,
        (e.1.places.map (e.2 :: ·)).map p.at? = e.1.walk.map some := by
      intro e he
      have hpart := List.mem_zipIdx_iff_getElem?.mp he
      rw [← ih e.1 (List.mem_of_getElem? hpart), List.map_map]
      refine List.map_congr_left fun place _ => ?_
      simp [at?, hpart]
    rw [places_eq, walk_eq, List.map_cons, List.map_cons, List.map_flatMap, List.map_flatMap,
      List.flatMap_congr hbelow]
    conv_rhs => rw [← List.zipIdx_map_fst 0 p.parts, List.flatMap_map]
    rfl

theorem mem_places {place : Place} : place ∈ p.places ↔ (p.at? place).isSome := by
  induction p using Part.induction generalizing place with
  | step p ih =>
    rw [places_eq]
    cases place with
    | nil => simp [at?]
    | cons i rest =>
      have hstep : i :: rest ∈ (p.parts.zipIdx.flatMap fun e => e.1.places.map (e.2 :: ·)) ↔
          ∃ q, p.parts[i]? = some q ∧ rest ∈ q.places := by
        simp only [List.mem_flatMap, List.mem_map, List.cons.injEq, Prod.exists,
          List.mk_mem_zipIdx_iff_getElem?]
        constructor
        · rintro ⟨q, j, hq, place, hplace, rfl, rfl⟩
          exact ⟨q, hq, hplace⟩
        · rintro ⟨q, hq, hplace⟩
          exact ⟨q, i, hq, rest, hplace, rfl, rfl⟩
      rw [List.mem_cons, hstep]
      cases hq : p.parts[i]? with
      | none => simp [at?, hq]
      | some q => simp [at?, hq, ih q (List.mem_of_getElem? hq)]

theorem pairwise_snd_zipIdx {α : Type} (l : List α) (i : Nat) :
    (l.zipIdx i).Pairwise fun e e' => e.2 < e'.2 := by
  induction l generalizing i with
  | nil => exact .nil
  | cons a l ih =>
    rw [List.zipIdx_cons, List.pairwise_cons]
    exact ⟨fun e he => List.le_snd_of_mem_zipIdx he, ih (i + 1)⟩

theorem pairwise_places (p : Part) : p.places.Pairwise (· < ·) := by
  induction p using Part.induction with
  | step p ih =>
    rw [places_eq, List.pairwise_cons, List.pairwise_flatMap]
    refine ⟨fun place hplace => ?_, fun e he => ?_, ?_⟩
    · obtain ⟨e, -, hplace⟩ := List.mem_flatMap.mp hplace
      obtain ⟨rest, -, rfl⟩ := List.mem_map.mp hplace
      exact List.nil_lt_cons _ _
    · have hpart := List.mem_of_getElem? (List.mem_zipIdx_iff_getElem?.mp he)
      rw [List.pairwise_map]
      exact (ih e.1 hpart).imp fun hlt => List.cons_lt_cons_iff.mpr (.inr ⟨rfl, hlt⟩)
    · refine (pairwise_snd_zipIdx p.parts 0).imp fun hlt place hplace place' hplace' => ?_
      obtain ⟨rest, -, rfl⟩ := List.mem_map.mp hplace
      obtain ⟨rest', -, rfl⟩ := List.mem_map.mp hplace'
      exact List.cons_lt_cons_iff.mpr (.inl hlt)

/-- A page and its picture between two texts. -/
example :
    let leaf (type : String) : Part := .mk (some type) none [] {} []
    let page := Part.mk none none [] {} [leaf "text/html", leaf "image/png"]
    (Part.mk none none [] {} [leaf "text/plain", page, leaf "text/plain"]).places =
      [[], [0], [1], [1, 0], [1, 1], [2]] := by
  rfl

/-! ### Readings -/

section Gathers

variable {α : Type} {values : List α} {read : Part → Option α} {reads : Part → α → Prop}

/-- What is read at the places of a tree: a value at every place whose part is read, in the order of
the places. -/
def Gathers (p : Part) (reads : Part → α → Prop) (values : List α) : Prop :=
  ∃ places : List Place, places.Pairwise (· < ·) ∧
    (∀ place, place ∈ places ↔ ∃ x q, p.at? place = some q ∧ reads q x) ∧
    List.Forall₂ (fun place x => ∃ q, p.at? place = some q ∧ reads q x) places values

/-- What is read of the part at a place. -/
def readAt (p : Part) (read : Part → Option α) (place : Place) : Option α :=
  (p.at? place).bind read

theorem readAt_eq_some_iff (hreads : ∀ q x, read q = some x ↔ reads q x) {place : Place} {x : α} :
    p.readAt read place = some x ↔ ∃ q, p.at? place = some q ∧ reads q x := by
  simp only [readAt, Option.bind_eq_some_iff, hreads]

theorem filterMap_walk (p : Part) (read : Part → Option α) :
    p.walk.filterMap read = p.places.filterMap (p.readAt read) := by
  have hwalk : p.walk.filterMap read = (p.walk.map some).filterMap (·.bind read) := by
    rw [List.filterMap_map]
    rfl
  rw [hwalk, ← map_at?_places, List.filterMap_map]
  rfl

theorem forall₂_read_iff {f : Place → Option α} {places : List Place}
    (hread : ∀ place ∈ places, ∃ x, f place = some x) :
    List.Forall₂ (fun place x => f place = some x) places values ↔
      values = places.filterMap f := by
  induction places generalizing values with
  | nil => simp
  | cons place rest ih =>
    obtain ⟨⟨x, hx⟩, hrest⟩ := List.forall_mem_cons.mp hread
    rw [List.forall₂_cons_left_iff, List.filterMap_cons_some hx]
    constructor
    · rintro ⟨y, rest', hy, hforall, rfl⟩
      rw [(ih hrest).mp hforall, Option.some.inj (hx.symm.trans hy)]
    · rintro rfl
      exact ⟨x, _, hx, (ih hrest).mpr rfl, rfl⟩

/-- Places in order at which something is read, and no others, are those of the tree without the
places at which nothing is. -/
theorem places_read_iff {places : List Place} :
    (places.Pairwise (· < ·) ∧ ∀ place, place ∈ places ↔ ∃ x, p.readAt read place = some x) ↔
      places = p.places.filter fun place => (p.readAt read place).isSome := by
  have hfilter : ∀ place, place ∈ (p.places.filter fun place => (p.readAt read place).isSome) ↔
      ∃ x, p.readAt read place = some x := by
    intro place
    rw [List.mem_filter, mem_places, ← Option.isSome_iff_exists]
    exact ⟨And.right, fun hsome => ⟨Option.isSome_of_isSome_bind hsome, hsome⟩⟩
  constructor
  · rintro ⟨hpairwise, hmem⟩
    exact hpairwise.eq_of_mem_iff ((pairwise_places p).filter _) fun place =>
      (hmem place).trans (hfilter place).symm
  · rintro rfl
    exact ⟨(pairwise_places p).filter _, hfilter⟩

/-- Reading along the walk gathers what is read, and nothing else does. -/
theorem gathers_iff (hreads : ∀ q x, read q = some x ↔ reads q x) :
    p.Gathers reads values ↔ values = p.walk.filterMap read := by
  simp only [Gathers, ← readAt_eq_some_iff hreads]
  have hvalues : ∀ places : List Place,
      (∀ place, place ∈ places ↔ ∃ x, p.readAt read place = some x) →
      (List.Forall₂ (fun place x => p.readAt read place = some x) places values ↔
        values = places.filterMap (p.readAt read)) :=
    fun places hmem => forall₂_read_iff fun place hplace => (hmem place).mp hplace
  have hsift : (p.places.filter fun place => (p.readAt read place).isSome).filterMap
      (p.readAt read) = p.walk.filterMap read := by
    rw [List.filterMap_filter, filterMap_walk]
    refine List.filterMap_congr fun place _ => ?_
    cases p.readAt read place <;> rfl
  constructor
  · rintro ⟨places, hpairwise, hmem, hforall⟩
    rw [(hvalues places hmem).mp hforall, places_read_iff.mp ⟨hpairwise, hmem⟩, hsift]
  · intro heq
    obtain ⟨hpairwise, hmem⟩ := places_read_iff.mpr (Eq.refl
      (p.places.filter fun place => (p.readAt read place).isSome))
    exact ⟨_, hpairwise, hmem, (hvalues _ hmem).mpr (heq.trans hsift.symm)⟩

end Gathers

/-! ### Bodies and attachments -/

/-- A part of a type that is no file and holds the data of a text. -/
structure HoldsText (mimeType : String) (p : Part) (text : String) : Prop where
  type : p.mimeType = some mimeType
  no_file : ∀ name ∈ p.filename, name = ""
  data : ∃ letters, p.content.data = some letters ∧ letters ≠ "" ∧ text = Text.decodeLetters letters

/-- A part that is a file with an attachment id. Its type may be missing, and its size. -/
structure HoldsFile (p : Part) (a : Attachment) : Prop where
  file : p.filename = some a.filename ∧ a.filename ≠ ""
  id : p.content.attachmentId = some a.id ∧ a.id ≠ ""
  type : a.mimeType = p.mimeType.getD "application/octet-stream"
  size : a.size = p.content.size.getD 0

theorem given_eq_some_iff {s : Option String} {text : String} :
    given s = some text ↔ s = some text ∧ text ≠ "" := by
  simp [given, Option.filter_eq_some_iff]

theorem given_eq_none_iff {s : Option String} : given s = none ↔ ∀ text ∈ s, text = "" := by
  simp [given, Option.filter_eq_none_iff]

theorem body?_eq_some_iff (mimeType : String) (p : Part) (text : String) :
    p.body? mimeType = some text ↔ p.HoldsText mimeType text := by
  have hbody : p.body? mimeType = some text ↔ (p.mimeType = some mimeType ∧
      given p.filename = none) ∧ ∃ letters, given p.content.data = some letters ∧
        Text.decodeLetters letters = text := by
    simp only [body?, Bool.and_eq_true, decide_eq_true_eq, Option.isNone_iff_eq_none,
      Option.ite_none_right_eq_some, Option.map_eq_some_iff]
  rw [hbody]
  simp only [given_eq_none_iff, given_eq_some_iff]
  constructor
  · rintro ⟨⟨htype, hfile⟩, letters, ⟨hdata, hne⟩, rfl⟩
    exact ⟨htype, hfile, letters, hdata, hne, rfl⟩
  · rintro ⟨htype, hfile, letters, hdata, hne, rfl⟩
    exact ⟨⟨htype, hfile⟩, letters, ⟨hdata, hne⟩, rfl⟩

theorem attachment?_eq_some_iff (p : Part) (a : Attachment) :
    p.attachment? = some a ↔ p.HoldsFile a := by
  simp only [attachment?, Option.bind_eq_bind, Option.bind_eq_some_iff, given_eq_some_iff]
  constructor
  · rintro ⟨filename, hfile, id, hid, h⟩
    cases h
    exact ⟨hfile, hid, rfl, rfl⟩
  · obtain ⟨id, filename, mimeType, size⟩ := a
    rintro ⟨hfile, hid, rfl, rfl⟩
    exact ⟨filename, hfile, id, hid, rfl⟩

/-- A part is read for one purpose at most. -/
theorem HoldsText.type_unique {mimeType other text text' : String}
    (h : p.HoldsText mimeType text) (h' : p.HoldsText other text') : mimeType = other :=
  Option.some.inj (h.type.symm.trans h'.type)

theorem HoldsText.not_holdsFile {mimeType text : String} (h : p.HoldsText mimeType text)
    (a : Attachment) : ¬p.HoldsFile a :=
  fun hfile => hfile.file.2 (h.no_file a.filename hfile.file.1)

end Part

/-- The bodies of a message are the texts of the two types that are gathered from its parts, each
with an empty line between them, its attachments are the files that are gathered, and no part is
read for two of the three. -/
theorem ofResource_gathers (r : Resource) (labels : List Label.EntityRef)
    (category : Option Label.EntityRef) :
    let m := ofResource r labels category
    (∃! texts, r.payload.Gathers (Part.HoldsText "text/plain") texts ∧
      m.plainBody = "\n\n".intercalate texts) ∧
    (∃! texts, r.payload.Gathers (Part.HoldsText "text/html") texts ∧
      m.htmlBody = "\n\n".intercalate texts) ∧
    (∀ files, r.payload.Gathers Part.HoldsFile files ↔ files = m.attachments) ∧
    ∀ (p : Part) text text' a, ¬(p.HoldsText "text/plain" text ∧ p.HoldsText "text/html" text') ∧
      ¬(p.HoldsText "text/plain" text ∧ p.HoldsFile a) ∧
      ¬(p.HoldsText "text/html" text ∧ p.HoldsFile a) := by
  intro m
  have hbody : ∀ mimeType, ∃! texts, r.payload.Gathers (Part.HoldsText mimeType) texts ∧
      bodyText mimeType r.payload = "\n\n".intercalate texts := by
    intro mimeType
    have hgathers : ∀ texts, r.payload.Gathers (Part.HoldsText mimeType) texts ↔ _ :=
      fun _ => Part.gathers_iff (Part.body?_eq_some_iff mimeType)
    exact ⟨_, ⟨(hgathers _).mpr rfl, rfl⟩, fun texts htexts => (hgathers texts).mp htexts.1⟩
  refine ⟨hbody "text/plain", hbody "text/html",
    fun _ => Part.gathers_iff Part.attachment?_eq_some_iff, fun p text text' a => ⟨?_, ?_, ?_⟩⟩
  · rintro ⟨hplain, hhtml⟩
    exact absurd (hplain.type_unique hhtml) (by decide)
  · rintro ⟨hplain, hfile⟩
    exact hplain.not_holdsFile a hfile
  · rintro ⟨hhtml, hfile⟩
    exact hhtml.not_holdsFile a hfile

end Mailroom.Message
