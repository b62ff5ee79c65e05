import Mailroom.Message.Fixture
import Mailroom.Proofs.Number.Whole
import Mailroom.Proofs.Session.Reading
import Mailroom.Proofs.Text.Letters

/-! Messages built from plain fields, read back. The resource of a description is read as the
message that was described: its headers, its date, its bodies, its attachment and its labels. -/

namespace Mailroom.Message

open Text (decodeLetters encodeLetters)

variable {s : String}

/-! ### Parts -/

/-- Parts that hold no parts are walked through one after the other. -/
theorem walkAll_leaves {ps : List Part} (h : ∀ p ∈ ps, p.parts = []) : walkAll ps = ps := by
  induction ps with
  | nil => rfl
  | cons p rest ih =>
    obtain ⟨hp, hrest⟩ := List.forall_mem_cons.mp h
    obtain ⟨mimeType, filename, headers, content, parts⟩ := p
    obtain rfl : parts = [] := hp
    rw [walkAll, ih hrest]
    rfl

theorem given_some (s : String) : given (some s) = if s = "" then none else some s := by
  by_cases h : s = "" <;> simp [given, Option.filter, h]

theorem given_of_ne (h : s ≠ "") : given (some s) = some s := by rw [given_some, if_neg h]

/-- Letters that are given are those of a text that is given. -/
theorem given_letters (s : String) :
    (given (some (encodeLetters s))).map decodeLetters = given (some s) := by
  have hread := Text.decodeLetters_encodeLetters s
  by_cases hs : s = ""
  · subst hs
    decide +kernel
  · have hletters : encodeLetters s ≠ "" := by
      intro hnone
      rw [hnone] at hread
      exact hs (hread.symm.trans (by decide +kernel))
    rw [given_of_ne hletters, given_of_ne hs, Option.map_some, hread]

namespace Fixture

theorem textPart_body (mimeType s : String) : (textPart mimeType s).body? mimeType =
    given (some s) := by
  rw [← given_letters s]
  simp [Part.body?, textPart, Part.mimeType, Part.filename, Part.content, given]

theorem textPart_body_of_ne {mimeType other : String} (h : mimeType ≠ other) (s : String) :
    (textPart mimeType s).body? other = none := by
  simp [Part.body?, textPart, Part.mimeType, h]

theorem textPart_attachment (mimeType s : String) : (textPart mimeType s).attachment? = none := rfl

/-- What is told of an attachment. -/
def attachmentOf (a : FixtureAttachment) : Attachment :=
  ⟨a.attachmentId, a.filename, a.mimeType, a.size⟩

variable {a : FixtureAttachment} {f : Fixture}

/-- An attachment is no body, whatever its type is. -/
theorem attachmentPart_body (h : a.filename ≠ "") (mimeType : String) :
    (attachmentPart a).body? mimeType = none := by
  simp [Part.body?, attachmentPart, Part.filename, given_of_ne h]

theorem attachmentPart_attachment (hname : a.filename ≠ "") (hid : a.attachmentId ≠ "") :
    (attachmentPart a).attachment? = some (attachmentOf a) := by
  simp [Part.attachment?, attachmentPart, Part.filename, Part.content, Part.mimeType,
    given_of_ne hname, given_of_ne hid, attachmentOf]

/-- Below the payload there are the parts of the bodies and of the attachment, and nothing else. -/
theorem walk_payload (f : Fixture) : f.resource.payload.walk = f.resource.payload ::
    ((f.plain.map (textPart "text/plain")).toList ++ (f.html.map (textPart "text/html")).toList
      ++ (f.attachment.map attachmentPart).toList) := by
  have hleaves : ∀ p ∈ (f.plain.map (textPart "text/plain")).toList ++
      (f.html.map (textPart "text/html")).toList ++ (f.attachment.map attachmentPart).toList,
      p.parts = [] := by
    intro p hp
    simp only [List.mem_append, Option.mem_toList, Option.map_eq_some_iff] at hp
    obtain (⟨_, _, rfl⟩ | ⟨_, _, rfl⟩) | ⟨_, _, rfl⟩ := hp <;> rfl
  conv_lhs => rw [resource, Part.walk, walkAll_leaves hleaves]
  rfl

/-! ### Fields -/

theorem intercalate_given (separator : String) (text : Option String) :
    separator.intercalate (text.bind fun s => given (some s)).toList = text.getD "" := by
  cases text with
  | none => rfl
  | some s =>
    by_cases hs : s = ""
    · subst hs
      rfl
    · simp [given_of_ne hs]

theorem filterMap_made {α β γ : Type} (made : α → β) (read : β → Option γ) (x : Option α) :
    (x.map made).toList.filterMap read = (x.bind fun y => read (made y)).toList := by
  cases x with
  | none => rfl
  | some y => cases h : read (made y) <;> simp [h]

theorem payload_body (f : Fixture) {mimeType : String} (h : mimeType ≠ "multipart/mixed") :
    f.resource.payload.body? mimeType = none := by
  simp [Part.body?, resource, Part.mimeType, h.symm]

/-- The parts of a type that hold texts. -/
theorem bodies_resource (hattachment : ∀ a ∈ f.attachment, a.filename ≠ "") {mimeType : String}
    (h : mimeType ≠ "multipart/mixed") :
    f.resource.payload.walk.filterMap (Part.body? mimeType) =
      (f.plain.bind fun s => (textPart "text/plain" s).body? mimeType).toList ++
        (f.html.bind fun s => (textPart "text/html" s).body? mimeType).toList := by
  have hnone : (f.attachment.bind fun a => (attachmentPart a).body? mimeType) = none :=
    Option.bind_eq_none_iff.mpr fun a ha => attachmentPart_body (hattachment a ha) mimeType
  rw [walk_payload, List.filterMap_cons_none (payload_body f h), List.filterMap_append,
    List.filterMap_append, filterMap_made, filterMap_made, filterMap_made, hnone, Option.toList_none,
    List.append_nil]

theorem bodyText_plain (hattachment : ∀ a ∈ f.attachment, a.filename ≠ "") :
    bodyText "text/plain" f.resource.payload = f.plain.getD "" := by
  rw [bodyText, bodies_resource hattachment (by decide)]
  simp only [textPart_body, textPart_body_of_ne (show "text/html" ≠ "text/plain" by decide),
    Option.bind_fun_none, Option.toList_none, List.append_nil, intercalate_given]

theorem bodyText_html (hattachment : ∀ a ∈ f.attachment, a.filename ≠ "") :
    bodyText "text/html" f.resource.payload = f.html.getD "" := by
  rw [bodyText, bodies_resource hattachment (by decide)]
  simp only [textPart_body, textPart_body_of_ne (show "text/plain" ≠ "text/html" by decide),
    Option.bind_fun_none, Option.toList_none, List.nil_append, intercalate_given]

theorem attachmentsIn_resource
    (hattachment : ∀ a ∈ f.attachment, a.filename ≠ "" ∧ a.attachmentId ≠ "") :
    attachmentsIn f.resource.payload = (f.attachment.map attachmentOf).toList := by
  have hpayload : f.resource.payload.attachment? = none := rfl
  have hfile : (f.attachment.bind fun a => (attachmentPart a).attachment?) =
      f.attachment.map attachmentOf := by
    cases hf : f.attachment with
    | none => rfl
    | some a =>
      obtain ⟨hname, hid⟩ := hattachment a hf
      exact attachmentPart_attachment hname hid
  rw [attachmentsIn, walk_payload, List.filterMap_cons_none hpayload, List.filterMap_append,
    List.filterMap_append, filterMap_made, filterMap_made, filterMap_made, hfile]
  simp only [textPart_attachment, Option.bind_fun_none, Option.toList_none, List.nil_append]

theorem headerText_subject (f : Fixture) :
    headerText f.resource.payload.headers "subject" = f.subject := by
  have hother : ∀ name value, Text.lowerAscii name ≠ "subject" →
      (header? name value).filter (fun h => h.name.map Text.lowerAscii == some "subject") = [] := by
    intro name value hname
    unfold header?
    split
    · rfl
    · simp [hname]
  have hsubject : Text.lowerAscii "Subject" = "subject" := by decide +kernel
  change headerText (header? "From" f.sender ++ header? "To" f.recipients ++
    header? "Cc" f.copies ++ [⟨some "Subject", some f.subject⟩]) "subject" = f.subject
  simp only [headerText, List.filter_append, hother _ _ (show Text.lowerAscii "From" ≠ _ by
    decide +kernel), hother _ _ (show Text.lowerAscii "To" ≠ _ by decide +kernel),
    hother _ _ (show Text.lowerAscii "Cc" ≠ _ by decide +kernel), List.nil_append]
  by_cases hempty : f.subject = "" <;> simp [hsubject, hempty]

/-- A whole date within the range is read back. -/
theorem dateOf_resource {ms : Int} (hdate : f.date.same (.ofInt ms) = true)
    (hms : ms.natAbs ≤ Instant.limit) : dateOf f.resource.internalDate = some ⟨ms, hms⟩ := by
  have hsize : ms.natAbs < 2 ^ 53 := Nat.lt_of_le_of_lt hms (by decide)
  change ((Number.read f.date.text).truncate?).bind Instant.ofMs? = _
  rw [Number.text_of_same hdate, Number.read_text_ofInt hsize, Number.truncate?_ofInt hsize,
    Option.bind_some, Instant.ofMs?, dif_pos hms]

end Fixture

end Mailroom.Message

namespace Mailroom.Session

open Label (EntityRef)
open Message (Fixture)
open Remote (Bench Store)

variable {s t : Session Bench}

/-- When the labels of a resource are looked up and at most one is a category, it is read. -/
theorem messageOf_of_labelsOf (hs : s.Orderly) {r : Message.Resource}
    {refs : List EntityRef × List EntityRef}
    (hlabels : (labelsOf false (r.labelIds.getD [])).run s = (.ok refs, t))
    (hsingle : Single (r.labelIds.getD [])) :
    ∃ category, (messageOf r).run s = (.ok (.ofResource r refs.1 category), t) ∧
      t.Splits (r.labelIds.getD []) refs.1 category.toList := by
  have hdone := labelsOf_reading (r.labelIds.getD []) hs
  rw [Call.Ends, hlabels] at hdone
  obtain ⟨labels, categories⟩ := refs
  obtain ⟨hfirst, hcategories⟩ := hdone.2.splits
  rw [messageOf, Call.run_bind, hlabels]
  rcases categories with _ | ⟨first, _ | ⟨second, categories⟩⟩
  · exact ⟨none, rfl, hfirst, hcategories⟩
  · exact ⟨some first, rfl, hfirst, hcategories⟩
  · have hcount := congrArg List.length hcategories
    rw [List.length_map, ← List.countP_eq_length_filter] at hcount
    have hseveral : 1 < (first :: second :: categories).length := by simp
    exact absurd (hcount ▸ hseveral) (Nat.not_lt.mpr hsingle)

/-- In a session that any operations led to, the resource of a description whose labels are found,
with at most one category, is read as what was described. In particular every text that is written
in letters is read as it was. -/
theorem messageOf_described {first : Session Bench} (hfirst : first.New) (hs : Leads first s)
    (f : Fixture) {ms : Int} (hdate : f.date.same (.ofInt ms) = true)
    (hms : ms.natAbs ≤ Instant.limit)
    (hattachment : ∀ a ∈ f.attachment, a.filename ≠ "" ∧ a.attachmentId ≠ "")
    {refs : List EntityRef × List EntityRef}
    (hlabels : (labelsOf false f.labelIds).run s = (.ok refs, t)) (hsingle : Single f.labelIds) :
    (∃ m, (messageOf f.resource).run s = (.ok m, t) ∧ m.id = f.id ∧ m.threadId = "t-" ++ f.id ∧
      m.subject = f.subject ∧ m.date = some ⟨ms, hms⟩ ∧ m.size = f.size ∧
      m.plainBody = f.plain.getD "" ∧ m.htmlBody = f.html.getD "" ∧
      m.attachments = f.attachment.toList.map
        (fun a => ⟨a.attachmentId, a.filename, a.mimeType, a.size⟩) ∧
      t.Splits f.labelIds m.labels m.category.toList) ∧
    ∀ text, Text.decodeLetters (Text.encodeLetters text) = text := by
  have horderly := (hs.continues hfirst.orderly).orderly
  have hids : f.resource.labelIds.getD [] = f.labelIds := rfl
  rw [← hids] at hlabels hsingle
  obtain ⟨category, hrun, hsplits⟩ := messageOf_of_labelsOf horderly hlabels hsingle
  rw [hids] at hsplits
  have hnamed : ∀ a ∈ f.attachment, a.filename ≠ "" := fun a ha => (hattachment a ha).1
  have hday : (Message.ofResource f.resource refs.1 category).date = some ⟨ms, hms⟩ := by
    rw [Message.ofResource, Fixture.dateOf_resource hdate hms]
  refine ⟨⟨_, hrun, rfl, rfl, f.headerText_subject, hday, rfl,
    Fixture.bodyText_plain hnamed, Fixture.bodyText_html hnamed, ?_, hsplits⟩,
    Text.decodeLetters_encodeLetters⟩
  exact (Fixture.attachmentsIn_resource hattachment).trans (by cases f.attachment <;> rfl)

/-- A text that takes bytes of all lengths is read back, and a file is no body though its type is
one of a body. -/
theorem messageOf_described_file :
    let first := opened .initial
    let f : Fixture := { id := "m1", subject := "Re: a, b", date := .ofInt (-1), size := .ofNat 7
                         labelIds := ["UNREAD", "CATEGORY_SOCIAL"], plain := some "né €😀"
                         attachment := some ⟨"notes.txt", "att-1", .ofNat 3, "text/plain"⟩ }
    first.New ∧ f.date.same (.ofInt (-1)) = true ∧ Single f.labelIds ∧
    ∃ refs t, (labelsOf false f.labelIds).run first = (.ok refs, t) ∧
    ∃ m, (messageOf f.resource).run first = (.ok m, t) ∧ m.id = "m1" ∧ m.threadId = "t-m1" ∧
      m.subject = "Re: a, b" ∧ m.date.map Instant.ms = some (-1) ∧ m.size = .ofNat 7 ∧
      m.plainBody = "né €😀" ∧ m.htmlBody = "" ∧
      m.attachments = [⟨"att-1", "notes.txt", "text/plain", .ofNat 3⟩] ∧
      m.labels.map t.entityId = ["UNREAD"] ∧
      m.category.toList.map t.entityId = ["CATEGORY_SOCIAL"] := by
  intro first f
  have hfirst : first.New := opened_new Store.initial_neat.labels
  have hdate : f.date.same (.ofInt (-1)) = true := by decide +kernel
  have hattachment : ∀ a ∈ f.attachment, a.filename ≠ "" ∧ a.attachmentId ≠ "" := by decide
  obtain ⟨refs, t, hlabels⟩ : ∃ refs t, (labelsOf false f.labelIds).run first = (.ok refs, t) :=
    Call.exists_ok (by decide +kernel)
  obtain ⟨⟨m, hrun, hid, hthread, hsubject, hday, hsize, hplain, hhtml, hfile, hlabelIds, hcategory⟩,
    -⟩ := messageOf_described hfirst .start f hdate (by decide) hattachment hlabels (by decide)
  exact ⟨hfirst, hdate, by decide, refs, t, hlabels, m, hrun, hid, hthread, hsubject,
    by rw [hday]; rfl, hsize, hplain, hhtml, hfile, hlabelIds, hcategory⟩

end Mailroom.Session
