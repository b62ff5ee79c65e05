import Mailroom.Data.Runs
import Mailroom.Filter.Rendering
import Mailroom.Session.Messages
import Mailroom.Text.Units

/-! Queries: which messages to find, how many, and in which order. Ids are listed page by page,
messages fetched one by one or in batches that start a least time apart, and ordered at the
end. -/

namespace Mailroom

/-- A query for messages. -/
structure Query where
  filter : Option Filter.Clause := none
  /-- Labels that the messages must carry. -/
  labels : Option (List Label.Tag) := none
  /-- How many messages are wanted at most. -/
  limit : Option Rat
  includeTrash : Bool := false
  orderings : Option (List Filter.Ordering) := none

namespace Query

/-- The query for any message: as many as fit in a batch, or twenty-five. -/
def start (settings : Settings) : Query where
  limit := match settings.batchSize with
    | some (n + 1) => some ((n + 1 : Nat) : Rat)
    | _ => some 25

/-- The search text of the filter, if there is one. -/
def searchText (q : Query) (settings : Settings) : Except Failure (Option String) :=
  match q.filter with
  | none => .ok none
  | some c => (c.compile ⟨settings.truncate⟩).map some

def describe (q : Query) (settings : Settings) : Except Failure Value := do
  let search ← q.searchText settings
  let orderings := q.orderings.map fun os =>
    Value.ofTexts (os.map fun o => o.field.name ++ " " ++ o.direction.name)
  return .obj [("where", .ofText? search),
    ("labels", (q.labels.map fun tags => Value.ofTexts (tags.map (·.name))).getD .null),
    ("limit", (q.limit.map fun n => Value.num (.ofRat n)).getD .null),
    ("include_trash", .bool q.includeTrash),
    ("order_by", orderings.getD .null)]

/-- What messages are compared by. -/
inductive SortKey
  | number (number : Number)
  | text (text : String)

/-- Whether a key comes strictly before another. -/
def SortKey.before : SortKey → SortKey → Bool
  | number a, number b => a.lt b
  | text a, text b => Text.before a b
  | _, _ => false

def sortKey (m : Message) : Filter.Field → SortKey
  | .date => .number ((m.date.map fun t => Number.ofInt t.ms).getD .nan)
  | .size => .number m.size
  | .subject => .text m.subject
  | .sender => .text ((m.sender.map (·.email)).getD "")
  | .recipients => .text (", ".intercalate (m.recipients.map (·.email)))
  | .copies => .text (", ".intercalate (m.copies.map (·.email)))
  | .blindCopies => .text (", ".intercalate (m.blindCopies.map (·.email)))

/-- Whether a message may stand before another under an ordering. -/
def mayPrecede (o : Filter.Ordering) (a b : Message) : Bool :=
  match o.direction with
  | .ascending => !(sortKey b o.field).before (sortKey a o.field)
  | .descending => !(sortKey a o.field).before (sortKey b o.field)

/-- The messages in order; the first ordering is the main one. Sorting is stable, so it is done
by the last ordering first. -/
def order (orderings : List Filter.Ordering) (messages : List Message) : List Message :=
  orderings.foldr (fun o sorted => sorted.mergeSort (mayPrecede o)) messages

/-- The greatest page that the service gives. -/
def maxPage : Rat := 500

end Query

namespace Session

open Remote (MailService ListQuery Page)

variable {σ : Type} [MailService σ]

/-- The fault of a listing that does not come to an end. -/
def endlessListing : Failure := .escaped (.ofMessage "listing does not end")

/-- How many messages to ask for when some were listed already. -/
def pageLimit (limit : Option Rat) (listed : Nat) : Rat :=
  match limit with
  | some n => Runs.lesser (n - (listed : Rat)) Query.maxPage
  | none => Query.maxPage

/-- The request for the page after some ids, unless no more are there or wanted. -/
def followUp (query : ListQuery) (limit : Option Rat) (ids : List String)
    (token : Option String) : Option ListQuery :=
  match Remote.LabelBody.chosen token with
  | none => none
  | some token =>
    if limit.any (· ≤ (ids.length : Rat)) then none
    else some { query with
      maxResults := some (pageLimit limit ids.length)
      pageToken := some token }

/-- The ids of the pages from a token on, behind those already read; the budget is the number of
pages that may still be asked for. -/
def readPages (query : ListQuery) (limit : Option Rat) (budget : Nat) (ids : List String)
    (token : Option String) : Op σ (List String) :=
  match followUp query limit ids token with
  | none => return ids
  | some request =>
    match budget with
    | 0 => throw endlessListing
    | budget + 1 => do
      let page ← onOutside (MailService.listMessages request)
      readPages query limit budget (ids ++ page.ids) page.nextPageToken

def messageIds (q : Query) : Op σ (List String) := do
  let settings := (← get).settings
  let search ← ofExcept (q.searchText settings)
  let query : ListQuery :=
    { search := Remote.LabelBody.chosen search
      labelIds := q.labels.map fun tags => tags.map (·.id)
      maxResults := some (pageLimit q.limit 0)
      includeTrash := q.includeTrash }
  let page ← onOutside (MailService.listMessages query)
  let ids ← readPages query q.limit settings.pageBudget page.ids page.nextPageToken
  match q.limit with
  | some n => return Runs.slice ids 0 n
  | none => return ids

variable [Clock σ]

/-- A batch of messages; the clock is waited for until the least time since its start is over. -/
def fetchBatch (ids : List String) : Op σ (List Message) := do
  let delay := (← get).settings.batchDelay
  let started ← onClock Clock.now
  let resources ← onOutside (MailService.getMessages ids)
  let messages ← resources.mapM messageOf
  let elapsed := (← onClock Clock.now) - started
  if elapsed < delay then onClock (Clock.sleep (delay - elapsed))
  return messages

/-- The messages with some ids, one by one or in batches. -/
def fetch (ids : List String) : Op σ (List Message) := do
  match (← get).settings.batchSize with
  | some (n + 1) => return (← (Runs.chunks (n + 1) ids).mapM fetchBatch).flatten
  | _ => ids.mapM message

/-- The messages that a query finds, in its order. -/
def execute (q : Query) : Op σ (List Message) := do
  let messages ← fetch (← messageIds q)
  return Query.order (q.orderings.getD []) messages

end Session

end Mailroom
