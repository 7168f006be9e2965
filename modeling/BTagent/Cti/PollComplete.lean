import BTagent.Lib.Machine
import BTagent.Lib.Watermark
import Mathlib.Data.String.Basic

namespace BTagent

-- What the client reads of a STIX object.
structure StixObject where
  id : String
  modified : Option String
  created : Option String
  deriving DecidableEq

structure CollectionEntry where
  dateAdded : String
  object : StixObject
  deriving DecidableEq

-- A poll under way: the `added_after` it asks for, its ceiling, and what came back so far.
structure TaxiiPoll where
  addedAfter : Option String
  maxObjects : ℕ
  entries : List CollectionEntry
  latestAdded : Option String
  pages : ℕ

-- How a server answers one request: how many objects at most, whether it sends
-- `X-TAXII-Date-Added-Last`, and its `more` and `next`.
structure TaxiiAnswer where
  size : ℕ
  header : Bool
  more : Bool
  next : Option String

-- `returned` is what the polls that ended well handed to the caller.
structure TaxiiFeed where
  collection : List CollectionEntry
  lastCursor : Option String
  poll : Option TaxiiPoll
  returned : List CollectionEntry

inductive FeedEvent where
  | add (entry : CollectionEntry)
  | pollFeed (maxObjects : Int)
  | answer (a : TaxiiAnswer)
  | fail

namespace Taxii
open Watermark

def DEFAULT_PAGE_SIZE : ℕ := 100

def DEFAULT_MAX_PAGES : ℕ := 10

def MAX_OBJECTS_PER_POLL : ℕ := 500

-- Python's truth value of an optional text.
def truthy (s : Option String) : Option String := s.filter (· ≠ "")

def stamp (o : StixObject) : Option String := (truthy o.modified).or (truthy o.created)

-- Texts are compared as they are, whatever precision or offset they carry.
def newestTimestamp (objects : List StixObject) : Option String :=
  (objects.filterMap stamp).max?

section Server
variable {τ : Type*} [LinearOrder τ] (instant : String → τ)

-- The server reads the texts as points in time.
def addedAt (e : CollectionEntry) : τ := instant e.dateAdded

def fresh (collection : List CollectionEntry) (addedAfter : Option String) : List CollectionEntry :=
  collection.filter (beyond (addedAt instant) (addedAfter.map instant))

def limit (p : TaxiiPoll) : ℕ := min DEFAULT_PAGE_SIZE (p.maxObjects - p.entries.length)

def page (collection : List CollectionEntry) (p : TaxiiPoll) (a : TaxiiAnswer) :
    List CollectionEntry :=
  ((fresh instant collection p.addedAfter).drop p.entries.length).take (min a.size (limit p))

def dateAddedLast (a : TaxiiAnswer) (page : List CollectionEntry) : Option String :=
  if a.header then page.getLast?.map (·.dateAdded) else none

def receive (p : TaxiiPoll) (a : TaxiiAnswer) (page : List CollectionEntry) : TaxiiPoll :=
  { p with
    entries := p.entries ++ page
    latestAdded := (truthy (dateAddedLast a page)).or p.latestAdded
    pages := p.pages + 1 }

def goesOn (p : TaxiiPoll) (a : TaxiiAnswer) : Bool :=
  a.more && (truthy a.next).isSome && p.pages < DEFAULT_MAX_PAGES && p.entries.length < p.maxObjects

def latestAdded (p : TaxiiPoll) : Option String :=
  p.latestAdded.or (newestTimestamp (p.entries.map (·.object)))

-- The column takes 128 characters.
def nextCursor (lastCursor : Option String) (p : TaxiiPoll) : Option String :=
  match truthy (latestAdded p) with
  | none => lastCursor
  | some latest => if lastCursor = some latest then lastCursor else some (String.ofList (latest.toList.take 128))

def settle (f : TaxiiFeed) (p : TaxiiPoll) : TaxiiFeed :=
  { f with
    lastCursor := nextCursor f.lastCursor p
    poll := none
    returned := f.returned ++ p.entries }

def answer (f : TaxiiFeed) (p : TaxiiPoll) (a : TaxiiAnswer) : TaxiiFeed :=
  let p := receive p a (page instant f.collection p a)
  if goesOn p a then { f with poll := some p } else settle f p

def pollFeed (f : TaxiiFeed) (maxObjects : Int) : TaxiiFeed :=
  { f with
    poll := some
      { addedAfter := truthy f.lastCursor
        maxObjects := (max 1 (min maxObjects MAX_OBJECTS_PER_POLL)).toNat
        entries := []
        latestAdded := none
        pages := 0 } }

-- Objects are added in the order of their `date_added`, which is when the server adds them.
def feed : Machine TaxiiFeed FeedEvent where
  step f
    | .add entry =>
        if f.collection.all fun e => addedAt instant e ≤ addedAt instant entry then
          some { f with collection := f.collection ++ [entry] }
        else none
    | .pollFeed maxObjects => if f.poll.isNone then some (pollFeed f maxObjects) else none
    | .answer a => f.poll.map fun p => answer instant f p a
    | .fail => some { f with poll := none }

end Server

def unpolled : TaxiiFeed := ⟨[], none, none, []⟩

end Taxii

namespace Taxii
open Watermark

section Complete
variable {τ : Type*} [LinearOrder τ] (instant : String → τ)

-- What was added at or before the cursor was returned.
def PollComplete (f : TaxiiFeed) : Prop :=
  ∀ c ∈ f.lastCursor, ∀ e ∈ f.collection, instant e.dateAdded ≤ instant c → e ∈ f.returned

-- The last date the server sent, else the newest timestamp of the objects.
def resumesAt (p : TaxiiPoll) (a : TaxiiAnswer) (page : List CollectionEntry) : Option String :=
  (truthy (dateAddedLast a page)).or
    (p.latestAdded.or (newestTimestamp ((p.entries ++ page).map (·.object))))

-- Nothing is added at or before the cursor, and a poll never ends among objects that share a date
-- with, or come before, the text it resumes at.
def Clean (f : TaxiiFeed) : FeedEvent → Prop
  | .add entry => ∀ c ∈ f.lastCursor, instant c < instant entry.dateAdded
  | .answer a => ∀ p ∈ f.poll, ∀ s ∈ resumesAt p a (page instant f.collection p a),
      ∀ e ∈ (fresh instant f.collection p.addedAfter).drop
          (p.entries ++ page instant f.collection p a).length,
        goesOn (receive p a (page instant f.collection p a)) a ∨
          instant (String.ofList (s.toList.take 128)) < instant e.dateAdded
  | _ => True

structure Polls (f : TaxiiFeed) : Prop where
  covers : Covers (addedAt instant) (f.lastCursor.map instant) f.collection f.returned
  cursor : f.lastCursor ≠ some ""
  poll : ∀ p ∈ f.poll, p.addedAfter = f.lastCursor ∧
    ∃ rest, fresh instant f.collection p.addedAfter = p.entries ++ rest

variable {instant} {f f' : TaxiiFeed} {p : TaxiiPoll} {a : TaxiiAnswer}

theorem truthy_eq_some {s : Option String} {t : String} :
    truthy s = some t ↔ s = some t ∧ t ≠ "" := by
  cases s with
  | none => simp [truthy]
  | some u =>
      simp only [truthy, Option.filter_some, Option.some.injEq]
      by_cases hu : u = ""
      · subst hu
        simp
      · simp [hu]
        rintro rfl
        exact hu

theorem truthy_of_ne {s : Option String} (h : s ≠ some "") : truthy s = s := by
  cases s with
  | none => rfl
  | some t =>
      have ht : t ≠ "" := fun heq => h (by rw [heq])
      exact truthy_eq_some.mpr ⟨rfl, ht⟩

theorem latestAdded_receive {page : List CollectionEntry} :
    latestAdded (receive p a page) = resumesAt p a page := by
  simp only [latestAdded, receive, resumesAt, Option.or_assoc]

theorem polls_add {entry : CollectionEntry} (h : Polls instant f)
    (hc : Clean instant f (.add entry)) :
    Polls instant { f with collection := f.collection ++ [entry] } := by
  refine ⟨h.covers.add ?_, h.cursor, ?_⟩
  · cases hcursor : f.lastCursor with
    | none => rfl
    | some c => exact decide_eq_true (hc c hcursor)
  · intro p hp
    obtain ⟨hafter, rest, hrest⟩ := h.poll p hp
    refine ⟨hafter, rest ++ fresh instant [entry] p.addedAfter, ?_⟩
    rw [← List.append_assoc, ← hrest]
    exact List.filter_append ..

theorem take_ne_empty {s : String} (hs : s ≠ "") : String.ofList (s.toList.take 128) ≠ "" := by
  intro heq
  apply hs
  have hnil : s.toList.take 128 = [] := String.ofList_injective heq
  have hlist : s.toList = [] := by
    rw [List.take_eq_nil_iff] at hnil
    simpa using hnil
  exact String.toList_injective hlist

theorem polls_settle {rest : List CollectionEntry} (h : Polls instant f)
    (hafter : p.addedAfter = f.lastCursor)
    (hsplit : fresh instant f.collection p.addedAfter = p.entries ++ rest)
    (hclean : ∀ s ∈ latestAdded p, ∀ e ∈ rest,
      instant (String.ofList (s.toList.take 128)) < instant e.dateAdded) :
    Polls instant (settle f p) := by
  have hkept : Covers (addedAt instant) (f.lastCursor.map instant) f.collection
      (f.returned ++ p.entries) := h.covers.mono fun x hx => List.mem_append_left _ hx
  have hdone : ∀ q ∈ (none : Option TaxiiPoll), q.addedAfter = (settle f p).lastCursor ∧
      ∃ rest, fresh instant f.collection q.addedAfter = q.entries ++ rest := by
    intro q hq
    cases hq
  cases hlatest : truthy (latestAdded p) with
  | none =>
      have hsame : nextCursor f.lastCursor p = f.lastCursor := by simp [nextCursor, hlatest]
      refine ⟨?_, ?_, hdone⟩
      · simp only [settle, hsame]
        exact hkept
      · simp only [settle, hsame]
        exact h.cursor
  | some latest =>
      obtain ⟨hstamp, hne⟩ := truthy_eq_some.mp hlatest
      by_cases hcursor : f.lastCursor = some latest
      · have hsame : nextCursor f.lastCursor p = f.lastCursor := by
          simp [nextCursor, hlatest, hcursor]
        refine ⟨?_, ?_, hdone⟩
        · simp only [settle, hsame]
          exact hkept
        · simp only [settle, hsame]
          exact h.cursor
      · have hnext : nextCursor f.lastCursor p = some (String.ofList (latest.toList.take 128)) := by
          simp [nextCursor, hlatest, hcursor]
        refine ⟨?_, ?_, hdone⟩
        · have hold : f.collection.filter (beyond (addedAt instant) (f.lastCursor.map instant)) =
              p.entries ++ rest := by
            rw [← hafter]
            exact hsplit
          simp only [settle, hnext]
          apply h.covers.advance hold
          intro x hx
          exact decide_eq_true (hclean latest hstamp x hx)
        · simp only [settle, hnext]
          exact fun heq => take_ne_empty hne (Option.some.inj heq)

theorem polls_answer (h : Polls instant f) (hp : f.poll = some p)
    (hc : Clean instant f (.answer a)) : Polls instant (answer instant f p a) := by
  obtain ⟨hafter, rest, hrest⟩ := h.poll p hp
  have hpage : page instant f.collection p a = rest.take (min a.size (limit p)) := by
    rw [page, hrest, List.drop_left]
  have hsplit : fresh instant f.collection p.addedAfter =
      (p.entries ++ page instant f.collection p a) ++ rest.drop (min a.size (limit p)) := by
    rw [hrest, hpage, List.append_assoc, List.take_append_drop]
  simp only [answer]
  split
  · refine ⟨h.covers, h.cursor, ?_⟩
    rintro q ⟨⟩
    exact ⟨hafter, _, hsplit⟩
  · rename_i hends
    refine polls_settle (p := receive p a (page instant f.collection p a)) h hafter hsplit ?_
    intro s hs e he
    rw [latestAdded_receive] at hs
    have hleft : e ∈ (fresh instant f.collection p.addedAfter).drop
        (p.entries ++ page instant f.collection p a).length := by
      rw [hsplit, List.drop_left]
      exact he
    rcases hc p hp s hs e hleft with hgoes | hbefore
    · exact absurd hgoes hends
    · exact hbefore

theorem polls_step {ev : FeedEvent} (h : Polls instant f) (hc : Clean instant f ev)
    (hstep : (feed instant).step f ev = some f') : Polls instant f' := by
  cases ev with
  | add entry =>
      simp only [feed] at hstep
      split at hstep <;> cases hstep
      exact polls_add h hc
  | pollFeed maxObjects =>
      simp only [feed] at hstep
      split at hstep <;> cases hstep
      refine ⟨h.covers, h.cursor, ?_⟩
      rintro p ⟨⟩
      exact ⟨truthy_of_ne h.cursor, _, rfl⟩
  | answer a =>
      obtain ⟨p, hp, hanswer⟩ := Option.map_eq_some_iff.mp hstep
      subst hanswer
      exact polls_answer h hp hc
  | fail =>
      cases hstep
      refine ⟨h.covers, h.cursor, ?_⟩
      rintro p ⟨⟩

theorem unpolled_polls : Polls instant unpolled := by
  refine ⟨covers_none, by simp [unpolled], ?_⟩
  rintro p ⟨⟩

theorem pollComplete_of_polls (h : Polls instant f) : PollComplete instant f := by
  intro c hc e he hle
  exact h.covers (instant c) (Option.mem_map_of_mem instant hc) e he hle

instance (f : TaxiiFeed) : Decidable (PollComplete instant f) :=
  inferInstanceAs (Decidable (∀ c ∈ f.lastCursor, ∀ e ∈ f.collection, _ → e ∈ f.returned))

instance (f : TaxiiFeed) : ∀ ev, Decidable (Clean instant f ev)
  | .add entry => inferInstanceAs (Decidable (∀ c ∈ f.lastCursor, instant c < instant entry.dateAdded))
  | .answer a => inferInstanceAs (Decidable (∀ p ∈ f.poll,
      ∀ s ∈ resumesAt p a (page instant f.collection p a),
        ∀ e ∈ (fresh instant f.collection p.addedAfter).drop
            (p.entries ++ page instant f.collection p a).length,
          goesOn (receive p a (page instant f.collection p a)) a ∨
            instant (String.ofList (s.toList.take 128)) < instant e.dateAdded))
  | .pollFeed _ | .fail => isTrue trivial

end Complete

def indicator (id dateAdded : String) : CollectionEntry := ⟨dateAdded, ⟨id, none, none⟩⟩

-- Two indicators were added at one time and the poll takes one object.
def cutBetweenEqualDates : List FeedEvent :=
  [.add (indicator "indicator--1" "2026-07-20T08:00:00.000000Z"),
    .add (indicator "indicator--2" "2026-07-20T08:00:00.000000Z"), .pollFeed 1,
    .answer ⟨100, true, true, some "c1"⟩]

theorem equal_dates_skipped : ¬ ∀ (instant : String → String) events f,
    (feed instant).run unpolled events = some f → PollComplete instant f := by
  intro h
  have hrun : ((feed (id : String → String)).run unpolled cutBetweenEqualDates).any fun f =>
      decide (¬ PollComplete id f) := by decide
  obtain ⟨f, hf, hnot⟩ := (Option.any_eq_true _ _).mp hrun
  exact of_decide_eq_true hnot (h id _ f hf)

theorem polls_complete {τ : Type*} [LinearOrder τ] {instant : String → τ} {events : List FeedEvent}
    {f : TaxiiFeed} (hc : (feed instant).Along (Clean instant) unpolled events)
    (h : (feed instant).run unpolled events = some f) : PollComplete instant f :=
  pollComplete_of_polls ((feed instant).invariant_along (I := Polls instant) polls_step
    unpolled_polls hc h)

def cutBetweenDates : List FeedEvent :=
  [.add (indicator "indicator--1" "2026-07-20T08:00:00.000000Z"),
    .add (indicator "indicator--2" "2026-07-21T08:00:00.000000Z"), .pollFeed 1,
    .answer ⟨100, true, true, some "c1"⟩, .add (indicator "indicator--3" "2026-07-22T08:00:00.000000Z"),
    .pollFeed 500, .answer ⟨1, true, true, some "c2"⟩, .answer ⟨100, true, false, none⟩]

theorem cutBetweenDates_complete : ∃ f,
    (feed (id : String → String)).run unpolled cutBetweenDates = some f ∧
      f.lastCursor = some "2026-07-22T08:00:00.000000Z" ∧ f.returned.length = 3 ∧
      PollComplete id f := by
  have hrun : ((feed (id : String → String)).run unpolled cutBetweenDates).any fun f =>
      decide (f.lastCursor = some "2026-07-22T08:00:00.000000Z" ∧ f.returned.length = 3) := by
    decide
  obtain ⟨f, hf, hstate⟩ := (Option.any_eq_true _ _).mp hrun
  obtain ⟨hcursor, hreturned⟩ := of_decide_eq_true hstate
  exact ⟨f, hf, hcursor, hreturned, polls_complete (by decide) hf⟩

end Taxii

end BTagent
