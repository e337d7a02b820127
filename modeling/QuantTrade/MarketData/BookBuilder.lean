import QuantTrade.Library.KeyedStore
import QuantTrade.MarketData.OrderBook

/-!
# The books of all instruments

`BookBuilder` of `src/market_data/book_builder.{hpp,cpp}`: a map from instruments to books, which
are made on first use.  The callbacks of `src/main.cpp` hand every quote and trade to `on_bbo` and
every depth update to `on_depth`.  The book of an instrument is what its own events make of a new
book (`get_run`).
-/

namespace QuantTrade

open Transition (run)

/-- An event of the feed as it reaches the callbacks. -/
inductive FeedEvent where
  | bbo (e : BBOEvent)
  | depth (e : DepthEvent)
  deriving DecidableEq, Repr

namespace FeedEvent

/-- The field `instrument_id`. -/
def instrumentId : FeedEvent → ℕ
  | bbo e => e.instrumentId
  | depth e => e.instrumentId

/-- The event is a trade. -/
def isTrade : FeedEvent → Bool
  | bbo e => e.type = .trade
  | depth _ => false

/-- The top of the book according to the event. -/
def top : FeedEvent → Top
  | bbo e => e.top
  | depth e => e.top

end FeedEvent

/-- The book after an event. -/
def OrderBook.apply (b : OrderBook) : FeedEvent → OrderBook
  | .bbo e => b.applyBbo e
  | .depth e => b.applyDepth e

/-- Every event overwrites the top of the book. -/
lemma OrderBook.top_apply (b : OrderBook) (e : FeedEvent) : (b.apply e).top = e.top := by
  cases e with
  | bbo e => exact b.top_applyBbo e
  | depth e => exact b.top_applyDepth e

/-- No event changes the instrument of a book. -/
lemma OrderBook.instrumentId_run (b : OrderBook) (es : List FeedEvent) :
    (run apply b es).instrumentId = b.instrumentId := by
  induction es generalizing b with
  | nil => rfl
  | cons e es ih =>
    rw [Transition.run_cons, ih]
    cases e with
    | bbo e => rfl
    | depth e => rfl

/-- The top of a book is that of the last event, if there was one. -/
lemma OrderBook.top_run (b : OrderBook) (es : List FeedEvent) :
    (run apply b es).top = (es.getLast?.map FeedEvent.top).getD b.top :=
  KeyedStore.observe_run top_apply b es

/-- The books by their instruments. -/
structure BookBuilder where
  books : AList fun _ : ℕ => OrderBook

namespace BookBuilder

/-- A new book builder. -/
def init : BookBuilder :=
  ⟨∅⟩

/-- `find`. -/
def find (s : BookBuilder) (id : ℕ) : Option OrderBook :=
  s.books.lookup id

/-- `get_or_create`: the book of the instrument. -/
def getOrCreate (s : BookBuilder) (id : ℕ) : BookBuilder × OrderBook :=
  match s.find id with
  | some b => (s, b)
  | none => (⟨s.books.insert id (.init id)⟩, .init id)

/-- A call on the book that `get_or_create` returns a reference to. -/
def update (s : BookBuilder) (id : ℕ) (f : OrderBook → OrderBook) : BookBuilder :=
  let (s', b) := s.getOrCreate id
  ⟨s'.books.insert id (f b)⟩

/-- `on_bbo`. -/
def onBbo (s : BookBuilder) (e : BBOEvent) : BookBuilder :=
  s.update e.instrumentId (·.applyBbo e)

/-- `on_depth`. -/
def onDepth (s : BookBuilder) (e : DepthEvent) : BookBuilder :=
  s.update e.instrumentId (·.applyDepth e)

/-- The callbacks, as far as they concern the books. -/
def onEvent (s : BookBuilder) : FeedEvent → BookBuilder
  | .bbo e => s.onBbo e
  | .depth e => s.onDepth e

/-- The book of an instrument; a new one when there is none. -/
def get (s : BookBuilder) (id : ℕ) : OrderBook :=
  KeyedStore.get OrderBook.init s.books id

lemma get_of_find {s : BookBuilder} {id : ℕ} {b : OrderBook} (h : s.find id = some b) :
    s.get id = b :=
  KeyedStore.get_of_lookup h

/-- A call on the book of an instrument enters the changed book. -/
lemma books_update (s : BookBuilder) (id : ℕ) (f : OrderBook → OrderBook) :
    (s.update id f).books = s.books.insert id (f (s.get id)) := by
  unfold update getOrCreate
  cases hfind : s.find id with
  | some b => rw [get_of_find hfind]
  | none =>
    have hget : s.get id = .init id := by
      rw [get, KeyedStore.get, ← find, hfind, Option.getD_none]
    rw [hget]
    exact AList.insert_insert _

/-- The books are a store that each event moves at its own instrument. -/
lemma books_onEvent (s : BookBuilder) (e : FeedEvent) :
    (s.onEvent e).books =
      KeyedStore.route OrderBook.init FeedEvent.instrumentId OrderBook.apply s.books e := by
  cases e with
  | bbo e => exact books_update ..
  | depth e => exact books_update ..

lemma books_run (s : BookBuilder) (es : List FeedEvent) :
    (run onEvent s es).books =
      run (KeyedStore.route OrderBook.init FeedEvent.instrumentId OrderBook.apply) s.books es :=
  Transition.proj_run books_onEvent s es

/-- The book of an instrument is what the events of the instrument make of it. -/
theorem get_run (s : BookBuilder) (es : List FeedEvent) (id : ℕ) :
    (run onEvent s es).get id =
      run OrderBook.apply (s.get id) (es.filter (·.instrumentId = id)) := by
  rw [get, books_run]
  exact KeyedStore.get_run_route s.books es id

/-- An instrument has a book when there was an event of it. -/
theorem find_run_isSome {es : List FeedEvent} {id : ℕ} :
    ((run onEvent init es).find id).isSome ↔ ∃ e ∈ es, e.instrumentId = id := by
  rw [find, AList.lookup_isSome, books_run, KeyedStore.mem_run_route]
  simp [init]

end BookBuilder

end QuantTrade
