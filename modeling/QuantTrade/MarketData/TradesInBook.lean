import QuantTrade.MarketData.BookBuilder
import QuantTrade.MarketData.Wire

/-!
# Trades and the book

A trade carries its price on the bid side, and `on_bbo` enters it like a quote.  The books read as
if the trades had not come exactly when no instrument was left with the top of a trade, unless the
trade repeats the quote before it (`trades_keep_books_iff`).
-/

namespace QuantTrade

open Transition (run)

namespace FeedEvent

/-- The events of an instrument. -/
def ofInstrument (id : ℕ) (es : List FeedEvent) : List FeedEvent :=
  es.filter (·.instrumentId = id)

/-- The events that are not trades. -/
def withoutTrades (es : List FeedEvent) : List FeedEvent :=
  es.filter (!·.isTrade)

/-- The four fields of a trade are those of the top that another event shows, and they do not cross
where a side of that top is missing. -/
def repeats (trade q : FeedEvent) : Prop :=
  trade.top.shownBid = q.top.shownBid ∧ trade.top.shownAsk = q.top.shownAsk ∧
    trade.top.crossed = q.top.crossed

/-- The last event is no trade, or it repeats the last one that is none. -/
def Undisturbed (es : List FeedEvent) : Prop :=
  ∀ e, es.getLast? = some e → e.isTrade = true →
    ∃ q, (withoutTrades es).getLast? = some q ∧ e.repeats q

end FeedEvent

open FeedEvent (ofInstrument withoutTrades Undisturbed)

/-- A trade always shows a top that crosses or is not zero, so it changes what an empty book
shows. -/
lemma BBOEvent.top_ne_empty (e : BBOEvent) :
    ¬(e.top.shownBid = {} ∧ e.top.shownAsk = {} ∧ e.top.crossed = false) := by
  rintro ⟨hbid, hask, hcrossed⟩
  simp only [Top.crossed, hbid, hask] at hcrossed
  simp [BBOEvent.top] at hcrossed

/-- The events of one instrument leave the same readings without the trades exactly when the last
one is no trade or repeats the event before the trades. -/
lemma OrderBook.readings_run_iff (id : ℕ) (es : List FeedEvent) :
    (run apply (init id) es).readings = (run apply (init id) (withoutTrades es)).readings ↔
      Undisturbed es := by
  rw [readings_eq_iff (by rw [instrumentId_run, instrumentId_run]), top_run, top_run, Undisturbed]
  induction es using List.reverseRecOn with
  | nil => simp [withoutTrades]
  | append_singleton es e _ =>
    have hlast : (es ++ [e]).getLast? = some e := List.getLast?_concat
    rw [hlast]
    by_cases htrade : e.isTrade = true
    · cases e with
      | depth d => cases htrade
      | bbo t =>
        cases hq : (withoutTrades (es ++ [FeedEvent.bbo t])).getLast? with
        | none =>
          constructor
          · intro hsame
            exact absurd hsame t.top_ne_empty
          · intro hquiet
            obtain ⟨q, hnone, -⟩ := hquiet _ rfl htrade
            cases hnone
        | some q => simp [htrade, FeedEvent.repeats]
    · have hfilter : (withoutTrades (es ++ [e])).getLast? = some e := by
        simp [withoutTrades, htrade]
      simp [hfilter, htrade]

/-- **Trades and the book.**  After every sequence of events, every book reads like that of the
instrument's quotes and depth updates alone exactly when the last event of each instrument is no
trade, or a trade that repeats the last quote or depth update of the instrument. -/
theorem trades_keep_books_iff (es : List FeedEvent) :
    (∀ id b, (run BookBuilder.onEvent .init es).find id = some b →
        b.readings =
          (run OrderBook.apply (.init id) (withoutTrades (ofInstrument id es))).readings) ↔
      ∀ id, Undisturbed (ofInstrument id es) := by
  have hbook (id : ℕ) : (run BookBuilder.onEvent .init es).get id =
      run OrderBook.apply (.init id) (ofInstrument id es) :=
    BookBuilder.get_run .init es id
  constructor
  · intro h id
    rw [← OrderBook.readings_run_iff id]
    cases hfind : (run BookBuilder.onEvent .init es).find id with
    | none =>
      have hnone : ofInstrument id es = [] := by
        by_contra hne
        obtain ⟨e, he⟩ := List.exists_mem_of_ne_nil _ hne
        obtain ⟨hmem, hid⟩ := List.mem_filter.mp he
        have hsome := BookBuilder.find_run_isSome.mpr ⟨e, hmem, of_decide_eq_true hid⟩
        rw [hfind] at hsome
        cases hsome
      rw [hnone]
      rfl
    | some b => rw [← hbook, BookBuilder.get_of_find hfind, h id b hfind]
  · intro h id b hfind
    rw [← BookBuilder.get_of_find hfind, hbook]
    exact (OrderBook.readings_run_iff id _).mpr (h id)

/-- A quote of 99 to 101 for instrument 1, as it is decoded. -/
def decodedQuote : FeedEvent :=
  .bbo (WireBBO.event ⟨wireMagic, wireBbo, (0, 0, 0), 1, 5, 99, 101, 10, 10⟩)

/-- A trade at 100 in instrument 1, as it is decoded. -/
def decodedTrade : FeedEvent :=
  .bbo (WireBBO.event ⟨wireMagic, wireTrade, (0, 0, 0), 1, 6, 100, 0, 3, 0⟩)

/-- A trade after a quote leaves the book crossed, with no offer and no middle. -/
theorem trades_keep_books_quote_trade :
    ¬∀ (es : List FeedEvent) (id : ℕ) (b : OrderBook),
      (run BookBuilder.onEvent .init es).find id = some b →
        b.readings =
          (run OrderBook.apply (.init id) (withoutTrades (ofInstrument id es))).readings := by
  intro hclaim
  have hreadings := hclaim [decodedQuote, decodedTrade] 1 _ rfl
  revert hreadings
  decide

end QuantTrade
