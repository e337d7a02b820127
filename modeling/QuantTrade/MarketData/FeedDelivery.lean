import QuantTrade.Library.Transition
import QuantTrade.MarketData.BatchParsing

/-!
# The feed from the socket to the strategy

The loop `recv_loop_linux` of `src/market_data/feed_handler.cpp` with the strategy thread that pops
its queue: every step is one operation on a queue or on a counter.  Which packets arrived is seen
from outside: they are what `recvmmsg` returned whenever the loop called it (`arrived`).  The
strategy gets the events of these packets in their order, less those that found the queue full, and
the counters say how many these are (`feed_delivery`).  Nothing is lost exactly when the strategy is
never a whole queue behind (`lossless_iff`).
-/

namespace QuantTrade

open Transition (run Admissible observe)
open ByteWindow (Holds)

namespace FeedHandler

/-- A packet in a buffer of the loop. -/
structure Packet where
  mem : ℕ → UInt8
  buf : ℕ
  len : ℕ

/-- What `process_packet` finds in a packet. -/
def Packet.events (exchange : ExchangeType) (localTs : ℕ) (p : Packet) : List BBOEvent :=
  (Normalizer.parseBatch p.mem p.buf p.len batchSize exchange).map (BBOEvent.stamped localTs)

/-- Where the feed thread is: its next operation. -/
inductive Loop where
  | loadRunning
  | recvmmsg
  | addRxPkts (packets : List Packet) (localTs : ℕ)
  /-- In the loop over the packets. -/
  | packets (rest : List Packet) (localTs : ℕ)
  /-- In the loop of `process_packet`, before the callback and the push of an event; `n` events were
  parsed. -/
  | events (todo : List BBOEvent) (n : ℕ) (rest : List Packet) (localTs : ℕ)
  /-- The queue was full. -/
  | addDropped (todo : List BBOEvent) (n : ℕ) (rest : List Packet) (localTs : ℕ)
  | returned

/-- The events of the packets that the feed thread has and that it has not yet handed on. -/
def Loop.ahead (exchange : ExchangeType) : Loop → List BBOEvent
  | .addRxPkts rest localTs | .packets rest localTs =>
    rest.flatMap (Packet.events exchange localTs)
  | .events todo _ rest localTs | .addDropped todo _ rest localTs =>
    todo ++ rest.flatMap (Packet.events exchange localTs)
  | _ => []

/-- The packets that were received and not yet counted. -/
def Loop.uncountedPkts : Loop → ℕ
  | .addRxPkts rest _ => rest.length
  | _ => 0

/-- The events that were handed on and not yet counted. -/
def Loop.uncountedMsgs : Loop → ℕ
  | .events todo n _ _ | .addDropped todo n _ _ => n - todo.length
  | _ => 0

/-- The events that were lost and not yet counted. -/
def Loop.uncountedDrops : Loop → ℕ
  | .addDropped .. => 1
  | _ => 0

/-- No more events are left to hand on than were parsed. -/
def Loop.InPacket : Loop → Prop
  | .events todo n _ _ | .addDropped todo n _ _ => todo.length ≤ n
  | _ => True

/-- The thread has no packets. -/
def Loop.isBetween : Loop → Bool
  | .loadRunning | .recvmmsg | .returned => true
  | _ => false

/-- Without packets nothing is left to hand on nor to count. -/
lemma Loop.nothing_of_isBetween {loop : Loop} (h : loop.isBetween = true)
    (exchange : ExchangeType) :
    loop.ahead exchange = [] ∧ loop.uncountedPkts = 0 ∧ loop.uncountedMsgs = 0 ∧
      loop.uncountedDrops = 0 := by
  cases loop with
  | loadRunning => exact ⟨rfl, rfl, rfl, rfl⟩
  | recvmmsg => exact ⟨rfl, rfl, rfl, rfl⟩
  | returned => exact ⟨rfl, rfl, rfl, rfl⟩
  | _ => exact absurd h Bool.false_ne_true

end FeedHandler

/-- The feed thread with its handler, and the strategy thread; with what the callback was called
with and what `pop_bbo` returned. -/
structure Feed where
  handler : FeedHandler
  rxPkts : ℕ
  running : Bool
  loop : FeedHandler.Loop
  /-- The calls of the callback. -/
  called : List BBOEvent
  /-- What the strategy thread popped. -/
  popped : List BBOEvent

namespace Feed

open FeedHandler (Loop Packet)

/-- At the start of `recv_loop_linux`. -/
def init (exchange : ExchangeType) (uninit : ℕ → BBOEvent) (bboCallback : Bool) : Feed where
  handler :=
    { exchange := exchange
      bboQueue := .empty uninit SPSCQueue.capacity_4096
      bboCallback := bboCallback
      rxMsgs := 0
      dropped := 0 }
  rxPkts := 0
  running := true
  loop := .loadRunning
  called := []
  popped := []

/-- A step of the feed thread; `packets` is what `recvmmsg` returns when it is called, and `localTs`
the time after it. -/
def feedStep (s : Feed) (packets : List Packet) (localTs : ℕ) : Feed :=
  match s.loop with
  | .loadRunning => { s with loop := if s.running then .recvmmsg else .returned }
  | .recvmmsg =>
    match packets with
    | [] => { s with loop := .loadRunning }
    | p :: packets => { s with loop := .addRxPkts (p :: packets) localTs }
  | .addRxPkts packets localTs =>
    { s with rxPkts := s.rxPkts + packets.length, loop := .packets packets localTs }
  | .packets [] _ => { s with loop := .loadRunning }
  | .packets (p :: rest) localTs =>
    let events := p.events s.handler.exchange localTs
    { s with loop := .events events events.length rest localTs }
  | .events [] n rest localTs =>
    { s with
      handler := { s.handler with rxMsgs := s.handler.rxMsgs + n }
      loop := .packets rest localTs }
  | .events (e :: todo) n rest localTs =>
    let pushed := s.handler.bboQueue.push e
    { s with
      handler := { s.handler with bboQueue := pushed.1 }
      called := if s.handler.bboCallback then s.called ++ [e] else s.called
      loop := if pushed.2 then .events todo n rest localTs else .addDropped todo n rest localTs }
  | .addDropped todo n rest localTs =>
    { s with
      handler := { s.handler with dropped := s.handler.dropped + 1 }
      loop := .events todo n rest localTs }
  | .returned => s

/-- `pop_bbo` of the strategy thread. -/
def popBbo (s : Feed) : Feed :=
  let (e, queue) := s.handler.bboQueue.pop
  { s with handler := { s.handler with bboQueue := queue }, popped := s.popped ++ e.toList }

/-- What can happen: a step of the feed thread, a pop, or `stop`. -/
inductive Act where
  | feed (packets : List Packet) (localTs : ℕ)
  | popBbo
  | stop

/-- One step. -/
def step (s : Feed) : Act → Feed
  | .feed packets localTs => s.feedStep packets localTs
  | .popBbo => s.popBbo
  | .stop => { s with running := false }

/-! ## What arrives -/

/-- The packets that arrive in a step, with the time after it: those that `recvmmsg` returns, when
the feed thread calls it. -/
def arriving (s : Feed) (a : Act) : List (Packet × ℕ) :=
  match s.loop, a with
  | .recvmmsg, .feed packets localTs => packets.map (·, localTs)
  | _, _ => []

/-- The events in packets that arrived. -/
def received (s : Feed) (packets : List (Packet × ℕ)) : List BBOEvent :=
  packets.flatMap fun p => p.1.events s.handler.exchange p.2

/-- What is known of the feed, when these packets arrived and these events were handed on. -/
structure Known (s : Feed) (packets : List (Packet × ℕ)) (handled : List BBOEvent) : Prop where
  received : s.received packets = handled ++ s.loop.ahead s.handler.exchange
  queued : (s.popped ++ s.handler.bboQueue.contents).Sublist handled
  lost : handled.length =
    s.popped.length + s.handler.bboQueue.size + s.handler.dropped + s.loop.uncountedDrops
  called : s.called = if s.handler.bboCallback then handled else []
  rxMsgs : handled.length = s.handler.rxMsgs + s.loop.uncountedMsgs
  rxPkts : packets.length = s.rxPkts + s.loop.uncountedPkts
  inPacket : s.loop.InPacket
  stopped : s.loop = .returned → s.running = false

lemma known_init (exchange : ExchangeType) (uninit : ℕ → BBOEvent) (bboCallback : Bool) :
    (init exchange uninit bboCallback).Known [] [] := by
  have hsize : (init exchange uninit bboCallback).handler.bboQueue.size = 0 := by
    simp [init, SPSCQueue.size, SPSCQueue.empty]
  constructor
  · rfl
  · simp [init]
  · rw [hsize]
    rfl
  · cases bboCallback <;> rfl
  · rfl
  · rfl
  · trivial
  · exact Loop.noConfusion

/-! ## The strategy thread -/

/-- A pop takes the oldest event from the queue. -/
lemma popped_popBbo (s : Feed) :
    s.popBbo.popped ++ s.popBbo.handler.bboQueue.contents =
        s.popped ++ s.handler.bboQueue.contents ∧
      s.popBbo.popped.length + s.popBbo.handler.bboQueue.size =
        s.popped.length + s.handler.bboQueue.size := by
  have hpop : s.popBbo.popped = s.popped ++ s.handler.bboQueue.contents.head?.toList := by
    rw [popBbo, ← SPSCQueue.pop_fst]
  have hrest : s.popBbo.handler.bboQueue.contents = s.handler.bboQueue.contents.tail :=
    SPSCQueue.contents_pop _
  have hsame : s.popBbo.popped ++ s.popBbo.handler.bboQueue.contents =
      s.popped ++ s.handler.bboQueue.contents := by
    rw [hpop, hrest]
    cases s.handler.bboQueue.contents with
    | nil => simp
    | cons e events => simp
  refine ⟨hsame, ?_⟩
  rw [← SPSCQueue.length_contents, ← SPSCQueue.length_contents, ← List.length_append, hsame,
    List.length_append]

lemma Known.popBbo {s : Feed} {packets : List (Packet × ℕ)} {handled : List BBOEvent}
    (h : s.Known packets handled) : s.popBbo.Known packets handled := by
  obtain ⟨hsame, hlength⟩ := s.popped_popBbo
  refine ⟨h.received, ?_, ?_, h.called, h.rxMsgs, h.rxPkts, h.inPacket, h.stopped⟩
  · rw [hsame]
    exact h.queued
  · rw [hlength]
    exact h.lost

/-! ## The feed thread -/

/-- The push of an event. -/
lemma Known.push {s : Feed} {arrived : List (Packet × ℕ)} {handled todo : List BBOEvent}
    {e : BBOEvent} {n : ℕ} {rest : List Packet} {localTs : ℕ}
    (hloop : s.loop = .events (e :: todo) n rest localTs) (h : s.Known arrived handled)
    (packets : List Packet) (ts : ℕ) :
    (s.feedStep packets ts).Known arrived (handled ++ [e]) := by
  obtain ⟨hreceived, hqueued, hlost, hcalled, hrxMsgs, hrxPkts, hinPacket, -⟩ := h
  rw [hloop] at hreceived hlost hrxMsgs hrxPkts hinPacket
  simp only [Loop.ahead, Loop.uncountedDrops, Loop.uncountedMsgs, Loop.uncountedPkts,
    Loop.InPacket, List.length_cons] at hreceived hlost hrxMsgs hrxPkts hinPacket
  have hreceived' : s.received arrived =
      handled ++ [e] ++ (todo ++ rest.flatMap (Packet.events s.handler.exchange localTs)) := by
    rw [hreceived, List.append_assoc]
    rfl
  have hcalled' : (if s.handler.bboCallback then s.called ++ [e] else s.called) =
      if s.handler.bboCallback then handled ++ [e] else [] := by
    rw [hcalled]
    split_ifs <;> rfl
  have hmsgs : (handled ++ [e]).length = s.handler.rxMsgs + (n - todo.length) := by
    rw [List.length_append, List.length_singleton]
    omega
  simp only [feedStep, hloop]
  by_cases hroom : s.handler.bboQueue.size < 4096
  · obtain ⟨htrue, hall⟩ := SPSCQueue.push_of_size_lt hroom e
    have hgrown : (s.handler.bboQueue.push e).1.size = s.handler.bboQueue.size + 1 := by
      rw [← SPSCQueue.length_contents, hall, List.length_append, SPSCQueue.length_contents]
      rfl
    simp only [htrue, if_true]
    refine ⟨hreceived', ?_, ?_, hcalled', hmsgs, hrxPkts, Nat.le_of_succ_le hinPacket,
      Loop.noConfusion⟩
    · dsimp only
      rw [hall, ← List.append_assoc]
      exact hqueued.append (List.Sublist.refl _)
    · simp only [Loop.uncountedDrops, List.length_append, List.length_singleton, hgrown]
      omega
  · obtain ⟨hfalse, hnone⟩ := SPSCQueue.push_of_not_size_lt hroom e
    have hsame : (s.handler.bboQueue.push e).1.size = s.handler.bboQueue.size := by
      rw [← SPSCQueue.length_contents, hnone, SPSCQueue.length_contents]
    simp only [hfalse, Bool.false_eq_true, if_false]
    refine ⟨hreceived', ?_, ?_, hcalled', hmsgs, hrxPkts, Nat.le_of_succ_le hinPacket,
      Loop.noConfusion⟩
    · dsimp only
      rw [hnone]
      exact hqueued.trans (List.sublist_append_left ..)
    · simp only [Loop.uncountedDrops, List.length_append, List.length_singleton, hsame]
      omega

/-- The packets of a batch arrive. -/
lemma Known.recvmmsg {s : Feed} {arrived : List (Packet × ℕ)} {handled : List BBOEvent}
    (hloop : s.loop = .recvmmsg) (h : s.Known arrived handled) (packets : List Packet) (ts : ℕ) :
    (s.feedStep packets ts).Known (arrived ++ packets.map (·, ts)) handled := by
  obtain ⟨hreceived, hqueued, hlost, hcalled, hrxMsgs, hrxPkts, -, -⟩ := h
  rw [hloop] at hreceived hlost hrxMsgs hrxPkts
  simp only [Feed.feedStep, hloop]
  cases packets with
  | nil =>
    rw [List.map_nil, List.append_nil]
    exact ⟨hreceived, hqueued, hlost, hcalled, hrxMsgs, hrxPkts, trivial, Loop.noConfusion⟩
  | cons p packets =>
    refine ⟨?_, hqueued, hlost, hcalled, hrxMsgs, ?_, trivial, Loop.noConfusion⟩
    · have hbefore : s.received arrived = handled := hreceived.trans (List.append_nil _)
      rw [Feed.received, List.flatMap_append, Loop.ahead, List.flatMap_map, ← hbefore]
      rfl
    · rw [List.length_append, List.length_map, hrxPkts]
      rfl

/-- A step of the feed thread in which no packet arrives and no event is pushed. -/
lemma Known.feedStep_of_no_push {s : Feed} {arrived : List (Packet × ℕ)}
    {handled : List BBOEvent} (h : s.Known arrived handled) (hrecvmmsg : s.loop ≠ .recvmmsg)
    (hloop : ∀ e todo n rest localTs, s.loop ≠ .events (e :: todo) n rest localTs)
    (packets : List Packet) (ts : ℕ) : (s.feedStep packets ts).Known arrived handled := by
  have hknown := h
  obtain ⟨hreceived, hqueued, hlost, hcalled, hrxMsgs, hrxPkts, hinPacket, -⟩ := h
  cases hpc : s.loop with
  | events todo n rest localTs =>
    cases todo with
    | cons e todo => exact absurd hpc (hloop e todo n rest localTs)
    | nil =>
      rw [hpc] at hreceived hlost hrxMsgs hrxPkts
      simp only [Feed.feedStep, hpc]
      exact ⟨hreceived, hqueued, hlost, hcalled, hrxMsgs, hrxPkts, trivial, Loop.noConfusion⟩
  | addDropped todo n rest localTs =>
    rw [hpc] at hreceived hlost hrxMsgs hrxPkts hinPacket
    simp only [Feed.feedStep, hpc]
    exact ⟨hreceived, hqueued, hlost, hcalled, hrxMsgs, hrxPkts, hinPacket, Loop.noConfusion⟩
  | recvmmsg => exact absurd hpc hrecvmmsg
  | addRxPkts rest localTs =>
    rw [hpc] at hreceived hlost hrxMsgs hrxPkts
    simp only [Feed.feedStep, hpc]
    exact ⟨hreceived, hqueued, hlost, hcalled, hrxMsgs, hrxPkts, trivial, Loop.noConfusion⟩
  | packets rest localTs =>
    rw [hpc] at hreceived hlost hrxMsgs hrxPkts
    cases rest with
    | nil =>
      simp only [Feed.feedStep, hpc]
      exact ⟨hreceived, hqueued, hlost, hcalled, hrxMsgs, hrxPkts, trivial, Loop.noConfusion⟩
    | cons p rest =>
      simp only [Feed.feedStep, hpc]
      refine ⟨hreceived, hqueued, hlost, hcalled, ?_, hrxPkts, le_rfl, Loop.noConfusion⟩
      rw [Loop.uncountedMsgs, Nat.sub_self]
      exact hrxMsgs
  | loadRunning =>
    rw [hpc] at hreceived hlost hrxMsgs hrxPkts
    cases hrunning : s.running with
    | true =>
      simp only [Feed.feedStep, hpc, hrunning, if_true]
      exact ⟨hreceived, hqueued, hlost, hcalled, hrxMsgs, hrxPkts, trivial, Loop.noConfusion⟩
    | false =>
      simp only [Feed.feedStep, hpc, hrunning, Bool.false_eq_true, if_false]
      exact ⟨hreceived, hqueued, hlost, hcalled, hrxMsgs, hrxPkts, trivial, fun _ => rfl⟩
  | returned => simpa only [Feed.feedStep, hpc] using hknown

/-- **A step of the feed thread** takes the packets that arrive, and hands on an event or none. -/
lemma Known.feedStep {s : Feed} {arrived : List (Packet × ℕ)} {handled : List BBOEvent}
    (h : s.Known arrived handled) (packets : List Packet) (ts : ℕ) :
    ∃ more, (s.feedStep packets ts).Known (arrived ++ s.arriving (.feed packets ts))
      (handled ++ more) := by
  by_cases hrecvmmsg : s.loop = .recvmmsg
  · refine ⟨[], ?_⟩
    have hbatch : s.arriving (.feed packets ts) = packets.map (·, ts) := by
      simp [arriving, hrecvmmsg]
    rw [List.append_nil, hbatch]
    exact h.recvmmsg hrecvmmsg packets ts
  · have hnone : s.arriving (.feed packets ts) = [] := by
      unfold arriving
      split
      · exact absurd ‹_› hrecvmmsg
      · rfl
    rw [hnone, List.append_nil]
    by_cases hpush : ∃ e todo n rest localTs, s.loop = .events (e :: todo) n rest localTs
    · obtain ⟨e, todo, n, rest, localTs, hloop⟩ := hpush
      exact ⟨[e], h.push hloop packets ts⟩
    · refine ⟨[], ?_⟩
      rw [List.append_nil]
      exact h.feedStep_of_no_push hrecvmmsg
        (fun e todo n rest localTs hloop => hpush ⟨e, todo, n, rest, localTs, hloop⟩) packets ts

/-! ## A packet without a pop in between -/

/-- The steps of the feed thread over the events of a packet are the loop of `process_packet`. -/
lemma exists_iterate_events (todo : List BBOEvent) {s : Feed} {n : ℕ} {rest : List Packet}
    {localTs : ℕ} (hloop : s.loop = .events todo n rest localTs) :
    ∃ k, (fun s : Feed => s.feedStep [] 0)^[k] s =
      { s with
        handler := { todo.foldl FeedHandler.pushEvent s.handler with
          rxMsgs := (todo.foldl FeedHandler.pushEvent s.handler).rxMsgs + n }
        called := s.called ++ if s.handler.bboCallback then todo else []
        loop := .packets rest localTs } := by
  induction todo generalizing s with
  | nil =>
    refine ⟨1, ?_⟩
    simp [feedStep, hloop]
  | cons e todo ih =>
    cases hpushed : (s.handler.bboQueue.push e).2 with
    | true =>
      have hnext : (s.feedStep [] 0).loop = .events todo n rest localTs := by
        simp [feedStep, hloop, hpushed]
      have hhandler : (s.feedStep [] 0).handler = s.handler.pushEvent e := by
        simp [feedStep, hloop, FeedHandler.pushEvent, hpushed]
      obtain ⟨k, hk⟩ := ih hnext
      refine ⟨k + 1, ?_⟩
      rw [Function.iterate_succ_apply, hk, hhandler]
      simp only [feedStep, hloop]
      cases hcallback : s.handler.bboCallback <;> simp [FeedHandler.pushEvent, hcallback]
    | false =>
      have hnext : ((s.feedStep [] 0).feedStep [] 0).loop = .events todo n rest localTs := by
        simp [feedStep, hloop, hpushed]
      have hhandler : ((s.feedStep [] 0).feedStep [] 0).handler = s.handler.pushEvent e := by
        simp [feedStep, hloop, FeedHandler.pushEvent, hpushed]
      obtain ⟨k, hk⟩ := ih hnext
      refine ⟨k + 2, ?_⟩
      rw [Function.iterate_add_apply, Function.iterate_succ_apply, Function.iterate_one, hk,
        hhandler]
      simp only [feedStep, hloop, hpushed, Bool.false_eq_true, if_false]
      cases hcallback : s.handler.bboCallback <;> simp [FeedHandler.pushEvent, hcallback]

/-- **Refinement.**  When nothing is popped in between, the steps of the feed thread over a packet
do what `process_packet` does at once. -/
theorem exists_iterate_processPacket {s : Feed} {p : Packet} {rest : List Packet} {localTs : ℕ}
    (hloop : s.loop = .packets (p :: rest) localTs) :
    ∃ k, (fun s : Feed => s.feedStep [] 0)^[k] s =
      { s with
        handler := (s.handler.processPacket p.mem p.buf p.len localTs).1
        called := s.called ++ (s.handler.processPacket p.mem p.buf p.len localTs).2
        loop := .packets rest localTs } := by
  have hnext : (s.feedStep [] 0).loop =
      .events (p.events s.handler.exchange localTs)
        (p.events s.handler.exchange localTs).length rest
        localTs := by
    simp [feedStep, hloop]
  obtain ⟨k, hk⟩ := exists_iterate_events _ hnext
  refine ⟨k + 1, ?_⟩
  rw [Function.iterate_succ_apply, hk]
  simp only [feedStep, hloop]
  rfl

/-! ## No batch without an end -/

/-- With steps of its own the feed thread comes to the end of its packets. -/
lemma exists_iterate_packets (rest : List Packet) {s : Feed} {localTs : ℕ}
    (hloop : s.loop = .packets rest localTs) :
    ∃ k, ((fun s : Feed => s.feedStep [] 0)^[k] s).loop = .loadRunning ∧
      ((fun s : Feed => s.feedStep [] 0)^[k] s).running = s.running := by
  induction rest generalizing s with
  | nil =>
    refine ⟨1, ?_⟩
    simp [feedStep, hloop]
  | cons p rest ih =>
    obtain ⟨k, hk⟩ := exists_iterate_processPacket hloop
    obtain ⟨k', hend, hrunning⟩ :=
      ih (s := (fun s : Feed => s.feedStep [] 0)^[k] s) (by rw [hk])
    refine ⟨k' + k, ?_⟩
    rw [Function.iterate_add_apply]
    exact ⟨hend, hrunning.trans (by rw [hk])⟩

/-- With steps of its own the feed thread comes to the condition of its loop. -/
lemma exists_iterate_loadRunning {s : Feed} (hloop : s.loop ≠ .returned) :
    ∃ k, ((fun s : Feed => s.feedStep [] 0)^[k] s).loop = .loadRunning ∧
      ((fun s : Feed => s.feedStep [] 0)^[k] s).running = s.running := by
  have hevents {s : Feed} {todo : List BBOEvent} {n : ℕ} {rest : List Packet} {localTs : ℕ}
      (hpc : s.loop = .events todo n rest localTs) :
      ∃ k, ((fun s : Feed => s.feedStep [] 0)^[k] s).loop = .loadRunning ∧
        ((fun s : Feed => s.feedStep [] 0)^[k] s).running = s.running := by
    obtain ⟨k, hk⟩ := exists_iterate_events todo hpc
    obtain ⟨k', hend, hrunning⟩ :=
      exists_iterate_packets rest (s := (fun s : Feed => s.feedStep [] 0)^[k] s) (by rw [hk])
    refine ⟨k' + k, ?_⟩
    rw [Function.iterate_add_apply]
    exact ⟨hend, hrunning.trans (by rw [hk])⟩
  cases hpc : s.loop with
  | loadRunning => exact ⟨0, hpc, rfl⟩
  | recvmmsg => exact ⟨1, by simp [feedStep, hpc], by simp [feedStep, hpc]⟩
  | addRxPkts packets localTs =>
    have hnext : (s.feedStep [] 0).loop = .packets packets localTs := by simp [feedStep, hpc]
    obtain ⟨k, hend, hrunning⟩ := exists_iterate_packets packets hnext
    refine ⟨k + 1, ?_⟩
    rw [Function.iterate_succ_apply]
    exact ⟨hend, hrunning.trans (by simp [feedStep, hpc])⟩
  | packets rest localTs => exact exists_iterate_packets rest hpc
  | events todo n rest localTs => exact hevents hpc
  | addDropped todo n rest localTs =>
    have hnext : (s.feedStep [] 0).loop = .events todo n rest localTs := by simp [feedStep, hpc]
    obtain ⟨k, hend, hrunning⟩ := hevents hnext
    refine ⟨k + 1, ?_⟩
    rw [Function.iterate_succ_apply]
    exact ⟨hend, hrunning.trans (by simp [feedStep, hpc])⟩
  | returned => exact absurd hpc hloop

/-- With steps of its own the feed thread comes to `recvmmsg`, or out of the loop when it has been
stopped. -/
lemma Known.exists_iterate_recvmmsg {s : Feed} {arrived : List (Packet × ℕ)}
    {handled : List BBOEvent} (h : s.Known arrived handled) :
    ∃ k, ((fun s : Feed => s.feedStep [] 0)^[k] s).loop =
      if s.running then .recvmmsg else .returned := by
  by_cases hloop : s.loop = .returned
  · exact ⟨0, by simp [hloop, h.stopped hloop]⟩
  · obtain ⟨k, hend, hrunning⟩ := exists_iterate_loadRunning hloop
    refine ⟨k + 1, ?_⟩
    rw [Function.iterate_succ_apply', Feed.feedStep, hend]
    dsimp only
    rw [hrunning]

/-! ## Every run -/

/-- The feed after the actions. -/
def after (exchange : ExchangeType) (uninit : ℕ → BBOEvent) (bboCallback : Bool)
    (acts : List Act) : Feed :=
  run step (init exchange uninit bboCallback) acts

/-- The packets that arrived in a run, with the time stamps of their batches. -/
def arrived (exchange : ExchangeType) (uninit : ℕ → BBOEvent) (bboCallback : Bool)
    (acts : List Act) : List (Packet × ℕ) :=
  observe step arriving (init exchange uninit bboCallback) acts

/-- Every run hands on some of the events. -/
lemma known_after (exchange : ExchangeType) (uninit : ℕ → BBOEvent) (bboCallback : Bool)
    (acts : List Act) :
    ∃ handled, (after exchange uninit bboCallback acts).Known
      (arrived exchange uninit bboCallback acts) handled := by
  refine Transition.invariant_observe
    (P := fun (s : Feed) packets => ∃ handled, s.Known packets handled) ?_ ?_ acts
  · rintro s packets a ⟨handled, h⟩
    cases a with
    | feed batch ts =>
      obtain ⟨more, hmore⟩ := h.feedStep batch ts
      exact ⟨handled ++ more, hmore⟩
    | popBbo =>
      have hnone : s.arriving .popBbo = [] := by cases hloop : s.loop <;> simp [arriving, hloop]
      rw [hnone, List.append_nil]
      exact ⟨handled, h.popBbo⟩
    | stop =>
      have hnone : s.arriving .stop = [] := by cases hloop : s.loop <;> simp [arriving, hloop]
      rw [hnone, List.append_nil]
      exact ⟨handled, ⟨h.received, h.queued, h.lost, h.called, h.rxMsgs, h.rxPkts, h.inPacket,
        fun _ => rfl⟩⟩
  · exact ⟨[], known_init exchange uninit bboCallback⟩

/-- The counters are exact: every packet and every event is counted once, the callback was called
with all events, and the events that are neither popped nor in the queue are as many as `dropped`
says; when it says 0, none is missing. -/
structure Exact (s : Feed) (packets : List (Packet × ℕ)) : Prop where
  rxPkts : s.rxPkts = packets.length
  rxMsgs : s.handler.rxMsgs = (s.received packets).length
  called : s.called = if s.handler.bboCallback then s.received packets else []
  dropped : s.popped.length + s.handler.bboQueue.size + s.handler.dropped =
    (s.received packets).length
  complete : s.handler.dropped = 0 →
    s.popped ++ s.handler.bboQueue.contents = s.received packets

/-- **Delivery.**  In every interleaving of the feed thread with the strategy thread, whatever the
bytes of the packets are: what the strategy popped, and after it what is in the queue, are events of
the packets that arrived, in their order and none twice.  Between two batches the counters are
exact; and whatever the strategy does, the feed thread gets through its batch and calls `recvmmsg`
again, until it is stopped and returns. -/
theorem feed_delivery (exchange : ExchangeType) (uninit : ℕ → BBOEvent) (bboCallback : Bool)
    (acts : List Act) :
    let s := after exchange uninit bboCallback acts
    let packets := arrived exchange uninit bboCallback acts
    (s.popped ++ s.handler.bboQueue.contents).Sublist (s.received packets) ∧
      (s.loop.isBetween = true → s.Exact packets) ∧
      ∃ k, ((fun s : Feed => s.feedStep [] 0)^[k] s).loop =
        if s.running then .recvmmsg else .returned := by
  intro s packets
  obtain ⟨handled, h⟩ : ∃ handled, s.Known packets handled :=
    known_after exchange uninit bboCallback acts
  have hall := h.queued.trans (List.sublist_append_left handled (s.loop.ahead s.handler.exchange))
  rw [← h.received] at hall
  refine ⟨hall, fun hbetween => ?_, h.exists_iterate_recvmmsg⟩
  obtain ⟨hahead, hpkts, hmsgs, hdrops⟩ := Loop.nothing_of_isBetween hbetween s.handler.exchange
  have hreceived : s.received packets = handled := by
    rw [h.received, hahead, List.append_nil]
  have hlost := h.lost
  have hrxMsgs := h.rxMsgs
  have hrxPkts := h.rxPkts
  rw [hdrops, Nat.add_zero] at hlost
  rw [hmsgs, Nat.add_zero] at hrxMsgs
  rw [hpkts, Nat.add_zero] at hrxPkts
  constructor
  · exact hrxPkts.symm
  · rw [hreceived, hrxMsgs]
  · rw [hreceived, h.called]
  · rw [hreceived, hlost]
  · intro hnone
    rw [hreceived]
    apply h.queued.eq_of_length
    rw [List.length_append, SPSCQueue.length_contents, hlost, hnone, Nat.add_zero]

/-! ## No losses -/

/-- Nothing was lost so far. -/
def Lossless (s : Feed) : Prop :=
  s.handler.dropped + s.loop.uncountedDrops = 0

/-- An event that is pushed finds room. -/
def HasRoom (s : Feed) : Act → Prop
  | .feed _ _ =>
    match s.loop with
    | .events (_ :: _) _ _ _ => s.handler.bboQueue.size < 4096
    | _ => True
  | _ => True

/-- What the losses are after a step. -/
lemma losses_step (s : Feed) (a : Act) :
    (s.HasRoom a → (s.step a).handler.dropped + (s.step a).loop.uncountedDrops =
        s.handler.dropped + s.loop.uncountedDrops) ∧
      (¬s.HasRoom a → (s.step a).handler.dropped + (s.step a).loop.uncountedDrops =
        s.handler.dropped + s.loop.uncountedDrops + 1) := by
  cases a with
  | popBbo => exact ⟨fun _ => rfl, fun hroom => absurd trivial hroom⟩
  | stop => exact ⟨fun _ => rfl, fun hroom => absurd trivial hroom⟩
  | feed packets ts =>
    cases hloop : s.loop with
    | events todo n rest localTs =>
      cases todo with
      | nil =>
        simp only [step, feedStep, HasRoom, hloop]
        exact ⟨fun _ => rfl, fun hroom => absurd trivial hroom⟩
      | cons e todo =>
        have hsnd := SPSCQueue.push_snd s.handler.bboQueue e
        simp only [step, feedStep, HasRoom, hloop]
        constructor
        · intro hroom
          rw [hsnd, decide_eq_true hroom]
          rfl
        · intro hroom
          rw [hsnd, decide_eq_false hroom]
          rfl
    | packets rest localTs =>
      simp only [step, feedStep, HasRoom, hloop]
      cases rest with
      | nil => exact ⟨fun _ => rfl, fun hroom => absurd trivial hroom⟩
      | cons p rest => exact ⟨fun _ => rfl, fun hroom => absurd trivial hroom⟩
    | recvmmsg =>
      simp only [step, feedStep, HasRoom, hloop]
      cases packets with
      | nil => exact ⟨fun _ => rfl, fun hroom => absurd trivial hroom⟩
      | cons p packets => exact ⟨fun _ => rfl, fun hroom => absurd trivial hroom⟩
    | loadRunning =>
      simp only [step, feedStep, HasRoom, hloop]
      refine ⟨fun _ => ?_, fun hroom => absurd trivial hroom⟩
      cases s.running with
      | true => rfl
      | false => rfl
    | returned =>
      simp only [step, feedStep, HasRoom, hloop]
      exact ⟨fun _ => trivial, fun hroom => absurd trivial hroom⟩
    | _ =>
      simp only [step, feedStep, HasRoom, hloop]
      exact ⟨fun _ => rfl, fun hroom => absurd trivial hroom⟩

/-- Nothing is lost exactly when every push finds room. -/
lemma lossless_run_iff {s : Feed} (hs : s.Lossless) (acts : List Act) :
    (run step s acts).Lossless ↔ Admissible step HasRoom s acts := by
  have hmono : ∀ (acts : List Act) (s : Feed),
      s.handler.dropped + s.loop.uncountedDrops ≤
        (run step s acts).handler.dropped + (run step s acts).loop.uncountedDrops := by
    intro acts
    induction acts with
    | nil => exact fun s => le_rfl
    | cons a acts ih =>
      intro s
      refine le_trans ?_ (ih (s.step a))
      by_cases hroom : s.HasRoom a
      · exact ((s.losses_step a).1 hroom).ge
      · rw [(s.losses_step a).2 hroom]
        exact Nat.le_succ _
  induction acts generalizing s with
  | nil => exact iff_of_true hs trivial
  | cons a acts ih =>
    rw [Transition.run_cons, Transition.admissible_cons]
    by_cases hroom : s.HasRoom a
    · have hnext : (s.step a).Lossless := ((s.losses_step a).1 hroom).trans hs
      rw [and_iff_right hroom]
      exact ih hnext
    · have hlost := (s.losses_step a).2 hroom
      have hle := hmono acts (s.step a)
      rw [hlost] at hle
      refine iff_of_false (fun hless => ?_) fun h => hroom h.1
      rw [Lossless] at hless
      rw [hless] at hle
      exact absurd hle (Nat.not_succ_le_zero _)

/-- The packet carries these messages, and nothing else. -/
structure Carries (p : Packet) (msgs : List WireMsg) : Prop where
  wellFormed : ∀ m ∈ msgs, m.WellFormed
  holds : Holds p.mem p.buf (WireMsg.payload msgs)
  len : p.len = (WireMsg.payload msgs).length
  small : (WireMsg.payload msgs).length ≤ FeedHandler.maxPktBytes

/-- The events of a packet are the quotes and trades it carries. -/
lemma Carries.events {p : Packet} {msgs : List WireMsg} (h : Carries p msgs)
    (exchange : ExchangeType) (localTs : ℕ) :
    p.events exchange localTs =
      (WireMsg.quotesAndTrades msgs).map fun w => w.event.stamped localTs := by
  have hcount := WireMsg.length_mul_le_payload msgs
  have hsmall := h.small
  have hroom : msgs.length ≤ FeedHandler.batchSize := by
    simp only [sizeofWireBBO, FeedHandler.maxPktBytes, FeedHandler.batchSize] at *
    omega
  rw [Packet.events, h.len, Normalizer.parseBatch_payload h.wellFormed h.holds hroom,
    WireMsg.filterMap_event, List.map_map]
  rfl

/-- The quotes and trades in packets that arrived, each with the time stamp of its batch. -/
def quotesAndTrades (msgs : Packet → List WireMsg) (packets : List (Packet × ℕ)) :
    List (WireBBO × ℕ) :=
  packets.flatMap fun p => (WireMsg.quotesAndTrades (msgs p.1)).map (·, p.2)

/-- The events of the packets that arrived are those of their quotes and trades. -/
lemma received_eq (s : Feed) {msgs : Packet → List WireMsg} {packets : List (Packet × ℕ)}
    (h : ∀ p ∈ packets, Carries p.1 (msgs p.1)) :
    s.received packets = (quotesAndTrades msgs packets).map fun w => w.1.event.stamped w.2 := by
  rw [received, quotesAndTrades, List.map_flatMap]
  refine List.flatMap_congr fun p hp => ?_
  rw [(h p hp).events, List.map_map]
  rfl

/-- The packets that arrive are those of the actions. -/
lemma forall_mem_arrived {P : Packet → Prop} (exchange : ExchangeType) (uninit : ℕ → BBOEvent)
    (bboCallback : Bool) {acts : List Act}
    (hacts : ∀ packets ts, Act.feed packets ts ∈ acts → ∀ p ∈ packets, P p) :
    ∀ p ∈ arrived exchange uninit bboCallback acts, P p.1 := by
  refine Transition.forall_mem_observe step (fun a ha s p hp => ?_) _
  unfold arriving at hp
  split at hp
  · obtain ⟨q, hq, rfl⟩ := List.mem_map.mp hp
    exact hacts _ _ ha q hq
  · exact absurd hp List.not_mem_nil

/-- **No losses.**  When the packets carry well-formed messages, whatever order the two threads take
their steps in: what the strategy popped, what is in the queue and what the feed thread has still to
hand on are together exactly the quotes and trades of the packets that arrived, in their order, each
with the fields of its message and the time stamp of its batch, if and only if no event was pushed
while the strategy was a whole queue behind. -/
theorem lossless_iff (exchange : ExchangeType) (uninit : ℕ → BBOEvent) (bboCallback : Bool)
    (msgs : Packet → List WireMsg) {acts : List Act}
    (hmsgs : ∀ packets ts, Act.feed packets ts ∈ acts → ∀ p ∈ packets, Carries p (msgs p)) :
    let s := after exchange uninit bboCallback acts
    List.Forall₂ (fun w e => w.1.DecodedAs w.2 e)
        (quotesAndTrades msgs (arrived exchange uninit bboCallback acts))
        (s.popped ++ s.handler.bboQueue.contents ++ s.loop.ahead s.handler.exchange) ↔
      Admissible step HasRoom (init exchange uninit bboCallback) acts := by
  intro s
  have hlossless : (init exchange uninit bboCallback).Lossless := rfl
  have hiff : Admissible step HasRoom (init exchange uninit bboCallback) acts ↔ s.Lossless :=
    (lossless_run_iff hlossless acts).symm
  obtain ⟨handled, h⟩ : ∃ handled, s.Known (arrived exchange uninit bboCallback acts) handled :=
    known_after exchange uninit bboCallback acts
  have hreceived := s.received_eq (forall_mem_arrived exchange uninit bboCallback hmsgs)
  have hlost := h.lost
  have hlength : (s.popped ++ s.handler.bboQueue.contents).length =
      s.popped.length + s.handler.bboQueue.size := by
    rw [List.length_append, SPSCQueue.length_contents]
  simp only [WireBBO.decodedAs_iff]
  rw [hiff, ← List.forall₂_map_left_iff (R := Eq), List.forall₂_eq_eq_eq, ← hreceived, h.received,
    List.append_left_inj, Lossless]
  constructor
  · intro hsame
    rw [← hsame] at hlength
    omega
  · intro hnone
    symm
    apply h.queued.eq_of_length
    omega

/-- A packet with a quote, a depth update and a trade. -/
def samplePacket : Packet where
  mem i := (WireMsg.payload mixedPacket).getD i 0
  buf := 0
  len := (WireMsg.payload mixedPacket).length

lemma carries_samplePacket : Carries samplePacket mixedPacket where
  wellFormed := by decide
  holds := ByteWindow.holds_getD _ _
  len := rfl
  small := by
    simp [WireMsg.payload, WireMsg.length_bytes, WireMsg.isDepth, mixedPacket, sampleQuote,
      sampleDepth, sampleTrade, sizeofWireBBO, sizeofWireDepth, FeedHandler.maxPktBytes]

lemma events_samplePacket : samplePacket.events .internal 9 =
    [⟨5, 9, 1, .bboUpdate, 99, 101, 10, 10⟩, ⟨6, 9, 1, .trade, 100, 0, 3, 0⟩] := by
  rw [carries_samplePacket.events]
  decide

/-- The packet arrives, its quote is pushed and popped, and its trade is pushed. -/
def sampleActs : List Act :=
  [.feed [] 0, .feed [samplePacket] 9, .feed [] 0, .feed [] 0, .feed [] 0, .popBbo, .feed [] 0]

lemma after_sampleActs :
    let s := after .internal (fun _ => {}) true sampleActs
    s.popped = [⟨5, 9, 1, .bboUpdate, 99, 101, 10, 10⟩] ∧
      s.handler.bboQueue.contents = [⟨6, 9, 1, .trade, 100, 0, 3, 0⟩] ∧ s.Lossless := by
  simp only [after, sampleActs, Transition.run_cons, Transition.run_nil, step, feedStep, init,
    if_true, events_samplePacket]
  exact ⟨rfl, rfl, rfl⟩

/-- The quote has been popped, the trade is in the queue, and they are what arrived. -/
theorem lossless_iff_samplePacket :
    let s := after .internal (fun _ => {}) true sampleActs
    s.popped = [⟨5, 9, 1, .bboUpdate, 99, 101, 10, 10⟩] ∧
      s.handler.bboQueue.contents = [⟨6, 9, 1, .trade, 100, 0, 3, 0⟩] ∧
      List.Forall₂ (fun w e => w.1.DecodedAs w.2 e)
        (quotesAndTrades (fun _ => mixedPacket)
          (arrived .internal (fun _ => {}) true sampleActs))
        (s.popped ++ s.handler.bboQueue.contents ++ s.loop.ahead s.handler.exchange) := by
  have hcarries : ∀ packets ts, Act.feed packets ts ∈ sampleActs →
      ∀ p ∈ packets, Carries p mixedPacket := by
    intro packets ts hfeed p hp
    simp only [sampleActs, List.mem_cons, Act.feed.injEq, reduceCtorEq, List.not_mem_nil,
      or_false, false_or] at hfeed
    rcases hfeed with ⟨rfl, -⟩ | ⟨rfl, -⟩ | ⟨rfl, -⟩ | ⟨rfl, -⟩ | ⟨rfl, -⟩ | ⟨rfl, -⟩
    any_goals exact absurd hp List.not_mem_nil
    rw [List.mem_singleton.mp hp]
    exact carries_samplePacket
  obtain ⟨hpopped, hqueued, hlossless⟩ := after_sampleActs
  have hroom : Admissible step HasRoom (init .internal (fun _ => {}) true) sampleActs :=
    (lossless_run_iff (s := init .internal (fun _ => {}) true) rfl sampleActs).mp hlossless
  exact ⟨hpopped, hqueued,
    (lossless_iff .internal (fun _ => {}) true (fun _ => mixedPacket) hcarries).mpr hroom⟩

end Feed

end QuantTrade
