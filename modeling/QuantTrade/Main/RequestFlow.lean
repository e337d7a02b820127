import QuantTrade.Main.Journal

/-!
# The way of the requests

Between `send_order` of the strategy and the exchange a request passes two queues, the risk check
and the OMS thread.  A `Flow` is kept alongside the run of the main program: what the strategy asked
for, what the risk check saw and what passed it, and how many requests found a queue full.  What
comes to the exchange is what the strategy asked for, in order and at most once, and a request that
is neither there nor on its way was refused by the risk check or lost at a full queue
(`requests_in_order`).
-/

namespace QuantTrade

/-- The system, with what happened to the requests so far. -/
structure Flow where
  sys : Pipeline
  asked : List OrderRequest
  checked : List OrderRequest
  passed : List OrderRequest
  lost : ℕ

namespace Pipeline

/-- The request that the strategy sends in a call. -/
def asks : Action → List OrderRequest
  | .sendOrder req => [req]
  | _ => []

/-- The request that comes to the risk check in a call. -/
def checks (s : Pipeline) : Action → List OrderRequest
  | .oms _ =>
    match s.omsThread with
    | .popped req => [req]
    | _ => []
  | _ => []

/-- The number of requests that find a queue full in a call. -/
def loses (s : Pipeline) : Action → ℕ
  | .sendOrder req => if (s.orderQueue.push req).2 then 0 else 1
  | .strategy =>
    match s.strategyThread with
    | .popped req => if (s.stratToOmsQueue.push req).2 then 0 else 1
    | .idle => 0
  | _ => 0

/-- The request that the OMS thread has fetched and not yet checked. -/
def unchecked (s : Pipeline) : List OrderRequest :=
  match s.omsThread with
  | .popped req => [req]
  | _ => []

/-- The request that the strategy thread has fetched and not yet passed on. -/
def relayed (s : Pipeline) : List OrderRequest :=
  match s.strategyThread with
  | .popped req => [req]
  | .idle => []

/-- The requests on their way to the risk check, oldest first. -/
def inFlight (s : Pipeline) : List OrderRequest :=
  s.unchecked ++ (s.stratToOmsQueue.contents ++ (s.relayed ++ s.orderQueue.contents))

end Pipeline

/-! ## What a call does to the requests -/

namespace Pipeline

variable {s s' : Pipeline} {a : Action}

/-- What a push does to the contents of a queue. -/
lemma push_cases {N : ℕ} (q : SPSCQueue OrderRequest N) (req : OrderRequest) :
    ((q.push req).2 = true ∧ (q.push req).1.contents = q.contents ++ [req]) ∨
      ((q.push req).2 = false ∧ (q.push req).1.contents = q.contents) := by
  obtain ⟨hcontents, hresult⟩ := Prod.ext_iff.mp (SPSCQueue.push_refines q req)
  dsimp only at hcontents hresult
  rw [hcontents, hresult]
  by_cases hfull : q.contents.length = N
  · rw [BoundedFifo.push_of_length_eq hfull]
    exact Or.inr ⟨rfl, rfl⟩
  · rw [BoundedFifo.push_of_length_ne hfull]
    exact Or.inl ⟨rfl, rfl⟩

/-- A call keeps the order of the requests on their way; what is missing afterwards has come to the
risk check or was lost at a full queue. -/
lemma Step.inFlight (hs : Step s a s') :
    (s.checks a ++ s'.inFlight).Sublist (s.inFlight ++ asks a) ∧
      (s.inFlight ++ asks a).length = (s.checks a ++ s'.inFlight).length + s.loses a := by
  cases hs with
  | sendOrder req =>
    rcases push_cases s.orderQueue req with ⟨hok, hq⟩ | ⟨hok, hq⟩
    · simp [checks, asks, Pipeline.inFlight, unchecked, relayed, loses, hok, hq]
    · simp [checks, asks, Pipeline.inFlight, unchecked, relayed, loses, hok, hq]
      omega
  | strategyEmpty h hq =>
    simp [checks, asks, Pipeline.inFlight, unchecked, relayed, loses, h, hq]
  | strategyPop req rest h hq =>
    simp [checks, asks, Pipeline.inFlight, unchecked, relayed, loses, h, hq]
  | strategyPush req h =>
    rcases push_cases s.stratToOmsQueue req with ⟨hok, hq⟩ | ⟨hok, hq⟩
    · simp [checks, asks, Pipeline.inFlight, unchecked, relayed, loses, h, hok, hq]
    · simp [checks, asks, Pipeline.inFlight, unchecked, relayed, loses, h, hok, hq]
      omega
  | omsEmpty reading h hq =>
    simp [checks, asks, Pipeline.inFlight, unchecked, relayed, loses, h, hq]
  | omsPop reading req rest h hq =>
    simp [checks, asks, Pipeline.inFlight, unchecked, relayed, loses, h, hq]
  | omsPass reading req h hok =>
    simp [checks, asks, Pipeline.inFlight, unchecked, relayed, loses, h]
  | omsRefuse reading req h hok =>
    simp [checks, asks, Pipeline.inFlight, unchecked, relayed, loses, h]
  | omsSend reading req order h =>
    cases order <;> simp [checks, asks, Pipeline.inFlight, unchecked, relayed, loses, h]
  | omsSubmit reading req h | omsAck reading order h | omsPush reading order h =>
    simp [checks, asks, Pipeline.inFlight, unchecked, relayed, loses, h]
  | _ => simp [checks, asks, Pipeline.inFlight, unchecked, relayed, loses]

/-- What passes the risk check came to it. -/
lemma passes_sublist_checks (s : Pipeline) (a : Action) : (s.passes a).Sublist (s.checks a) := by
  cases a with
  | oms reading =>
    cases h : s.omsThread with
    | popped req =>
      simp only [passes, checks, h]
      split
      · exact List.Sublist.refl _
      · exact List.nil_sublist _
    | _ => simp [passes, checks, h]
  | _ => exact List.Sublist.refl _

/-- What passed the risk check comes to the gateway in this order. -/
lemma Step.submittedOrders (hs : Step s a s') :
    s'.simGw.submittedOrders ++ s'.pending =
      s.simGw.submittedOrders ++ s.pending ++ s.passes a := by
  cases hs with
  | omsSend reading req order h => cases order <;> simp [pending, passes, h]
  | omsPass reading req h hok => simp [pending, passes, h, hok]
  | omsRefuse reading req h hok => simp [pending, passes, h, hok]
  | omsEmpty reading h hq => simp [pending, passes, h]
  | omsPop reading req rest h hq => simp [pending, passes, h]
  | omsSubmit reading req h => simp [pending, passes, h]
  | omsAck reading order h => simp [pending, passes, h]
  | omsPush reading order h => simp [pending, passes, h]
  | _ => simp [pending, passes]

end Pipeline

namespace Flow

open Pipeline

/-- The start of a run. -/
def init (cfg : Config) (nowNs : ℤ) : Flow where
  sys := .init cfg nowNs
  asked := []
  checked := []
  passed := []
  lost := 0

/-- A step of the system, with what it does to the requests. -/
def step (f : Flow) (a : Action) : Flow where
  sys := f.sys.step a
  asked := f.asked ++ asks a
  checked := f.checked ++ f.sys.checks a
  passed := f.passed ++ f.sys.passes a
  lost := f.lost + f.sys.loses a

/-- The system after the actions of a run, and what happened to the requests on the way. -/
def after (cfg : Config) (nowNs : ℤ) (as : List Action) : Flow :=
  Transition.run step (init cfg nowNs) as

/-- Nothing comes out of order, nothing twice, and what is missing was lost. -/
structure InOrder (f : Flow) : Prop where
  sent : f.sys.simGw.submittedOrders ++ f.sys.pending = f.passed
  passed : f.passed.Sublist f.checked
  checked : (f.checked ++ f.sys.inFlight).Sublist f.asked
  lost : f.asked.length = f.checked.length + f.sys.inFlight.length + f.lost

lemma inOrder_init (cfg : Config) (nowNs : ℤ) : (init cfg nowNs).InOrder where
  sent := rfl
  passed := List.Sublist.refl _
  checked := by simp [init, inFlight, unchecked, relayed, Pipeline.init]
  lost := by simp [init, inFlight, unchecked, relayed, Pipeline.init]

/-- **One call** keeps the requests in order. -/
lemma InOrder.step {f : Flow} (hw : f.sys.Wired) (h : f.InOrder) (a : Action) :
    (f.step a).InOrder := by
  have hs := step_spec hw a
  obtain ⟨hline, hlength⟩ := hs.inFlight
  have hsent := h.sent
  have hlost := h.lost
  refine ⟨?_, ?_, ?_, ?_⟩
  · rw [Flow.step, hs.submittedOrders, hsent]
  · exact h.passed.append (passes_sublist_checks f.sys a)
  · calc (f.checked ++ f.sys.checks a ++ (f.sys.step a).inFlight).Sublist
          (f.checked ++ (f.sys.inFlight ++ asks a)) := by
          rw [List.append_assoc]
          exact hline.append_left _
      _ = f.checked ++ f.sys.inFlight ++ asks a := (List.append_assoc ..).symm
      List.Sublist _ (f.asked ++ asks a) := h.checked.append_right _
  · simp only [Flow.step, List.length_append] at hlength ⊢
    omega

/-- **Requests come in order.**  In every interleaving of the threads, what the gateway got,
followed by what is about to be sent to it, is what passed the risk check, in this order; this is a
part of what the risk check saw; and what it saw, followed by what is on its way there, is a part of
what the strategy asked for.  As many requests are missing as found a queue full; if none did, every
request of the strategy came to the risk check once, in order, or is on its way. -/
theorem requests_in_order (cfg : Config) (nowNs : ℤ) (as : List Action) :
    (after cfg nowNs as).InOrder ∧
      ((after cfg nowNs as).lost = 0 →
        (after cfg nowNs as).checked ++ (after cfg nowNs as).sys.inFlight =
          (after cfg nowNs as).asked) := by
  have hinv : (after cfg nowNs as).sys.Wired ∧ (after cfg nowNs as).InOrder := by
    refine Transition.invariant_run_of_step (P := fun f : Flow => f.sys.Wired ∧ f.InOrder) ?_
      ⟨wired_init cfg nowNs, inOrder_init cfg nowNs⟩ as
    intro f a h
    exact ⟨h.1.step (step_spec h.1 a), h.2.step h.1 a⟩
  refine ⟨hinv.2, fun hnone => ?_⟩
  have hlength := hinv.2.lost
  refine hinv.2.checked.eq_of_length ?_
  rw [List.length_append]
  omega

end Flow

end QuantTrade
