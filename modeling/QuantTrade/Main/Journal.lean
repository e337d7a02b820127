import QuantTrade.Main.Pipeline

/-!
# The journal of a run

What is proved about the main program speaks of things that the state does not remember: which
requests passed the risk check, with which order a request reached the gateway, under which id a
fill was handed to the OMS.  A `Journal` is kept alongside the run to write them down; it does not
influence it (`observe_sys`).
-/

namespace QuantTrade

/-- A request at the moment it reaches the gateway: the order that the OMS created for it, and the
number under which the gateway will report its fill. -/
structure Dispatch where
  req : OrderRequest
  order : Option Order
  exchangeOrderId : ℕ
  deriving DecidableEq, Repr

/-- What happened so far: the requests that passed the risk check, those that reached the gateway,
and the fills as they were handed to `OMS::on_fill`. -/
structure Journal where
  passed : List OrderRequest
  sent : List Dispatch
  handed : List FillEvent
  deriving DecidableEq, Repr

namespace Pipeline

/-- The request that passes the risk check in a call. -/
def passes (s : Pipeline) : Action → List OrderRequest
  | .oms reading =>
    match s.omsThread with
    | .popped req => if (s.risk.check reading.monotonicNs req).2 then [req] else []
    | _ => []
  | _ => []

/-- The request that reaches the gateway in a call. -/
def sends (s : Pipeline) : Action → List Dispatch
  | .oms _ =>
    match s.omsThread with
    | .submitted req order =>
      match s.router.select [some s.simGw.status] with
      | some _ => [⟨req, order.bind s.oms.pool.deref, s.simGw.nextExchangeId⟩]
      | none => []
    | _ => []
  | _ => []

/-- A request that passed the risk check and did not yet reach the gateway. -/
def pending (s : Pipeline) : List OrderRequest :=
  match s.omsThread with
  | .checked req => [req]
  | .submitted req _ => [req]
  | _ => []

/-- The fill that the gateway thread is about to hand to the OMS. -/
def gwFill (s : Pipeline) : List FillEvent :=
  match s.gwThread with
  | .hasFill fill _ => [fill]
  | _ => []

/-- The fill that is handed to the OMS in a call. -/
def hands (s : Pipeline) : Action → List FillEvent
  | .gw => s.gwFill
  | _ => []

/-- The fill that the position thread is about to hand to the position manager. -/
def posFill (s : Pipeline) : List FillEvent :=
  match s.posThread with
  | .popped fill => [fill]
  | _ => []

/-- The fills that did not yet reach the position manager. -/
def fillsInFlight (s : Pipeline) : List FillEvent :=
  s.posFill ++ s.oms.fillTracker.fillQueue.contents ++ s.gwFill ++ s.simGw.fillQueue

end Pipeline

/-- The journal after a call. -/
def Journal.record (j : Journal) (s : Pipeline) (a : Action) : Journal where
  passed := j.passed ++ s.passes a
  sent := j.sent ++ s.sends a
  handed := j.handed ++ s.hands a

/-- The system together with its journal. -/
structure Observed where
  sys : Pipeline
  journal : Journal

namespace Observed

/-- The start of a run. -/
def init (cfg : Config) (nowNs : ℤ) : Observed where
  sys := .init cfg nowNs
  journal := ⟨[], [], []⟩

/-- A step of the system, with its entry in the journal. -/
def step (o : Observed) (a : Action) : Observed where
  sys := o.sys.step a
  journal := o.journal.record o.sys a

/-- The system after the actions of a run, and what happened on the way. -/
def after (cfg : Config) (nowNs : ℤ) (as : List Action) : Observed :=
  Transition.run step (init cfg nowNs) as

/-- The journal does not influence the run. -/
lemma observe_sys (o : Observed) (a : Action) : (o.step a).sys = o.sys.step a := rfl

lemma after_sys (cfg : Config) (nowNs : ℤ) (as : List Action) :
    (after cfg nowNs as).sys = Transition.run Pipeline.step (.init cfg nowNs) as :=
  Transition.proj_run observe_sys _ _

end Observed

namespace Pipeline

variable {s s' : Pipeline} {a : Action}

/-- No call changes the wiring. -/
lemma Wired.step (h : s.Wired) (hs : Step s a s') : s'.Wired := by
  cases hs <;> exact ⟨h.connected, h.certain, h.depth⟩

/-- Every request that was submitted to the OMS is sent. -/
lemma sends_of_submitted (h : s.Wired) {reading : Reading} {req : OrderRequest} {order : Option ℕ}
    (homs : s.omsThread = .submitted req order) :
    s.sends (.oms reading) = [⟨req, order.bind s.oms.pool.deref, s.simGw.nextExchangeId⟩] := by
  have hselect : s.router.select [some s.simGw.status] = some 0 :=
    SmartRouter.select_singleton h.depth h.connected
  simp only [sends, homs, hselect]

end Pipeline

namespace Observed

open Pipeline

/-- **Invariant rule.**  A property of state and journal that every allowed call keeps holds at the
end of every allowed run. -/
theorem invariant_run {C : Pipeline → Action → Prop} {P : Observed → Prop}
    (hstep : ∀ {s j a s'}, Step s a s' → C s a → s.Wired → P ⟨s, j⟩ → P ⟨s', j.record s a⟩)
    {o : Observed} {as : List Action} (hw : o.sys.Wired) (hP : P o)
    (has : Transition.Admissible Pipeline.step C o.sys as) :
    (Transition.run step o as).sys.Wired ∧ P (Transition.run step o as) := by
  refine Transition.invariant_run (P := fun o => o.sys.Wired ∧ P o) ?_
    ((Transition.admissible_proj observe_sys o as).mpr has) ⟨hw, hP⟩
  intro o a hC h
  have hs := step_spec h.1 a
  exact ⟨h.1.step hs, hstep hs hC h.1 h.2⟩

/-- A property that every call keeps holds at the end of every run of the program. -/
theorem invariant_after {P : Observed → Prop}
    (hstep : ∀ {s j a s'}, Step s a s' → s.Wired → P ⟨s, j⟩ → P ⟨s', j.record s a⟩)
    {cfg : Config} {nowNs : ℤ} (hinit : P (init cfg nowNs)) (as : List Action) :
    (after cfg nowNs as).sys.Wired ∧ P (after cfg nowNs as) :=
  invariant_run (C := fun _ _ => True) (fun hs _ hw h => hstep hs hw h) (wired_init cfg nowNs) hinit
    (Transition.admissible_true ..)

/-- What passed the risk check was sent or is about to be. -/
def InOrder (o : Observed) : Prop :=
  o.journal.passed = o.journal.sent.map (·.req) ++ o.sys.pending

lemma InOrder.step {s s' : Pipeline} {j : Journal} {a : Action} (hs : Step s a s') (hw : s.Wired)
    (h : InOrder ⟨s, j⟩) : InOrder ⟨s', j.record s a⟩ := by
  unfold InOrder at h ⊢
  cases hs with
  | omsSend reading req order homs =>
    have hsend : s.sends (.oms reading) = _ := sends_of_submitted hw homs
    cases order <;> simp_all [Journal.record, passes, pending]
  | _ => simp_all [Journal.record, passes, sends, pending]

theorem inOrder_after (cfg : Config) (nowNs : ℤ) (as : List Action) :
    (after cfg nowNs as).InOrder :=
  (invariant_after (P := InOrder) InOrder.step (by rfl) as).2

end Observed

end QuantTrade
