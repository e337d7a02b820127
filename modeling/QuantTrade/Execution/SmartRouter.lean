import Mathlib.Algebra.Order.Ring.Rat
import QuantTrade.Connectivity.SimGateway
import QuantTrade.Library.Transition

/-!
# The smart router

`SmartRouter` of `src/execution/smart_router.cpp`: of the connected gateways it selects the first
one with the highest score, the depth over the round trip time.  The list of gateways is what they
say of themselves at the time of the call; a null pointer is `none`.

A router that runs together with its gateways delivers every order to the first of the best
connected gateways, or drops it and counts it when there is none (`send_delivers_to_best`).
-/

namespace QuantTrade

/-- The depth assumed for each gateway and the number of orders that found none. -/
structure SmartRouter where
  depthProxy : List ℤ
  dropped : ℕ
  deriving DecidableEq, Repr

namespace SmartRouter

/-- A new router for a number of gateways. -/
def init (gateways : ℕ) : SmartRouter where
  depthProxy := List.replicate gateways 1
  dropped := 0

/-- `update_depth`. -/
def updateDepth (r : SmartRouter) (gatewayIdx : ℕ) (depth : ℤ) : SmartRouter :=
  if gatewayIdx < r.depthProxy.length then
    { r with depthProxy := r.depthProxy.set gatewayIdx (if depth > 0 then depth else 1) }
  else r

/-- The score of a gateway. -/
def score (depth : ℤ) (rttNs : ℕ) : ℚ :=
  let denom : ℚ := if rttNs > 0 then (rttNs : ℚ) else 1
  (depth : ℚ) / denom

/-- The loop of `select` from gateway `i` on, with the best gateway so far and its score. -/
def selectFrom (r : SmartRouter) (i : ℕ) (best : Option ℕ) (bestScore : ℚ) :
    List (Option GatewayStatus) → Option ℕ
  | [] => best
  | none :: gws => selectFrom r (i + 1) best bestScore gws
  | some gw :: gws =>
    if !gw.isConnected then selectFrom r (i + 1) best bestScore gws
    else
      let s := score (r.depthProxy.getD i 1) gw.rttNs
      if s > bestScore then selectFrom r (i + 1) (some i) s gws
      else selectFrom r (i + 1) best bestScore gws

/-- `select`: the index of the gateway, if there is one. -/
def select (r : SmartRouter) (gateways : List (Option GatewayStatus)) : Option ℕ :=
  r.selectFrom 0 none (-1) gateways

/-- A router is ready for a single gateway when the depth assumed for it is positive. -/
lemma select_singleton {r : SmartRouter} (hdepth : 0 < r.depthProxy.getD 0 1) {gw : GatewayStatus}
    (hgw : gw.isConnected = true) : r.select [some gw] = some 0 := by
  have hdenom : (0 : ℚ) < if gw.rttNs > 0 then (gw.rttNs : ℚ) else 1 := by
    split_ifs with hrtt
    · exact_mod_cast hrtt
    · exact one_pos
  have hpos : 0 < score (r.depthProxy.getD 0 1) gw.rttNs :=
    div_pos (by exact_mod_cast hdepth) hdenom
  have hscore : score (r.depthProxy.getD 0 1) gw.rttNs > -1 :=
    lt_trans neg_one_lt_zero hpos
  simp only [select, selectFrom, hgw, Bool.not_true, Bool.false_eq_true, if_false, hscore, if_true]

/-- `send`: the index of the gateway that gets the order, if there is one. -/
def send (r : SmartRouter) (gateways : List (Option GatewayStatus)) : Option ℕ × SmartRouter :=
  match r.select gateways with
  | some i => (some i, r)
  | none => (none, { r with dropped := r.dropped + 1 })

/-! ## The best gateway -/

/-- A depth for each of `n` gateways, and all of them positive. -/
structure Fits (r : SmartRouter) (n : ℕ) : Prop where
  length_eq : r.depthProxy.length = n
  pos : ∀ depth ∈ r.depthProxy, 0 < depth

lemma fits_init (n : ℕ) : (init n).Fits n where
  length_eq := List.length_replicate
  pos depth hdepth := by
    rw [List.eq_of_mem_replicate hdepth]
    exact one_pos

/-- `update_depth` puts in a positive depth, whatever it is given. -/
lemma Fits.updateDepth {r : SmartRouter} {n : ℕ} (h : r.Fits n) (gatewayIdx : ℕ) (depth : ℤ) :
    (r.updateDepth gatewayIdx depth).Fits n := by
  unfold SmartRouter.updateDepth
  split
  · refine ⟨by rw [List.length_set, h.length_eq], fun d hd => ?_⟩
    rcases List.mem_or_eq_of_mem_set hd with hd | rfl
    · exact h.pos d hd
    · split_ifs with hpos
      · exact hpos
      · exact one_pos
  · exact h

/-- The entry at index `i` is a connected gateway, and its score is its depth over its round trip
time, which counts as 1 when it is 0. -/
def HasScore (r : SmartRouter) (gateways : List (Option GatewayStatus)) (i : ℕ) (q : ℚ) : Prop :=
  ∃ gw depth, gateways[i]? = some (some gw) ∧ gw.isConnected = true ∧
    r.depthProxy[i]? = some depth ∧ q = (depth : ℚ) / (max gw.rttNs 1 : ℕ)

/-- The gateway at index `i` has a score that no other one exceeds and none before it reaches. -/
def IsFirstBest (r : SmartRouter) (gateways : List (Option GatewayStatus)) (i : ℕ) (q : ℚ) :
    Prop :=
  r.HasScore gateways i q ∧ ∀ j q', r.HasScore gateways j q' → q' ≤ q ∧ (j < i → q' < q)

/-- What the loop of `select` knows of the gateways it has seen. -/
def BestSoFar (r : SmartRouter) (seen : List (Option GatewayStatus)) (bestScore : ℚ) :
    Option ℕ → Prop
  | none => bestScore = -1 ∧ ∀ j q, ¬r.HasScore seen j q
  | some i => r.IsFirstBest seen i bestScore

lemma score_eq (depth : ℤ) (rttNs : ℕ) : score depth rttNs = (depth : ℚ) / (max rttNs 1 : ℕ) := by
  rcases Nat.eq_zero_or_pos rttNs with rfl | hpos
  · simp [score]
  · rw [score, if_pos hpos, max_eq_left (Nat.succ_le_of_lt hpos)]

section Loop

variable {r : SmartRouter} {seen : List (Option GatewayStatus)} {i : ℕ} {q : ℚ}

/-- Scores are positive. -/
lemma HasScore.pos {n : ℕ} (hr : r.Fits n) (h : r.HasScore seen i q) : 0 < q := by
  obtain ⟨gw, depth, -, -, hdepth, rfl⟩ := h
  refine div_pos ?_ ?_
  · exact_mod_cast hr.pos depth (List.mem_of_getElem? hdepth)
  · exact_mod_cast Nat.lt_of_lt_of_le Nat.one_pos (le_max_right gw.rttNs 1)

lemma HasScore.unique {q' : ℚ} (h : r.HasScore seen i q) (h' : r.HasScore seen i q') : q = q' := by
  obtain ⟨gw, depth, hgw, -, hdepth, rfl⟩ := h
  obtain ⟨gw', depth', hgw', -, hdepth', rfl⟩ := h'
  rw [hgw, Option.some_inj, Option.some_inj] at hgw'
  rw [hdepth, Option.some_inj] at hdepth'
  rw [hgw', hdepth']

lemma HasScore.lt_length (h : r.HasScore seen i q) : i < seen.length := by
  obtain ⟨gw, depth, hgw, -⟩ := h
  exact (List.getElem?_eq_some_iff.mp hgw).1

/-- A score of a list with one more entry is an old one or that of the entry. -/
lemma hasScore_concat {gw : Option GatewayStatus} :
    r.HasScore (seen ++ [gw]) i q ↔
      r.HasScore seen i q ∨ i = seen.length ∧ r.HasScore (seen ++ [gw]) seen.length q := by
  rcases lt_trichotomy i seen.length with hlt | rfl | hgt
  · have hget : (seen ++ [gw])[i]? = seen[i]? := List.getElem?_append_left hlt
    simp only [HasScore, hget, hlt.ne, false_and, or_false]
  · have hnot : ¬r.HasScore seen seen.length q := fun h => lt_irrefl _ h.lt_length
    simp only [hnot, true_and, false_or]
  · have hnot : ¬r.HasScore seen i q := fun h => lt_asymm hgt h.lt_length
    have hnot' : ¬r.HasScore (seen ++ [gw]) i q := by
      intro h
      have := h.lt_length
      rw [List.length_append, List.length_singleton] at this
      omega
    simp only [hnot, hnot', hgt.ne', false_and, or_false]

/-- An entry without a score changes nothing. -/
lemma BestSoFar.concat_of_not {gw : Option GatewayStatus} {best : Option ℕ}
    (h : r.BestSoFar seen q best) (hgw : ∀ q', ¬r.HasScore (seen ++ [gw]) seen.length q') :
    r.BestSoFar (seen ++ [gw]) q best := by
  have hsame : ∀ j q', r.HasScore (seen ++ [gw]) j q' ↔ r.HasScore seen j q' := by
    intro j q'
    rw [hasScore_concat]
    exact or_iff_left fun hnew => hgw q' hnew.2
  cases best with
  | none => exact ⟨h.1, fun j q' hj => h.2 j q' ((hsame j q').mp hj)⟩
  | some i =>
    exact ⟨(hsame i q).mpr h.1, fun j q' hj => h.2 j q' ((hsame j q').mp hj)⟩

/-- An entry with a higher score than all before it becomes the best. -/
lemma BestSoFar.concat_of_gt {gw : Option GatewayStatus} {best : Option ℕ} {q' : ℚ}
    (h : r.BestSoFar seen q best) (hgw : r.HasScore (seen ++ [gw]) seen.length q') (hgt : q < q') :
    r.BestSoFar (seen ++ [gw]) q' (some seen.length) := by
  refine ⟨hgw, fun j p hj => ?_⟩
  rcases hasScore_concat.mp hj with hold | ⟨rfl, hnew⟩
  · have hlt : p < q' := by
      cases best with
      | none => exact absurd hold (h.2 j p)
      | some i => exact lt_of_le_of_lt (h.2 j p hold).1 hgt
    exact ⟨hlt.le, fun _ => hlt⟩
  · exact ⟨(hnew.unique hgw).le, fun hlt => absurd hlt (lt_irrefl _)⟩

/-- An entry whose score is not higher leaves the best one what it is. -/
lemma BestSoFar.concat_of_le {n : ℕ} (hr : r.Fits n) {gw : Option GatewayStatus} {best : Option ℕ}
    {q' : ℚ} (h : r.BestSoFar seen q best) (hgw : r.HasScore (seen ++ [gw]) seen.length q')
    (hle : q' ≤ q) : r.BestSoFar (seen ++ [gw]) q best := by
  cases best with
  | none =>
    -- the initial score is below every score there is
    have hpos := hgw.pos hr
    rw [h.1] at hle
    exact absurd (hpos.trans_le hle) (not_lt_of_gt neg_one_lt_zero)
  | some i =>
    refine ⟨hasScore_concat.mpr (Or.inl h.1), fun j p hj => ?_⟩
    rcases hasScore_concat.mp hj with hold | ⟨rfl, hnew⟩
    · exact h.2 j p hold
    · exact ⟨(hnew.unique hgw).le.trans hle, fun hlt => absurd (hlt.trans h.1.lt_length)
        (lt_irrefl _)⟩

/-- The loop keeps what it knows. -/
lemma bestSoFar_selectFrom {best : Option ℕ} {gateways : List (Option GatewayStatus)}
    (hr : r.Fits (seen ++ gateways).length) (h : r.BestSoFar seen q best) :
    ∃ q', r.BestSoFar (seen ++ gateways) q' (r.selectFrom seen.length best q gateways) := by
  induction gateways generalizing seen best q with
  | nil => exact ⟨q, by rwa [List.append_nil]⟩
  | cons gw gws ih =>
    have hlen : (seen ++ [gw]).length = seen.length + 1 := by
      rw [List.length_append, List.length_singleton]
    have hcons : seen ++ gw :: gws = seen ++ [gw] ++ gws := by
      rw [List.append_assoc, List.singleton_append]
    have hnext : (seen ++ [gw])[seen.length]? = some gw := List.getElem?_concat_length
    have hrest : ∀ {q₁ best₁}, r.BestSoFar (seen ++ [gw]) q₁ best₁ →
        ∃ q', r.BestSoFar (seen ++ gw :: gws) q' (r.selectFrom (seen.length + 1) best₁ q₁ gws) := by
      intro q₁ best₁ h₁
      rw [hcons, ← hlen]
      exact ih (by rwa [← hcons]) h₁
    cases gw with
    | none =>
      refine hrest (h.concat_of_not ?_)
      rintro q' ⟨gw, -, hgw, -⟩
      rw [hnext] at hgw
      simp at hgw
    | some gw =>
      have hdepth : r.depthProxy[seen.length]? = some (r.depthProxy.getD seen.length 1) := by
        have hlt : seen.length < r.depthProxy.length := by
          rw [hr.length_eq, hcons, List.length_append, hlen]
          omega
        rw [List.getD_eq_getElem?_getD, List.getElem?_eq_getElem hlt, Option.getD_some]
      rw [selectFrom]
      by_cases hconn : gw.isConnected = true
      · have hscore : r.HasScore (seen ++ [some gw]) seen.length
            (score (r.depthProxy.getD seen.length 1) gw.rttNs) :=
          ⟨gw, _, hnext, hconn, hdepth, score_eq ..⟩
        simp only [hconn, Bool.not_true, Bool.false_eq_true, if_false]
        split_ifs with hgt
        · exact hrest (h.concat_of_gt hscore hgt)
        · exact hrest (h.concat_of_le hr hscore (not_lt.mp hgt))
      · simp only [hconn, Bool.not_false, if_true]
        refine hrest (h.concat_of_not ?_)
        rintro q' ⟨gw', -, hgw', hconn', -⟩
        rw [hnext, Option.some_inj, Option.some_inj] at hgw'
        exact hconn (hgw' ▸ hconn')

/-- `select` finds the first of the best gateways, and fails only when none is connected. -/
theorem select_spec {gateways : List (Option GatewayStatus)} (hr : r.Fits gateways.length) :
    ∃ q, r.BestSoFar gateways q (r.select gateways) := by
  have hnil : r.BestSoFar [] (-1) none :=
    ⟨rfl, fun _ _ h => absurd h.lt_length (Nat.not_lt_zero _)⟩
  exact bestSoFar_selectFrom hr hnil

end Loop

/-! ## A router with its gateways -/

/-- The router, what the pointers of its list point to, what the gateways say of themselves, and
the orders they were given. -/
structure Routing (G : Type*) where
  router : SmartRouter
  gateways : List (Option G)
  status : G → GatewayStatus
  delivered : List (G × OrderRequest)

/-- What happens to a router: a depth is injected, connections and round trip times change, or an
order is sent. -/
inductive RoutingEvent (G : Type*) where
  | updateDepth (gatewayIdx : ℕ) (depth : ℤ)
  | statusChange (status : G → GatewayStatus)
  | send (req : OrderRequest)

/-- The event is an order. -/
def RoutingEvent.isSend {G : Type*} : RoutingEvent G → Bool
  | send _ => true
  | _ => false

namespace Routing

variable {G : Type*}

/-- A new router for a list of gateways. -/
def start (gateways : List (Option G)) (status : G → GatewayStatus) : Routing G where
  router := init gateways.length
  gateways := gateways
  status := status
  delivered := []

/-- What the entries of the list say of themselves. -/
def statuses (s : Routing G) : List (Option GatewayStatus) :=
  s.gateways.map (Option.map s.status)

/-- One event.  An order goes to the gateway behind the pointer that was selected. -/
def step (s : Routing G) : RoutingEvent G → Routing G
  | .updateDepth gatewayIdx depth => { s with router := s.router.updateDepth gatewayIdx depth }
  | .statusChange status => { s with status := status }
  | .send req =>
    let (target, router) := s.router.send s.statuses
    let gw := target.bind fun i => s.gateways[i]?.join
    { s with router := router, delivered := s.delivered ++ (gw.map fun gw => (gw, req)).toList }

/-- The depth of the gateway at index `i` after an event; one that is not positive counts as 1. -/
def depthAfter (i : ℕ) (depth : ℤ) : RoutingEvent G → ℤ
  | .updateDepth gatewayIdx depth' => if gatewayIdx = i then max depth' 1 else depth
  | _ => depth

/-- The depth last given to the gateway at index `i` by some events, and 1 before the first. -/
def depthOf (i : ℕ) (events : List (RoutingEvent G)) : ℤ :=
  events.foldl (depthAfter i) 1

/-- What the gateways say of themselves after some events. -/
def statusOf (status : G → GatewayStatus) (events : List (RoutingEvent G)) : G → GatewayStatus :=
  events.foldl
    (fun status e =>
      match e with
      | .statusChange status' => status'
      | _ => status) status

/-- Some pointer of the list is not null and leads to a connected gateway. -/
def AnyConnected (s : Routing G) : Prop :=
  ∃ gw, some gw ∈ s.gateways ∧ (s.status gw).isConnected = true

/-- The pointer at index `i` leads to the connected gateway `gw`, no connected gateway has a higher
score, and none before it has the same. -/
def IsBest (s : Routing G) (i : ℕ) (gw : G) : Prop :=
  s.gateways[i]? = some (some gw) ∧ ∃ q, s.router.IsFirstBest s.statuses i q

/-- The order went to the first of the best gateways and to no other. -/
def Delivers (s : Routing G) (req : OrderRequest) : Prop :=
  ∃ i gw, s.IsBest i gw ∧ (s.step (.send req)).delivered = s.delivered ++ [(gw, req)] ∧
    (s.step (.send req)).router = s.router

/-- The order went to no gateway and was counted. -/
def Drops (s : Routing G) (req : OrderRequest) : Prop :=
  (s.step (.send req)).delivered = s.delivered ∧
    (s.step (.send req)).router = { s.router with dropped := s.router.dropped + 1 }

variable {s : Routing G}

/-- The entries with a score are the pointers to connected gateways. -/
lemma hasScore_statuses {i : ℕ} {q : ℚ} (h : s.router.HasScore s.statuses i q) :
    ∃ gw, s.gateways[i]? = some (some gw) ∧ (s.status gw).isConnected = true := by
  obtain ⟨st, depth, hst, hconn, -⟩ := h
  rw [statuses, List.getElem?_map] at hst
  obtain ⟨ptr, hptr, hmap⟩ := Option.map_eq_some_iff.mp hst
  obtain ⟨gw, rfl, rfl⟩ := Option.map_eq_some_iff.mp hmap
  exact ⟨gw, hptr, hconn⟩

/-- A connected gateway has a score. -/
lemma exists_hasScore (hr : s.router.Fits s.gateways.length) (h : s.AnyConnected) :
    ∃ i q, s.router.HasScore s.statuses i q := by
  obtain ⟨gw, hmem, hconn⟩ := h
  obtain ⟨i, hi⟩ := List.mem_iff_getElem?.mp hmem
  have hlt : i < s.router.depthProxy.length := by
    rw [hr.length_eq]
    exact (List.getElem?_eq_some_iff.mp hi).1
  refine ⟨i, _, s.status gw, _, ?_, hconn, List.getElem?_eq_getElem hlt, rfl⟩
  rw [statuses, List.getElem?_map, hi, Option.map_some, Option.map_some]

/-- One order: delivered to the best gateway when there is one, and dropped otherwise. -/
lemma send_cases (hr : s.router.Fits s.gateways.length) (req : OrderRequest) :
    (s.AnyConnected ∧ s.Delivers req) ∨ (¬s.AnyConnected ∧ s.Drops req) := by
  have hlen : s.statuses.length = s.gateways.length := List.length_map _
  rw [← hlen] at hr
  obtain ⟨q, hq⟩ := select_spec hr
  cases hselect : s.router.select s.statuses with
  | none =>
    rw [hselect] at hq
    refine Or.inr ⟨fun hconn => ?_, ?_⟩
    · obtain ⟨i, q', hscore⟩ := exists_hasScore (hlen ▸ hr) hconn
      exact hq.2 i q' hscore
    · simp [Drops, step, send, hselect]
  | some i =>
    rw [hselect] at hq
    obtain ⟨gw, hgw, hconn⟩ := hasScore_statuses hq.1
    refine Or.inl ⟨⟨gw, List.mem_of_getElem? hgw, hconn⟩, i, gw, ⟨hgw, q, hq⟩, ?_, ?_⟩
    · simp [step, send, hselect, hgw]
    · simp [step, send, hselect]

/-- No event changes the list of gateways. -/
lemma gateways_step (s : Routing G) (e : RoutingEvent G) : (s.step e).gateways = s.gateways := by
  cases e <;> rfl

/-- An event changes the depth of the gateway that it names. -/
lemma getElem?_depthProxy_step (s : Routing G) (e : RoutingEvent G) (i : ℕ) :
    (s.step e).router.depthProxy[i]? = s.router.depthProxy[i]?.map (depthAfter i · e) := by
  have hsame : s.router.depthProxy[i]?.map (fun depth => depth) = s.router.depthProxy[i]? :=
    Option.map_id'
  cases e with
  | updateDepth gatewayIdx depth =>
    have hclamp : (if depth > 0 then depth else 1) = max depth 1 := by omega
    simp only [step, SmartRouter.updateDepth, hclamp, depthAfter]
    by_cases hi : gatewayIdx = i
    · subst hi
      by_cases hlt : gatewayIdx < s.router.depthProxy.length
      · simp [hlt]
      · simp [hlt]
    · simp only [if_neg hi, hsame]
      split
      · exact List.getElem?_set_ne hi
      · rfl
  | statusChange status => exact hsame.symm
  | send req =>
    have hrouter : (s.step (.send req)).router.depthProxy = s.router.depthProxy := by
      simp only [step, SmartRouter.send]
      split <;> rfl
    rw [hrouter]
    exact hsame.symm

/-- The depths after some events are those that were last given. -/
lemma getElem?_depthProxy_run (s : Routing G) (events : List (RoutingEvent G)) (i : ℕ) :
    (Transition.run step s events).router.depthProxy[i]? =
      s.router.depthProxy[i]?.map fun depth => events.foldl (depthAfter i) depth := by
  induction events generalizing s with
  | nil => exact Option.map_id'.symm
  | cons e events ih =>
    rw [Transition.run_cons, ih, getElem?_depthProxy_step, Option.map_map]
    rfl

/-- The gateways say of themselves what they were last said to. -/
lemma status_run (s : Routing G) (events : List (RoutingEvent G)) :
    (Transition.run step s events).status = statusOf s.status events := by
  induction events generalizing s with
  | nil => rfl
  | cons e events ih =>
    rw [Transition.run_cons, ih, statusOf, statusOf, List.foldl_cons]
    cases e <;> rfl

/-- The router keeps a positive depth for every gateway. -/
lemma fits_step (hr : s.router.Fits s.gateways.length) (e : RoutingEvent G) :
    (s.step e).router.Fits (s.step e).gateways.length := by
  cases e with
  | updateDepth gatewayIdx depth => exact hr.updateDepth gatewayIdx depth
  | statusChange status => exact hr
  | send req =>
    rcases send_cases hr req with ⟨-, i, gw, -, -, hrouter⟩ | ⟨-, -, hrouter⟩
    · rw [hrouter]
      exact hr
    · rw [hrouter]
      exact ⟨hr.length_eq, hr.pos⟩

/-- An order is delivered or counted, and nothing else is. -/
lemma count_step (hr : s.router.Fits s.gateways.length) (e : RoutingEvent G) :
    (s.step e).delivered.length + (s.step e).router.dropped =
      s.delivered.length + s.router.dropped + if e.isSend then 1 else 0 := by
  cases e with
  | updateDepth gatewayIdx depth =>
    simp only [step, SmartRouter.updateDepth, RoutingEvent.isSend]
    split <;> rfl
  | statusChange status => rfl
  | send req =>
    rcases send_cases hr req with ⟨-, i, gw, -, hdelivered, hrouter⟩ | ⟨-, hdelivered, hrouter⟩
    · rw [hdelivered, hrouter, List.length_append, List.length_singleton]
      simp only [RoutingEvent.isSend, if_true]
      omega
    · rw [hdelivered, hrouter]
      simp only [RoutingEvent.isSend, if_true]
      omega

/-- **Routing.**  After any events, an order is delivered to the first of the connected gateways
with the highest score and to nothing else, or it is dropped and counted, which happens exactly
when no gateway is connected.  The depths in the scores are those that `update_depth` was last given
for each gateway, and the orders so far are those delivered and those dropped. -/
theorem send_delivers_to_best (gateways : List (Option G)) (status : G → GatewayStatus)
    (events : List (RoutingEvent G)) :
    let s := Transition.run step (start gateways status) events
    s.gateways = gateways ∧ s.status = statusOf status events ∧
    (∀ i < gateways.length, s.router.depthProxy[i]? = some (depthOf i events)) ∧
    (∀ req, (s.AnyConnected → s.Delivers req) ∧ (¬s.AnyConnected → s.Drops req)) ∧
    events.countP RoutingEvent.isSend = s.delivered.length + s.router.dropped := by
  intro s
  have hstart : (start gateways status).router.Fits gateways.length := fits_init _
  have hfits : s.router.Fits s.gateways.length :=
    Transition.invariant_run_of_step (P := fun s : Routing G => s.router.Fits s.gateways.length)
      (fun _ e h => fits_step h e) hstart events
  have hcount := Transition.measure_run
    (P := fun s : Routing G => s.router.Fits s.gateways.length)
    (m := fun s : Routing G => s.delivered.length + s.router.dropped)
    (fun _ e _ h => fits_step h e) (fun _ e _ h => count_step h e)
    (Transition.admissible_true (start gateways status) events) hstart
  refine ⟨?_, status_run _ events, fun i hi => ?_, fun req => ?_, ?_⟩
  · exact Transition.invariant_run_of_step (P := fun s : Routing G => s.gateways = gateways)
      (fun s e h => (gateways_step s e).trans h) rfl events
  · have hone : (start gateways status).router.depthProxy[i]? = some 1 :=
      List.getElem?_replicate_of_lt hi
    rw [getElem?_depthProxy_run, hone, Option.map_some, depthOf]
  · rcases send_cases hfits req with ⟨hconn, hdelivers⟩ | ⟨hconn, hdrops⟩
    · exact ⟨fun _ => hdelivers, fun h => absurd hconn h⟩
    · exact ⟨fun h => absurd h hconn, fun _ => hdrops⟩
  · rw [Transition.sumAlong_countP] at hcount
    exact (hcount.trans (Nat.zero_add _)).symm

end Routing

end SmartRouter

end QuantTrade
