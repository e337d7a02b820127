import Mathlib.Data.List.Induction
import QuantTrade.Connectivity.SessionManager

/-!
# What the heartbeat finds

The session manager with the answers that its thread got from the gateway.  In every interleaving of
the owner with the heartbeat thread no second thread is ever begun, the state is the one of the last
answer that was stored, and the back-off of a wait is 100 ms doubled for every lost poll before it
since the last good one, at most 30 s (`heartbeat_accounts`).
-/

namespace QuantTrade

namespace SessionManager

/-- The lost polls after the last good one. -/
def misses (polls : List Bool) : ℕ :=
  (polls.reverse.takeWhile (!·)).length

/-- The back-off after some polls. -/
def backoffAfter (polls : List Bool) : ℕ :=
  min (kMinBackoffMs * 2 ^ misses polls) kMaxBackoffMs

/-- The state after some polls. -/
def stateAfter (polls : List Bool) : State :=
  match polls.getLast? with
  | none => .connecting
  | some true => .connected
  | some false => .reconnecting

@[simp] lemma misses_good (polls : List Bool) : misses (polls ++ [true]) = 0 := by
  simp [misses]

@[simp] lemma misses_lost (polls : List Bool) : misses (polls ++ [false]) = misses polls + 1 := by
  simp [misses]

lemma backoffAfter_good (polls : List Bool) : backoffAfter (polls ++ [true]) = kMinBackoffMs := by
  rw [backoffAfter, misses_good, pow_zero, mul_one]
  rfl

/-- A back-off is doubled after every lost poll. -/
lemma backoffAfter_lost (polls : List Bool) :
    backoffAfter (polls ++ [false]) = min (backoffAfter polls * 2) kMaxBackoffMs := by
  rw [backoffAfter, misses_lost, pow_succ, backoffAfter, ← mul_assoc]
  omega

@[simp] lemma stateAfter_concat (polls : List Bool) (connected : Bool) :
    stateAfter (polls ++ [connected]) = if connected then .connected else .reconnecting := by
  cases connected <;> simp [stateAfter]

/-- What the heartbeat thread knows of the polls at each of its operations. -/
def Heartbeat.Knows (state : State) (backoffMs : ℕ) (polls : List Bool) : Heartbeat → Prop
  | .off => True
  | .loadRunning | .isConnected => state = stateAfter polls ∧ backoffMs = backoffAfter polls
  | .storeConnected => ∃ before, polls = before ++ [true] ∧ state = stateAfter before
  | .loadState | .storeReconnecting =>
    ∃ before, polls = before ++ [false] ∧ state = stateAfter before ∧
      backoffMs = backoffAfter before
  | .addReconnect =>
    state = .reconnecting ∧ ∃ before, polls = before ++ [false] ∧ backoffMs = backoffAfter before
  | .lock w | .test w | .block w | .blocked w | .relock w _ | .unlock w =>
    match w with
    | .interval =>
      state = .connected ∧ backoffMs = kMinBackoffMs ∧ ∃ before, polls = before ++ [true]
    | .backoff =>
      state = .reconnecting ∧ ∃ before, polls = before ++ [false] ∧ backoffMs = backoffAfter before

/-- A poll was lost and is not counted yet. -/
def Heartbeat.uncounted : Heartbeat → ℕ
  | .loadState | .storeReconnecting | .addReconnect => 1
  | _ => 0

/-- What the owner knows at each of its operations. -/
def Owner.Knows (running : Bool) (state : State) (heartbeat : Heartbeat) : Owner → Prop
  | .idle => if running then heartbeat ≠ .off else heartbeat = .off ∧ state = .disconnected
  | .storeConnecting => running = true ∧ heartbeat = .off
  | .spawn => running = true ∧ heartbeat = .off ∧ state = .connecting
  | .notifyAll | .join => running = false
  | .storeDisconnected => running = false ∧ heartbeat = .off

/-- While there is a thread, the owner knows no more than that it does not end as long as `running_`
is set. -/
lemma Owner.Knows.of_ne_off {owner : Owner} {running : Bool} {state state' : State}
    {heartbeat heartbeat' : Heartbeat} (hne : heartbeat ≠ .off)
    (hne' : running = true → heartbeat' ≠ .off) (h : owner.Knows running state heartbeat) :
    owner.Knows running state' heartbeat' := by
  cases owner with
  | idle =>
    cases running with
    | true => exact hne' rfl
    | false => exact absurd h.1 hne
  | storeConnecting => exact absurd h.2 hne
  | spawn => exact absurd h.2.1 hne
  | notifyAll => exact h
  | join => exact h
  | storeDisconnected => exact absurd h.2 hne

end SessionManager

/-- The manager with what its threads were told: the polls of the heartbeat thread that there is,
and how many polls were lost since the manager is there. -/
structure Watch where
  manager : SessionManager
  polls : List Bool
  lost : ℕ

namespace Watch

open SessionManager (Act Call Heartbeat Owner State backoffAfter stateAfter)

/-- A new manager. -/
def init : Watch where
  manager := .init
  polls := []
  lost := 0

/-- The polls after a step: the thread polls, or a thread is begun. -/
def note (w : Watch) : Act → List Bool
  | .heartbeat connected =>
    if w.manager.heartbeat = .isConnected then w.polls ++ [connected] else w.polls
  | .owner _ => if w.manager.owner = .spawn then [] else w.polls
  | .wake _ => w.polls

/-- A step, with what is heard in it. -/
def step (w : Watch) (a : Act) : Watch where
  manager := w.manager.step a
  polls := w.note a
  lost :=
    if w.manager.heartbeat = .isConnected ∧ a = .heartbeat false then w.lost + 1 else w.lost

/-- What is known of the manager. -/
structure Inv (w : Watch) : Prop where
  owner : w.manager.owner.Knows w.manager.running w.manager.state w.manager.heartbeat
  heartbeat : w.manager.heartbeat.Knows w.manager.state w.manager.backoffMs w.polls
  lost : w.lost = w.manager.reconnectCount + w.manager.heartbeat.uncounted

lemma inv_init : init.Inv where
  owner := ⟨rfl, rfl⟩
  heartbeat := trivial
  lost := rfl

/-! ## The steps -/

/-- A step of the owner in which no thread is begun changes the manager only. -/
lemma inv_of_ownerStep {w : Watch} {call : Call} {m : SessionManager}
    (hspawn : w.manager.owner ≠ .spawn) (hmanager : w.manager.ownerStep call = m)
    (howner : m.owner.Knows m.running m.state m.heartbeat)
    (hheartbeat : m.heartbeat.Knows m.state m.backoffMs w.polls)
    (hlost : w.lost = m.reconnectCount + m.heartbeat.uncounted) :
    (w.step (.owner call)).Inv := by
  have hstep : (w.step (.owner call)).manager = m := hmanager
  have hpolls : (w.step (.owner call)).polls = w.polls := if_neg hspawn
  have hsame : (w.step (.owner call)).lost = w.lost := if_neg (by simp)
  exact ⟨by rw [hstep]; exact howner, by rw [hstep, hpolls]; exact hheartbeat,
    by rw [hstep, hsame]; exact hlost⟩

/-- The owner begins a call. -/
lemma Inv.owner_call {w : Watch} (h : w.Inv) (hidle : w.manager.owner = .idle) (call : Call) :
    (w.step (.owner call)).Inv := by
  have hspawn : w.manager.owner ≠ .spawn := by simp [hidle]
  have howner := h.owner
  rw [hidle] at howner
  cases call with
  | start =>
    cases hrunning : w.manager.running with
    | true =>
      have hmanager : w.manager.ownerStep .start = w.manager := by
        simp [SessionManager.ownerStep, hidle, hrunning]
      exact inv_of_ownerStep hspawn hmanager h.owner h.heartbeat h.lost
    | false =>
      have hmanager : w.manager.ownerStep .start =
          { w.manager with running := true, owner := .storeConnecting } := by
        simp [SessionManager.ownerStep, hidle, hrunning]
      rw [hrunning] at howner
      exact inv_of_ownerStep hspawn hmanager ⟨rfl, howner.1⟩ h.heartbeat h.lost
  | stop =>
    cases hrunning : w.manager.running with
    | true =>
      have hmanager : w.manager.ownerStep .stop =
          { w.manager with running := false, owner := .notifyAll } := by
        simp [SessionManager.ownerStep, hidle, hrunning]
      exact inv_of_ownerStep hspawn hmanager rfl h.heartbeat h.lost
    | false =>
      have hmanager : w.manager.ownerStep .stop = w.manager := by
        simp [SessionManager.ownerStep, hidle, hrunning]
      exact inv_of_ownerStep hspawn hmanager h.owner h.heartbeat h.lost

/-- The owner begins a thread, which has heard nothing yet. -/
lemma Inv.owner_spawn {w : Watch} (h : w.Inv) (hspawn : w.manager.owner = .spawn) (call : Call) :
    (w.step (.owner call)).Inv := by
  have howner := h.owner
  rw [hspawn] at howner
  obtain ⟨hrunning, hoff, hstate⟩ := howner
  have hlost := h.lost
  rw [hoff] at hlost
  have hpolls : (w.step (.owner call)).polls = [] := if_pos hspawn
  have hsame : (w.step (.owner call)).lost = w.lost := if_neg (by simp)
  have hmanager : (w.step (.owner call)).manager =
      { w.manager with
        heartbeat := .loadRunning
        backoffMs := SessionManager.kMinBackoffMs
        owner := .idle } := by
    simp [step, SessionManager.step, SessionManager.ownerStep, hspawn]
  refine ⟨?_, ?_, ?_⟩
  · rw [hmanager]
    dsimp only
    rw [hrunning]
    exact Heartbeat.noConfusion
  · rw [hmanager, hpolls]
    exact ⟨hstate, rfl⟩
  · rw [hmanager, hsame]
    exact hlost

/-- A step of the owner. -/
lemma Inv.owner_step {w : Watch} (h : w.Inv) (call : Call) : (w.step (.owner call)).Inv := by
  have howner := h.owner
  have hheartbeat := h.heartbeat
  have hlost := h.lost
  cases hpc : w.manager.owner with
  | idle => exact h.owner_call hpc call
  | spawn => exact h.owner_spawn hpc call
  | storeConnecting =>
    have hmanager : w.manager.ownerStep call =
        { w.manager with state := .connecting, owner := .spawn } := by
      simp [SessionManager.ownerStep, hpc]
    rw [hpc] at howner
    obtain ⟨hrunning, hoff⟩ := howner
    refine inv_of_ownerStep (by simp [hpc]) hmanager ⟨hrunning, hoff, rfl⟩ ?_ hlost
    dsimp only
    rw [hoff]
    trivial
  | notifyAll =>
    rw [hpc] at howner
    cases hblocked : w.manager.heartbeat with
    | blocked wait =>
      have hmanager : w.manager.ownerStep call =
          { w.manager with heartbeat := .relock wait false, owner := .join } := by
        simp [SessionManager.ownerStep, hpc, hblocked]
      rw [hblocked] at hheartbeat hlost
      exact inv_of_ownerStep (by simp [hpc]) hmanager howner hheartbeat hlost
    | _ =>
      have hmanager : w.manager.ownerStep call = { w.manager with owner := .join } := by
        simp [SessionManager.ownerStep, hpc, hblocked]
      exact inv_of_ownerStep (by simp [hpc]) hmanager howner hheartbeat hlost
  | join =>
    by_cases hoff : w.manager.heartbeat = .off
    · have hmanager : w.manager.ownerStep call =
          { w.manager with owner := .storeDisconnected } := by
        simp [SessionManager.ownerStep, hpc, hoff]
      rw [hpc] at howner
      exact inv_of_ownerStep (by simp [hpc]) hmanager ⟨howner, hoff⟩ hheartbeat hlost
    · have hmanager : w.manager.ownerStep call = w.manager := by
        simp [SessionManager.ownerStep, hpc, hoff]
      exact inv_of_ownerStep (by simp [hpc]) hmanager howner hheartbeat hlost
  | storeDisconnected =>
    have hmanager : w.manager.ownerStep call =
        { w.manager with state := .disconnected, owner := .idle } := by
      simp [SessionManager.ownerStep, hpc]
    rw [hpc] at howner
    obtain ⟨hrunning, hoff⟩ := howner
    refine inv_of_ownerStep (by simp [hpc]) hmanager ?_ ?_ hlost
    · dsimp only
      rw [hrunning]
      exact ⟨hoff, rfl⟩
    · dsimp only
      rw [hoff]
      trivial

/-- What the heartbeat thread knows after a step in which it does not ask the gateway. -/
lemma knows_heartbeatStep {s : SessionManager} {polls : List Bool} (connected : Bool)
    (hpoll : s.heartbeat ≠ .isConnected) (h : s.heartbeat.Knows s.state s.backoffMs polls) :
    (s.heartbeatStep connected).heartbeat.Knows (s.heartbeatStep connected).state
      (s.heartbeatStep connected).backoffMs polls := by
  cases hpc : s.heartbeat with
  | isConnected => exact absurd hpc hpoll
  | loadRunning =>
    rw [hpc] at h
    simp only [SessionManager.heartbeatStep, hpc]
    cases s.running with
    | true => exact h
    | false => trivial
  | storeConnected =>
    rw [hpc] at h
    obtain ⟨before, hbefore, -⟩ := h
    simp only [SessionManager.heartbeatStep, hpc]
    exact ⟨rfl, rfl, before, hbefore⟩
  | loadState =>
    rw [hpc] at h
    simp only [SessionManager.heartbeatStep, hpc]
    by_cases hstate : s.state = .reconnecting
    · obtain ⟨before, hbefore, -, hbackoff⟩ := h
      rw [if_neg (not_not_intro hstate)]
      exact ⟨hstate, before, hbefore, hbackoff⟩
    · rw [if_pos hstate]
      exact h
  | storeReconnecting =>
    rw [hpc] at h
    obtain ⟨before, hbefore, -, hbackoff⟩ := h
    simp only [SessionManager.heartbeatStep, hpc]
    exact ⟨rfl, before, hbefore, hbackoff⟩
  | unlock wait =>
    rw [hpc] at h
    simp only [SessionManager.heartbeatStep, hpc]
    cases wait with
    | interval =>
      obtain ⟨hstate, hbackoff, before, hbefore⟩ := h
      rw [hbefore]
      exact ⟨by rw [hstate, SessionManager.stateAfter_concat]; rfl,
        by rw [hbackoff, SessionManager.backoffAfter_good]⟩
    | backoff =>
      obtain ⟨hstate, before, hbefore, hbackoff⟩ := h
      rw [hbefore]
      exact ⟨by rw [hstate, SessionManager.stateAfter_concat]; rfl,
        by rw [hbackoff, SessionManager.backoffAfter_lost]⟩
  | _ =>
    -- the other operations change nothing that is known
    rw [hpc] at h
    simp only [SessionManager.heartbeatStep, hpc]
    try split_ifs
    all_goals first | exact h | (rw [hpc]; exact h)

/-- The polls that are counted or not yet counted are no others after such a step. -/
lemma uncounted_heartbeatStep {s : SessionManager} (connected : Bool)
    (hpoll : s.heartbeat ≠ .isConnected) :
    (s.heartbeatStep connected).reconnectCount + (s.heartbeatStep connected).heartbeat.uncounted =
      s.reconnectCount + s.heartbeat.uncounted := by
  cases hpc : s.heartbeat with
  | isConnected => exact absurd hpc hpoll
  | _ =>
    simp only [SessionManager.heartbeatStep, hpc]
    try split_ifs
    all_goals first | rfl | (rw [hpc])

/-- The thread does not end while `running_` is set. -/
lemma heartbeatStep_ne_off {s : SessionManager} (connected : Bool) (hne : s.heartbeat ≠ .off)
    (hrunning : s.running = true) : (s.heartbeatStep connected).heartbeat ≠ .off := by
  cases hpc : s.heartbeat with
  | off => exact absurd hpc hne
  | loadRunning => simp [SessionManager.heartbeatStep, hpc, hrunning]
  | _ =>
    simp only [SessionManager.heartbeatStep, hpc]
    try split_ifs
    all_goals simp [hpc]

/-- A step of the heartbeat thread leaves the owner and `running_` alone; so the rest has to be
shown. -/
lemma Inv.of_heartbeatStep {w : Watch} (h : w.Inv) (connected : Bool)
    (hne : w.manager.heartbeat ≠ .off)
    (hknows : (w.manager.heartbeatStep connected).heartbeat.Knows
      (w.manager.heartbeatStep connected).state (w.manager.heartbeatStep connected).backoffMs
      (w.step (.heartbeat connected)).polls)
    (hlost : (w.step (.heartbeat connected)).lost =
      (w.manager.heartbeatStep connected).reconnectCount +
        (w.manager.heartbeatStep connected).heartbeat.uncounted) :
    (w.step (.heartbeat connected)).Inv := by
  obtain ⟨howner, hrunning⟩ := w.manager.owner_heartbeatStep connected
  refine ⟨?_, hknows, hlost⟩
  change (w.manager.heartbeatStep connected).owner.Knows
    (w.manager.heartbeatStep connected).running _ _
  rw [howner, hrunning]
  exact h.owner.of_ne_off hne (heartbeatStep_ne_off connected hne)

/-- The heartbeat thread asks the gateway. -/
lemma Inv.heartbeat_poll {w : Watch} (h : w.Inv) (hpoll : w.manager.heartbeat = .isConnected)
    (connected : Bool) : (w.step (.heartbeat connected)).Inv := by
  have hpolls : (w.step (.heartbeat connected)).polls = w.polls ++ [connected] := if_pos hpoll
  have hknows := h.heartbeat
  have hlost := h.lost
  rw [hpoll] at hknows hlost
  apply h.of_heartbeatStep connected (by simp [hpoll])
  · rw [hpolls]
    simp only [SessionManager.heartbeatStep, hpoll]
    cases connected with
    | true => exact ⟨w.polls, rfl, hknows.1⟩
    | false => exact ⟨w.polls, rfl, hknows⟩
  · simp only [SessionManager.heartbeatStep, step, hpoll]
    cases connected with
    | true => simpa [Heartbeat.uncounted] using hlost
    | false => simpa [Heartbeat.uncounted] using hlost

/-- A step of the heartbeat thread. -/
lemma Inv.heartbeat_step {w : Watch} (h : w.Inv) (connected : Bool) :
    (w.step (.heartbeat connected)).Inv := by
  by_cases hpoll : w.manager.heartbeat = .isConnected
  · exact h.heartbeat_poll hpoll connected
  have hpolls : (w.step (.heartbeat connected)).polls = w.polls := if_neg hpoll
  have hsame : (w.step (.heartbeat connected)).lost = w.lost := if_neg fun hc => hpoll hc.1
  by_cases hoff : w.manager.heartbeat = .off
  · have hmanager : (w.step (.heartbeat connected)).manager = w.manager := by
      simp [step, SessionManager.step, SessionManager.heartbeatStep, hoff]
    exact ⟨by rw [hmanager]; exact h.owner, by rw [hmanager, hpolls]; exact h.heartbeat,
      by rw [hmanager, hsame]; exact h.lost⟩
  · apply h.of_heartbeatStep connected hoff
    · rw [hpolls]
      exact knows_heartbeatStep connected hpoll h.heartbeat
    · rw [hsame, uncounted_heartbeatStep connected hpoll]
      exact h.lost

/-- The end of a wait. -/
lemma Inv.wake_step {w : Watch} (h : w.Inv) (timedOut : Bool) : (w.step (.wake timedOut)).Inv := by
  obtain ⟨howner, hheartbeat, hlost⟩ := h
  have hsame : (w.step (.wake timedOut)).lost = w.lost := if_neg (by simp)
  cases hpc : w.manager.heartbeat with
  | blocked wait =>
    have hmanager : (w.step (.wake timedOut)).manager =
        { w.manager with heartbeat := .relock wait timedOut } := by
      simp [step, SessionManager.step, SessionManager.wake, hpc]
    rw [hpc] at howner hheartbeat hlost
    refine ⟨?_, by rw [hmanager]; exact hheartbeat, by rw [hmanager, hsame]; exact hlost⟩
    rw [hmanager]
    exact howner.of_ne_off Heartbeat.noConfusion fun _ => Heartbeat.noConfusion
  | _ =>
    have hmanager : (w.step (.wake timedOut)).manager = w.manager := by
      simp [step, SessionManager.step, SessionManager.wake, hpc]
    exact ⟨by rw [hmanager]; exact howner, by rw [hmanager]; exact hheartbeat,
      by rw [hmanager, hsame]; exact hlost⟩

/-- **Every step** keeps what is known. -/
lemma Inv.step {w : Watch} (h : w.Inv) (a : Act) : (w.step a).Inv := by
  cases a with
  | owner call => exact h.owner_step call
  | heartbeat connected => exact h.heartbeat_step connected
  | wake timedOut => exact h.wake_step timedOut

/-! ## Every run -/

/-- The manager after the actions. -/
def after (acts : List Act) : Watch :=
  Transition.run Watch.step init acts

/-- The manager of the watch is the manager, which nobody watches. -/
lemma manager_after (acts : List Act) :
    (after acts).manager = Transition.run SessionManager.step .init acts := by
  induction acts using List.reverseRecOn with
  | nil => rfl
  | append_singleton acts a ih =>
    rw [after, Transition.run_concat, Transition.run_concat, ← ih]
    rfl

lemma inv_after (acts : List Act) : (after acts).Inv :=
  Transition.invariant_run_of_step (fun _ a h => h.step a) inv_init acts

/-- While there is a thread, its state is one of the three it stores. -/
lemma Inv.state_ne {w : Watch} (h : w.Inv) (hne : w.manager.heartbeat ≠ .off) :
    w.manager.state ≠ .disconnected := by
  have hstate : ∀ polls, stateAfter polls ≠ .disconnected := by
    intro polls
    unfold SessionManager.stateAfter
    split <;> exact State.noConfusion
  have hknows := h.heartbeat
  cases hpc : w.manager.heartbeat with
  | off => exact absurd hpc hne
  | loadRunning =>
    rw [hpc] at hknows
    exact hknows.1 ▸ hstate _
  | isConnected =>
    rw [hpc] at hknows
    exact hknows.1 ▸ hstate _
  | storeConnected =>
    rw [hpc] at hknows
    obtain ⟨before, -, heq⟩ := hknows
    exact heq ▸ hstate before
  | loadState =>
    rw [hpc] at hknows
    obtain ⟨before, -, heq, -⟩ := hknows
    exact heq ▸ hstate before
  | storeReconnecting =>
    rw [hpc] at hknows
    obtain ⟨before, -, heq, -⟩ := hknows
    exact heq ▸ hstate before
  | addReconnect =>
    rw [hpc] at hknows
    rw [hknows.1]
    exact State.noConfusion
  | _ wait =>
    rw [hpc] at hknows
    cases wait with
    | interval =>
      rw [hknows.1]
      exact State.noConfusion
    | backoff =>
      rw [hknows.1]
      exact State.noConfusion

/-- What can be said of a manager by those who heard the answers of the gateway. -/
structure Accounts (m : SessionManager) (polls : List Bool) (lost : ℕ) : Prop where
  /-- No thread is begun while there is one. -/
  alone : m.owner = .spawn → m.heartbeat = .off
  /-- After `stop`, and before the first `start`, there is no thread. -/
  stopped : m.owner = .idle → m.running = false → m.heartbeat = .off ∧ m.state = .disconnected
  /-- After `start` there is one, until the next `stop`. -/
  started : m.owner = .idle → m.running = true → m.heartbeat ≠ .off ∧ m.state ≠ .disconnected
  /-- The thread waits for the interval after a good poll. -/
  interval : m.heartbeat = .blocked .interval →
    m.state = .connected ∧ SessionManager.misses polls = 0
  /-- It waits for the back-off after a lost poll. -/
  backoff : m.heartbeat = .blocked .backoff →
    m.state = .reconnecting ∧ 0 < SessionManager.misses polls ∧
      m.backoffMs = min (100 * 2 ^ (SessionManager.misses polls - 1)) 30000
  /-- A lost poll is counted before the thread waits. -/
  counted : m.reconnectCount ≤ lost ∧ lost ≤ m.reconnectCount + 1 ∧
    (m.heartbeat.isBlocked = true → m.reconnectCount = lost)

/-- **The heartbeat.**  In every interleaving of the owner with the heartbeat thread, however long
its waits take: no thread is begun while there is one; between the calls of the owner there is a
thread exactly when `running_` is set, and the state is `DISCONNECTED` exactly when there is none; a
thread that waits has stored the state of its last poll; the back-off of its wait is 100 ms, doubled
for every lost poll before the last one since the last good one, and at most 30 s; and
`reconnect_count` is the number of lost polls. -/
theorem heartbeat_accounts (acts : List Act) :
    Accounts (Transition.run SessionManager.step .init acts) (after acts).polls
      (after acts).lost := by
  have h := inv_after acts
  rw [← manager_after]
  generalize after acts = w at h
  have howner := h.owner
  constructor
  · intro hpc
    rw [hpc] at howner
    exact howner.2.1
  · intro hpc hrunning
    rw [hpc, hrunning] at howner
    exact howner
  · intro hpc hrunning
    rw [hpc, hrunning] at howner
    exact ⟨howner, h.state_ne howner⟩
  · intro hpc
    have hknows := h.heartbeat
    rw [hpc] at hknows
    obtain ⟨hstate, -, before, hbefore⟩ := hknows
    rw [hbefore]
    exact ⟨hstate, SessionManager.misses_good before⟩
  · intro hpc
    have hknows := h.heartbeat
    rw [hpc] at hknows
    obtain ⟨hstate, before, hbefore, hbackoff⟩ := hknows
    rw [hbefore, SessionManager.misses_lost]
    exact ⟨hstate, Nat.succ_pos _, hbackoff⟩
  · have hlost := h.lost
    have hone : w.manager.heartbeat.uncounted ≤ 1 := by
      cases w.manager.heartbeat <;> simp [Heartbeat.uncounted]
    refine ⟨by omega, by omega, fun hblocked => ?_⟩
    have hzero : w.manager.heartbeat.uncounted = 0 := by
      cases hpc : w.manager.heartbeat with
      | blocked wait => rfl
      | _ =>
        rw [hpc] at hblocked
        exact absurd hblocked Bool.false_ne_true
    omega

end Watch

end QuantTrade
