import QuantTrade.Library.Transition

/-!
# The session of a gateway

`SessionManager` of `src/connectivity/session_manager.{hpp,cpp}`: the owner starts and stops a
thread that asks the gateway again and again whether it is connected, and waits in between on a
condition variable.  Every step is one atomic operation or one operation on the mutex or on the
condition variable.

`stop` clears `running_` and notifies without the mutex.  So its notification can fall between the
test that the waiting thread made and its blocking, and then nobody wakes it before its timeout.
This is the only way to lose the wakeup (`never_lost_iff`).
-/

namespace QuantTrade

namespace SessionManager

/-- `SessionManager::State`. -/
inductive State where
  | disconnected
  | connecting
  | connected
  | reconnecting
  deriving DecidableEq, Repr

/-- The first back-off, in milliseconds. -/
def kMinBackoffMs : ℕ := 100

/-- The longest back-off, in milliseconds. -/
def kMaxBackoffMs : ℕ := 30000

/-- The two calls of `wait_for`: for the heartbeat interval, and for the back-off. -/
inductive Wait where
  | interval
  | backoff
  deriving DecidableEq, Repr

/-- Where the heartbeat thread is: its next operation. -/
inductive Heartbeat where
  /-- There is no thread, or it has returned. -/
  | off
  | loadRunning
  | isConnected
  | storeConnected
  | loadState
  | storeReconnecting
  | addReconnect
  | lock (w : Wait)
  /-- In `wait_for` with the mutex, before the test of `running_`. -/
  | test (w : Wait)
  /-- In `wait_for` with the mutex: `running_` was set, and the thread is about to give the mutex
  back and block. -/
  | block (w : Wait)
  /-- Blocked in `wait_for`. -/
  | blocked (w : Wait)
  /-- Woken up, before it has the mutex again. -/
  | relock (w : Wait) (timedOut : Bool)
  /-- `wait_for` has returned; the mutex is given back. -/
  | unlock (w : Wait)
  deriving DecidableEq, Repr

/-- Where the owner is: its next operation. -/
inductive Owner where
  /-- Not in a call; the next step begins one. -/
  | idle
  | storeConnecting
  | spawn
  | notifyAll
  | join
  | storeDisconnected
  deriving DecidableEq, Repr

/-- The calls of the owner. -/
inductive Call where
  | start
  | stop
  deriving DecidableEq, Repr

end SessionManager

/-- The members of the manager, the variable of its loop, and where the two threads are. -/
structure SessionManager where
  running : Bool
  state : SessionManager.State
  reconnectCount : ℕ
  /-- Whether the heartbeat thread has `cv_mutex_`; nobody else takes it. -/
  locked : Bool
  backoffMs : ℕ
  heartbeat : SessionManager.Heartbeat
  owner : SessionManager.Owner
  deriving DecidableEq, Repr

namespace SessionManager

/-- The constructor. -/
def init : SessionManager where
  running := false
  state := .disconnected
  reconnectCount := 0
  locked := false
  backoffMs := kMinBackoffMs
  heartbeat := .off
  owner := .idle

/-- A step of the owner, in `start` or `stop`. -/
def ownerStep (s : SessionManager) (call : Call) : SessionManager :=
  match s.owner with
  | .idle =>
    match call with
    | .start => if s.running then s else { s with running := true, owner := .storeConnecting }
    | .stop => if s.running then { s with running := false, owner := .notifyAll } else s
  | .storeConnecting => { s with state := .connecting, owner := .spawn }
  | .spawn => { s with heartbeat := .loadRunning, backoffMs := kMinBackoffMs, owner := .idle }
  | .notifyAll =>
    -- only a thread that is blocked is woken
    match s.heartbeat with
    | .blocked w => { s with heartbeat := .relock w false, owner := .join }
    | _ => { s with owner := .join }
  | .join => if s.heartbeat = .off then { s with owner := .storeDisconnected } else s
  | .storeDisconnected => { s with state := .disconnected, owner := .idle }

/-- A step of `heartbeat_loop`; `connected` is what the gateway says when it is asked. -/
def heartbeatStep (s : SessionManager) (connected : Bool) : SessionManager :=
  match s.heartbeat with
  | .off => s
  | .loadRunning => { s with heartbeat := if s.running then .isConnected else .off }
  | .isConnected => { s with heartbeat := if connected then .storeConnected else .loadState }
  | .storeConnected =>
    { s with
      state := .connected
      backoffMs := kMinBackoffMs
      heartbeat := .lock .interval }
  | .loadState =>
    { s with heartbeat := if s.state ≠ .reconnecting then .storeReconnecting else .addReconnect }
  | .storeReconnecting => { s with state := .reconnecting, heartbeat := .addReconnect }
  | .addReconnect =>
    { s with reconnectCount := s.reconnectCount + 1, heartbeat := .lock .backoff }
  | .lock w => if s.locked then s else { s with locked := true, heartbeat := .test w }
  | .test w => { s with heartbeat := if s.running then .block w else .unlock w }
  | .block w => { s with locked := false, heartbeat := .blocked w }
  | .blocked _ => s
  | .relock w timedOut =>
    if s.locked then s
    -- after the timeout `wait_for` returns whatever its last test says
    else { s with locked := true, heartbeat := if timedOut then .unlock w else .test w }
  | .unlock w =>
    { s with
      locked := false
      backoffMs :=
        match w with
        | .interval => s.backoffMs
        | .backoff => min (s.backoffMs * 2) kMaxBackoffMs
      heartbeat := .loadRunning }

/-- A blocked thread wakes up without a notification. -/
def wake (s : SessionManager) (timedOut : Bool) : SessionManager :=
  match s.heartbeat with
  | .blocked w => { s with heartbeat := .relock w timedOut }
  | _ => s

/-- What can happen: a step of the owner, who begins the given call when it is in none, a step of
the heartbeat thread, or the end of a wait, for its timeout or for no reason. -/
inductive Act where
  | owner (call : Call)
  | heartbeat (connected : Bool)
  | wake (timedOut : Bool)
  deriving DecidableEq, Repr

/-- One step. -/
def step (s : SessionManager) : Act → SessionManager
  | .owner call => s.ownerStep call
  | .heartbeat connected => s.heartbeatStep connected
  | .wake timedOut => s.wake timedOut

/-- The heartbeat thread is blocked in one of its waits. -/
def Heartbeat.isBlocked : Heartbeat → Bool
  | .blocked _ => true
  | _ => false

/-- The heartbeat thread has found `running_` set and has not yet blocked. -/
def Heartbeat.isAboutToBlock : Heartbeat → Bool
  | .block _ => true
  | _ => false

/-- The wakeup is lost: `running_` is clear, the notification of `stop` has been made, and the
heartbeat thread is blocked. -/
def Lost (s : SessionManager) : Prop :=
  s.running = false ∧ s.owner ≠ .notifyAll ∧ s.heartbeat.isBlocked = true

/-- `stop` does not notify while the heartbeat thread is between its test and its blocking. -/
def NotifiesInTime (s : SessionManager) : Act → Prop
  | .owner _ => s.owner = .notifyAll → s.heartbeat.isAboutToBlock = false
  | _ => True

/-! ## The invariant -/

/-- After the notification of a stop, the heartbeat thread is not blocked nor about to be. -/
structure Wakeable (s : SessionManager) : Prop where
  stopped : s.owner = .notifyAll → s.running = false
  notified : s.running = false → s.owner ≠ .notifyAll →
    s.heartbeat.isBlocked = false ∧ s.heartbeat.isAboutToBlock = false

lemma wakeable_init : init.Wakeable where
  stopped := by decide
  notified := by decide

lemma Wakeable.not_lost {s : SessionManager} (h : s.Wakeable) : ¬s.Lost := by
  rintro ⟨hrunning, howner, hblocked⟩
  rw [(h.notified hrunning howner).1] at hblocked
  exact Bool.false_ne_true hblocked

/-- A step of the heartbeat thread does not touch the owner nor `running_`. -/
lemma owner_heartbeatStep (s : SessionManager) (connected : Bool) :
    (s.heartbeatStep connected).owner = s.owner ∧
      (s.heartbeatStep connected).running = s.running := by
  unfold heartbeatStep
  cases s.heartbeat <;> dsimp only <;> try split_ifs
  all_goals exact ⟨rfl, rfl⟩

/-- With `running_` clear, a thread that is not blocked nor about to be stays so. -/
lemma heartbeat_heartbeatStep {s : SessionManager} (hrunning : s.running = false)
    (hblocked : s.heartbeat.isBlocked = false) (hblock : s.heartbeat.isAboutToBlock = false)
    (connected : Bool) :
    (s.heartbeatStep connected).heartbeat.isBlocked = false ∧
      (s.heartbeatStep connected).heartbeat.isAboutToBlock = false := by
  cases hpc : s.heartbeat with
  | block w =>
    rw [hpc] at hblock
    exact absurd hblock.symm Bool.false_ne_true
  | blocked w =>
    rw [hpc] at hblocked
    exact absurd hblocked.symm Bool.false_ne_true
  | test w => simp [heartbeatStep, hpc, hrunning, Heartbeat.isBlocked, Heartbeat.isAboutToBlock]
  | _ =>
    simp only [heartbeatStep, hpc]
    try split_ifs
    all_goals simp [hpc, Heartbeat.isBlocked, Heartbeat.isAboutToBlock]

/-- The notification of a stop wakes the thread when it is blocked. -/
lemma Wakeable.notifyAll {s : SessionManager} (hpc : s.owner = .notifyAll)
    (hblock : s.heartbeat.isAboutToBlock = false) (call : Call) :
    (s.ownerStep call).Wakeable := by
  cases hheartbeat : s.heartbeat with
  | block w =>
    rw [hheartbeat] at hblock
    exact absurd hblock.symm Bool.false_ne_true
  | _ =>
    constructor <;>
      simp [ownerStep, hpc, hheartbeat, Heartbeat.isBlocked, Heartbeat.isAboutToBlock]

/-- The other steps of the owner keep the invariant. -/
lemma Wakeable.ownerStep {s : SessionManager} (h : s.Wakeable) (hpc : s.owner ≠ .notifyAll)
    (call : Call) : (s.ownerStep call).Wakeable := by
  have hnotified := fun hclear => h.notified hclear hpc
  cases howner : s.owner with
  | idle =>
    simp only [SessionManager.ownerStep, howner]
    cases call with
    | start =>
      dsimp only
      split_ifs with hrunning
      · exact h
      · exact ⟨nofun, nofun⟩
    | stop =>
      dsimp only
      split_ifs with hrunning
      · exact ⟨fun _ => rfl, fun _ hne => absurd rfl hne⟩
      · exact h
  | spawn =>
    simp only [SessionManager.ownerStep, howner]
    exact ⟨nofun, fun _ _ => ⟨rfl, rfl⟩⟩
  | notifyAll => exact absurd howner hpc
  | join =>
    simp only [SessionManager.ownerStep, howner]
    split_ifs
    · exact ⟨nofun, fun hclear _ => hnotified hclear⟩
    · exact h
  | _ =>
    simp only [SessionManager.ownerStep, howner]
    exact ⟨nofun, fun hclear _ => hnotified hclear⟩

/-- A wait that ends leaves a thread that is not blocked. -/
lemma Wakeable.wake {s : SessionManager} (h : s.Wakeable) (timedOut : Bool) :
    (s.wake timedOut).Wakeable := by
  unfold SessionManager.wake
  cases s.heartbeat with
  | blocked w => exact ⟨h.stopped, fun _ _ => ⟨rfl, rfl⟩⟩
  | _ => exact h

/-- Every step keeps the invariant, as long as `stop` notifies in time. -/
lemma Wakeable.step {s : SessionManager} {a : Act} (hinTime : s.NotifiesInTime a)
    (h : s.Wakeable) : (s.step a).Wakeable := by
  cases a with
  | owner call =>
    by_cases hpc : s.owner = .notifyAll
    · exact .notifyAll hpc (hinTime hpc) call
    · exact h.ownerStep hpc call
  | heartbeat connected =>
    obtain ⟨howner, hrunning⟩ := s.owner_heartbeatStep connected
    constructor
    · intro hnotify
      exact hrunning.trans (h.stopped (howner.symm.trans hnotify))
    · intro hclear hnotify
      have hbefore := h.notified (hrunning.symm.trans hclear) fun heq => hnotify (howner.trans heq)
      exact heartbeat_heartbeatStep (hrunning.symm.trans hclear) hbefore.1 hbefore.2 connected
  | wake timedOut => exact h.wake timedOut

/-- A notification that is too early is lost with the next step of the thread. -/
lemma Wakeable.lost {s : SessionManager} {a : Act} (hearly : ¬s.NotifiesInTime a)
    (h : s.Wakeable) : ((s.step a).step (.heartbeat true)).Lost := by
  cases a with
  | owner call =>
    obtain ⟨hpc, hblock⟩ := Classical.not_imp.mp hearly
    cases hheartbeat : s.heartbeat with
    | block w =>
      have hclear := h.stopped hpc
      simp [SessionManager.step, SessionManager.ownerStep, hpc, hheartbeat, heartbeatStep, Lost,
        hclear, Heartbeat.isBlocked]
    | _ => simp [hheartbeat, Heartbeat.isAboutToBlock] at hblock
  | heartbeat connected => exact absurd trivial hearly
  | wake timedOut => exact absurd trivial hearly

/-! ## Runs -/

/-- No state that is reached, nor any that can be reached with one more step, has lost the
wakeup. -/
def Prompt (s : SessionManager) : Prop :=
  ¬s.Lost ∧ ∀ a, ¬(s.step a).Lost

/-- With the invariant a wakeup is not lost with the next step either: the notification itself
leaves the thread where it is. -/
lemma Wakeable.prompt {s : SessionManager} (h : s.Wakeable) : s.Prompt := by
  refine ⟨h.not_lost, fun a => ?_⟩
  by_cases hinTime : s.NotifiesInTime a
  · exact (h.step hinTime).not_lost
  · rintro ⟨-, -, hblocked⟩
    cases a with
    | owner call =>
      obtain ⟨hpc, hblock⟩ := Classical.not_imp.mp hinTime
      cases hheartbeat : s.heartbeat with
      | block w =>
        simp [SessionManager.step, SessionManager.ownerStep, hpc, hheartbeat,
          Heartbeat.isBlocked] at hblocked
      | _ => simp [hheartbeat, Heartbeat.isAboutToBlock] at hblock
    | heartbeat connected => exact absurd trivial hinTime
    | wake timedOut => exact absurd trivial hinTime

/-- **Prompt stop.**  In every interleaving of the owner with the heartbeat thread, in both of its
waits, no state that is reached or can be reached with one more step has lost the wakeup, exactly
when no stop notifies while the heartbeat thread is between its test of `running_` and its
blocking. -/
theorem never_lost_iff (acts : List Act) :
    (∀ part, part <+: acts → (Transition.run step init part).Prompt) ↔
      Transition.Admissible step NotifiesInTime init acts := by
  apply Transition.forall_prefix_iff_of_step (P := Wakeable)
  · exact fun s hs => hs.prompt
  · exact fun s a hinTime hs => hs.step hinTime
  · exact fun s a hearly hs hprompt => hprompt.2 _ (hs.lost hearly)
  · exact wakeable_init

/-- The heartbeat thread tests `running_`; then `stop` clears it and notifies; then the thread
blocks. -/
def lateBlock : List Act :=
  [.owner .start, .owner .start, .owner .start, .heartbeat true, .heartbeat true, .heartbeat true,
    .heartbeat true, .heartbeat true, .owner .stop, .owner .stop, .heartbeat true]

theorem lost_lateBlock : ¬∀ acts : List Act, ¬(Transition.run step init acts).Lost := by
  intro hclaim
  exact hclaim lateBlock ⟨by decide, by decide, by decide⟩

end SessionManager

end QuantTrade
