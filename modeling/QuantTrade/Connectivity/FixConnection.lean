import Mathlib.Data.List.Chain
import QuantTrade.Connectivity.FixFraming
import QuantTrade.Connectivity.OutgoingStream
import QuantTrade.Library.Transition

/-!
# The connection of a FIX session

`connect`, `disconnect`, the `send_*` calls and the two places of `run` that write `state_`, of
`FIXSession` in `src/connectivity/fix_session.cpp`, each call atomic.  What the operating system
does in a call is part of the action.  The connection keeps a record of what happened (`Event`):
the states stored, the messages offered to the socket, the messages received.

`attempt` says once what a call offers to the socket, and `newEvents` what it records.

The session state is meant to move along `NOT_CONNECTED`, `LOGGING_ON`, `ACTIVE`, `LOGGING_OUT`, and
to be `ACTIVE` only after a Logon of the peer; `session_state_iff` says when it does.
-/

namespace QuantTrade

/-- What is recorded of a connection. -/
inductive Event where
  /-- The TCP connection was established. -/
  | tcpConnected
  /-- A value was stored in `state_`. -/
  | stored (state : SessionState)
  /-- A message with this number was offered to the socket, which took all of it or did not. -/
  | sent (number : ℕ) (bytes : List UInt8) (complete : Bool)
  /-- `parse_message` handled a message of this type. -/
  | received (msgType : Option UInt8)
  /-- The connection was lost: `recv` returned nothing. -/
  | lost
  /-- `disconnect` was called. -/
  | disconnected
  deriving DecidableEq, Repr

/-- What the operating system does in `connect`. -/
inductive ConnectOutcome where
  | socketFails
  | addressFails
  | connectFails
  /-- The socket gets a descriptor and a connection, and the kernel answers the `send` of the
  Logon. -/
  | connected (fd : ℕ) (answer : Option ℕ)
  deriving DecidableEq, Repr

/-- A session with both its halves and the record of its connection. -/
structure FIXConnection where
  sender : FIXSender
  session : FIXSession
  events : List Event

namespace FIXConnection

/-- A new session. -/
def init (senderComp targetComp : List UInt8) (version : FIXVersion) (ackCb fillCb : Bool)
    (rdtscNs : ℕ → ℕ) : FIXConnection where
  sender := { senderComp := senderComp, targetComp := targetComp, version := version }
  session :=
    { state := .notConnected, lastRttNs := 0, lastHeartbeatTsNs := 0, ackCb := ackCb
      fillCb := fillCb, reports := [], rdtscNs := rdtscNs, rdtscReads := 0 }
  events := []

variable (c : FIXConnection)

/-- Record an event. -/
def record (e : Event) : FIXConnection :=
  { c with events := c.events ++ [e] }

/-- `state_.store`. -/
def store (state : SessionState) : FIXConnection :=
  { c with session := { c.session with state := state } }.record (.stored state)

/-- Set `sockfd_`. -/
def setSockfd (sockfd : ℤ) : FIXConnection :=
  { c with sender := { c.sender with sockfd := sockfd } }

/-- Encode a message into a buffer of `cap` bytes and pass it to `send_raw`. -/
def send (m : OutMessage) (cap : ℕ) (answer : Option ℕ) : FIXConnection × Bool :=
  let bytes := m.encode c.sender cap
  let complete := (c.sender.sendRaw bytes answer).2
  ({ c with sender := c.sender.advance }.record (.sent c.sender.msgSeqNum bytes complete), complete)

/-- `connect`. -/
def connect : ConnectOutcome → FIXConnection × Bool
  | .socketFails | .addressFails | .connectFails => (c.setSockfd (-1), false)
  | .connected fd answer =>
    let c := ((c.setSockfd fd).record .tcpConnected).store .loggingOn
    let (c, complete) := c.send .logon 512 answer
    if !complete then ((c.setSockfd (-1)).store .notConnected, false)
    else (c.store .active, true)

/-- `disconnect`, with the answer of the kernel to the `send` of the Logout. -/
def disconnect (answer : Option ℕ) : FIXConnection :=
  let c := c.record .disconnected
  let c := if c.session.state = .active then (c.send .logout 256 answer).1.store .loggingOut else c
  let c := if 0 ≤ c.sender.sockfd then c.setSockfd (-1) else c
  c.store .notConnected

/-- The type of a message in the receive buffer. -/
def msgTypeOf (mem : Memory) (buf len : ℕ) : Option UInt8 :=
  (fixFindField mem buf len 35).map mem

/-- The values that `parse_message` stores in `state_`. -/
def storedBy (msgType : Option UInt8) : List Event :=
  if msgType = some 'A'.toUInt8 then [.stored .active]
  else if msgType = some '5'.toUInt8 then [.stored .notConnected]
  else []

/-- `parse_message`, called by `run`. -/
def receive (mem : Memory) (buf len : ℕ) : FIXConnection :=
  { c with
    session := c.session.parseMessage mem buf len
    events := c.events ++ .received (msgTypeOf mem buf len) :: storedBy (msgTypeOf mem buf len) }

/-- `run` gets nothing from `recv`. -/
def lose : FIXConnection :=
  (c.record .lost).store .notConnected

/-- The calls that act on a session. -/
inductive Action where
  | connect (outcome : ConnectOutcome)
  | disconnect (answer : Option ℕ)
  | sendNewOrder (req : OrderRequest) (answer : Option ℕ)
  | sendCancel (clientOrderId : ℕ) (answer : Option ℕ)
  | sendModify (req : ModifyRequest) (answer : Option ℕ)
  | receive (mem : Memory) (buf len : ℕ)
  | lose

/-- The session after a call.  The results of `connect` and of `send_raw` are not used again. -/
def step (c : FIXConnection) : Action → FIXConnection
  | .connect outcome => (c.connect outcome).1
  | .disconnect answer => c.disconnect answer
  | .sendNewOrder req answer => (c.send (.newOrder req) 512 answer).1
  | .sendCancel id answer => (c.send (.cancel id) 256 answer).1
  | .sendModify req answer => (c.send (.modify req) 512 answer).1
  | .receive mem buf len => c.receive mem buf len
  | .lose => c.lose

/-! ## What a call records -/

/-- A message offered to the socket: its number, its bytes, the descriptor and the answer of the
kernel. -/
structure Attempt where
  number : ℕ
  bytes : List UInt8
  sockfd : ℤ
  answer : Option ℕ

/-- There is a socket, and it takes the whole message. -/
def Attempt.Complete (t : Attempt) : Prop :=
  0 ≤ t.sockfd ∧ t.answer = some t.bytes.length

instance (t : Attempt) : Decidable t.Complete :=
  inferInstanceAs (Decidable (_ ∧ _))

/-- What the session offers to its socket when it sends a message. -/
def offer (m : OutMessage) (cap : ℕ) (sockfd : ℤ) (answer : Option ℕ) : Attempt :=
  ⟨c.sender.msgSeqNum, m.encode c.sender cap, sockfd, answer⟩

/-- What a call offers to the socket. -/
def attempt : Action → Option Attempt
  | .connect (.connected fd answer) => some (c.offer .logon 512 fd answer)
  | .connect _ => none
  | .disconnect answer =>
    if c.session.state = .active then some (c.offer .logout 256 c.sender.sockfd answer) else none
  | .sendNewOrder req answer => some (c.offer (.newOrder req) 512 c.sender.sockfd answer)
  | .sendCancel id answer => some (c.offer (.cancel id) 256 c.sender.sockfd answer)
  | .sendModify req answer => some (c.offer (.modify req) 512 c.sender.sockfd answer)
  | .receive _ _ _ => none
  | .lose => none

/-- The event of an attempt. -/
def Attempt.event (t : Attempt) : Event :=
  .sent t.number t.bytes t.Complete

/-- What a call records. -/
def newEvents : Action → List Event
  | .connect (.connected fd answer) =>
    [.tcpConnected, .stored .loggingOn, (c.offer .logon 512 fd answer).event,
      .stored (if (c.offer .logon 512 fd answer).Complete then .active else .notConnected)]
  | .connect _ => []
  | .disconnect answer =>
    .disconnected ::
      (if c.session.state = .active then
        [(c.offer .logout 256 c.sender.sockfd answer).event, .stored .loggingOut] else []) ++
      [.stored .notConnected]
  | .sendNewOrder req answer => [(c.offer (.newOrder req) 512 c.sender.sockfd answer).event]
  | .sendCancel id answer => [(c.offer (.cancel id) 256 c.sender.sockfd answer).event]
  | .sendModify req answer => [(c.offer (.modify req) 512 c.sender.sockfd answer).event]
  | .receive mem buf len => .received (msgTypeOf mem buf len) :: storedBy (msgTypeOf mem buf len)
  | .lose => [.lost, .stored .notConnected]

variable {c}

/-- No message is empty, so `send_raw` succeeds when there is a socket that takes all of it. -/
lemma sendRaw_encode {s : FIXSender} {m : OutMessage} {cap : ℕ} (hcap : 10 ≤ cap)
    (answer : Option ℕ) :
    (s.sendRaw (m.encode s cap) answer).2 =
      decide (0 ≤ s.sockfd ∧ answer = some (m.encode s cap).length) := by
  have hne : (m.encode s cap).length ≠ 0 := by
    rw [OutMessage.encode_eq, Ne, List.length_eq_zero_iff]
    exact FIXSender.finalize_appendFields_ne_nil _ _ hcap
  unfold FIXSender.sendRaw kernelSend
  cases answer with
  | none =>
    split_ifs
    · simp
    · simp
  | some n =>
    split_ifs with hsock
    · have hneg : ¬0 ≤ s.sockfd := by omega
      simp [hneg]
    · have hpos : 0 ≤ s.sockfd := by omega
      simp [hpos]

/-- Encoding and sending a message records the attempt and counts it. -/
lemma send_eq {m : OutMessage} {cap : ℕ} (hcap : 10 ≤ cap) (answer : Option ℕ) :
    c.send m cap answer =
      ({ c with sender := c.sender.advance }.record (c.offer m cap c.sender.sockfd answer).event,
        decide (c.offer m cap c.sender.sockfd answer).Complete) := by
  unfold send
  dsimp only
  rw [sendRaw_encode hcap]
  rfl

@[simp] lemma events_record (e : Event) : (c.record e).events = c.events ++ [e] := rfl

@[simp] lemma sender_record (e : Event) : (c.record e).sender = c.sender := rfl

@[simp] lemma session_record (e : Event) : (c.record e).session = c.session := rfl

@[simp] lemma events_store (st : SessionState) :
    (c.store st).events = c.events ++ [.stored st] := rfl

@[simp] lemma sender_store (st : SessionState) : (c.store st).sender = c.sender := rfl

@[simp] lemma state_store (st : SessionState) : (c.store st).session.state = st := rfl

@[simp] lemma events_setSockfd (sockfd : ℤ) : (c.setSockfd sockfd).events = c.events := rfl

@[simp] lemma session_setSockfd (sockfd : ℤ) : (c.setSockfd sockfd).session = c.session := rfl

/-- The Logon of a new connection. -/
lemma send_logon (fd : ℕ) (answer : Option ℕ) :
    (((c.setSockfd fd).record .tcpConnected).store .loggingOn).send .logon 512 answer =
      ({ ((c.setSockfd fd).record .tcpConnected).store .loggingOn with
          sender := (c.setSockfd fd).sender.advance }.record (c.offer .logon 512 fd answer).event,
        decide (c.offer .logon 512 fd answer).Complete) := by
  rw [send_eq (by decide)]
  rfl

/-- To close the socket is to set its descriptor, if only to what it is. -/
lemma exists_setSockfd (c : FIXConnection) :
    ∃ sockfd, (if 0 ≤ c.sender.sockfd then c.setSockfd (-1) else c) = c.setSockfd sockfd := by
  split_ifs
  · exact ⟨-1, rfl⟩
  · exact ⟨c.sender.sockfd, rfl⟩

lemma events_close (c : FIXConnection) :
    (if 0 ≤ c.sender.sockfd then c.setSockfd (-1) else c).events = c.events := by
  obtain ⟨sockfd, hclose⟩ := exists_setSockfd c
  rw [hclose, events_setSockfd]

/-- What a call records is what `newEvents` says. -/
lemma events_step (a : Action) : (c.step a).events = c.events ++ c.newEvents a := by
  cases a with
  | connect outcome =>
    cases outcome with
    | connected fd answer =>
      unfold step connect newEvents
      dsimp only
      rw [send_logon]
      by_cases hcomplete : (c.offer .logon 512 fd answer).Complete
      · simp [hcomplete]
      · simp [hcomplete]
    | socketFails => exact (List.append_nil _).symm
    | addressFails => exact (List.append_nil _).symm
    | connectFails => exact (List.append_nil _).symm
  | disconnect answer =>
    unfold step disconnect newEvents
    dsimp only
    rw [events_store, events_close]
    by_cases hactive : c.session.state = .active
    · rw [send_eq (by decide)]
      simp [hactive]
      rfl
    · simp [hactive]
  | sendNewOrder req answer =>
    exact congrArg (fun r => r.1.events) (send_eq (show 10 ≤ 512 by decide) answer)
  | sendCancel id answer =>
    exact congrArg (fun r => r.1.events) (send_eq (show 10 ≤ 256 by decide) answer)
  | sendModify req answer =>
    exact congrArg (fun r => r.1.events) (send_eq (show 10 ≤ 512 by decide) answer)
  | receive mem buf len => rfl
  | lose => exact List.append_assoc ..

/-- A call uses a number when it offers a message, and it changes nothing else of what the session
needs to encode. -/
lemma sender_step (a : Action) :
    ∃ sockfd, (c.step a).sender =
      { (c.attempt a).elim c.sender fun _ => c.sender.advance with sockfd := sockfd } := by
  cases a with
  | connect outcome =>
    cases outcome with
    | connected fd answer =>
      unfold step connect
      dsimp only
      split_ifs
      · exact ⟨-1, rfl⟩
      · exact ⟨fd, rfl⟩
    | socketFails => exact ⟨-1, rfl⟩
    | addressFails => exact ⟨-1, rfl⟩
    | connectFails => exact ⟨-1, rfl⟩
  | disconnect answer =>
    unfold step disconnect attempt
    dsimp only
    rw [session_record, sender_store]
    by_cases hactive : c.session.state = .active
    · rw [if_pos hactive, if_pos hactive]
      obtain ⟨sockfd, hclose⟩ :=
        exists_setSockfd (((c.record .disconnected).send .logout 256 answer).1.store .loggingOut)
      rw [hclose]
      exact ⟨sockfd, rfl⟩
    · rw [if_neg hactive, if_neg hactive]
      obtain ⟨sockfd, hclose⟩ := exists_setSockfd (c.record .disconnected)
      rw [hclose]
      exact ⟨sockfd, rfl⟩
  | sendNewOrder req answer => exact ⟨c.sender.sockfd, rfl⟩
  | sendCancel id answer => exact ⟨c.sender.sockfd, rfl⟩
  | sendModify req answer => exact ⟨c.sender.sockfd, rfl⟩
  | receive mem buf len => exact ⟨c.sender.sockfd, rfl⟩
  | lose => exact ⟨c.sender.sockfd, rfl⟩

/-! ## The session state -/

section SessionState

variable (c)

/-- The state that an event stores. -/
def stateOf : Event → Option SessionState
  | .stored state => some state
  | _ => none

/-- The values of `state_`, from the construction on. -/
def path : List SessionState :=
  .notConnected :: c.events.filterMap stateOf

/-- A move of the session state: one of the edges of the session's state machine, the way back to
`NOT_CONNECTED`, or none. -/
def Follows (state next : SessionState) : Prop :=
  next = .notConnected ∨ next = state ∨
    (state, next) ∈ [(.notConnected, .loggingOn), (.loggingOn, .active), (.active, .loggingOut)]

instance : DecidableRel Follows := fun state next =>
  inferInstanceAs (Decidable (_ ∨ _ ∨ (state, next) ∈ [_, _, _]))

/-- What is known of the peer after an event: whether a TCP connection was ever established, and
whether a Logon was handled on the latest one, with no end of the session since. -/
def peerAfter (peer : Bool × Bool) : Event → Bool × Bool
  | .tcpConnected => (true, false)
  | .received msgType =>
    if msgType = some 'A'.toUInt8 then (peer.1, peer.1)
    else if msgType = some '5'.toUInt8 then (peer.1, false)
    else peer
  | .lost => (peer.1, false)
  | .disconnected => (peer.1, false)
  | .stored _ => peer
  | .sent _ _ _ => peer

/-- The peer is logged on. -/
def peerLoggedOn : Bool :=
  (c.events.foldl peerAfter (false, false)).2

/-- `is_connected`. -/
def isConnected : Bool :=
  c.session.state = .active

/-- The session state has only moved along its edges, and a session that is connected has a peer
that is logged on. -/
def StateSound : Prop :=
  c.path.IsChain Follows ∧ (c.isConnected = true → c.peerLoggedOn = true)

instance : Decidable c.StateSound :=
  inferInstanceAs (Decidable (_ ∧ _))

/-- The kernel does not take the Logon of a connection, and no Logon of the peer is handled. -/
def NoLogon : Action → Prop
  | .connect (.connected _ answer) => answer ≠ some (OutMessage.logon.encode c.sender 512).length
  | .receive mem buf len => msgTypeOf mem buf len ≠ some 'A'.toUInt8
  | _ => True

variable {c} {a : Action}

/-- A connection whose state is where it began, after sound moves. -/
structure Idle (c : FIXConnection) : Prop where
  state : c.session.state = .notConnected
  chain : c.path.IsChain Follows
  last : ∃ before, c.path = before ++ [.notConnected]

/-- The states that a call stores. -/
def newStates (c : FIXConnection) (a : Action) : List SessionState :=
  (c.newEvents a).filterMap stateOf

lemma path_step (c : FIXConnection) (a : Action) : (c.step a).path = c.path ++ c.newStates a := by
  rw [path, events_step, List.filterMap_append]
  rfl

/-- The new states follow on from the initial one. -/
lemma Idle.isChain_step (h : c.Idle) :
    (c.step a).path.IsChain Follows ↔
      (SessionState.notConnected :: c.newStates a).IsChain Follows := by
  obtain ⟨before, hbefore⟩ := h.last
  have hchain := h.chain
  rw [hbefore] at hchain
  rw [path_step, hbefore, List.append_assoc, List.singleton_append, List.isChain_split]
  exact and_iff_right hchain

/-- A call that comes back to the initial state leaves the connection idle. -/
lemma Idle.step {states : List SessionState} (h : c.Idle)
    (hstates : SessionState.notConnected :: c.newStates a = states ++ [.notConnected])
    (hchain : (states ++ [SessionState.notConnected]).IsChain Follows)
    (hstate : (c.step a).session.state = .notConnected) : (c.step a).Idle := by
  refine ⟨hstate, ?_, ?_⟩
  · rw [h.isChain_step, hstates]
    exact hchain
  · obtain ⟨before, hbefore⟩ := h.last
    refine ⟨before ++ states, ?_⟩
    rw [path_step, hbefore, List.append_assoc, List.singleton_append, hstates, List.append_assoc]

/-- `parse_message` changes the state for a Logon and for a Logout. -/
lemma state_parseMessage (s : FIXSession) (mem : Memory) (buf len : ℕ) :
    (s.parseMessage mem buf len).state =
      if msgTypeOf mem buf len = some 'A'.toUInt8 then .active
      else if msgTypeOf mem buf len = some '5'.toUInt8 then .notConnected
      else s.state := by
  have hreport (s : FIXSession) : (s.handleExecutionReport mem buf len).state = s.state := by
    unfold FIXSession.handleExecutionReport
    split
    · rfl
    · dsimp only
      split_ifs <;> rfl
  unfold FIXSession.parseMessage msgTypeOf
  cases fixFindField mem buf len 35 with
  | none => simp
  | some p =>
    simp only [Option.map_some, Option.some.injEq]
    by_cases hreportType : mem p = '8'.toUInt8
    · rw [if_pos hreportType, hreport, hreportType, if_neg (by decide), if_neg (by decide)]
    · rw [if_neg hreportType]
      by_cases hheartbeat : mem p = '0'.toUInt8
      · rw [if_pos hheartbeat, hheartbeat, if_neg (by decide), if_neg (by decide)]
        rfl
      · rw [if_neg hheartbeat]
        split_ifs <;> rfl

lemma complete_logon {fd : ℕ} {answer : Option ℕ} :
    (c.offer .logon 512 fd answer).Complete ↔
      answer = some (OutMessage.logon.encode c.sender 512).length := by
  unfold Attempt.Complete offer
  dsimp only
  exact and_iff_right (Int.natCast_nonneg fd)

lemma state_connect (fd : ℕ) (answer : Option ℕ) :
    (c.step (.connect (.connected fd answer))).session.state =
      if (c.offer .logon 512 fd answer).Complete then .active else .notConnected := by
  unfold step connect
  dsimp only
  rw [send_logon]
  by_cases hcomplete : (c.offer .logon 512 fd answer).Complete
  · simp [hcomplete]
  · simp [hcomplete]

/-- A call without a Logon leaves the connection idle. -/
lemma Idle.step_of_noLogon (h : c.Idle) (ha : c.NoLogon a) : (c.step a).Idle := by
  cases a with
  | connect outcome =>
    cases outcome with
    | connected fd answer =>
      have hincomplete : ¬(c.offer .logon 512 fd answer).Complete := mt complete_logon.mp ha
      have hstates : SessionState.notConnected :: c.newStates (.connect (.connected fd answer)) =
          [.notConnected, .loggingOn] ++ [.notConnected] := by
        simp only [newStates, newEvents, if_neg hincomplete]
        rfl
      exact h.step hstates (by decide) (by rw [state_connect, if_neg hincomplete])
    | socketFails => exact ⟨h.state, h.chain, h.last⟩
    | addressFails => exact ⟨h.state, h.chain, h.last⟩
    | connectFails => exact ⟨h.state, h.chain, h.last⟩
  | disconnect answer =>
    have hstates : SessionState.notConnected :: c.newStates (.disconnect answer) =
        [.notConnected] ++ [.notConnected] := by
      rw [newStates, newEvents, if_neg (by rw [h.state]; decide)]
      rfl
    exact h.step hstates (by decide) rfl
  | sendNewOrder req answer => exact h.step (List.nil_append _).symm (by decide) h.state
  | sendCancel id answer => exact h.step (List.nil_append _).symm (by decide) h.state
  | sendModify req answer => exact h.step (List.nil_append _).symm (by decide) h.state
  | receive mem buf len =>
    have hstate : (c.step (.receive mem buf len)).session.state = .notConnected := by
      have hparse := state_parseMessage c.session mem buf len
      rw [if_neg ha, h.state, ite_self] at hparse
      exact hparse
    by_cases hlogout : msgTypeOf mem buf len = some '5'.toUInt8
    · have hstates : SessionState.notConnected :: c.newStates (.receive mem buf len) =
          [.notConnected] ++ [.notConnected] := by
        rw [newStates, newEvents, storedBy, if_neg ha, if_pos hlogout]
        rfl
      exact h.step hstates (by decide) hstate
    · have hstates : SessionState.notConnected :: c.newStates (.receive mem buf len) =
          [] ++ [.notConnected] := by
        rw [newStates, newEvents, storedBy, if_neg ha, if_neg hlogout]
        rfl
      exact h.step hstates (by decide) hstate
  | lose =>
    have hstates : SessionState.notConnected :: c.newStates .lose =
        [.notConnected] ++ [.notConnected] := rfl
    exact h.step hstates (by decide) rfl

/-- A call with a Logon breaks the promise: a connection is up at once, without the peer, or the
state leaves its edges. -/
lemma Idle.not_stateSound_step (h : c.Idle) (ha : ¬c.NoLogon a) : ¬(c.step a).StateSound := by
  cases a with
  | connect outcome =>
    cases outcome with
    | connected fd answer =>
      have hcomplete : (c.offer .logon 512 fd answer).Complete := complete_logon.mpr (not_not.mp ha)
      have hpeer : (c.step (.connect (.connected fd answer))).peerLoggedOn = false := by
        rw [peerLoggedOn, events_step, List.foldl_append]
        rfl
      have hactive : (c.step (.connect (.connected fd answer))).isConnected = true := by
        rw [isConnected, state_connect, if_pos hcomplete]
        rfl
      intro hsound
      have hlogged := hsound.2 hactive
      rw [hpeer] at hlogged
      cases hlogged
    | socketFails => exact absurd trivial ha
    | addressFails => exact absurd trivial ha
    | connectFails => exact absurd trivial ha
  | disconnect _ => exact absurd trivial ha
  | sendNewOrder _ _ => exact absurd trivial ha
  | sendCancel _ _ => exact absurd trivial ha
  | sendModify _ _ => exact absurd trivial ha
  | receive mem buf len =>
    have hlogon : msgTypeOf mem buf len = some 'A'.toUInt8 := not_not.mp ha
    have hstates : c.newStates (.receive mem buf len) = [.active] := by
      rw [newStates, newEvents, storedBy, if_pos hlogon]
      rfl
    intro hsound
    have hchain := h.isChain_step.mp hsound.1
    rw [hstates] at hchain
    exact absurd hchain (by decide)
  | lose => exact absurd trivial ha

lemma idle_init (senderComp targetComp : List UInt8) (version : FIXVersion) (ackCb fillCb : Bool)
    (rdtscNs : ℕ → ℕ) : (init senderComp targetComp version ackCb fillCb rdtscNs).Idle :=
  ⟨rfl, List.IsChain.singleton _, [], rfl⟩

/-- **The session state.**  In a run of a new session, whatever the names, the state moves along its
edges only and a session that is connected has a peer that is logged on, after every part of the
run, exactly when no connection gets as far as sending its Logon and no Logon is handled. -/
theorem session_state_iff (senderComp targetComp : List UInt8) (version : FIXVersion)
    (ackCb fillCb : Bool) (rdtscNs : ℕ → ℕ) (as : List Action) :
    (∀ bs, bs <+: as → (Transition.run step
        (init senderComp targetComp version ackCb fillCb rdtscNs) bs).StateSound) ↔
      Transition.Admissible step NoLogon
        (init senderComp targetComp version ackCb fillCb rdtscNs) as := by
  apply Transition.forall_prefix_iff_of_step (P := Idle)
  · intro c h
    exact ⟨h.chain, fun hconnected => by rw [isConnected, h.state] at hconnected; cases hconnected⟩
  · intro c a ha h
    exact h.step_of_noLogon ha
  · intro c a ha h
    exact h.not_stateSound_step ha
  · exact idle_init ..

/-- The session of a client with a broker. -/
def exampleConnection : FIXConnection :=
  init (ascii ['C']) (ascii ['B']) .fix42 true true fun _ => 0

set_option maxRecDepth 2000 in
lemma length_encode_exampleConnection :
    (OutMessage.logon.encode exampleConnection.sender 512).length = 58 := by
  decide

/-- The socket takes the 58 bytes of the Logon, and the session is connected although nothing was
received. -/
theorem session_state_unanswered :
    (exampleConnection.step (.connect (.connected 3 (some 58)))).isConnected = true ∧
      (exampleConnection.step (.connect (.connected 3 (some 58)))).peerLoggedOn = false ∧
      ¬(exampleConnection.step (.connect (.connected 3 (some 58)))).StateSound := by
  have hcomplete : (exampleConnection.offer .logon 512 (3 : ℕ) (some 58)).Complete :=
    complete_logon.mpr (congrArg some length_encode_exampleConnection.symm)
  have hpeer : (exampleConnection.step (.connect (.connected 3 (some 58)))).peerLoggedOn =
      false := by
    rw [peerLoggedOn, events_step]
    rfl
  have hactive : (exampleConnection.step (.connect (.connected 3 (some 58)))).session.state =
      .active := by
    rw [state_connect, if_pos hcomplete]
  have hidle : exampleConnection.Idle := idle_init ..
  exact ⟨decide_eq_true hactive, hpeer, hidle.not_stateSound_step fun hlogon =>
    hlogon (complete_logon.mp hcomplete)⟩

end SessionState

end FIXConnection

end QuantTrade
