import QuantTrade.Connectivity.BinaryProtocol
import QuantTrade.Connectivity.FixEncode
import QuantTrade.Library.WireLog

/-!
# The outgoing stream of a gateway

`send_msg` of the binary gateway, on Linux and elsewhere, and `send_raw` of the FIX session, with
the calls `send_new_order`, `send_cancel` and `send_modify` that use them.  The kernel takes a part
of the bytes it is offered, or fails.  The calls compare what it took with what they offered, and
their callers drop the result, so a message that is broken is neither completed nor is the
connection closed.

The stream stays framed exactly when the kernel takes nothing more once a message is broken
(`framed_iff_quiet`).
-/

namespace QuantTrade

open WireLog (Transmission Framed Broken)

/-! ## Sending -/

/-- A call of `send` or `writev`, when the kernel takes `answer` bytes or fails: what is written,
and the result. -/
def kernelSend (bytes : List UInt8) (answer : Option ℕ) : List UInt8 × ℤ :=
  match answer with
  | none => ([], -1)
  | some n => (bytes.take n, n)

/-- The kernel takes at least one byte, and not more than it is offered. -/
def Accepts (bytes : List UInt8) (answer : Option ℕ) : Prop :=
  ∀ n ∈ answer, 1 ≤ n ∧ n ≤ bytes.length

instance (bytes : List UInt8) (answer : Option ℕ) : Decidable (Accepts bytes answer) :=
  inferInstanceAs (Decidable (∀ n ∈ answer, _))

namespace BinaryProtocolGateway

/-- `send_msg` on Linux: header and body in one `writev`. -/
def sendMsgWritev (m : Message) (answer : Option ℕ) : List UInt8 × Bool :=
  let (written, sent) := kernelSend m.bytes answer
  (written, sent = m.bytes.length)

/-- `send_msg` elsewhere: the header, and when it is complete the body. -/
def sendMsgTwice (m : Message) (answer answer' : Option ℕ) : List UInt8 × Bool :=
  let (written, sent) := kernelSend m.header answer
  if sent ≠ m.header.length then (written, false)
  else if m.body.length > 0 then
    let (written', sent') := kernelSend m.body answer'
    (written ++ written', sent' = m.body.length)
  else (written, true)

end BinaryProtocolGateway

/-- `send_raw`. -/
def FIXSender.sendRaw (s : FIXSender) (bytes : List UInt8) (answer : Option ℕ) :
    List UInt8 × Bool :=
  if s.sockfd < 0 ∨ bytes.length = 0 then ([], false)
  else
    let (written, sent) := kernelSend bytes answer
    (written, sent = bytes.length)

/-- The calls. -/
inductive SendCall where
  | newOrder (req : OrderRequest)
  | cancel (clientOrderId : ℕ)
  | modify (req : ModifyRequest)

/-- The gateways; the binary one is compiled for Linux or for another system. -/
inductive Endpoint where
  | binary (linux : Bool)
  | fix (session : FIXSender)

/-- A call, with the time stamp counter and the answers of the kernel to the first and, if there is
one, to the second system call. -/
structure Send where
  call : SendCall
  now : ℕ
  answer : Option ℕ
  answer' : Option ℕ

namespace SendCall

/-- The message that the binary gateway sends. -/
def message (call : SendCall) (now : ℕ) : BinaryProtocolGateway.Message :=
  match call with
  | .newOrder req => BinaryProtocolGateway.newOrderMessage req now
  | .cancel id => BinaryProtocolGateway.cancelMessage id
  | .modify req => BinaryProtocolGateway.modifyMessage req

/-- The message that the FIX session sends, written into a buffer of the caller. -/
def encode (call : SendCall) (s : FIXSender) : List UInt8 :=
  match call with
  | .newOrder req => s.encodeNewOrder 512 req
  | .cancel id => s.encodeCancel 256 id
  | .modify req => s.encodeModify 512 req

end SendCall

namespace Endpoint

/-- A call: what it has to send and what it writes.  The result of the sending function is
dropped. -/
def transmit (e : Endpoint) (send : Send) : Transmission UInt8 × Endpoint :=
  match e with
  | .binary true =>
    let m := send.call.message send.now
    (⟨m.bytes, (BinaryProtocolGateway.sendMsgWritev m send.answer).1⟩, e)
  | .binary false =>
    let m := send.call.message send.now
    (⟨m.bytes, (BinaryProtocolGateway.sendMsgTwice m send.answer send.answer').1⟩, e)
  | .fix s =>
    let bytes := send.call.encode s
    (⟨bytes, (s.sendRaw bytes send.answer).1⟩, .fix s.advance)

/-- The answers of the kernel fit what it is offered. -/
def Possible (e : Endpoint) (send : Send) : Prop :=
  match e with
  | .binary true => Accepts (send.call.message send.now).bytes send.answer
  | .binary false =>
    Accepts (send.call.message send.now).header send.answer ∧
      Accepts (send.call.message send.now).body send.answer'
  | .fix s => Accepts (send.call.encode s) send.answer

instance (e : Endpoint) (send : Send) : Decidable (e.Possible send) := by
  unfold Possible
  split <;> infer_instance

/-- The gateway has a connection. -/
def Connected : Endpoint → Prop
  | .binary _ => True
  | .fix s => 0 ≤ s.sockfd

variable {e : Endpoint} {send : Send}

/-- The kernel writes nothing exactly when it fails. -/
lemma kernelSend_fst_eq_nil_iff {bytes : List UInt8} {answer : Option ℕ}
    (h : Accepts bytes answer) : (kernelSend bytes answer).1 = [] ↔ answer = none := by
  cases answer with
  | none => exact iff_of_true rfl rfl
  | some n =>
    obtain ⟨hpos, hle⟩ := h n rfl
    apply iff_of_false
    · intro hnil
      have hlen : (bytes.take n).length = 0 := by
        rw [show bytes.take n = [] from hnil, List.length_nil]
      rw [List.length_take] at hlen
      omega
    · exact Option.some_ne_none n

/-- The messages of the FIX session are not empty. -/
lemma length_encode_pos (call : SendCall) (s : FIXSender) : 0 < (call.encode s).length := by
  rw [List.length_pos_iff]
  cases call with
  | newOrder req =>
    rw [SendCall.encode, FIXSender.encodeNewOrder_eq]
    exact FIXSender.finalize_appendFields_ne_nil _ _ (by decide)
  | cancel id =>
    rw [SendCall.encode, FIXSender.encodeCancel_eq]
    exact FIXSender.finalize_appendFields_ne_nil _ _ (by decide)
  | modify req =>
    rw [SendCall.encode, FIXSender.encodeModify_eq]
    exact FIXSender.finalize_appendFields_ne_nil _ _ (by decide)

/-- A call writes nothing exactly when the kernel fails at once. -/
lemma written_eq_nil_iff (hconn : e.Connected) (h : e.Possible send) :
    (e.transmit send).1.written = [] ↔ send.answer = none := by
  match e, hconn, h with
  | .binary true, _, h => exact kernelSend_fst_eq_nil_iff h
  | .binary false, _, h =>
    simp only [transmit, BinaryProtocolGateway.sendMsgTwice]
    rw [← kernelSend_fst_eq_nil_iff h.1]
    split_ifs with hheader hbody
    · rfl
    · -- the header is complete, so it is on the stream
      have hne : (kernelSend (send.call.message send.now).header send.answer).1 ≠ [] := by
        intro hnil
        rw [kernelSend_fst_eq_nil_iff h.1] at hnil
        rw [hnil] at hheader
        simp [kernelSend, BinaryProtocolGateway.Message.header] at hheader
      simp [hne]
    · rfl
  | .fix s, hconn, h =>
    have hlen := length_encode_pos send.call s
    have hopen : ¬(s.sockfd < 0 ∨ (send.call.encode s).length = 0) := by
      have hsock : 0 ≤ s.sockfd := hconn
      omega
    simp only [transmit, FIXSender.sendRaw, if_neg hopen]
    exact kernelSend_fst_eq_nil_iff h

/-- A call leaves the gateway connected. -/
lemma connected_transmit (hconn : e.Connected) (send : Send) :
    (e.transmit send).2.Connected := by
  match e, hconn with
  | .binary true, _ => trivial
  | .binary false, _ => trivial
  | .fix s, hconn => exact hconn

end Endpoint

/-- A gateway, with the log of what it sent. -/
structure Outgoing where
  endpoint : Endpoint
  log : List (Transmission UInt8)

namespace Outgoing

/-- A connection on which nothing was sent yet. -/
def start (e : Endpoint) : Outgoing where
  endpoint := e
  log := []

/-- One call. -/
def step (s : Outgoing) (send : Send) : Outgoing where
  endpoint := (s.endpoint.transmit send).2
  log := s.log ++ [(s.endpoint.transmit send).1]

/-- The answers of the kernel fit what it is offered. -/
def Possible (s : Outgoing) (send : Send) : Prop :=
  s.endpoint.Possible send

/-- Once a message is broken the kernel fails. -/
def Quiet (s : Outgoing) (send : Send) : Prop :=
  Broken s.log → send.answer = none

instance (s : Outgoing) (send : Send) : Decidable (s.Possible send) :=
  inferInstanceAs (Decidable (s.endpoint.Possible send))

/-- **Framing of the outgoing stream.**  Let a gateway be connected and let the kernel take any part
of what it is offered or fail.  In a sequence of calls, whenever two messages are on the stream, the
first one is complete, exactly when the kernel fails at every call after a message is broken. -/
theorem framed_iff_quiet {e : Endpoint} (hconn : e.Connected) (sends : List Send)
    (h : Transition.Admissible step Possible (start e) sends) :
    Framed (Transition.run step (start e) sends).log ↔
      Transition.Admissible step Quiet (start e) sends := by
  refine WireLog.framed_run_iff (P := fun s : Outgoing => s.endpoint.Connected) ?_ ?_ h hconn
    WireLog.framed_nil
  · exact fun s send _ hs => Endpoint.connected_transmit hs send
  · exact fun s send hp hs => ⟨_, rfl, Endpoint.written_eq_nil_iff hs hp⟩

/-- A new order of which the kernel takes 20 bytes, and a cancel that it takes in full. -/
def brokenOrder (size : ℕ) : List Send :=
  [{ call := .newOrder {}, now := 0, answer := some 20, answer' := none },
    { call := .cancel 1, now := 0, answer := some size, answer' := none }]

/-- The rule at a run in which the kernel fails after a message is broken. -/
theorem framed_iff_quiet_failing :
    Framed (Transition.run step (start (.binary true))
        [{ call := .newOrder {}, now := 0, answer := some 20, answer' := none },
          { call := .cancel 1, now := 0, answer := none, answer' := none }]).log ↔
      Transition.Admissible step Quiet (start (.binary true))
        [{ call := .newOrder {}, now := 0, answer := some 20, answer' := none },
          { call := .cancel 1, now := 0, answer := none, answer' := none }] :=
  framed_iff_quiet (show (Endpoint.binary true).Connected from trivial) _ (by decide)

/-- Both gateways send a cancel behind the first 20 bytes of a new order. -/
theorem not_framed_brokenOrder :
    let binary := start (.binary true)
    let fix := start (.fix { senderComp := ascii ['A'], targetComp := ascii ['B'], sockfd := 3 })
    Transition.Admissible step Possible binary (brokenOrder 32) ∧
      ¬Framed (Transition.run step binary (brokenOrder 32)).log ∧
      Transition.Admissible step Possible fix (brokenOrder 77) ∧
      ¬Framed (Transition.run step fix (brokenOrder 77)).log := by
  decide +kernel

end Outgoing

end QuantTrade
