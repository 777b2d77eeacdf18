import Mathlib.Logic.Function.Basic
import ArmyRs.Foundation.Pools
import ArmyRs.Foundation.Transition

/-!
# The message queue of an endpoint

A request of the game is put into a packet (`queueMsg`), which waits in the send
queue, is sent (`flushSendQueue`) and waits in the receive queue for the response
with its number.  The callback of the request goes with the packet up to the
sending, and from then on it is the handler of the signal of that number.  A
request that may be resent is kept in the resend queue too.

Callbacks are code of the game, which may use the endpoint.  So a function that
calls one is interrupted there: `stack` holds what it has still to do, and
`resume` goes on with it when the callback returns.  A callback that raises an
error takes any number of these frames with it (`raise`).

`log` records what happened to the requests; nothing reads it.
-/

namespace ArmyRs
namespace Client

open Foundation

/-- `predictMessage` says whether a predicted message is given. -/
structure Opts where
  predictMessage : Bool
  resend : Bool
  deriving DecidableEq, Repr

/-- What the game asks for with a call of `queueMsg`.  A message is known by its
table, a callback by its function. -/
structure Request where
  id : Nat
  t : Nat
  msg : Nat
  onComplete : Option Nat
  opts : Opts
  deriving DecidableEq, Repr

inductive Callback
  | queueMsgComplete
  | onComplete (request func : Nat)
  deriving DecidableEq, Repr

def Request.callback (request : Request) : Option Callback :=
  request.onComplete.map (Callback.onComplete request.id)

/-- The function that is called; `queueMsgComplete` is none of the game. -/
def Callback.func : Callback → Option Nat
  | .queueMsgComplete => none
  | .onComplete _ func => some func

structure Packet where
  number : Nat
  msg : Nat
  onComplete : Option Callback
  deriving DecidableEq, Repr

/-- An item of the resend queue: the number of the packet, and the arguments of
`queueMsg`. -/
structure ResendItem where
  number : Nat
  request : Request
  deriving DecidableEq, Repr

/-- The item was queued later, for the same message and with the callback that
the packet has. -/
def ResendItem.follows (item : ResendItem) (n : Nat) (sentPacket : Packet) : Bool :=
  n < item.number && sentPacket.msg == item.request.msg &&
    sentPacket.onComplete.map Callback.func == item.request.callback.map Callback.func

/-- What becomes of a flush. -/
inductive Link
  /-- `allowSend` is false. -/
  | disallowed
  /-- There is no connection. -/
  | closed
  | sent
  | failed
  deriving DecidableEq, Repr

/-- What an interrupted function has still to do. -/
inductive Frame
  /-- `queueMsg`, in the callback with the predicted message. -/
  | predicting (ref : Nat) (request : Request)
  /-- `flushResendQueue`, in one of its calls of `queueMsg`. -/
  | resending (items : List ResendItem) (link : Link)
  /-- `onMessageReceived`, in the signal of all messages. -/
  | messaging (n : Nat)
  /-- `onResponseMessageReceived`, in the callback of the request. -/
  | completing (n : Nat)
  deriving DecidableEq, Repr

/-- What happened to a request. -/
inductive Entry
  | queued (n request : Nat)
  | predicted (request : Nat)
  | responded (request n : Nat)
  deriving DecidableEq, Repr

/-- A signal without a handler is none. -/
structure MsgEndpoint where
  /-- The packet objects. -/
  packet : Nat → Packet
  sentPacketPool : Pool
  sendQueue : List Nat
  receiveQueue : List Nat
  resendQueue : List ResendItem
  number : Nat
  signals : Nat → Option Callback
  stack : List Frame
  /-- How many requests the game has made. -/
  requests : Nat
  log : List Entry

namespace MsgEndpoint

/-- `initQueue` -/
def initQueue : MsgEndpoint where
  packet := fun _ => ⟨0, 0, none⟩
  sentPacketPool := Pool.new 64
  sendQueue := []
  receiveQueue := []
  resendQueue := []
  number := 1
  signals := fun _ => none
  stack := []
  requests := 0
  log := []

def deleteSignal (s : MsgEndpoint) (n : Nat) : MsgEndpoint :=
  { s with signals := Function.update s.signals n none }

/-! ## Queueing -/

/-- `queueMsg`, up to the callback: a packet that holds what it held before, but
for the message and the number. -/
def build (s : MsgEndpoint) (request : Request) : Nat × MsgEndpoint :=
  let (packet, sentPacketPool) := s.sentPacketPool.borrow
  (packet, { s with
    packet := Function.update s.packet packet
      { s.packet packet with msg := request.msg, number := s.number }
    sentPacketPool := sentPacketPool })

/-- `queueMsg`, from the callback on. -/
def enqueue (s : MsgEndpoint) (ref : Nat) (request : Request) (onComplete : Option Callback) :
    MsgEndpoint :=
  { s with
    packet := Function.update s.packet ref { s.packet ref with onComplete := onComplete }
    sendQueue := s.sendQueue ++ [ref]
    resendQueue :=
      if request.opts.resend then s.resendQueue ++ [⟨(s.packet ref).number, request⟩]
      else s.resendQueue
    number := s.number + 1
    log := s.log ++ [.queued (s.packet ref).number request.id] }

/-- `queueMsg`.  A prediction without a callback is an error, which leaves the
packet lent. -/
def queueMsg (s : MsgEndpoint) (request : Request) : MsgEndpoint :=
  let (packet, s) := s.build request
  if request.opts.predictMessage then
    match request.onComplete with
    | none => s
    | some _ =>
        { s with
          stack := .predicting packet request :: s.stack
          log := s.log ++ [.predicted request.id] }
  else s.enqueue packet request request.callback

/-! ## Sending -/

def onPacketWillBeSent (s : MsgEndpoint) (ref : Nat) : MsgEndpoint :=
  { s with
    signals := Function.update s.signals (s.packet ref).number (s.packet ref).onComplete
    packet := Function.update s.packet ref { s.packet ref with onComplete := none } }

/-- A packet is given back, and its signal deleted. -/
def dropPacket (s : MsgEndpoint) (ref : Nat) : MsgEndpoint :=
  { s with sentPacketPool := s.sentPacketPool.recycle ref }.deleteSignal (s.packet ref).number

def clearSendQueue (s : MsgEndpoint) : MsgEndpoint :=
  s.sendQueue.foldl dropPacket { s with sendQueue := [] }

def clearReceiveQueue (s : MsgEndpoint) : MsgEndpoint :=
  s.receiveQueue.foldl dropPacket { s with receiveQueue := [] }

def handleSendDisallowed (s : MsgEndpoint) : MsgEndpoint :=
  s.sendQueue.foldl dropPacket { s with sendQueue := [] }

/-- `onSocketClosed` and `onSocketError` -/
def onSocketClosed (s : MsgEndpoint) : MsgEndpoint :=
  s.clearSendQueue.clearReceiveQueue

def flushSendQueue (s : MsgEndpoint) (link : Link) : MsgEndpoint :=
  if s.sendQueue = [] then s
  else match link with
    | .disallowed => s.handleSendDisallowed
    | .closed => s.onSocketClosed
    | .sent =>
        { s.sendQueue.foldl onPacketWillBeSent s with
          sendQueue := []
          receiveQueue := s.receiveQueue ++ s.sendQueue }
    | .failed => (s.sendQueue.foldl onPacketWillBeSent s).onSocketClosed

/-! ## Responses -/

/-- `cancelResendItem`: items are removed, and the signals of those that follow
deleted. -/
def cancelResendItem (s : MsgEndpoint) (n : Nat) (sentPacket : Packet) : MsgEndpoint :=
  let following := s.resendQueue.filter fun item => item.follows n sentPacket
  following.foldr (fun item s => s.deleteSignal item.number) { s with
    resendQueue := s.resendQueue.filter fun item =>
      !(item.number == n || item.follows n sentPacket) }

/-- `onPacketReceived`, up to the signal of all messages.  The number `0` is that
of a message which is pushed; an outdated response is discarded. -/
def onPacketReceived (s : MsgEndpoint) (n : Nat) : MsgEndpoint :=
  if n = 0 then s
  else match s.receiveQueue.find? fun ref => (s.packet ref).number = n with
    | none => s
    | some ref =>
        let s := { s with
          receiveQueue := s.receiveQueue.eraseP fun ref => (s.packet ref).number = n }
        let s := s.cancelResendItem n (s.packet ref)
        { s with
          sentPacketPool := s.sentPacketPool.recycle ref
          stack := .messaging n :: s.stack }

/-- `removeFromReceiveQueue`, from the last packet to the first. -/
def removeFromReceiveQueue (s : MsgEndpoint) (n : Nat) : MsgEndpoint :=
  match s.receiveQueue.reverse.find? fun ref => (s.packet ref).number = n with
  | none => s
  | some ref =>
      let receiveQueue :=
        (s.receiveQueue.reverse.eraseP fun ref => (s.packet ref).number = n).reverse
      { s with receiveQueue := receiveQueue }.dropPacket ref

/-! ## Resending -/

def clearResendQueue (s : MsgEndpoint) : MsgEndpoint :=
  { s with resendQueue := [] }

/-- The loop of `flushResendQueue` over the items that passed the filter. -/
def resend (link : Link) : List ResendItem → MsgEndpoint → MsgEndpoint
  | [], s => s.flushSendQueue link
  | item :: items, s =>
      if item.request.opts.predictMessage then
        { s with stack := .resending items link :: s.stack }.queueMsg item.request
      else resend link items (s.queueMsg item.request)

def flushResendQueue (s : MsgEndpoint) (filter : Nat → Nat → Bool) (link : Link) :
    MsgEndpoint :=
  resend link (s.resendQueue.filter fun item => filter item.number item.request.t)
    { s with resendQueue := [] }

/-! ## Interruptions -/

/-- The callback returns, or the handlers of the signal of all messages do. -/
def resume (s : MsgEndpoint) : Option MsgEndpoint :=
  match s.stack with
  | [] => none
  | .predicting ref request :: stack =>
      some ({ s with stack := stack }.enqueue ref request (some .queueMsgComplete))
  | .resending items link :: stack => some (resend link items { s with stack := stack })
  | .messaging n :: stack =>
      match s.signals n with
      | some (.onComplete request _) =>
          some { s.deleteSignal n with
            stack := .completing n :: stack
            log := s.log ++ [.responded request n] }
      | _ => some ({ s with stack := stack }.deleteSignal n)
  | .completing n :: stack => some ({ s with stack := stack }.deleteSignal n)

/-- A callback raises an error. -/
def raise (s : MsgEndpoint) (frames : Nat) : MsgEndpoint :=
  { s with stack := s.stack.drop frames }

end MsgEndpoint

/-! ## Steps -/

inductive Event
  | queueMsg (t msg : Nat) (onComplete : Option Nat) (opts : Opts)
  | flushSendQueue (link : Link)
  | flushResendQueue (filter : Nat → Nat → Bool) (link : Link)
  | onPacketReceived (n : Nat)
  | removeFromReceiveQueue (n : Nat)
  | clearSendQueue
  | clearReceiveQueue
  | clearResendQueue
  | resume
  | raise (frames : Nat)

def step (s : MsgEndpoint) : Event → Option MsgEndpoint
  | .queueMsg t msg onComplete opts =>
      some ({ s with requests := s.requests + 1 }.queueMsg
        ⟨s.requests, t, msg, onComplete, opts⟩)
  | .flushSendQueue link => some (s.flushSendQueue link)
  | .flushResendQueue filter link => some (s.flushResendQueue filter link)
  | .onPacketReceived n => some (s.onPacketReceived n)
  | .removeFromReceiveQueue n => some (s.removeFromReceiveQueue n)
  | .clearSendQueue => some s.clearSendQueue
  | .clearReceiveQueue => some s.clearReceiveQueue
  | .clearResendQueue => some s.clearResendQueue
  | .resume => s.resume
  | .raise frames => some (s.raise frames)

/-- The packet of a `queueMsg` that is in its callback. -/
def Frame.packet : Frame → Option Nat
  | .predicting ref _ => some ref
  | _ => none

namespace MsgEndpoint

/-- The packets that are predicted just now. -/
def predicted (s : MsgEndpoint) : List Nat :=
  s.stack.filterMap Frame.packet

/-- A packet of this number waits to be sent, or for its response. -/
def Waits (s : MsgEndpoint) (n : Nat) : Prop :=
  ∃ ref ∈ s.sendQueue ++ s.receiveQueue, (s.packet ref).number = n

instance decidableWaits (s : MsgEndpoint) (n : Nat) : Decidable (s.Waits n) :=
  inferInstanceAs (Decidable (∃ ref ∈ s.sendQueue ++ s.receiveQueue, (s.packet ref).number = n))

/-- The item is resent without a prediction, and has no callback or no packet
that waits. -/
def Resendable (s : MsgEndpoint) (item : ResendItem) : Prop :=
  item.request.opts.predictMessage = false ∧
    (item.request.onComplete = none ∨ ¬ s.Waits item.number)

instance decidableResendable (s : MsgEndpoint) (item : ResendItem) :
    Decidable (s.Resendable item) :=
  inferInstanceAs (Decidable (_ ∧ (_ ∨ _)))

end MsgEndpoint

/-- Nothing is queued in the callback of a prediction, and what is resent was not
predicted and waits for no response. -/
def Careful (s : MsgEndpoint) : Event → Prop
  | .queueMsg .. => s.predicted = []
  | .flushResendQueue filter _ =>
      ∀ item ∈ s.resendQueue, filter item.number item.request.t = true →
        s.predicted = [] ∧ s.Resendable item
  | _ => True

instance decidableCareful (s : MsgEndpoint) : (event : Event) → Decidable (Careful s event)
  | .queueMsg .. => inferInstanceAs (Decidable (s.predicted = []))
  | .flushResendQueue filter _ =>
      inferInstanceAs (Decidable (∀ item ∈ s.resendQueue,
        filter item.number item.request.t = true → s.predicted = [] ∧ s.Resendable item))
  | .flushSendQueue .. | .onPacketReceived .. | .removeFromReceiveQueue .. | .clearSendQueue
  | .clearReceiveQueue | .clearResendQueue | .resume | .raise .. => inferInstanceAs (Decidable True)

end Client
end ArmyRs
