import OtapDataflow.Lib.Machine

/-! # The single-threaded channel

A bounded queue with many senders and one receiver, all on one thread.  A send that finds no room
becomes a future that waits in a slot.  When room appears the channel grants it to the first waiting
future: the place in the buffer is reserved for it before it is woken.

Two wakers (`W`) that wake the same task are equal here, so a waker that is refreshed is replaced.
The source allocates the storage of the waiters when the first future waits; here it is there, and
empty, from the beginning. -/

namespace OtapDataflow.LocalChannel

/-- The generation tells the users of a recycled slot apart. -/
structure SenderWaiterKey where
  index : Nat
  generation : Nat
  deriving DecidableEq, Repr

structure SenderWaiterSlot (W : Type) where
  generation : Nat
  waker : Option W
  inUse : Bool
  queued : Bool
  reserved : Bool

def SenderWaiterSlot.vacant {W : Type} : SenderWaiterSlot W := ⟨0, none, false, false, false⟩

/-- The waiting futures: a queue of keys, in which entries can be stale, and the slots. -/
structure SenderWaiters (W : Type) where
  queue : List SenderWaiterKey
  slots : List (SenderWaiterSlot W)
  freeSlots : List Nat
  nextGeneration : Nat

namespace SenderWaiters

variable {W : Type}

def new : SenderWaiters W := ⟨[], [], [], 0⟩

/-- Whether a queue entry stands for a waiting future. -/
def live (slot : SenderWaiterSlot W) (key : SenderWaiterKey) : Bool :=
  slot.inUse && slot.generation = key.generation && slot.queued

/-- Reserve for the first waiting future in the queue. -/
def reserveFrom (slots : List (SenderWaiterSlot W)) :
    List SenderWaiterKey → Option W × List (SenderWaiterSlot W) × List SenderWaiterKey
  | [] => (none, slots, [])
  | key :: queue =>
    match slots[key.index]? with
    | none => reserveFrom slots queue
    | some slot =>
      if live slot key then
        match slot.waker with
        | some waker =>
          let slot := { slot with queued := false, waker := none, reserved := true }
          (some waker, slots.set key.index slot, queue)
        | none => reserveFrom (slots.set key.index { slot with queued := false }) queue
      else reserveFrom slots queue

variable (w : SenderWaiters W)

def reserveOne : Option W × SenderWaiters W :=
  let reserved := reserveFrom w.slots w.queue
  (reserved.1, { w with slots := reserved.2.1, queue := reserved.2.2 })

/-- Wake every waiting future in the queue. -/
def wakeFrom (slots : List (SenderWaiterSlot W)) :
    List SenderWaiterKey → List W × List (SenderWaiterSlot W)
  | [] => ([], slots)
  | key :: queue =>
    match slots[key.index]? with
    | none => wakeFrom slots queue
    | some slot =>
      if live slot key then
        let rest :=
          wakeFrom (slots.set key.index { slot with queued := false, waker := none }) queue
        (slot.waker.toList ++ rest.1, rest.2)
      else wakeFrom slots queue

def wakeAll : List W × SenderWaiters W :=
  let woken := wakeFrom w.slots w.queue
  (woken.1, { w with slots := woken.2, queue := [] })

/-- The slot of a key, if the key is valid. -/
def slot? (key : SenderWaiterKey) : Option (SenderWaiterSlot W) :=
  w.slots[key.index]?.filter fun slot => slot.inUse && slot.generation = key.generation

/-- A free slot, or a new one. -/
def takeSlot : Nat × SenderWaiters W :=
  match w.freeSlots with
  | index :: free => (index, { w with freeSlots := free })
  | [] => (w.slots.length, { w with slots := w.slots ++ [.vacant] })

def registerOrRefresh (key : Option SenderWaiterKey) (waker : W) :
    SenderWaiterKey × SenderWaiters W :=
  match key.bind fun key => (w.slot? key).map fun slot => (key, slot) with
  | some (key, slot) =>
    (key, { w with
      slots := w.slots.set key.index { slot with waker := some waker, queued := true }
      queue := if slot.queued then w.queue else w.queue ++ [key] })
  | none =>
    let taken := w.takeSlot
    let key : SenderWaiterKey := ⟨taken.1, w.nextGeneration⟩
    (key, { taken.2 with
      nextGeneration := (w.nextGeneration + 1) % 2 ^ 64
      slots := taken.2.slots.set key.index ⟨key.generation, some waker, true, true, false⟩
      queue := taken.2.queue ++ [key] })

/-- Use up a reservation; says whether there was one. -/
def consumeReservation (key : SenderWaiterKey) : Bool × SenderWaiters W :=
  match w.slot? key with
  | none => (false, w)
  | some slot =>
    (slot.reserved, { w with slots := w.slots.set key.index { slot with reserved := false } })

/-- Give the slot back; says whether an unused reservation was given back with it. -/
def unregister (key : SenderWaiterKey) : Bool × SenderWaiters W :=
  match w.slot? key with
  | none => (false, w)
  | some slot =>
    (slot.reserved, { w with
      slots := w.slots.set key.index
        { slot with inUse := false, queued := false, waker := none, reserved := false }
      freeSlots := key.index :: w.freeSlots })

end SenderWaiters

structure ChannelState (T W : Type) where
  buffer : List T
  capacity : Nat
  /-- Places promised to futures that were woken. -/
  reservedSlots : Nat
  isClosed : Bool
  senders : Nat
  hasReceiver : Bool
  receiverWaker : Option W
  senderWaiters : SenderWaiters W

inductive SendError (T : Type)
  | closed (value : T)
  | full (value : T)
  deriving DecidableEq

inductive RecvError
  | closed
  | empty
  deriving DecidableEq, Repr

structure SendFuture (T : Type) where
  value : Option T
  waiterKey : Option SenderWaiterKey

/-- What a poll answers.  A completed future that is polled again panics. -/
inductive Poll (α : Type)
  | pending
  | ready (result : α)
  | panicked

namespace ChannelState

variable {T W : Type}

def new (capacity : Nat) : ChannelState T W :=
  ⟨[], capacity, 0, false, 1, true, none, .new⟩

/-- Wakers that are woken go with the new state. -/
abbrev Woken (α W : Type) := α × List W

variable (c : ChannelState T W)

def grantOneSenderWaiter : Woken (ChannelState T W) W :=
  if c.isClosed || c.capacity ≤ c.buffer.length + c.reservedSlots then (c, [])
  else
    match c.senderWaiters.reserveOne with
    | (none, waiters) => ({ c with senderWaiters := waiters }, [])
    | (some waker, waiters) =>
      ({ c with senderWaiters := waiters, reservedSlots := c.reservedSlots + 1 }, [waker])

def wakeAllSenderWaiters : Woken (ChannelState T W) W :=
  ({ c with senderWaiters := c.senderWaiters.wakeAll.2 }, c.senderWaiters.wakeAll.1)

def unregisterSenderWaiter (key : SenderWaiterKey) :
    Woken (ChannelState T W) W :=
  match c.senderWaiters.unregister key with
  | (false, waiters) => ({ c with senderWaiters := waiters }, [])
  | (true, waiters) =>
    { c with
      senderWaiters := waiters
      reservedSlots := c.reservedSlots - 1 }.grantOneSenderWaiter

def consumeReservation (key : SenderWaiterKey) : Bool × ChannelState T W :=
  match c.senderWaiters.consumeReservation key with
  | (false, waiters) => (false, { c with senderWaiters := waiters })
  | (true, waiters) =>
    (true, { c with senderWaiters := waiters, reservedSlots := c.reservedSlots - 1 })

def wakeReceiver : Woken (ChannelState T W) W :=
  ({ c with receiverWaker := none }, c.receiverWaker.toList)

/-! ## Operations -/

def cloneSender : ChannelState T W := { c with senders := c.senders + 1 }

def dropSender : Woken (ChannelState T W) W :=
  let c := { c with senders := c.senders - 1 }
  if c.senders = 0 then { c with isClosed := true }.wakeReceiver else (c, [])

def dropReceiver : Woken (ChannelState T W) W :=
  { c with hasReceiver := false, isClosed := true }.wakeAllSenderWaiters

def send (value : T) :
    Except (SendError T) Unit × Woken (ChannelState T W) W :=
  if c.isClosed || !c.hasReceiver then (.error (.closed value), c, [])
  else if c.capacity ≤ c.buffer.length + c.reservedSlots then (.error (.full value), c, [])
  else (.ok (), { c with buffer := c.buffer ++ [value] }.wakeReceiver)

def close : Woken (ChannelState T W) W :=
  let woken := { c with isClosed := true }.wakeReceiver
  let all := woken.1.wakeAllSenderWaiters
  (all.1, woken.2 ++ all.2)

def tryRecv : Except RecvError T × Woken (ChannelState T W) W :=
  match c.buffer with
  | value :: buffer =>
    let c := { c with buffer }
    if buffer.length = c.capacity - 1 || buffer.isEmpty then (.ok value, c.grantOneSenderWaiter)
    else (.ok value, c, [])
  | [] => if c.isClosed then (.error .closed, c, []) else (.error .empty, c, [])

/-- Poll a receive: on an empty open channel the receiver waits. -/
def pollRecv (waker : W) :
    Poll (Except RecvError T) × Woken (ChannelState T W) W :=
  let received := c.tryRecv
  match received.1 with
  | .ok value => (.ready (.ok value), received.2)
  | .error .empty => (.pending, { received.2.1 with receiverWaker := some waker }, received.2.2)
  | .error .closed => (.ready (.error .closed), received.2)

/-- The future lets go of its key. -/
def unregisterKey : Option SenderWaiterKey → Woken (ChannelState T W) W
  | none => (c, [])
  | some key => c.unregisterSenderWaiter key

/-- Drop a send future: it gives back its slot, then the sender that it holds is dropped. -/
def dropFuture (future : SendFuture T) : Woken (ChannelState T W) W :=
  let unregistered := c.unregisterKey future.waiterKey
  let dropped := unregistered.1.dropSender
  (dropped.1, unregistered.2 ++ dropped.2)

/-- Whether the future of this key was granted a place; the grant is used up. -/
def takeGrant : Option SenderWaiterKey → Bool × ChannelState T W
  | none => (false, c)
  | some key => c.consumeReservation key

/-- The part of a poll that puts the value into the buffer. -/
def completeSend (value : T) (key : Option SenderWaiterKey) :
    Woken (ChannelState T W) W :=
  let unregistered := { c with buffer := c.buffer ++ [value] }.unregisterKey key
  -- When the final outstanding grant completes, a successor is protected before this producer
  -- can fill the remaining unreserved space.
  let granted :=
    if unregistered.1.reservedSlots = 0 then unregistered.1.grantOneSenderWaiter
    else (unregistered.1, [])
  let woken := granted.1.wakeReceiver
  (woken.1, unregistered.2 ++ granted.2 ++ woken.2)

/-- Poll a send. -/
def pollSend (future : SendFuture T) (waker : W) :
    Poll (Except (SendError T) Unit) × SendFuture T × Woken (ChannelState T W) W :=
  match future.value with
  | none => (.panicked, future, c, [])
  | some value =>
    if c.isClosed || !c.hasReceiver then
      (.ready (.error (.closed value)), ⟨none, none⟩, c.unregisterKey future.waiterKey)
    else
      let taken := c.takeGrant future.waiterKey
      if !taken.1 && taken.2.capacity ≤ taken.2.buffer.length + taken.2.reservedSlots then
        let registered := taken.2.senderWaiters.registerOrRefresh future.waiterKey waker
        (.pending, ⟨some value, some registered.1⟩,
          { taken.2 with senderWaiters := registered.2 }, [])
      else (.ready (.ok ()), ⟨none, none⟩, taken.2.completeSend value future.waiterKey)

/-- The first poll of an asynchronous send: the fast path, and if there is no room a future, which
holds a sender of its own and is polled at once.  No future is left if the fast path answers. -/
def sendAsync (value : T) (waker : W) :
    Poll (Except (SendError T) Unit) × Option (SendFuture T) × Woken (ChannelState T W) W :=
  let sent := c.send value
  match sent.1 with
  | .error (.full value) =>
    let polled := sent.2.1.cloneSender.pollSend ⟨some value, none⟩ waker
    (polled.1, some polled.2.1, polled.2.2.1, sent.2.2 ++ polled.2.2.2)
  | result => (.ready result, none, sent.2)

end ChannelState

end OtapDataflow.LocalChannel
