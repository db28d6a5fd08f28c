import TimelockAuction.Batch.Pipeline

/-!
# Channels

Reports travel from the solvers to a round through a channel that holds a bounded number of them. A
sender waits while the channel is full. When the round is abandoned its channel loses its receiver, and
what is sent is dropped.
-/

namespace TimelockAuction

/-- A queue of bounded length between senders and a receiver. -/
structure Channel (α : Type) where
  capacity : Nat
  queue : List α
  hasReceiver : Bool

namespace Channel

variable {α : Type}

def ofCapacity (capacity : Nat) : Channel α := ⟨capacity, [], true⟩

def dropReceiver (channel : Channel α) : Channel α :=
  { channel with queue := [], hasReceiver := false }

/-- The channel after a send, or nothing if the sender has to wait. -/
def send? (channel : Channel α) (value : α) : Option (Channel α) :=
  if !channel.hasReceiver then some channel
  else if channel.queue.length < channel.capacity then
    some { channel with queue := channel.queue ++ [value] }
  else none

/-- The value that is received next and the channel behind it, or nothing if the channel is empty. -/
def receive? (channel : Channel α) : Option (α × Channel α) :=
  match channel.queue with
  | [] => none
  | value :: rest => some (value, { channel with queue := rest })

end Channel

/-- Solves a submission and sends the report, or waits if the channel is full. -/
def Submission.solveInto (submission : Submission) (channel : Channel Report) :
    Option (Channel Report) :=
  channel.send? submission.solve

end TimelockAuction
