import CexRs.Lib.OrderedMap

/-!
# Requests and their replies

`redis/listener.rs`: any number of `send_and_wait` calls, and the task that takes the engine's replies
from the response queue and hands each to the call that waits for it. They share the map of pending
calls, under a lock that each of them holds for one step. A call is a number, with an identifier of its
own; a reply is the number under which it was taken from the queue, with its text. What `serde_json`
reads from a text is a parameter.
-/

namespace CexRs

/-- `from_str::<Value>` with the `identifier` of what it gives, if that is an object with such a text;
and `from_str::<T>`, at the type that a call asks for. -/
structure ReplyFormat (R : Type) where
  identifierOf : String → Option String
  decode : Nat → String → Option R

inductive CallError where
  | serialization
  | publishing
  -- the sender was dropped before it was used
  | receiving
  | deserialization
  deriving DecidableEq, Repr

inductive CallPhase (R : Type) where
  | inserted
  | serialized
  | published
  | returned (result : Except CallError R)
  deriving DecidableEq

def CallPhase.isReturned {R : Type} : CallPhase R → Bool
  | .returned _ => true
  | _ => false

/-- `pending` has for an identifier the call to which its sender leads, and `channels` for a call the
reply that was sent to it. -/
structure Demux (R : Type) where
  pending : Std.ExtTreeMap String Nat
  channels : Std.ExtTreeMap Nat (Nat × String)
  calls : Std.ExtTreeMap Nat (CallPhase R)
  received : Nat

inductive DemuxAction where
  -- a call is made: it opens its channel and inserts the sender
  | start (call : Nat)
  | serialize (call : Nat) (succeeds : Bool)
  -- `XADD`
  | publish (call : Nat) (succeeds : Bool)
  -- the call looks for a reply
  | wait (call : Nat)
  -- `BRPOP` gives the listener a reply
  | listen (data : String)
  deriving DecidableEq, Repr

namespace Demux

variable {R : Type}

def init : Demux R := ⟨∅, ∅, ∅, 0⟩

section Step

variable (format : ReplyFormat R) (identifier : Nat → String) (d : Demux R)

def enter (call : Nat) (phase : CallPhase R) : Demux R :=
  { d with calls := d.calls.insert call phase }

/-- The receiver is dropped when the call returns. -/
def hasReturned (call : Nat) : Bool := d.calls[call]?.any CallPhase.isReturned

/-- `rx.await`, as soon as there is something to see, and what is made of it. -/
def receive (call : Nat) : Demux R :=
  match d.channels[call]? with
  | some (_, data) =>
      d.enter call (.returned ((format.decode call data).elim (.error .deserialization) .ok))
  | none =>
      -- a sender that is gone from the map is gone for good
      if d.pending[identifier call]? = some call then d
      else d.enter call (.returned (.error .receiving))

/-- The body of the listener's loop. -/
def deliver (data : String) : Demux R :=
  let d' := { d with received := d.received + 1 }
  match format.identifierOf data with
  | none => d'
  | some id =>
      match d.pending[id]? with
      | none => d'
      | some call =>
          { d' with
            pending := d.pending.erase id
            channels :=
              if d.hasReturned call then d.channels
              else d.channels.insert call (d.received, data) }

/-- What is not the call's turn changes nothing. -/
def step : DemuxAction → Demux R
  | .start call =>
      match d.calls[call]? with
      | none =>
          { d with
            pending := d.pending.insert (identifier call) call
            calls := d.calls.insert call .inserted }
      | some _ => d
  | .serialize call succeeds =>
      match d.calls[call]? with
      | some .inserted =>
          d.enter call (if succeeds then .serialized else .returned (.error .serialization))
      | _ => d
  | .publish call succeeds =>
      match d.calls[call]? with
      | some .serialized =>
          d.enter call (if succeeds then .published else .returned (.error .publishing))
      | _ => d
  | .wait call =>
      match d.calls[call]? with
      | some .published => d.receive format identifier call
      | _ => d
  | .listen data => d.deliver format data

def run (actions : List DemuxAction) : Demux R := actions.foldl (step format identifier) d

end Step

end Demux

end CexRs
