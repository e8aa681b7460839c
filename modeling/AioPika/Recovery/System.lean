import AioPika.Channel.Responsibility
import AioPika.Connection.Reconnection

/-! # A channel of a connection

The reconnection factory awaits `restore()` of every channel of the connection.
The system joins the connection with one of its channels: what the factory awaits
of this channel is a coroutine of the channel, and the other channels may do
anything.
-/

namespace AioPika.Recovery

open Lifecycle (Task Rescued WasOpened raises)

open RobustConnection (Settled Down Coming)

structure System where
  connection : RobustConnection
  channel : Lifecycle.State
  /-- The restore of the channel that the factory awaits. -/
  awaited : Option ℕ
  deriving DecidableEq

inductive Action where
  | connection (a : RobustConnection.Action)
  | channel (a : Lifecycle.Action)
  /-- `_on_connected` calls `restore()` of the channel. -/
  | restore
  deriving DecidableEq

def fresh (failFast : Bool) : System := ⟨RobustConnection.fresh failFast, Lifecycle.fresh, none⟩

/-- After a step of the channel, the factory goes on if the restore that it awaits is over. -/
def System.resume (s : System) (channel : Lifecycle.State) : Option System :=
  match s.awaited.bind fun i => channel.tasks[i]?.map Task.pc with
  | some .returned =>
    (RobustConnection.step s.connection (.restored none)).map fun k => ⟨k, channel, none⟩
  | some (.raised exc) =>
    (RobustConnection.step s.connection (.restored (some exc))).map fun k => ⟨k, channel, none⟩
  | _ => some { s with channel := channel }

variable (c : ChannelId)

/-- The connection does not do this alone: the channel is referenced, and decides when its
restore is over. -/
def Shared (s : System) : RobustConnection.Action → Prop
  | .collected c' => c' = c
  | .restored _ =>
    match s.connection.factory with
    | .restoring _ (c' :: _) => c' = c
    | _ => False
  | _ => False

instance (s : System) : DecidablePred (Shared c s) := fun a => by
  unfold Shared
  split
  · infer_instance
  · split <;> infer_instance
  · infer_instance

def step (s : System) : Action → Option System
  | .connection a =>
    if Shared c s a then none
    else (RobustConnection.step s.connection a).map fun k => { s with connection := k }
  | .channel a =>
    if a = .call (.restore .connection) ∨ c ∉ s.connection.channels then none
    else (Lifecycle.step s.channel a).bind s.resume
  | .restore =>
    match s.connection.factory, s.awaited with
    | .restoring _ (c' :: _), none =>
      if c' = c then some { s with
        channel := s.channel.start (.restore .connection) .locking
        awaited := some s.channel.tasks.length }
      else none
    | _, _ => none

end AioPika.Recovery
