import ShmemIpc.Library.System
import ShmemIpc.Objects.Error

open Function

-- The listener of `listener.rs` on Windows, up to the handshake: the instances of its named pipe, the threads that wait
-- for a client at an instance, and the clients.
namespace NamedPipe

abbrev PipeId :=
  Nat

inductive Thread
  | listener
  | waiter (p : PipeId)
  | client (n : Nat)
  deriving DecidableEq

structure Pipes where
  -- `Listener`, whose pending accept is named by its instance
  pendingAccept : Option PipeId
  -- instances: whether the server has not closed them, and the client at their other end
  opened        : PipeId → Bool
  client        : PipeId → Option Thread
  pipes         : PipeId
  -- the thread of each instance, and what it has sent to its channel
  spawned       : PipeId → Bool
  message       : PipeId → Option (Except IoError Unit)
  finished      : PipeId → Bool

inductive Received
  | result (r : Except IoError Unit)
  | timeout
  | disconnected

inductive Act
  | getPending
  | takePending
  | setPending (p : PipeId)
  | createPipe
  | spawn (p : PipeId)
  | recv (p : PipeId) (timed : Bool)
  | join (p : PipeId)
  | connectNamedPipe (p : PipeId)
  | send (p : PipeId) (r : Except IoError Unit)
  | finish (p : PipeId)
  | closePipe (p : PipeId)
  | createFile
  | elapsed

@[reducible]
def Act.Ret : Act → Type
  | getPending | takePending  => Option PipeId
  | createPipe | createFile   => Except IoError PipeId
  | recv ..                   => Received
  | connectNamedPipe _        => Except IoError Unit
  | elapsed                   => Bool
  | _                         => Unit

-- The outcomes for the thread `i`. A receiver may time out at any time, and an instance serves one client.
def Pipes.exec (i : Thread) : (a : Act) → Pipes → a.Ret → Pipes → Prop
  | .getPending, s, r, s'         => r = s.pendingAccept ∧ s' = s
  | .takePending, s, r, s'        => r = s.pendingAccept ∧ s' = { s with pendingAccept := none }
  | .setPending p, s, _, s'       => s' = { s with pendingAccept := some p }
  | .createPipe, s, r, s'         =>
      (r = .ok s.pipes ∧
        s' = { s with
          opened   := update s.opened s.pipes true
          client   := update s.client s.pipes none
          spawned  := update s.spawned s.pipes false
          message  := update s.message s.pipes none
          finished := update s.finished s.pipes false
          pipes    := s.pipes + 1 }) ∨
      (∃ e, r = .error e ∧ s' = s)
  | .spawn p, s, _, s'            => s' = { s with spawned := update s.spawned p true }
  | .recv p timed, s, r, s'       =>
      (∃ m, s.message p = some m ∧ r = .result m ∧ s' = { s with message := update s.message p none }) ∨
      (timed = true ∧ r = .timeout ∧ s' = s) ∨
      (s.message p = none ∧ s.finished p = true ∧ r = .disconnected ∧ s' = s)
  | .join p, s, _, s'             => s.finished p = true ∧ s' = s
  | .connectNamedPipe p, s, r, s' => ((r = .ok () ∧ s.client p ≠ none) ∨ ∃ e, r = .error e) ∧ s' = s
  | .send p r, s, _, s'           => s' = { s with message := update s.message p (some r) }
  | .finish p, s, _, s'           => s' = { s with finished := update s.finished p true }
  | .closePipe p, s, _, s'        => s' = { s with opened := update s.opened p false }
  | .createFile, s, r, s'         =>
      (∃ p < s.pipes, s.opened p = true ∧ s.client p = none ∧ r = .ok p ∧
        s' = { s with client := update s.client p (some i) }) ∨
      (∃ e, r = .error e ∧ s' = s)
  | .elapsed, s, _, s'            => s' = s

def pipeMachine : Machine Thread Act Act.Ret Pipes where
  exec := Pipes.exec

abbrev Routine (α : Type) :=
  Code Act Act.Ret Error α

def act (a : Act) : Routine a.Ret :=
  Code.perform a

-- An instance whose client cannot be awaited is closed.
def waitForPipeClient (p : PipeId) : Routine (Except IoError Unit) := do
  match ← act (.connectNamedPipe p) with
  | .ok _    => pure (.ok ())
  | .error e => do
    act (.closePipe p)
    pure (.error e)

-- The thread of a pending accept.
def waiter (p : PipeId) : Routine Unit := do
  let result ← waitForPipeClient p
  act (.send p result)
  act (.finish p)

def connectPipe : Routine PipeId :=
  Code.loop (fun (_ : Unit) => do
    match ← act .createFile with
    | .ok p    => pure (.inr p)
    | .error _ => do
      if ← act .elapsed then
        Code.throw .timedOut
      else
        pure (.inl ())) ()

def PendingAccept.start : Routine PipeId := do
  match ← act .createPipe with
  | .error e => Code.throw (.io e)
  | .ok p    => do
    act (.spawn p)
    pure p

def acceptThreadDisconnected : Error :=
  .io ⟨.other, "named pipe accept thread disconnected"⟩

namespace Listener

def ensurePendingAccept : Routine Unit := do
  if (← act .getPending).isNone then do
    let p ← PendingAccept.start
    act (.setPending p)
  else
    pure ()

def primeNextAccept : Routine Unit := do
  let p ← PendingAccept.start
  act (.setPending p)

-- The instance is closed if no other one can take its place.
def received (p : PipeId) : Except IoError Unit → Routine PipeId
  | .error e => Code.throw (.io e)
  | .ok _    => do
    match ← Code.attempt primeNextAccept with
    | .ok _    => pure p
    | .error e => do
      act (.closePipe p)
      Code.throw e

-- `wait_for_pipe`, and with a timeout `wait_for_pipe_timeout`.
def waitForPipeWith (timed : Bool) : Routine PipeId := do
  ensurePendingAccept
  match ← act .takePending with
  -- a panic
  | none   => Code.throw (.io ⟨.other, "called Option::unwrap() on a None value"⟩)
  | some p => do
    match ← act (.recv p timed) with
    | .result r     => do
      act (.join p)
      received p r
    | .timeout      => do
      act (.setPending p)
      Code.throw .timedOut
    | .disconnected => do
      act (.join p)
      Code.throw acceptThreadDisconnected

def waitForPipe : Routine PipeId :=
  waitForPipeWith false

def waitForPipeTimeout : Routine PipeId :=
  waitForPipeWith true

end Listener

inductive Operation
  | waitForPipe
  | waitForPipeTimeout
  | waiter (p : PipeId)
  | connectPipe

namespace Operation

@[reducible]
def Answer : Operation → Type
  | waiter _ => Unit
  | _        => PipeId

def code : (o : Operation) → Routine o.Answer
  | waitForPipe        => Listener.waitForPipe
  | waitForPipeTimeout => Listener.waitForPipeTimeout
  | waiter p           => NamedPipe.waiter p
  | connectPipe        => NamedPipe.connectPipe

def Callable (i : Thread) (o : Operation) (s : Pipes) : Prop :=
  match o, i with
  | waitForPipe, .listener | waitForPipeTimeout, .listener => True
  | waiter p, .waiter q                                    => p = q ∧ s.spawned p = true ∧ s.finished p = false
  | connectPipe, .client _                                 => True
  | _, _                                                   => False

end Operation

end NamedPipe
