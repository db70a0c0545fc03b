import ShmemIpc.Library.Cut
import ShmemIpc.Code.Channel

-- `tokio/bridge.rs` on Unix, and the asynchronous operations of `tokio/mod.rs`. An operation is
-- suspended where it waits in `awaitNotified`.

def Act.Suspends : Act → Prop
  | awaitNotified .. => True
  | _                => False

instance : DecidablePred Act.Suspends := fun a => by
  cases a
  case awaitNotified => exact isTrue trivial
  all_goals exact isFalse id

-- `n` identifies the `WaitState`; the other fields are the `WaitTarget`.
structure AsyncWait where
  n         : Nat
  handle    : WaitHandle
  notify    : Word
  parked    : Word
  spinCount : Nat
  deriving DecidableEq, Repr

namespace AsyncWait

def orSpawnFail : Except IoError Unit → Routine Unit
  | .ok _    => pure ()
  | .error e => fail (.io ⟨.other, "failed to spawn async wait bridge: " ++ e.message⟩)

def ensureRunning (self : AsyncWait) : Routine Unit := do
  if ← Code.perform (Act.isRunning self.n) then
    pure ()
  else do
    orSpawnFail (← Code.perform (Act.spawnBridge self.n))
    Code.perform (Act.recvReady self.n)
    Code.perform (Act.setRunning self.n true)

def snapshot (self : AsyncWait) : Routine Nat := do
  ensureRunning self
  load self.notify

def waitChanged (self : AsyncWait) (observed : Nat) : Routine Unit := do
  ensureRunning self
  Code.loop (fun (_ : Unit) => do
    let current ← load self.notify
    if current ≠ observed then
      pure (.inr ())
    else do
      Code.perform (Act.notified self.n)
      let current ← load self.notify
      if current ≠ observed then
        pure (.inr ())
      else do
        if ← Code.perform (Act.awaitNotified self.n observed) then
          pure (.inl ())
        else
          pure (.inr ())) ()

def stop (self : AsyncWait) : Routine Unit := do
  Code.perform (Act.storeStop self.n)
  let _ ← fetchAdd self.notify
  wake self.handle self.notify
  Code.perform (Act.notifyWaiters self.n)
  Code.perform (Act.joinBridge self.n)

def drop (self : AsyncWait) : Routine Unit := do
  if ← Code.perform (Act.isRunning self.n) then do
    Code.perform (Act.setRunning self.n false)
    stop self
  else
    pure ()

-- One turn of the loop of the bridge thread.
def turn (self : AsyncWait) : Routine (Unit ⊕ Unit) := do
  if ← Code.perform (Act.loadStop self.n) then
    pure (.inr ())
  else do
    let observed ← load self.notify
    store self.parked 1
    fence
    let current ← load self.notify
    if current ≠ observed then do
      store self.parked 0
      Code.perform (Act.notifyWaiters self.n)
      pure (.inl ())
    else do
      waitOnHandle self.handle self.notify observed LIVENESS_QUANTUM
      store self.parked 0
      let current ← load self.notify
      if ← Code.perform (Act.loadStop self.n) then
        pure (.inr ())
      else if current ≠ observed then do
        Code.perform (Act.notifyWaiters self.n)
        pure (.inl ())
      else
        pure (.inl ())

def waitLoop (self : AsyncWait) : Routine Unit := do
  Code.perform (Act.sendReady self.n)
  Code.loop (fun (_ : Unit) => turn self) ()
  Code.perform (Act.exitBridge self.n)

end AsyncWait

namespace Tokio

open RingSender RingReceiver

-- `spinCount` attempts, and a last one.
def spinSend (h : Handle) (payload : Bytes) : Nat → Routine TrySendResult
  | 0     => trySendOnce h payload
  | n + 1 => do
    match ← trySendOnce h payload with
    | .sent => pure .sent
    | .full => spinSend h payload n

def sendSpinCount (spinCount : Nat) : Nat :=
  min spinCount 32

def spinPeekOrClosed (h : Handle) : Nat → Routine (Option PeekedMessage)
  | 0     => tryPeekOrClosed h
  | n + 1 => do
    match ← tryPeekOrClosed h with
    | some message => pure (some message)
    | none         => spinPeekOrClosed h n

def sendAsync (h : Handle) (wait : AsyncWait) (payload : Bytes) : Routine Unit :=
  let spinCount := sendSpinCount wait.spinCount
  Code.loop (fun (_ : Unit) => do
    match ← spinSend h payload spinCount with
    | .sent => pure (.inr ())
    | .full => do
      let observed ← wait.snapshot
      match ← spinSend h payload spinCount with
      | .sent => pure (.inr ())
      | .full => do
        wait.waitChanged observed
        pure (.inl ())) ()

-- The loop of `recv_async` and `recv_into_async`, up to the peeked message.
def peekAsync (h : Handle) (wait : AsyncWait) : Routine PeekedMessage :=
  Code.loop (fun (_ : Unit) => do
    match ← spinPeekOrClosed h wait.spinCount with
    | some message => pure (.inr message)
    | none => do
      let observed ← wait.snapshot
      match ← spinPeekOrClosed h wait.spinCount with
      | some message => pure (.inr message)
      | none => do
        wait.waitChanged observed
        pure (.inl ())) ()

def commitMessageToVec (h : Handle) (message : PeekedMessage) : Routine Bytes :=
  takeMessage h message

def commitMessageInto (h : Handle) (message : PeekedMessage) : Routine Nat :=
  takeMessageInto h message

def recvAsync (h : Handle) (wait : AsyncWait) : Routine Bytes := do
  let message ← peekAsync h wait
  commitMessageToVec h message

def recvIntoAsync (h : Handle) (wait : AsyncWait) : Routine Nat := do
  let message ← peekAsync h wait
  commitMessageInto h message

-- The vector of the caller is `out`.
def drainReadyWithSpin (h : Handle) (maxMessages spinCount : Nat) : Routine Nat := do
  let out ← getOut
  let startLen := out.length
  Code.loop (fun (_ : Unit) => do
    let out ← getOut
    if out.length - startLen < maxMessages then do
      match ← Code.attempt (spinPeekOrClosed h spinCount) with
      | .ok (some message) => do
        let buf ← commitMessageToVec h message
        setOut (out ++ [buf])
        pure (.inl ())
      | .ok none => pure (.inr ())
      | .error e =>
        if e.Terminal ∧ out.length ≠ startLen then pure (.inr ()) else fail e
    else
      pure (.inr ())) ()
  let out ← getOut
  pure (out.length - startLen)

def drainReady (h : Handle) (maxMessages : Nat) : Routine Nat :=
  drainReadyWithSpin h maxMessages 0

def recvManyAsync (h : Handle) (wait : AsyncWait) (maxMessages : Nat) : Routine Nat :=
  if maxMessages = 0 then
    pure 0
  else
    Code.loop (fun (_ : Unit) => do
      let drained ← drainReadyWithSpin h maxMessages wait.spinCount
      if drained ≠ 0 then
        pure (.inr drained)
      else do
        let observed ← wait.snapshot
        let drained ← drainReadyWithSpin h maxMessages wait.spinCount
        if drained ≠ 0 then
          pure (.inr drained)
        else do
          wait.waitChanged observed
          pure (.inl ())) ()

-- `tokio::time::timeout`. The time elapses where the future is suspended for the time number `elapses`, or never, and
-- the future is dropped there.
def timeout {α : Type} (elapses : Option Nat) (future : Routine α) : Program Act Act.Ret (Option (Except Error α)) :=
  match elapses with
  | none   => Program.bind future fun value => .pure (some value)
  | some n => Program.cut Act.Suspends future n

def mapTimeout {α : Type} (future : Program Act Act.Ret (Option (Except Error α))) : Routine α :=
  Program.bind future fun
    | some value => .pure value
    | none       => .pure (.error .timedOut)

def sendTimeout (h : Handle) (wait : AsyncWait) (payload : Bytes) (elapses : Option Nat) : Routine Unit :=
  mapTimeout (timeout elapses (sendAsync h wait payload))

def recvTimeout (h : Handle) (wait : AsyncWait) (elapses : Option Nat) : Routine Bytes :=
  mapTimeout (timeout elapses (recvAsync h wait))

end Tokio
