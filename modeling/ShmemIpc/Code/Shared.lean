import ShmemIpc.Code.Process

-- `shared.rs`

def PROBE_INTERVAL_MS : Nat := 100

-- The nanoseconds of `Duration::from_millis(250)`.
def LIVENESS_QUANTUM : Nat := 250000000

def U64_MAX : Nat := 2 ^ 64 - 1

def shmPath (name : String) : String :=
  "/dev/shm/shmem_ipc_" ++ name

namespace SharedChannel

def stateWord (self : SharedChannel) : Word :=
  .global self.base .state

def terminal (h : Handle) : Routine Unit := do
  let self ← getShared h
  let state ← load self.stateWord
  match ChannelState.fromU32 state with
  | some .peerDisconnected => fail .peerDisconnected
  | some .closed           => fail .channelClosed
  | some .init | none      => fail .invalidHeader
  | _                      => pure ()

def wakeRing (base : FileId) (header : Nat) (writer reader : WaitSlot) : Routine Unit := do
  let _ ← fetchAdd (.ring base header .writerNotify)
  wake ⟨base, writer⟩ (.ring base header .writerNotify)
  let _ ← fetchAdd (.ring base header .readerNotify)
  wake ⟨base, reader⟩ (.ring base header .readerNotify)

def wakeAll (h : Handle) : Routine Unit := do
  let self ← getShared h
  let ringDataSize ← load (.global self.base .ringDataSize)
  let offsets := RingOffsets.new ringDataSize
  wakeRing self.base offsets.ringAHeader .ringAWriter .ringAReader
  wakeRing self.base offsets.ringBHeader .ringBWriter .ringBReader

-- One attempt of `finish` to leave the state `current`.
def tryFinish (h : Handle) (self : SharedChannel) (terminal : ChannelState) (current : Nat) :
    Routine (Nat ⊕ Unit) := do
  match ← compareExchangeWeak self.stateWord current terminal.toU32 with
  | .ok _         => do wakeAll h; pure (.inr ())
  | .error actual => pure (.inl actual)

def finish (h : Handle) (terminal : ChannelState) : Routine Unit := do
  let self ← getShared h
  let current ← load self.stateWord
  Code.loop (fun current =>
    match ChannelState.fromU32 current with
    | some .closed | some .peerDisconnected | none => pure (.inr ())
    | _                                            => tryFinish h self terminal current) current

-- What `check_ready` does in a state that is not ready.
def retire (h : Handle) (self : SharedChannel) (state : Nat) : Routine (Unit ⊕ Bool) := do
  let t ← now
  if t - self.started < self.connectTimeout then
    pure (.inr false)
  else do
    -- Retire only the unready state we observed.
    match ← compareExchange self.stateWord state ChannelState.closed.toU32 with
    | .ok _    => do wakeAll h; fail .timedOut
    | .error _ => pure (.inl ())

-- The loop of `check_ready`, which ends with whether the channel is connected.
def awaitConnected (h : Handle) (self : SharedChannel) : Routine Bool :=
  Code.loop (fun (_ : Unit) => do
    let state ← load self.stateWord
    match ChannelState.fromU32 state with
    | some .connected        => pure (.inr true)
    | some .peerDisconnected => fail .peerDisconnected
    | some .closed           => fail .channelClosed
    | some .init | none      => fail .invalidHeader
    | _                      => retire h self state) ()

-- The identity that the opposite role has published.
def peerIdentity (self : SharedChannel) : Routine ProcessIdentity := do
  match self.role with
  | .server => do
    let pid ← load (.global self.base .clientPid)
    let birth ← load (.global self.base .clientBirth)
    pure ⟨pid, birth⟩
  | .client => do
    let pid ← load (.global self.base .serverPid)
    let birth ← load (.global self.base .serverBirth)
    pure ⟨pid, birth⟩

def observe (h : Handle) (peer : ProcessIdentity) (elapsedMs : Nat) : Routine Unit := do
  let alive ← ProcessMonitor.isAlive peer
  (if alive then pure () else finish h .peerDisconnected : Routine Unit)
  storeNextProbe h (min (elapsedMs + PROBE_INTERVAL_MS) U64_MAX)

-- The section of `check_ready` that holds the lock of the observer. The answer `true` returns from
-- `check_ready`.
def probe (h : Handle) (self : SharedChannel) (elapsedMs : Nat) : Routine Bool := do
  let nextProbe ← loadNextProbe h
  -- The other split half may already have performed this observation.
  if elapsedMs < nextProbe then
    pure false
  else do
    terminal h
    match ← getPeer h with
    | some peer => do observe h peer elapsedMs; pure false
    | none => do
      let identity ← peerIdentity self
      match ← Code.attempt (ProcessMonitor.open identity) with
      | .ok _                    => do setPeer h identity; observe h identity elapsedMs; pure false
      | .error .peerDisconnected => do finish h .peerDisconnected; terminal h; pure true
      | .error e                 => fail e

def locked (h : Handle) (section_ : Routine Bool) : Routine Bool := do
  Code.ofExcept (← lockPeer h)
  let r ← Code.attempt section_
  unlockPeer h
  Code.ofExcept r

-- `false` means that the client has not published its complete identity yet.
def checkReady (h : Handle) : Routine Bool := do
  let self ← getShared h
  if ← awaitConnected h self then do
    let t ← now
    let elapsedMs := min ((t - self.started) / 1000000) U64_MAX
    let nextProbe ← loadNextProbe h
    if nextProbe ≤ elapsedMs then do
      if ← locked h (probe h self elapsedMs) then
        pure true
      else do
        terminal h
        pure true
    else do
      terminal h
      pure true
  else
    pure false

def close (h : Handle) : Routine Unit := do
  finish h .closed
  match ← Code.attempt (terminal h) with
  | .error .channelClosed => pure ()
  | other                 => Code.ofExcept other

-- Whether the final drop may remove the backing file.
def removeOnDrop (h : Handle) (self : SharedChannel) : Routine Bool :=
  match self.role with
  | .server => pure true
  | .client => do
    if ← isPoisoned h then
      pure false
    else do
      match ← getPeer h with
      | none      => pure false
      | some peer => do
        match ← Code.attempt (ProcessMonitor.isAlive peer) with
        | .ok false => pure true
        | _         => pure false

-- `drop` of a `SharedChannel`, and then of its `BackingFile`.
def drop (h : Handle) : Routine Unit := do
  finish h .closed
  let self ← getShared h
  let remove ← removeOnDrop h self
  freeShared h
  if remove then do
    let _ ← removeFile (shmPath self.name)
    pure ()
  else
    pure ()

end SharedChannel
