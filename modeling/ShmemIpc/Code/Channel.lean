import ShmemIpc.Code.Ring

-- `channel.rs` and `connection.rs`

structure ChannelConfig where
  ringSize       : Nat
  waitStrategy   : SpinThenWait
  connectTimeout : Nat
  deriving DecidableEq, Repr

-- `usize::is_power_of_two`
def isPowerOfTwo (n : Nat) : Bool :=
  n ≠ 0 && n &&& (n - 1) = 0

def U32_MAX : Nat := 2 ^ 32 - 1

def validateConfig (config : ChannelConfig) : Except Error Unit :=
  if config.ringSize < 64 || !isPowerOfTwo config.ringSize || config.ringSize > U32_MAX then
    .error (.io ⟨.invalidInput, "ring_size must be a power of two between 64 and u32::MAX"⟩)
  else
    .ok ()

-- Both halves of a channel are found through its handle.
structure Channel where
  shared : Handle
  wait   : SpinThenWait
  deriving DecidableEq, Repr

namespace Channel

-- `RingSender::new` and `RingReceiver::new`, as `from_shared` calls them.

def newSender (h : Handle) (self : SharedChannel) (ringSize : Nat) : RingSender :=
  let offsets := RingOffsets.new ringSize
  match self.role with
  | .server => {
      base := self.base, ringHeader := offsets.ringAHeader
      writerWait := ⟨self.base, .ringAWriter⟩, readerWait := ⟨self.base, .ringAReader⟩
      dataOffset := offsets.ringAData, ringDataSize := ringSize, ringMask := ringSize - 1
      nextSeq := 1, cachedWc := 0, cachedRc := 0, shared := h }
  | .client => {
      base := self.base, ringHeader := offsets.ringBHeader
      writerWait := ⟨self.base, .ringBWriter⟩, readerWait := ⟨self.base, .ringBReader⟩
      dataOffset := offsets.ringBData, ringDataSize := ringSize, ringMask := ringSize - 1
      nextSeq := 1, cachedWc := 0, cachedRc := 0, shared := h }

def newReceiver (h : Handle) (self : SharedChannel) (ringSize : Nat) : RingReceiver :=
  let offsets := RingOffsets.new ringSize
  match self.role with
  | .server => {
      base := self.base, ringHeader := offsets.ringBHeader
      writerWait := ⟨self.base, .ringBWriter⟩, readerWait := ⟨self.base, .ringBReader⟩
      dataOffset := offsets.ringBData, ringDataSize := ringSize, ringMask := ringSize - 1
      expectedSeq := 1, cachedRc := 0, shared := h }
  | .client => {
      base := self.base, ringHeader := offsets.ringAHeader
      writerWait := ⟨self.base, .ringAWriter⟩, readerWait := ⟨self.base, .ringAReader⟩
      dataOffset := offsets.ringAData, ringDataSize := ringSize, ringMask := ringSize - 1
      expectedSeq := 1, cachedRc := 0, shared := h }

@[simp]
theorem newSender_shared {h : Handle} {self : SharedChannel} {n : Nat} :
    (newSender h self n).shared = h := by
  unfold newSender
  split <;> rfl

@[simp]
theorem newReceiver_shared {h : Handle} {self : SharedChannel} {n : Nat} :
    (newReceiver h self n).shared = h := by
  unfold newReceiver
  split <;> rfl

def fromShared (h : Handle) (config : ChannelConfig) : Routine Channel := do
  let self ← getShared h
  setSender h (newSender h self config.ringSize)
  setReceiver h (newReceiver h self config.ringSize)
  pure ⟨h, config.waitStrategy⟩

def initRingHeader (base : FileId) (header : Nat) : Routine Unit := do
  store (.ring base header .writeCursor) 0
  store (.ring base header .writerNotify) 0
  store (.ring base header .writerParked) 0
  store (.ring base header .readCursor) 0
  store (.ring base header .readerNotify) 0
  store (.ring base header .readerParked) 0

def initHeader (base : FileId) (config : ChannelConfig) (identity : ProcessIdentity) (waitKey : Nat) :
    Routine Unit := do
  let offsets := RingOffsets.new config.ringSize
  store (.global base .magic) MAGIC
  store (.global base .version) VERSION
  store (.global base .ringDataSize) (wrap32 config.ringSize)
  store (.global base .serverPid) identity.pid
  store (.global base .serverBirth) identity.birth
  store (.global base .waitKey) waitKey
  store (.global base .clientPid) 0
  store (.global base .clientBirth) 0
  initRingHeader base offsets.ringAHeader
  initRingHeader base offsets.ringBHeader

def createWithConfig (name : String) (config : ChannelConfig) : Routine Channel := do
  Code.ofExcept (validateConfig config)
  let identity ← currentIdentity
  let path := shmPath name
  let offsets := RingOffsets.new config.ringSize
  let waitKey ← newWaitKey
  orFail (← newWaitSet)
  let file ← orFail (← createNew path)
  orFail (← setLen file offsets.totalSize)
  let _ ← orFail (← mapMut file)
  initHeader file config identity waitKey
  -- Publish the complete server identity and layout together.
  store (.global file .state) ChannelState.serverReady.toU32
  let started ← now
  let h ← newShared ⟨.server, file, name, started, config.connectTimeout⟩ none
  fromShared h config

-- The error of a lost `compare_exchange` in `try_open`.
def lostClaim (state : Nat) : Error :=
  if state = ChannelState.peerDisconnected.toU32 then .peerDisconnected else .channelClosed

-- The checks of `try_open` on an immutable header, which has been published: the identity of the
-- server.
def validateHeader (file : FileId) (mapLen : Nat) (config : ChannelConfig) :
    Routine ProcessIdentity := do
  let magic ← load (.global file .magic)
  if magic ≠ MAGIC then
    fail .invalidHeader
  else do
    let version ← load (.global file .version)
    if version ≠ VERSION then
      fail .invalidHeader
    else do
      let ringDataSize ← load (.global file .ringDataSize)
      if ringDataSize ≠ config.ringSize ∨ mapLen ≠ (RingOffsets.new config.ringSize).totalSize then
        fail .invalidHeader
      else do
        let pid ← load (.global file .serverPid)
        let birth ← load (.global file .serverBirth)
        pure ⟨pid, birth⟩

-- Claim exclusively, then publish both client identity words.
def claim (file : FileId) (identity : ProcessIdentity) : Routine Unit := do
  match ← compareExchange (.global file .state) ChannelState.serverReady.toU32
      ChannelState.clientClaimed.toU32 with
  | .error state => fail (lostClaim state)
  | .ok _ => do
    store (.global file .clientPid) identity.pid
    store (.global file .clientBirth) identity.birth
    match ← compareExchange (.global file .state) ChannelState.clientClaimed.toU32
        ChannelState.connected.toU32 with
    | .error state => fail (lostClaim state)
    | .ok _        => pure ()

def tryOpen (name : String) (config : ChannelConfig) (identity : ProcessIdentity) :
    Routine (Option Channel) := do
  match ← openFile (shmPath name) with
  | .error e => if e.kind = .notFound then pure none else fail (.io e)
  | .ok file => do
    let len ← orFail (← fileLen file)
    if len < GLOBAL_HEADER_SIZE then
      pure none
    else do
      let mapLen ← orFail (← mapMut file)
      -- Acquire the publication before reading any immutable layout field.
      let state ← load (.global file .state)
      match ChannelState.fromU32 state with
      | some .serverReady => do
        let server ← validateHeader file mapLen config
        ProcessMonitor.open server
        let _ ← load (.global file .waitKey)
        orFail (← newWaitSet)
        claim file identity
        let started ← now
        let h ← newShared ⟨.client, file, name, started, config.connectTimeout⟩ (some server)
        SharedChannel.wakeAll h
        let channel ← fromShared h config
        pure (some channel)
      | some .init             => pure none
      | some .peerDisconnected => fail .peerDisconnected
      | none                   => fail .invalidHeader
      | _                      => fail .channelClosed

def openWithConfig (name : String) (config : ChannelConfig) : Routine Channel := do
  Code.ofExcept (validateConfig config)
  let identity ← currentIdentity
  let t ← now
  let deadline := t + config.connectTimeout
  Code.loop (fun (_ : Unit) => do
    match ← tryOpen name config identity with
    | some channel => pure (.inr channel)
    | none => do
      let t ← now
      if deadline ≤ t then fail .timedOut else pure (.inl ())) ()

end Channel
