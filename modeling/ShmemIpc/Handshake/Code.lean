import ShmemIpc.Handshake.Objects

namespace Handshake

abbrev SiteRoutine (α : Type) :=
  Code SiteAct SiteRet Error α

def net (a : Net.Act) : SiteRoutine a.Ret :=
  Code.perform (R := SiteRet) (.inr a)

def world {α : Type} (p : Routine α) : SiteRoutine α :=
  p.inl

def succeed {α : Type} : Except IoError α → SiteRoutine α
  | .ok x    => pure x
  | .error e => Code.throw (.io e)

-- Names.

def handshakePath (name : String) : String :=
  "/tmp/shmem_ipc_" ++ name ++ ".sock"

-- A number as `{:x}` formats it.
def lowerHex (n : Nat) : String :=
  String.ofList (Nat.toDigits 16 n)

def incarnationText (identity : ProcessIdentity) (serial : Nat) : String :=
  toString identity.pid ++ "." ++ lowerHex identity.birth ++ "." ++ lowerHex serial

def connNameText (name incarnation : String) (counter : Nat) : String :=
  name ++ ".conn." ++ incarnation ++ "." ++ toString counter

def listenerIncarnation : SiteRoutine String := do
  let identity ← world currentIdentity
  let serial ← net .fetchNext
  pure (incarnationText identity serial)

-- `Write::write_all` and `Read::read_exact`.

def writeAll (st : StreamId) (buf : Bytes) : SiteRoutine Unit :=
  Code.loop (fun buf => do
    if buf.isEmpty then
      pure (.inr ())
    else do
      match ← net (.write st buf) with
      | none            => pure (.inl buf)
      | some (.error e) => Code.throw (.io e)
      | some (.ok n)    =>
        if n = 0 then Code.throw (.io ⟨.other, "failed to write whole buffer"⟩) else pure (.inl (buf.drop n))) buf

def readExact (st : StreamId) (n : Nat) : SiteRoutine Bytes :=
  Code.loop (fun buf => do
    if n ≤ buf.length then
      pure (.inr buf)
    else do
      match ← net (.read st (n - buf.length)) with
      | none            => pure (.inl buf)
      | some (.error e) => Code.throw (.io e)
      | some (.ok b)    =>
        if b.isEmpty then Code.throw (.io ⟨.other, "failed to fill whole buffer"⟩) else pure (.inl (buf ++ b))) []

-- A `u16`, of the number modulo its size.
def lenToLeBytes (n : Nat) : Bytes :=
  [UInt8.ofNat n, UInt8.ofNat (n / 256)]

def lenFromLeBytes : Bytes → Nat
  | [lo, hi] => lo.toNat + 256 * hi.toNat
  | _        => 0

def sendConnName (st : StreamId) (connName : String) : SiteRoutine Unit := do
  let bytes := Utf8.encode connName.toList
  writeAll st (lenToLeBytes bytes.length)
  writeAll st bytes
  succeed (← net (.flush st))

def readConnName (st : StreamId) : SiteRoutine String := do
  let lenBuf ← readExact st 2
  let nameBuf ← readExact st (lenFromLeBytes lenBuf)
  match Utf8.decode nameBuf with
  | some name => pure (String.ofList name)
  | none      => Code.throw (.io ⟨.invalidData, "invalid utf-8 sequence"⟩)

namespace Listener

def connName (self : Listener) : String :=
  connNameText self.name self.incarnation self.counter

def bind (name : String) (config : ChannelConfig) : SiteRoutine ListenerId := do
  let incarnation ← listenerIncarnation
  let path := handshakePath name
  let _ ← net (.removeSocket path)
  let inner ← succeed (← net (.bind path))
  net (.newListener ⟨inner, name, config, 0, incarnation⟩)

-- If the name cannot be sent, then the channel is dropped.
def handshake (l : ListenerId) (st : StreamId) : SiteRoutine Channel := do
  let self ← net (.getListener l)
  net (.bumpCounter l)
  let channel ← world (Channel.createWithConfig self.connName self.config)
  match ← Code.attempt (sendConnName st self.connName) with
  | .ok _    => pure channel
  | .error e => do
    world (SharedChannel.drop channel.shared)
    Code.throw e

def accept (l : ListenerId) : SiteRoutine Channel := do
  let self ← net (.getListener l)
  match ← net (.accept self.inner) with
  | none   => Code.throw (.io ⟨.other, "operation would block"⟩)
  | some r => do
    let st ← succeed r
    handshake l st

-- The loop of `accept_timeout`. Only an error of `set_nonblocking` leaves the function at once.
def awaitStream (k : SocketId) (deadline : Nat) : SiteRoutine (Except Error StreamId) :=
  Code.loop (fun (_ : Unit) => do
    match ← net (.accept k) with
    | some (.ok st)   => do
      succeed (← net (.setBlocking st))
      pure (.inr (.ok st))
    | none            => do
      let t ← world now
      if deadline ≤ t then
        pure (.inr (.error .timedOut))
      else do
        net .sleep
        pure (.inl ())
    | some (.error e) => pure (.inr (.error (.io e)))) ()

def acceptTimeout (l : ListenerId) (timeout : Nat) : SiteRoutine Channel := do
  let self ← net (.getListener l)
  succeed (← net (.setNonblocking self.inner true))
  let t ← world now
  let result ← awaitStream self.inner (t + timeout)
  succeed (← net (.setNonblocking self.inner false))
  let st ← Code.ofExcept result
  handshake l st

def drop (l : ListenerId) : SiteRoutine Unit := do
  let self ← net (.getListener l)
  let _ ← net (.removeSocket (handshakePath self.name))
  net (.freeListener l)

def cleanup (name : String) : SiteRoutine Unit := do
  let _ ← net (.removeSocket (handshakePath name))
  pure ()

end Listener

-- The loop of `connect_to`, where `again` tells which errors may go away.
def dial (path : String) (deadline : Nat) (again : ConnectError → Bool) : SiteRoutine StreamId :=
  Code.loop (fun (_ : Unit) => do
    match ← net (.connect path) with
    | .ok st   => pure (.inr st)
    | .error e => do
      let t ← world now
      if t < deadline ∧ again e then do
        net .sleep
        pure (.inl ())
      else
        Code.throw (.io e.error)) ()

def connectTo (name : String) (config : ChannelConfig) : SiteRoutine Channel := do
  let t ← world now
  let st ← dial (handshakePath name) (t + config.connectTimeout) fun _ => true
  let connName ← readConnName st
  world (Channel.openWithConfig connName config)

def connect (name : String) (config : ChannelConfig) : SiteRoutine Channel := do
  let _ ← world currentIdentity
  connectTo name config

-- `tokio/listener.rs`
namespace Tokio

-- The stream is accepted under a timeout or without one.
def acceptWith (l : ListenerId) (timed : Bool) : SiteRoutine Channel := do
  let self ← net (.getListener l)
  match ← net (.acceptAsync self.inner timed) with
  | none   => Code.throw .timedOut
  | some r => do
    let st ← succeed r
    Listener.handshake l st

def accept (l : ListenerId) : SiteRoutine Channel :=
  acceptWith l false

def acceptTimeout (l : ListenerId) : SiteRoutine Channel :=
  acceptWith l true

def openChannel (name : String) (config : ChannelConfig) : SiteRoutine Channel := do
  Code.ofExcept (validateConfig config)
  let identity ← world currentIdentity
  let t ← world now
  let deadline := t + config.connectTimeout
  Code.loop (fun (_ : Unit) => do
    match ← world (Channel.tryOpen name config identity) with
    | some channel => pure (.inr channel)
    | none => do
      let t ← world now
      if deadline ≤ t then
        Code.throw .timedOut
      else do
        net .sleep
        pure (.inl ())) ()

def connectTo (name : String) (config : ChannelConfig) : SiteRoutine Channel := do
  let t ← world now
  let st ← dial (handshakePath name) (t + config.connectTimeout) fun e => e.error.kind = .notFound || e.refused
  let connName ← readConnName st
  openChannel connName config

def connect (name : String) (config : ChannelConfig) : SiteRoutine Channel := do
  let _ ← world currentIdentity
  connectTo name config

end Tokio

end Handshake
