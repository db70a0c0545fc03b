import ShmemIpc.Code.Wait

-- `ring.rs`

-- `u32::to_le_bytes`
def toLeBytes (v : Nat) : Bytes :=
  [.ofNat v, .ofNat (v / 2 ^ 8), .ofNat (v / 2 ^ 16), .ofNat (v / 2 ^ 24)]

-- `u32::from_le_bytes`
def fromLeBytes (a b c d : UInt8) : Nat :=
  a.toNat + 2 ^ 8 * b.toNat + 2 ^ 16 * c.toNat + 2 ^ 24 * d.toNat

-- `copy_nonoverlapping` into shared memory, byte by byte.
def copyTo (base : FileId) : Nat → Bytes → Routine Unit
  | _, []         => pure ()
  | addr, b :: bs => do
    writeByte base addr b
    copyTo base (addr + 1) bs

-- `copy_nonoverlapping` of `n` bytes out of shared memory.
def copyFrom (base : FileId) (addr : Nat) : Nat → Routine Bytes
  | 0     => pure []
  | n + 1 => do
    let b ← readByte base addr
    let bs ← copyFrom base (addr + 1) n
    pure (b :: bs)

inductive TrySendResult
  | sent
  | full
  deriving DecidableEq, Repr

structure PeekedMessage where
  readCursor : Nat
  payloadLen : Nat
  seq        : Nat
  deriving DecidableEq, Repr

inductive TryPeekResult
  | empty
  | ready (message : PeekedMessage)
  deriving DecidableEq, Repr

namespace RingSender

def writeCursor (self : RingSender) : Word :=
  .ring self.base self.ringHeader .writeCursor

def readCursor (self : RingSender) : Word :=
  .ring self.base self.ringHeader .readCursor

def writerNotify (self : RingSender) : Word :=
  .ring self.base self.ringHeader .writerNotify

def writerParked (self : RingSender) : Word :=
  .ring self.base self.ringHeader .writerParked

def readerNotify (self : RingSender) : Word :=
  .ring self.base self.ringHeader .readerNotify

def readerParked (self : RingSender) : Word :=
  .ring self.base self.ringHeader .readerParked

def messageSize (self : RingSender) (payloadLen : Nat) : Routine Nat :=
  let msgLen := MSG_HEADER_SIZE + payloadLen
  if msgLen > self.ringDataSize then
    fail (.messageTooLarge payloadLen (self.ringDataSize - MSG_HEADER_SIZE))
  else
    pure msgLen

def hasSpace (self : RingSender) (wc msgLen : Nat) : Routine Bool := do
  let used ← sub wc self.cachedRc
  let free ← sub self.ringDataSize used
  pure (decide (msgLen ≤ free))

def writeRing (self : RingSender) (cursor : Nat) (data : Bytes) : Routine Unit := do
  let start := cursor &&& self.ringMask
  let firstLen := min data.length (self.ringDataSize - start)
  copyTo self.base (self.dataOffset + start) (data.take firstLen)
  if firstLen < data.length then
    copyTo self.base self.dataOffset (data.drop firstLen)
  else
    pure ()

def publishMessage (h : Handle) (wc : Nat) (payload : Bytes) : Routine Unit := do
  let self ← getSender h
  writeRing self wc (toLeBytes (wrap32 payload.length))
  writeRing self (wrap64 (wc + 4)) (toLeBytes self.nextSeq)
  writeRing self (wrap64 (wc + MSG_HEADER_SIZE)) payload
  let newWc := wrap64 (wc + (MSG_HEADER_SIZE + payload.length))
  store self.writeCursor newWc (.publish payload)
  setSender h { self with cachedWc := newWc }
  setSender h { self with cachedWc := newWc, nextSeq := wrap32 (self.nextSeq + 1) }
  let _ ← fetchAdd self.writerNotify
  let parked ← load self.writerParked
  if parked ≠ 0 then wake self.writerWait self.writerNotify else pure ()

def trySendOnce (h : Handle) (payload : Bytes) : Routine TrySendResult := do
  let self ← getSender h
  if ← SharedChannel.checkReady self.shared then do
    let msgLen ← messageSize self payload.length
    let wc := self.cachedWc
    if ← hasSpace self wc msgLen then do
      publishMessage h wc payload
      pure .sent
    else do
      let freshRc ← load self.readCursor
      setSender h { self with cachedRc := freshRc }
      if ← hasSpace { self with cachedRc := freshRc } wc msgLen then do
        publishMessage h wc payload
        pure .sent
      else
        pure .full
  else
    pure .full

-- The condition for which `send` waits, with the write cursor `wc` that it has captured.
def spaceCondition (self : RingSender) (wc msgLen : Nat) : Routine (Option Nat) := do
  if ← SharedChannel.checkReady self.shared then do
    let rc ← load self.readCursor
    let used ← sub wc rc
    let free ← sub self.ringDataSize used
    if msgLen ≤ free then pure (some rc) else pure none
  else
    pure none

-- `deadline.saturating_duration_since(Instant::now())`
def remainingUntil : Option Nat → Routine (Option Nat)
  | none    => pure none
  | some dl => do
    let t ← now
    pure (some (dl - t))

def send (h : Handle) (payload : Bytes) (wait : WaitStrategy) (timeout : Option Nat) :
    Routine Unit := do
  let self ← getSender h
  let msgLen ← messageSize self payload.length
  let deadline ← deadlineOf timeout
  Code.loop (fun (_ : Unit) => do
    match ← trySendOnce h payload with
    | .sent => pure (.inr ())
    | .full => do
      let self ← getSender h
      let remaining ← remainingUntil deadline
      let newRc ← wait.waitUntil self.readerWait self.readerNotify self.readerParked remaining
        (spaceCondition self self.cachedWc msgLen)
      setSender h { self with cachedRc := newRc }
      pure (.inl ())) ()

end RingSender

namespace RingReceiver

def writeCursor (self : RingReceiver) : Word :=
  .ring self.base self.ringHeader .writeCursor

def readCursor (self : RingReceiver) : Word :=
  .ring self.base self.ringHeader .readCursor

def writerNotify (self : RingReceiver) : Word :=
  .ring self.base self.ringHeader .writerNotify

def writerParked (self : RingReceiver) : Word :=
  .ring self.base self.ringHeader .writerParked

def readerNotify (self : RingReceiver) : Word :=
  .ring self.base self.ringHeader .readerNotify

def readerParked (self : RingReceiver) : Word :=
  .ring self.base self.ringHeader .readerParked

def readRing (self : RingReceiver) (cursor len : Nat) : Routine Bytes := do
  let start := cursor &&& self.ringMask
  let firstLen := min len (self.ringDataSize - start)
  let front ← copyFrom self.base (self.dataOffset + start) firstLen
  if firstLen < len then do
    let back ← copyFrom self.base self.dataOffset (len - firstLen)
    pure (front ++ back)
  else
    pure front

-- The payload length and the sequence number of the record at `cursor`.
def readMsgHeader (self : RingReceiver) (cursor : Nat) : Routine (Nat × Nat) := do
  let header ← readRing self cursor MSG_HEADER_SIZE
  let byte (n : Nat) := header.getD n 0
  pure (fromLeBytes (byte 0) (byte 1) (byte 2) (byte 3), fromLeBytes (byte 4) (byte 5) (byte 6) (byte 7))

def tryPeekMessage (h : Handle) : Routine TryPeekResult := do
  let self ← getReceiver h
  let rc := self.cachedRc
  let wc ← load self.writeCursor
  let available ← sub wc rc
  if available < MSG_HEADER_SIZE then
    pure .empty
  else do
    let (payloadLen, seq) ← readMsgHeader self rc
    if payloadLen > self.ringDataSize - MSG_HEADER_SIZE then
      fail (.messageTooLarge payloadLen (self.ringDataSize - MSG_HEADER_SIZE))
    else do
      let available ← sub wc rc
      if available < MSG_HEADER_SIZE + payloadLen then
        pure .empty
      else
        pure (.ready ⟨rc, payloadLen, seq⟩)

-- The bytes that are copied into a buffer of the given length.
def copyCurrentMessage (h : Handle) (message : PeekedMessage) (bufLen : Nat) : Routine Bytes :=
  if message.payloadLen > bufLen then
    fail (.messageTooLarge message.payloadLen bufLen)
  else do
    let self ← getReceiver h
    readRing self (wrap64 (message.readCursor + MSG_HEADER_SIZE)) message.payloadLen

def validateSeq (h : Handle) (seq : Nat) : Routine Unit := do
  let self ← getReceiver h
  if seq ≠ self.expectedSeq then
    fail (.sequenceMismatch self.expectedSeq seq)
  else
    setReceiver h { self with expectedSeq := wrap32 (self.expectedSeq + 1) }

-- `copied` is the payload, unless the message is discarded.
def commitCurrentMessage (h : Handle) (message : PeekedMessage) (copied : Option Bytes) :
    Routine Unit := do
  validateSeq h message.seq
  let self ← getReceiver h
  let newRc := wrap64 (message.readCursor + (MSG_HEADER_SIZE + message.payloadLen))
  store self.readCursor newRc (.commit copied)
  setReceiver h { self with cachedRc := newRc }
  let _ ← fetchAdd self.readerNotify
  let parked ← load self.readerParked
  if parked ≠ 0 then wake self.readerWait self.readerNotify else pure ()

def tryPeekOrClosed (h : Handle) : Routine (Option PeekedMessage) := do
  match ← tryPeekMessage h with
  | .ready message => pure (some message)
  | .empty => do
    let self ← getReceiver h
    match ← Code.attempt (SharedChannel.checkReady self.shared) with
    | .ok _    => pure none
    | .error e =>
      if e.Terminal then do
        -- Preserve already-published records when close or death races the empty observation.
        match ← tryPeekMessage h with
        | .ready message => pure (some message)
        | .empty         => fail e
      else
        fail e

def waitForMessage (h : Handle) (wait : WaitStrategy) (timeout : Option Nat) :
    Routine PeekedMessage := do
  let self ← getReceiver h
  wait.waitUntil self.writerWait self.writerNotify self.writerParked timeout (tryPeekOrClosed h)

-- `copy_current_message` into a new buffer, and `commit_current_message`.
def takeMessage (h : Handle) (message : PeekedMessage) : Routine Bytes := do
  let buf ← copyCurrentMessage h message message.payloadLen
  commitCurrentMessage h message (some buf)
  pure buf

-- The same for the buffer of the caller, which may be too short.
def takeMessageInto (h : Handle) (message : PeekedMessage) : Routine Nat := do
  let buf ← getBuf
  if message.payloadLen > buf.length then do
    commitCurrentMessage h message none
    fail (.messageTooLarge message.payloadLen buf.length)
  else do
    let bytes ← copyCurrentMessage h message message.payloadLen
    setBuf (bytes ++ buf.drop message.payloadLen)
    commitCurrentMessage h message (some bytes)
    pure message.payloadLen

def recv (h : Handle) (wait : WaitStrategy) (timeout : Option Nat) : Routine Bytes := do
  let message ← waitForMessage h wait timeout
  takeMessage h message

def recvInto (h : Handle) (wait : WaitStrategy) (timeout : Option Nat) : Routine Nat := do
  let message ← waitForMessage h wait timeout
  takeMessageInto h message

def tryRecv (h : Handle) : Routine (Option Bytes) := do
  match ← tryPeekOrClosed h with
  | none         => pure none
  | some message => do
    let buf ← takeMessage h message
    pure (some buf)

end RingReceiver
