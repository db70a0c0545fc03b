import ShmemIpc.Ring.Record
import ShmemIpc.Execution.History

-- One direction of a channel. The thread `tx` sends through the handle `hs`, and the thread `rx`
-- receives through the handle `hr`.
structure Link where
  config   : ChannelConfig
  tx       : ThreadId
  rx       : ThreadId
  hs       : Handle
  hr       : Handle
  xs       : SharedChannel
  xr       : SharedChannel
  -- whether the receiver has buffers that may be too short for a message
  discards : Prop
  threads  : tx ≠ rx
  file     : xr.base = xs.base
  roles    : xr.role ≠ xs.role
  valid    : validateConfig config = .ok ()

namespace Link

variable (L : Link)

def base : FileId :=
  L.xs.base

def size : Nat :=
  L.config.ringSize

def header : Nat :=
  (Channel.newSender L.hs L.xs L.size).ringHeader

def data : Nat :=
  (Channel.newSender L.hs L.xs L.size).dataOffset

def writeCursor : Word :=
  .ring L.base L.header .writeCursor

def readCursor : Word :=
  .ring L.base L.header .readCursor

-- The two halves, with the fields that change.

def sender (nextSeq cachedWc cachedRc : Nat) : RingSender :=
  { Channel.newSender L.hs L.xs L.size with nextSeq, cachedWc, cachedRc }

def receiver (expectedSeq cachedRc : Nat) : RingReceiver :=
  { Channel.newReceiver L.hr L.xr L.size with expectedSeq, cachedRc }

theorem newReceiver_eq :
    let x := Channel.newReceiver L.hr L.xr L.size
    let y := Channel.newSender L.hs L.xs L.size
    x.base = y.base ∧ x.ringHeader = y.ringHeader ∧ x.dataOffset = y.dataOffset ∧
    x.ringDataSize = y.ringDataSize ∧ x.ringMask = y.ringMask := by
  have file := L.file
  have roles := L.roles
  cases hs : L.xs.role <;> cases hr : L.xr.role <;>
    simp_all [Channel.newReceiver, Channel.newSender]

section
variable {L} {n w r : Nat}

theorem newSender_start : Channel.newSender L.hs L.xs L.size = L.sender 1 0 0 := by
  show _ = { Channel.newSender L.hs L.xs L.size with nextSeq := 1, cachedWc := 0, cachedRc := 0 }
  unfold Channel.newSender
  split <;> rfl

theorem newReceiver_start : Channel.newReceiver L.hr L.xr L.size = L.receiver 1 0 := by
  show _ = { Channel.newReceiver L.hr L.xr L.size with expectedSeq := 1, cachedRc := 0 }
  unfold Channel.newReceiver
  split <;> rfl

@[simp]
theorem sender_shared : (L.sender n w r).shared = L.hs :=
  Channel.newSender_shared

@[simp]
theorem sender_base : (L.sender n w r).base = L.base := by
  show (Channel.newSender L.hs L.xs L.size).base = L.base
  unfold Channel.newSender
  split <;> rfl

@[simp]
theorem sender_ringDataSize : (L.sender n w r).ringDataSize = L.size := by
  show (Channel.newSender L.hs L.xs L.size).ringDataSize = L.size
  unfold Channel.newSender
  split <;> rfl

@[simp]
theorem sender_ringMask : (L.sender n w r).ringMask = L.size - 1 := by
  show (Channel.newSender L.hs L.xs L.size).ringMask = L.size - 1
  unfold Channel.newSender
  split <;> rfl

@[simp]
theorem sender_dataOffset : (L.sender n w r).dataOffset = L.data :=
  rfl

@[simp]
theorem sender_writeCursor : (L.sender n w r).writeCursor = L.writeCursor := by
  simp only [RingSender.writeCursor, sender_base]
  rfl

@[simp]
theorem sender_readCursor : (L.sender n w r).readCursor = L.readCursor := by
  simp only [RingSender.readCursor, sender_base]
  rfl

@[simp]
theorem receiver_shared : (L.receiver n r).shared = L.hr :=
  Channel.newReceiver_shared

@[simp]
theorem receiver_base : (L.receiver n r).base = L.base :=
  L.newReceiver_eq.left.trans (sender_base (n := 0) (w := 0) (r := 0))

@[simp]
theorem receiver_ringHeader : (L.receiver n r).ringHeader = L.header :=
  L.newReceiver_eq.right.left

@[simp]
theorem receiver_dataOffset : (L.receiver n r).dataOffset = L.data :=
  L.newReceiver_eq.right.right.left

@[simp]
theorem receiver_ringDataSize : (L.receiver n r).ringDataSize = L.size :=
  L.newReceiver_eq.right.right.right.left.trans (sender_ringDataSize (n := 0) (w := 0) (r := 0))

@[simp]
theorem receiver_ringMask : (L.receiver n r).ringMask = L.size - 1 :=
  L.newReceiver_eq.right.right.right.right.trans (sender_ringMask (n := 0) (w := 0) (r := 0))

@[simp]
theorem receiver_writeCursor : (L.receiver n r).writeCursor = L.writeCursor := by
  simp only [RingReceiver.writeCursor, receiver_base, receiver_ringHeader]
  rfl

@[simp]
theorem receiver_readCursor : (L.receiver n r).readCursor = L.readCursor := by
  simp only [RingReceiver.readCursor, receiver_base, receiver_ringHeader]
  rfl

theorem size_eq : ∃ k, 6 ≤ k ∧ k < 32 ∧ L.size = 2 ^ k :=
  Ring.ringSize_eq L.valid

theorem size_lt : L.size < 2 ^ 32 := by
  obtain ⟨k, _, hk, h⟩ := L.size_eq
  rw [h]
  exact Nat.pow_lt_pow_right (by decide) hk

theorem size_pos : 64 ≤ L.size := by
  obtain ⟨k, hk, _, h⟩ := L.size_eq
  rw [h]
  exact Nat.pow_le_pow_right (n := 2) (by decide) hk

theorem and_mask {cursor : Nat} : wrap64 cursor &&& (L.size - 1) = cursor % L.size := by
  obtain ⟨k, _, hk, h⟩ := L.size_eq
  rw [h]
  exact Ring.and_mask (by omega)

end
end Link

-- What the two threads see of the ring, and its history. A position of the ring is a count of bytes.
structure RingState where
  wc        : Nat
  rc        : Nat
  cell      : Nat → UInt8
  sender    : RingSender
  receiver  : RingReceiver
  buf       : Bytes
  out       : List Bytes
  state     : Nat
  serverPid : Nat
  clientPid : Nat
  files     : FileId
  sent      : List Bytes
  received  : List (Option Bytes)
  sealed    : Option (List Bytes)
  faulted   : Bool

-- How many bytes the receiver has taken out of the ring.
def RingState.taken (v : RingState) : Nat :=
  Ring.total (v.sent.take v.received.length)

def Link.ring (L : Link) (s : State) : RingState where
  wc        := s.fst.word L.writeCursor
  rc        := s.fst.word L.readCursor
  cell p    := s.fst.byte L.base (L.data + p % L.size)
  sender    := s.fst.sender L.hs
  receiver  := s.fst.receiver L.hr
  buf       := s.fst.buf L.rx
  out       := s.fst.out L.rx
  state     := s.fst.word (.global L.base .state)
  serverPid := s.fst.word (.global L.base .serverPid)
  clientPid := s.fst.word (.global L.base .clientPid)
  files     := s.fst.files
  sent      := s.snd.ledger.sent L.base L.header
  received  := s.snd.ledger.received L.base L.header
  sealed    := (s.snd.ledger.sealed L.base).map (· L.header)
  faulted   := s.snd.faults L.rx
