import ShmemIpc.Objects.Error

-- Machine arithmetic: the operations that wrap in a release build.

def wrap32 (n : Nat) : Nat :=
  n % 2 ^ 32

def wrap64 (n : Nat) : Nat :=
  n % 2 ^ 64

def wrapSub64 (a b : Nat) : Nat :=
  (a + 2 ^ 64 - b) % 2 ^ 64

def MAGIC              : Nat := 0x53484D43
def VERSION            : Nat := 1
def GLOBAL_HEADER_SIZE : Nat := 256
def RING_HEADER_SIZE   : Nat := 128
def MSG_HEADER_SIZE    : Nat := 8

inductive ChannelState
  | init
  | serverReady
  | clientClaimed
  | connected
  | closed
  | peerDisconnected
  deriving DecidableEq, Repr

namespace ChannelState

def toU32 : ChannelState → Nat
  | init             => 0
  | serverReady      => 1
  | clientClaimed    => 2
  | connected        => 3
  | closed           => 4
  | peerDisconnected => 5

def fromU32 : Nat → Option ChannelState
  | 0 => some init
  | 1 => some serverReady
  | 2 => some clientClaimed
  | 3 => some connected
  | 4 => some closed
  | 5 => some peerDisconnected
  | _ => none

-- The order in which a channel goes through its states. It ends in one of two ways.
def rank : ChannelState → Nat
  | init                      => 0
  | serverReady               => 1
  | clientClaimed             => 2
  | connected                 => 3
  | closed | peerDisconnected => 4

def Terminal : ChannelState → Prop
  | closed | peerDisconnected => True
  | _                         => False

-- The error that reports a terminal state.
def error : ChannelState → Error
  | peerDisconnected => .peerDisconnected
  | _                => .channelClosed

theorem toU32_inj {s t : ChannelState} (h : s.toU32 = t.toU32) : s = t := by
  cases s <;> cases t <;> first | rfl | cases h

theorem exists_toU32 : {n : Nat} → n ≤ 5 → ∃ s : ChannelState, n = s.toU32
  | 0, _     => ⟨init, rfl⟩
  | 1, _     => ⟨serverReady, rfl⟩
  | 2, _     => ⟨clientClaimed, rfl⟩
  | 3, _     => ⟨connected, rfl⟩
  | 4, _     => ⟨closed, rfl⟩
  | 5, _     => ⟨peerDisconnected, rfl⟩
  | _ + 6, h => absurd h (by omega)

theorem rank_eq (s : ChannelState) : s.rank = min s.toU32 4 := by
  cases s <;> rfl

theorem terminal_iff {s : ChannelState} : s.Terminal ↔ 4 ≤ s.toU32 := by
  cases s <;> simp [Terminal, toU32]

theorem fromU32_toU32 (s : ChannelState) : fromU32 s.toU32 = some s := by
  cases s <;> rfl

theorem fromU32_eq_some {n : Nat} {s : ChannelState} : fromU32 n = some s ↔ n = s.toU32 := by
  constructor
  · intro h
    unfold fromU32 at h
    split at h <;> cases h <;> rfl
  · rintro rfl
    exact fromU32_toU32 s

end ChannelState

-- The byte offsets of the regions of a mapping, relative to its base.
structure RingOffsets where
  ringAHeader : Nat
  ringAData   : Nat
  ringBHeader : Nat
  ringBData   : Nat
  totalSize   : Nat
  deriving DecidableEq, Repr

def RingOffsets.new (ringDataSize : Nat) : RingOffsets :=
  let ringTotal := RING_HEADER_SIZE + ringDataSize
  { ringAHeader := GLOBAL_HEADER_SIZE
    ringAData   := GLOBAL_HEADER_SIZE + RING_HEADER_SIZE
    ringBHeader := GLOBAL_HEADER_SIZE + ringTotal
    ringBData   := GLOBAL_HEADER_SIZE + ringTotal + RING_HEADER_SIZE
    totalSize   := GLOBAL_HEADER_SIZE + ringTotal * 2 }

-- The file behind a mapping.
abbrev FileId :=
  Nat

-- The fields of `GlobalHeader`.
inductive GlobalField
  | magic
  | version
  | ringDataSize
  | serverPid
  | serverBirth
  | waitKey
  | clientPid
  | clientBirth
  | state
  deriving DecidableEq, Repr

-- The fields of `RingHeader`: those of its `WriteCursorLine` and of its `ReadCursorLine`.
inductive RingField
  | writeCursor
  | writerNotify
  | writerParked
  | readCursor
  | readerNotify
  | readerParked
  deriving DecidableEq, Repr

-- A word of shared memory: a field of the global header of a mapping, or of the `RingHeader` at the
-- given offset of a mapping.
inductive Word
  | global (base : FileId) (field : GlobalField)
  | ring (base : FileId) (header : Nat) (field : RingField)
  deriving DecidableEq, Repr

namespace Word

def IsNotify : Word → Prop
  | .ring _ _ .writerNotify | .ring _ _ .readerNotify => True
  | _                                                 => False

def IsParked : Word → Prop
  | .ring _ _ .writerParked | .ring _ _ .readerParked => True
  | _                                                 => False

instance : DecidablePred IsNotify
  | .ring _ _ .writerNotify | .ring _ _ .readerNotify => isTrue trivial
  | .ring _ _ .writeCursor | .ring _ _ .writerParked | .ring _ _ .readCursor | .ring _ _ .readerParked
  | .global ..                                        => isFalse id

instance : DecidablePred IsParked
  | .ring _ _ .writerParked | .ring _ _ .readerParked => isTrue trivial
  | .ring _ _ .writeCursor | .ring _ _ .writerNotify | .ring _ _ .readCursor | .ring _ _ .readerNotify
  | .global ..                                        => isFalse id

end Word

inductive WaitSlot
  | ringAWriter
  | ringAReader
  | ringBWriter
  | ringBReader
  deriving DecidableEq, Repr

-- The wait object of one of the four notify words of a channel.
structure WaitHandle where
  base : FileId
  slot : WaitSlot
  deriving DecidableEq, Repr
