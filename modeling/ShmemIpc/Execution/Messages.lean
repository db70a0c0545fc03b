import ShmemIpc.Execution.Waiting

-- Where a half copies bytes from and to.
structure Area where
  base : FileId
  data : Nat
  size : Nat
  mask : Nat

def RingSender.area (x : RingSender) : Area :=
  ⟨x.base, x.dataOffset, x.ringDataSize, x.ringMask⟩

def RingReceiver.area (x : RingReceiver) : Area :=
  ⟨x.base, x.dataOffset, x.ringDataSize, x.ringMask⟩

namespace Area

structure Valid (r : Area) : Prop where
  size : 64 ≤ r.size
  mask : r.mask = r.size - 1

-- A copy of `len` bytes at a cursor consists of two segments. The second one begins with the data.

def start (r : Area) (cursor : Nat) : Nat :=
  cursor &&& r.mask

def firstLen (r : Area) (cursor len : Nat) : Nat :=
  min len (r.size - r.start cursor)

-- The address of the byte number `k`.
def address (r : Area) (cursor len k : Nat) : Nat :=
  if k < r.firstLen cursor len then r.data + r.start cursor + k else r.data + (k - r.firstLen cursor len)

-- Both segments lie in the data, and the second one ends before the first one begins.
structure Holds (r : Area) (cursor len : Nat) : Prop where
  slice  : r.firstLen cursor len ≤ len
  first  : r.start cursor + r.firstLen cursor len ≤ r.size
  second : len - r.firstLen cursor len ≤ r.start cursor

variable {r : Area} {cursor len j k : Nat}

theorem start_lt (h : r.Valid) : r.start cursor < r.size := by
  have size := h.size
  have le : r.start cursor ≤ r.mask := Nat.and_le_right
  rw [h.mask] at le
  omega

theorem holds (h : r.Valid) (fits : len ≤ r.size) : r.Holds cursor len := by
  have lt : r.start cursor < r.size := start_lt h
  constructor <;> unfold firstLen <;> omega

theorem address_front (h : k < r.firstLen cursor len) : r.address cursor len k = r.data + r.start cursor + k :=
  if_pos h

theorem address_back (h : r.firstLen cursor len ≤ k) :
    r.address cursor len k = r.data + (k - r.firstLen cursor len) :=
  if_neg (Nat.not_lt.mpr h)

theorem Holds.bounds (h : r.Holds cursor len) (hk : k < len) :
    r.data ≤ r.address cursor len k ∧ r.address cursor len k < r.data + r.size := by
  obtain ⟨slice, first, second⟩ := h
  by_cases front : k < r.firstLen cursor len
  case pos => rw [address_front front]; omega
  case neg => rw [address_back (Nat.le_of_not_lt front)]; omega

end Area

-- What the parts of the code that are about messages can do: they neither suspend nor hand out a batch.

def Act.Plain : Act → Prop
  | awaitNotified .. | setOut _ => False
  | _                           => True

theorem Act.Plain.not_suspends {a : Act} (h : a.Plain) : ¬ a.Suspends := by
  cases a <;> first | exact id | exact h.elim

theorem Act.Ends.plain {a : Act} (h : a.Ends) : a.Plain := by
  cases a <;> trivial

namespace Effects

open Act

variable {h : Handle} {m : PeekedMessage} {F : Error → Prop} {α : Type}

theorem checkReady_plain : Code.Only Plain (fun _ => True) (SharedChannel.checkReady h) :=
  checkReady_ends.weaken fun _ => Ends.plain

-- Sending.

theorem copyTo_plain {base : FileId} : (addr : Nat) → (bs : Bytes) → Code.Only Plain F (copyTo base addr bs)
  | _, []      => .pure
  | _, _ :: bs => .act trivial fun _ => copyTo_plain _ bs

theorem writeRing_plain {x : RingSender} {cursor : Nat} {bs : Bytes} : Code.Only Plain F (x.writeRing cursor bs) := by
  refine .bind (copyTo_plain _ _) fun _ => ?_
  split
  case isTrue  => exact copyTo_plain _ _
  case isFalse => exact .pure

theorem publishMessage_plain {wc : Nat} {payload : Bytes} :
    Code.Only Plain F (RingSender.publishMessage h wc payload) := by
  refine .act trivial fun self => .bind writeRing_plain fun _ => .bind writeRing_plain fun _ =>
    .bind writeRing_plain fun _ => ?_
  refine .act trivial fun _ => .act trivial fun _ => .act trivial fun _ => .act trivial fun _ =>
    .act trivial fun parked => ?_
  split
  case isTrue  => exact .perform trivial
  case isFalse => exact .pure

theorem messageSize_only {S : Act → Prop} {x : RingSender} {n : Nat} :
    Code.Only S (fun _ => True) (x.messageSize n) := by
  unfold RingSender.messageSize
  simp only
  split
  case isTrue  => exact .throw trivial
  case isFalse => exact .pure

theorem hasSpace_plain {x : RingSender} {wc n : Nat} : Code.Only Plain F (x.hasSpace wc n) :=
  .act trivial fun _ => .act trivial fun _ => .pure

theorem trySendOnce_plain {payload : Bytes} :
    Code.Only Plain (fun _ => True) (RingSender.trySendOnce h payload) := by
  refine .act trivial fun self => .bind checkReady_plain fun ready => ?_
  cases ready
  case false => exact .pure
  refine .bind messageSize_only fun n => .bind hasSpace_plain fun space => ?_
  split
  case isTrue => exact .bind publishMessage_plain fun _ => .pure
  refine .act trivial fun rc => .act trivial fun _ => .bind hasSpace_plain fun space => ?_
  split
  case isTrue  => exact .bind publishMessage_plain fun _ => .pure
  case isFalse => exact .pure

theorem spinSend_plain {payload : Bytes} : (n : Nat) → Code.Only Plain (fun _ => True) (Tokio.spinSend h payload n)
  | 0     => trySendOnce_plain
  | n + 1 => .bind trySendOnce_plain fun | .sent => .pure | .full => spinSend_plain n

-- Receiving.

theorem copyFrom_plain {base : FileId} : (addr n : Nat) → Code.Only Plain F (copyFrom base addr n)
  | _, 0     => .pure
  | _, n + 1 => .act trivial fun _ => .bind (copyFrom_plain _ n) fun _ => .pure

theorem readRing_plain {x : RingReceiver} {cursor len : Nat} : Code.Only Plain F (x.readRing cursor len) := by
  refine .bind (copyFrom_plain _ _) fun _ => ?_
  split
  case isTrue  => exact .bind (copyFrom_plain _ _) fun _ => .pure
  case isFalse => exact .pure

theorem tryPeekMessage_plain : Code.Only Plain (fun _ => True) (RingReceiver.tryPeekMessage h) := by
  refine .act trivial fun self => .act trivial fun wc => .act trivial fun available => ?_
  split
  case isTrue => exact .pure
  refine .bind (.bind readRing_plain fun _ => .pure) fun (payloadLen, seq) => ?_
  simp only
  split
  case isTrue => exact .throw trivial
  refine .act trivial fun available => ?_
  split
  case isTrue  => exact .pure
  case isFalse => exact .pure

theorem tryPeekOrClosed_plain : Code.Only Plain (fun _ => True) (RingReceiver.tryPeekOrClosed h) := by
  refine .bind tryPeekMessage_plain fun v => ?_
  cases v
  case ready => exact .pure
  refine .act trivial fun self => .attempt checkReady_plain fun r _ => ?_
  cases r
  case ok => exact .pure
  simp only
  split
  case isFalse => exact .throw trivial
  refine .bind tryPeekMessage_plain fun v => ?_
  cases v
  case ready => exact .pure
  case empty => exact .throw trivial

theorem spinPeekOrClosed_plain : (n : Nat) → Code.Only Plain (fun _ => True) (Tokio.spinPeekOrClosed h n)
  | 0     => tryPeekOrClosed_plain
  | n + 1 => .bind tryPeekOrClosed_plain fun | some _ => .pure | none => spinPeekOrClosed_plain n

theorem copyCurrentMessage_plain {n : Nat} :
    Code.Only Plain (fun _ => True) (RingReceiver.copyCurrentMessage h m n) := by
  unfold RingReceiver.copyCurrentMessage
  split
  case isTrue  => exact .throw trivial
  case isFalse => exact .act trivial fun _ => readRing_plain

theorem validateSeq_plain {seq : Nat} : Code.Only Plain (fun _ => True) (RingReceiver.validateSeq h seq) := by
  refine .act trivial fun self => ?_
  split
  case isTrue  => exact .throw trivial
  case isFalse => exact .perform trivial

theorem commitCurrentMessage_plain {copied : Option Bytes} :
    Code.Only Plain (fun _ => True) (RingReceiver.commitCurrentMessage h m copied) := by
  refine .bind validateSeq_plain fun _ => .act trivial fun self => .act trivial fun _ => .act trivial fun _ => ?_
  refine .act trivial fun _ => .act trivial fun parked => ?_
  split
  case isTrue  => exact .perform trivial
  case isFalse => exact .pure

theorem takeMessage_plain : Code.Only Plain (fun _ => True) (RingReceiver.takeMessage h m) :=
  .bind copyCurrentMessage_plain fun _ => .bind commitCurrentMessage_plain fun _ => .pure

theorem takeMessageInto_plain : Code.Only Plain (fun _ => True) (RingReceiver.takeMessageInto h m) := by
  refine .act trivial fun buf => ?_
  split
  case isTrue  => exact .bind commitCurrentMessage_plain fun _ => .throw trivial
  case isFalse =>
    refine .bind copyCurrentMessage_plain fun _ => .act trivial fun _ => ?_
    exact .bind commitCurrentMessage_plain fun _ => .pure

-- A batch is taken without being suspended.
theorem drainReadyWithSpin_awake {max spin : Nat} :
    Code.Only (¬ Act.Suspends ·) (fun _ => True) (Tokio.drainReadyWithSpin h max spin) := by
  have awake {α : Type} {p : Routine α} (hp : Code.Only Plain (fun _ => True) p) :
      Code.Only (¬ Act.Suspends ·) (fun _ => True) p := hp.weaken fun _ => Plain.not_suspends
  refine .act id fun out => .bind (.loop fun _ => .act id fun xs => ?_) fun _ => .act id fun _ => .pure
  split
  case isFalse => exact .pure
  refine .attempt (awake (spinPeekOrClosed_plain spin)) fun v _ => ?_
  match v with
  | .ok (some m) => exact .bind (awake takeMessage_plain) fun _ => .act id fun _ => .pure
  | .ok none     => exact .pure
  | .error e     =>
    simp only
    split
    case isTrue  => exact .pure
    case isFalse => exact .throw trivial

theorem ensureRunning_awake {wait : AsyncWait} :
    Code.Only (fun a => a.Signals ∧ ¬ a.Suspends) (fun e => ¬ e.Terminal ∧ ¬ e.Framing) wait.ensureRunning := by
  refine .act ⟨trivial, id⟩ fun running => ?_
  cases running
  case true => exact .pure
  case false =>
    refine .act ⟨trivial, id⟩ fun r => .bind ?_ fun _ => .act ⟨trivial, id⟩ fun _ => .perform ⟨trivial, id⟩
    cases r
    case ok    => exact .pure
    case error => exact .throw ⟨id, id⟩

theorem snapshot_awake {wait : AsyncWait} :
    Code.Only (fun a => a.Signals ∧ ¬ a.Suspends) (fun e => ¬ e.Terminal ∧ ¬ e.Framing) wait.snapshot :=
  .bind ensureRunning_awake fun _ => .perform ⟨trivial, id⟩

end Effects
