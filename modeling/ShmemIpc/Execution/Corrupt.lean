import ShmemIpc.Library.Alone
import ShmemIpc.Execution.Abort

-- What a receiver does at a record that it cannot accept.

def World.bytesAt (s : World) (x : RingReceiver) (cursor len : Nat) : Bytes :=
  (List.range len).map fun k => s.byte x.base (x.area.address cursor len k)

namespace RingReceiver

def available (x : RingReceiver) (s : World) : Nat :=
  wrapSub64 (s.word x.writeCursor) x.cachedRc

-- The length word and the sequence word of the record at the cursor.

def lengthWord (x : RingReceiver) (s : World) : Nat :=
  let header := s.bytesAt x x.cachedRc MSG_HEADER_SIZE
  fromLeBytes (header.getD 0 0) (header.getD 1 0) (header.getD 2 0) (header.getD 3 0)

def seqWord (x : RingReceiver) (s : World) : Nat :=
  let header := s.bytesAt x x.cachedRc MSG_HEADER_SIZE
  fromLeBytes (header.getD 4 0) (header.getD 5 0) (header.getD 6 0) (header.getD 7 0)

end RingReceiver

-- The record at the cursor of the receiver `x` has a length that no record can have, or it is whole and
-- does not have the expected sequence number.
inductive Corrupt (s : World) (x : RingReceiver) : Error → Prop
  | length (header : MSG_HEADER_SIZE ≤ x.available s) (long : x.ringDataSize - MSG_HEADER_SIZE < x.lengthWord s) :
      Corrupt s x (.messageTooLarge (x.lengthWord s) (x.ringDataSize - MSG_HEADER_SIZE))
  | sequence (short : x.lengthWord s ≤ x.ringDataSize - MSG_HEADER_SIZE)
      (whole : MSG_HEADER_SIZE + x.lengthWord s ≤ x.available s) (other : x.seqWord s ≠ x.expectedSeq) :
      Corrupt s x (.sequenceMismatch x.expectedSeq (x.seqWord s))

-- The shared memory and the halves of the channels are as before.
structure World.Standing (s s' : World) : Prop where
  word     : s'.word = s.word
  byte     : s'.byte = s.byte
  sender   : s'.sender = s.sender
  receiver : s'.receiver = s.receiver

theorem World.Standing.corrupt {s s' : World} (h : s.Standing s') {x : RingReceiver} {e : Error} (hc : Corrupt s x e) :
    Corrupt s' x e := by
  have available : x.available s' = x.available s := by simp only [RingReceiver.available, h.word]
  have length : x.lengthWord s' = x.lengthWord s := by simp only [RingReceiver.lengthWord, World.bytesAt, h.byte]
  have seq : x.seqWord s' = x.seqWord s := by simp only [RingReceiver.seqWord, World.bytesAt, h.byte]
  cases hc
  case length header long =>
    rw [← length]
    exact .length (available ▸ header) (length ▸ long)
  case sequence short whole other =>
    rw [← seq]
    exact .sequence (length ▸ short) (by omega) (seq ▸ other)

namespace Corrupt

open Code

variable {plat : Platform} {i : ThreadId} {s : World} {α : Type} {x : RingReceiver} {h : Handle}
variable {Q : Except Error α → World → Prop}

theorem load_alone {w : Word} {f : Nat → Routine α} (hf : Alone (worldMachine plat) i (f (s.word w)) s Q) :
    Alone (worldMachine plat) i (load w >>= f) s Q :=
  .step (v := s.word w) (fun _ _ => .rfl) hf

theorem sub_alone {a b : Nat} {f : Nat → Routine α} (hf : Alone (worldMachine plat) i (f (wrapSub64 a b)) s Q) :
    Alone (worldMachine plat) i (sub a b >>= f) s Q :=
  .step (v := wrapSub64 a b) (fun _ _ => .rfl) hf

theorem getReceiver_alone {f : RingReceiver → Routine α} (hf : Alone (worldMachine plat) i (f (s.receiver h)) s Q) :
    Alone (worldMachine plat) i (getReceiver h >>= f) s Q :=
  .step (v := s.receiver h) (fun _ _ => .rfl) hf

theorem copyFrom_alone {base : FileId} : (n addr : Nat) →
    Alone (worldMachine plat) i (copyFrom base addr n) s fun v s' =>
      v = .ok ((List.range n).map fun k => s.byte base (addr + k)) ∧ s' = s
  | 0, _        => .pure ⟨rfl, rfl⟩
  | n + 1, addr => by
    refine .step (v := s.byte base addr) (fun _ _ => .rfl) (.bind (copyFrom_alone n (addr + 1)) ?_ nofun)
    rintro bs s' ⟨hb, rfl⟩
    cases hb
    refine .pure ⟨congrArg _ ?_, rfl⟩
    rw [List.range_succ_eq_map, List.map_cons, List.map_map]
    exact congrArg _ (List.map_congr_left fun k _ => congrArg _ (by simp; omega))

-- The bytes before and after the end of the ring.
theorem bytesAt_append {cursor len n : Nat} (hn : x.area.firstLen cursor len = n) :
    s.bytesAt x cursor len =
      ((List.range n).map fun k => s.byte x.base (x.dataOffset + (cursor &&& x.ringMask) + k)) ++
      (List.range (len - n)).map fun k => s.byte x.base (x.dataOffset + k) := by
  have slice : x.area.firstLen cursor len ≤ len := Nat.min_le_left ..
  have split : len = n + (len - n) := by omega
  rw [World.bytesAt, split, List.range_add, ← split, List.map_append, List.map_map]
  congr 1
  · refine List.map_congr_left fun k hk => ?_
    rw [Area.address_front (hn ▸ List.mem_range.mp hk)]
    rfl
  · refine List.map_congr_left fun k _ => ?_
    show s.byte x.base (x.area.address cursor len (n + k)) = _
    rw [Area.address_back (hn ▸ Nat.le_add_right _ _), hn, Nat.add_sub_cancel_left]
    rfl

theorem readRing_alone {cursor len : Nat} :
    Alone (worldMachine plat) i (x.readRing cursor len) s fun v s' => v = .ok (s.bytesAt x cursor len) ∧ s' = s := by
  unfold RingReceiver.readRing
  simp only
  refine .bind (copyFrom_alone _ _) ?_ nofun
  rintro front s' ⟨hf, rfl⟩
  cases hf
  split
  case isTrue lt =>
    refine .bind (copyFrom_alone _ _) ?_ nofun
    rintro back s' ⟨hb, rfl⟩
    cases hb
    exact .pure ⟨congrArg _ (bytesAt_append rfl).symm, rfl⟩
  case isFalse ge =>
    have all : len - x.area.firstLen cursor len = 0 := Nat.sub_eq_zero_of_le (Nat.le_of_not_lt ge)
    refine .pure ⟨congrArg _ ?_, rfl⟩
    rw [bytesAt_append rfl, all]
    exact (List.append_nil _).symm

theorem readMsgHeader_alone :
    Alone (worldMachine plat) i (x.readMsgHeader x.cachedRc) s fun v s' =>
      v = .ok (x.lengthWord s, x.seqWord s) ∧ s' = s := by
  refine .bind readRing_alone ?_ nofun
  rintro header s' ⟨hh, rfl⟩
  cases hh
  exact .pure ⟨rfl, rfl⟩

-- The record is refused at once, or when its sequence number is checked.
def Refused (s : World) (h : Handle) (e : Error) (m : PeekedMessage) : Prop :=
  m.seq ≠ (s.receiver h).expectedSeq ∧ e = .sequenceMismatch (s.receiver h).expectedSeq m.seq

variable {e : Error} {m : PeekedMessage}

theorem tryPeekMessage_alone (hc : Corrupt s (s.receiver h) e) :
    Alone (worldMachine plat) i (RingReceiver.tryPeekMessage h) s fun v s' => s' = s ∧
      (v = .error e ∨ ∃ m, v = .ok (.ready m) ∧ Refused s h e m) := by
  refine getReceiver_alone (load_alone (sub_alone ?_))
  split
  case isTrue small =>
    have small : (s.receiver h).available s < MSG_HEADER_SIZE := small
    cases hc <;> omega
  refine .bind readMsgHeader_alone ?_ nofun
  rintro v s' ⟨hv, rfl⟩
  cases hv
  simp only
  split
  case isTrue long =>
    cases hc
    case length   => exact .throw ⟨rfl, .inl rfl⟩
    case sequence => omega
  refine sub_alone ?_
  split
  case isTrue partly =>
    have partly : (s'.receiver h).available s' < MSG_HEADER_SIZE + (s'.receiver h).lengthWord s' := partly
    cases hc <;> omega
  cases hc
  case length               => omega
  case sequence short whole other => exact .pure ⟨rfl, .inr ⟨_, rfl, other, rfl⟩⟩

theorem tryPeekOrClosed_alone (hc : Corrupt s (s.receiver h) e) :
    Alone (worldMachine plat) i (RingReceiver.tryPeekOrClosed h) s fun v s' => s' = s ∧
      (v = .error e ∨ ∃ m, v = .ok (some m) ∧ Refused s h e m) := by
  refine .bind (tryPeekMessage_alone hc) ?_ ?_
  · rintro v s' ⟨rfl, hv | ⟨m, hv, refused⟩⟩ <;> cases hv
    exact .pure ⟨rfl, .inr ⟨m, rfl, refused⟩⟩
  · rintro e' s' ⟨rfl, hv | ⟨m, hv, _⟩⟩ <;> cases hv
    exact ⟨rfl, .inl rfl⟩

theorem validateSeq_alone (hr : Refused s h e m) :
    Alone (worldMachine plat) i (RingReceiver.validateSeq h m.seq) s fun v s' => v = .error e ∧ s' = s := by
  refine getReceiver_alone ?_
  rw [if_pos hr.left]
  exact .throw ⟨hr.right ▸ rfl, rfl⟩

theorem commit_alone {copied : Option Bytes} (hr : Refused s h e m) :
    Alone (worldMachine plat) i (RingReceiver.commitCurrentMessage h m copied) s fun v s' => v = .error e ∧ s' = s :=
  .bind (validateSeq_alone hr) nofun fun _ _ hv => hv

theorem copy_alone {n : Nat} (hn : m.payloadLen ≤ n) :
    Alone (worldMachine plat) i (RingReceiver.copyCurrentMessage h m n) s fun v s' => (∃ bs, v = .ok bs) ∧ s' = s := by
  unfold RingReceiver.copyCurrentMessage
  rw [if_neg (Nat.not_lt.mpr hn)]
  exact getReceiver_alone (readRing_alone.mono fun v s' hv => ⟨⟨_, hv.left⟩, hv.right⟩)

-- The call fails with `e` and leaves everything as it was, but for the buffer of the caller and the clock.
def Fails (s : World) (e : Error) {α : Type} (v : Except Error α) (s' : World) : Prop :=
  v = .error e ∧ s.Standing s'

theorem takeMessage_alone (hr : Refused s h e m) :
    Alone (worldMachine plat) i (RingReceiver.takeMessage h m) s (Fails s e) := by
  refine .bind (copy_alone (Nat.le_refl _)) ?_ ?_
  · rintro bs s' ⟨_, rfl⟩
    refine .bind (commit_alone hr) nofun ?_
    rintro e' s'' ⟨he, rfl⟩
    cases he
    exact ⟨rfl, rfl, rfl, rfl, rfl⟩
  · rintro e' s' ⟨⟨_, hv⟩, _⟩
    cases hv

theorem takeMessageInto_alone (hr : Refused s h e m) :
    Alone (worldMachine plat) i (RingReceiver.takeMessageInto h m) s (Fails s e) := by
  refine .step (v := s.buf i) (fun _ _ => .rfl) ?_
  split
  case isTrue =>
    refine .bind (commit_alone hr) nofun ?_
    rintro e' s' ⟨he, rfl⟩
    cases he
    exact ⟨rfl, rfl, rfl, rfl, rfl⟩
  case isFalse =>
    refine .bind (copy_alone (Nat.le_refl _)) ?_ ?_
    · rintro bs s' ⟨_, rfl⟩
      refine .act ⟨(), _, rfl⟩ fun _ s'' he => ?_
      obtain rfl : s'' = _ := he
      refine .bind (commit_alone hr) nofun ?_
      rintro e' s' ⟨he, rfl⟩
      cases he
      exact ⟨rfl, rfl, rfl, rfl, rfl⟩
    · rintro e' s' ⟨⟨_, hv⟩, _⟩
      cases hv

-- The wait for a message ends at once.

def Peeks (s : World) (h : Handle) (e : Error) (v : Except Error PeekedMessage) (s' : World) : Prop :=
  s.Standing s' ∧ (v = .error e ∨ ∃ m, v = .ok m ∧ Refused s h e m)

theorem condition_alone {s' : World} (hc : Corrupt s (s.receiver h) e) (hs : s.Standing s') :
    Alone (worldMachine plat) i (RingReceiver.tryPeekOrClosed h) s' fun v t => s.Standing t ∧
      (v = .error e ∨ ∃ m, v = .ok (some m) ∧ Refused s h e m) := by
  have hc : Corrupt s' (s'.receiver h) e := hs.receiver ▸ hs.corrupt hc
  refine (tryPeekOrClosed_alone hc).mono fun v t hv => ⟨hv.left ▸ hs, ?_⟩
  simpa only [Refused, hs.receiver] using hv.right

theorem deadlineOf_alone {t : Option Nat} :
    Alone (worldMachine plat) i (deadlineOf t) s fun v s' => s.Standing s' ∧ ∃ d, v = .ok d := by
  cases t
  case none   => exact .pure ⟨⟨rfl, rfl, rfl, rfl⟩, _, rfl⟩
  case some d =>
    refine .act ⟨s.clock, _, Nat.le_refl _, rfl⟩ fun t s' he => ?_
    obtain rfl : s' = _ := he.right
    exact .pure ⟨⟨rfl, rfl, rfl, rfl⟩, _, rfl⟩

variable {handle : WaitHandle} {notify parked : Word} {deadline : Option Nat} {s' : World}

theorem spin_alone (hc : Corrupt s (s.receiver h) e) (hs : s.Standing s') : (n : Nat) →
    Alone (worldMachine plat) i (spin (RingReceiver.tryPeekOrClosed h) n) s' fun v t => s.Standing t ∧
      (v = .ok none ∨ v = .error e ∨ ∃ m, v = .ok (some m) ∧ Refused s h e m)
  | 0     => .pure ⟨hs, .inl rfl⟩
  | n + 1 => by
    refine .bind (condition_alone hc hs) ?_ ?_
    · rintro v t ⟨ht, hv | ⟨m, hv, refused⟩⟩ <;> cases hv
      exact .pure ⟨ht, .inr (.inr ⟨m, rfl, refused⟩)⟩
    · rintro e' t ⟨ht, hv | ⟨m, hv, _⟩⟩ <;> cases hv
      exact ⟨ht, .inr (.inl rfl)⟩

theorem park_alone (hc : Corrupt s (s.receiver h) e) (hs : s.Standing s') :
    Alone (worldMachine plat) i
      (Code.loop (fun _ => SpinThenWait.park handle notify parked deadline (RingReceiver.tryPeekOrClosed h)) ()) s'
      (Peeks s h e) := by
  refine .loop (M := fun v t => s.Standing t ∧ (v = .error e ∨ ∃ m, v = .ok (.inr m) ∧ Refused s h e m)) ?_ ?_ ?_ ?_
  · refine load_alone (.bind (condition_alone hc hs) ?_ ?_)
    · rintro v t ⟨ht, hv | ⟨m, hv, refused⟩⟩ <;> cases hv
      exact .pure ⟨ht, .inr ⟨m, rfl, refused⟩⟩
    · rintro e' t ⟨ht, hv | ⟨m, hv, _⟩⟩ <;> cases hv
      exact ⟨ht, .inl rfl⟩
  · rintro _ t ⟨_, hv | ⟨m, hv, _⟩⟩ <;> cases hv
  · rintro v t ⟨ht, hv | ⟨m, hv, refused⟩⟩ <;> cases hv
    exact ⟨ht, .inr ⟨_, rfl, refused⟩⟩
  · rintro e' t ⟨ht, hv | ⟨m, hv, _⟩⟩ <;> cases hv
    exact ⟨ht, .inl rfl⟩

theorem turn_alone (hc : Corrupt s (s.receiver h) e) (hs : s.Standing s') :
    Alone (worldMachine plat) i (Code.loop (SpinOnly.turn deadline (RingReceiver.tryPeekOrClosed h)) 0) s'
      (Peeks s h e) := by
  refine .loop (M := fun v t => s.Standing t ∧ (v = .error e ∨ ∃ m, v = .ok (.inr m) ∧ Refused s h e m)) ?_ ?_ ?_ ?_
  · refine .bind (condition_alone hc hs) ?_ ?_
    · rintro v t ⟨ht, hv | ⟨m, hv, refused⟩⟩ <;> cases hv
      exact .pure ⟨ht, .inr ⟨m, rfl, refused⟩⟩
    · rintro e' t ⟨ht, hv | ⟨m, hv, _⟩⟩ <;> cases hv
      exact ⟨ht, .inl rfl⟩
  · rintro _ t ⟨_, hv | ⟨m, hv, _⟩⟩ <;> cases hv
  · rintro v t ⟨ht, hv | ⟨m, hv, refused⟩⟩ <;> cases hv
    exact ⟨ht, .inr ⟨_, rfl, refused⟩⟩
  · rintro e' t ⟨ht, hv | ⟨m, hv, _⟩⟩ <;> cases hv
    exact ⟨ht, .inl rfl⟩

theorem waitForMessage_alone {wait : WaitStrategy} {timeout : Option Nat} (hc : Corrupt s (s.receiver h) e) :
    Alone (worldMachine plat) i (RingReceiver.waitForMessage h wait timeout) s (Peeks s h e) := by
  refine getReceiver_alone ?_
  cases wait
  case spinThenWait self =>
    refine .bind deadlineOf_alone (fun deadline t ht => ?_) nofun
    refine .bind (spin_alone hc ht.left _) ?_ ?_
    · rintro v t ⟨ht, hv | hv | ⟨m, hv, refused⟩⟩ <;> cases hv
      · exact park_alone hc ht
      · exact .pure ⟨ht, .inr ⟨m, rfl, refused⟩⟩
    · rintro e' t ⟨ht, hv | hv | ⟨m, hv, _⟩⟩ <;> cases hv
      exact ⟨ht, .inl rfl⟩
  case spinOnly => exact .bind deadlineOf_alone (fun deadline t ht => turn_alone hc ht.left) nofun

theorem Refused.standing (hs : s.Standing s') (hr : Refused s h e m) : Refused s' h e m := by
  simpa only [Refused, hs.receiver] using hr

theorem Fails.trans {v : Except Error α} {t : World} (hs : s.Standing s') (hf : Fails s' e v t) : Fails s e v t :=
  ⟨hf.left, hf.right.word.trans hs.word, hf.right.byte.trans hs.byte, hf.right.sender.trans hs.sender,
   hf.right.receiver.trans hs.receiver⟩

-- What a call does with the record once it has been peeked.
theorem peeks_bind {p : Routine PeekedMessage} {f : PeekedMessage → Routine α}
    (hp : Alone (worldMachine plat) i p s (Peeks s h e))
    (hf : ∀ {m t}, Refused t h e m → Alone (worldMachine plat) i (f m) t (Fails t e)) :
    Alone (worldMachine plat) i (p >>= f) s (Fails s e) := by
  refine .bind hp ?_ ?_
  · rintro m t ⟨ht, hv | ⟨m, hv, refused⟩⟩ <;> cases hv
    exact (hf (refused.standing ht)).mono fun _ _ => Fails.trans ht
  · rintro e' t ⟨ht, hv | ⟨m, hv, _⟩⟩ <;> cases hv
    exact ⟨rfl, ht⟩

theorem tryRecv_alone (hc : Corrupt s (s.receiver h) e) :
    Alone (worldMachine plat) i (RingReceiver.tryRecv h) s (Fails s e) := by
  refine .bind (tryPeekOrClosed_alone hc) ?_ ?_
  · rintro v t ⟨rfl, hv | ⟨m, hv, refused⟩⟩ <;> cases hv
    refine .bind (takeMessage_alone refused) ?_ ?_
    · rintro bs t' ⟨hv, _⟩
      cases hv
    · rintro e' t' ⟨hv, ht⟩
      cases hv
      exact ⟨rfl, ht⟩
  · rintro e' t ⟨rfl, hv | ⟨m, hv, _⟩⟩ <;> cases hv
    exact ⟨rfl, rfl, rfl, rfl, rfl⟩

end Corrupt
