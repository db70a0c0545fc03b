import ShmemIpc.Execution.Commit
import ShmemIpc.Execution.Messages
import Mathlib.Data.List.GetD

theorem Act.Plain.runs {a : Act} (h : a.Plain) (n v : Nat) : a ≠ .awaitNotified n v := by
  rintro rfl
  exact h

-- The calls that handle a single message, and end with an error.
namespace Commit

open Assertion Code Discipline Effects Events Waiting

theorem Calm.of_waits {parked : Word} (hw : parked.IsParked) {a : Act} (h : Waits parked a) : Calm a := by
  cases a
  case store w v note =>
    obtain ⟨rfl, rfl⟩ := h
    refine ⟨Act.Quiet.not_commits ⟨hw, rfl⟩, id, ?_, ?_, ?_, ?_, ?_⟩ <;> nofun
  case load | fence | now => exact calm_of_reads (by trivial)
  case waitOn | resume    => exact ⟨id, id, nofun, nofun, nofun, nofun, nofun⟩
  all_goals exact h.elim

theorem sub_calm {a b : Nat} : Calm (.sub a b) :=
  ⟨id, id, nofun, nofun, nofun, nofun, nofun⟩

theorem readByte_calm {base : FileId} {addr : Nat} : Calm (.readByte base addr) :=
  ⟨id, id, nofun, nofun, nofun, nofun, nofun⟩

-- These bytes have been read.
def Heard (base : FileId) (addr : Nat → Nat) (bs : Bytes) (t : Events) : Prop :=
  ∀ k < bs.length, ⟨.readByte base (addr k), bs.getD k 0⟩ ∈ t

-- The record `m` is what the receiver has found at its cursor, and fits into its ring.
structure Found (h : Handle) (m : PeekedMessage) (t : Events) : Prop where
  record : ∃ x bs, ⟨.getReceiver h, x⟩ ∈ t ∧ bs.length = MSG_HEADER_SIZE ∧
    Heard x.base (x.area.address x.cachedRc MSG_HEADER_SIZE) bs t ∧ m.readCursor = x.cachedRc ∧
    m.payloadLen = fromLeBytes (bs.getD 0 0) (bs.getD 1 0) (bs.getD 2 0) (bs.getD 3 0) ∧
    m.seq = fromLeBytes (bs.getD 4 0) (bs.getD 5 0) (bs.getD 6 0) (bs.getD 7 0) ∧
    m.payloadLen ≤ x.ringDataSize - MSG_HEADER_SIZE

-- The steps by which a receiver goes on to the next record without a copy of the record `m`.
def discarding (h : Handle) (m : PeekedMessage) (x y : RingReceiver) (n parked : Nat) : Events :=
  [⟨.getReceiver h, x⟩, ⟨.setReceiver h { x with expectedSeq := wrap32 (x.expectedSeq + 1) }, ()⟩,
   ⟨.getReceiver h, y⟩,
   ⟨.store y.readCursor (wrap64 (m.readCursor + (MSG_HEADER_SIZE + m.payloadLen))) (.commit none), ()⟩,
   ⟨.setReceiver h { y with cachedRc := wrap64 (m.readCursor + (MSG_HEADER_SIZE + m.payloadLen)) }, ()⟩,
   ⟨.fetchAdd y.readerNotify, n⟩, ⟨.load y.readerParked, parked⟩] ++
  if parked ≠ 0 then [⟨.wake y.readerWait y.readerNotify, ()⟩] else []

-- The record at the cursor has the expected sequence number, but is longer than the buffer.
structure TooLong (h : Handle) (m : PeekedMessage) (b : Bytes) (t : Events) : Prop where
  before : Untouched t
  found  : Found h m t
  buffer : ⟨.getBuf, b⟩ ∈ t
  length : b.length < m.payloadLen

-- The call has discarded one record, and done nothing else.
def Discarded (h : Handle) (e : Error) (t : Events) : Prop :=
  ∃ m b x y n parked, e = .messageTooLarge m.payloadLen b.length ∧ m.seq = x.expectedSeq ∧
    ∃ t₀, TooLong h m b t₀ ∧ t = t₀ ++ discarding h m x y n parked

-- If the error says that a message is too large, then for the ring of the receiver and not for a buffer.
def Oversize (h : Handle) (e : Error) (t : Events) : Prop :=
  ∀ n max, e = .messageTooLarge n max → ∃ x, ⟨.getReceiver h, x⟩ ∈ t ∧ x.ringDataSize - MSG_HEADER_SIZE < n

theorem Heard.grows {base : FileId} {addr : Nat → Nat} {bs : Bytes} : Grows (Heard base addr bs) :=
  fun h k hk => List.mem_append_left _ (h k hk)

theorem Oversize.of_framing {h : Handle} {e : Error} {t : Events} (he : ¬ e.Framing) : Oversize h e t := by
  rintro n max rfl
  exact absurd trivial he

theorem Oversize.of_mem {h : Handle} {n max : Nat} {x : RingReceiver} {t : Events} (hx : ⟨.getReceiver h, x⟩ ∈ t)
    (lt : x.ringDataSize - MSG_HEADER_SIZE < n) : Oversize h (.messageTooLarge n max) t := by
  rintro _ _ ⟨⟩
  exact ⟨x, hx, lt⟩

theorem Oversize.grows {h : Handle} {e : Error} : Grows (Oversize h e) := by
  intro t e' he n max same
  obtain ⟨x, hx, lt⟩ := he n max same
  exact ⟨x, List.mem_append_left _ hx, lt⟩

theorem Found.grows {h : Handle} {m : PeekedMessage} : Grows (Found h m) := by
  rintro t e ⟨x, bs, hx, hl, heard, rest⟩
  exact ⟨x, bs, List.mem_append_left _ hx, hl, heard.grows, rest⟩

section
variable {d : Discipline Act Act.Ret} (hd : Lenient d) {h : Handle}
include hd

theorem plain_spec {α : Type} {p : Routine α} {E : Error → d.Knows} {P : d.Knows}
    (hp : Code.Only Act.Plain (fun _ => False) p) : Spec P p (fun _ => ⊤) E := by
  have keeps : (⊤ : d.Knows).Keeps Act.Plain := Persistent.top.keeps fun ha _ _ => hd ha.runs
  exact .pre (.post (.only keeps hp) (fun _ => le_rfl) fun _ _ _ hs => hs.right.elim) fun _ _ _ => trivial

omit hd

theorem hasSpace_calm {F : Error → Prop} {x : RingSender} {wc n : Nat} : Code.Only Calm F (x.hasSpace wc n) :=
  .act sub_calm fun _ => .act sub_calm fun _ => .pure

-- A sender that knows its own half.
def holding (h : Handle) (x : RingSender) : d.Knows :=
  known Untouched ⊓ known (⟨.getSender h, x⟩ ∈ ·)

include hd

theorem holding_keeps {x : RingSender} : (holding h x : d.Knows).Keeps Calm :=
  (untouched_keeps hd).inf (known_persistent mem_grows)

theorem getSender_spec {α : Type} {f : RingSender → Routine α} {M : α → d.Knows} {E : Error → d.Knows}
    (hf : ∀ x, Spec (holding h x) (f x) M E) : Spec (known Untouched) (getSender h >>= f) M E :=
  .keep (untouched_keeps hd) (calm_of_reads (by trivial)) (fun x => known ((⟨.getSender h, x⟩ : Event Act Act.Ret) ∈ ·))
    (fun _ _ _ _ _ e => e.right ▸ by simp) hf

theorem ready_spec {k : Handle} {x : RingSender} : Spec (holding h x) (SharedChannel.checkReady k)
    (fun _ => holding h x : Bool → d.Knows) (fun _ => holding h x) :=
  (checkReady_spec hd).persist (known_persistent mem_grows)

theorem setSender_spec {x : RingSender} {rc : Nat} {α : Type} {f : Unit → Routine α} {M : α → d.Knows}
    {E : Error → d.Knows} (hf : ∀ x, Spec (known Untouched) (f x) M E) :
    Spec (holding h x) (setSender h { x with cachedRc := rc } >>= f) M E :=
  .act (fun _ => known Untouched) (fun _ _ _ => hd nofun)
    (fun _ _ _ _ hp e => e.right ▸ Untouched.same (hp.left.toSilent.seen hp.right) id rfl (fun _ => rfl) hp.left) hf

theorem trySendOnce_spec {payload : Bytes} : Spec (known Untouched) (RingSender.trySendOnce h payload)
    (fun v => given (v = .full) (known Untouched) : TrySendResult → d.Knows) (fun _ => known Untouched) := by
  refine getSender_spec hd fun self => .bind ((ready_spec hd).post (fun _ => le_rfl) fun _ _ _ hs =>
    hs.left) fun ready => ?_
  cases ready
  case false => exact .pure fun _ _ hs _ => hs.left
  refine .pass (holding_keeps hd) messageSize_only (fun _ _ _ _ hs => hs.left) fun msgLen => ?_
  refine .pass (F := fun _ => False) (holding_keeps hd) hasSpace_calm nofun fun space => ?_
  have publishes {P : d.Knows} {wc : Nat} : Spec P (do RingSender.publishMessage h wc payload; Pure.pure .sent)
      (fun v => given (v = .full) (known Untouched) : TrySendResult → d.Knows) (fun _ => known Untouched) :=
    .bind (plain_spec hd publishMessage_plain) fun _ => .pure fun _ _ _ => nofun
  split
  case isTrue => exact publishes
  refine .skip (holding_keeps hd) (calm_of_reads (by trivial)) fun rc => setSender_spec hd fun _ => ?_
  refine .pass (F := fun _ => False) (untouched_keeps hd) hasSpace_calm nofun fun space => ?_
  split
  case isTrue  => exact publishes
  case isFalse => exact .pure fun _ _ hs _ => hs

theorem spaceCondition_spec {x : RingSender} {wc n : Nat} : Spec (holding h x) (x.spaceCondition wc n)
    (fun _ => holding h x : Option Nat → d.Knows) (fun _ => holding h x) := by
  refine .bind (ready_spec hd) fun ready => ?_
  cases ready
  case false => exact .pure le_rfl
  refine .skip (holding_keeps hd) (calm_of_reads (by trivial)) fun rc =>
    .skip (holding_keeps hd) sub_calm fun used => ?_
  refine .skip (holding_keeps hd) sub_calm fun free => ?_
  split
  case isTrue  => exact .pure le_rfl
  case isFalse => exact .pure le_rfl

theorem send_spec {payload : Bytes} {wait : WaitStrategy} {timeout : Option Nat} :
    Spec (known Untouched) (RingSender.send h payload wait timeout) (fun _ => ⊤ : Unit → d.Knows)
      (fun _ => known Untouched) := by
  have keeps := untouched_keeps hd
  refine .skip keeps (calm_of_reads (by trivial)) fun self =>
    .pass keeps messageSize_only (fun _ _ => le_rfl) fun n => ?_
  refine .pass (F := fun _ => False) keeps (deadlineOf_now.weaken fun _ => ?_) nofun fun deadline => ?_
  · rintro rfl; exact calm_of_reads (by trivial)
  refine .loop (fun _ => known Untouched) le_rfl fun _ => .bind (trySendOnce_spec hd) fun v => ?_
  cases v
  case sent => exact .pure fun _ _ _ => trivial
  refine .pre (P := known Untouched) (getSender_spec hd fun self => ?_) fun _ _ hs => hs rfl
  refine .pass (F := fun _ => False) (holding_keeps hd) (remainingUntil_now.weaken fun _ => ?_) nofun
    fun remaining => ?_
  · rintro rfl; exact calm_of_reads (by trivial)
  have waits : (holding h self : d.Knows).Keeps (Waits self.readerParked) :=
    (holding_keeps hd).mono fun _ => Calm.of_waits (by trivial)
  refine .bind ((waitUntil_spec waits (fun _ => waits) (fun _ => waits) ⟨spaceCondition_spec hd, le_rfl, le_rfl⟩).post
    (fun _ => le_rfl) fun _ _ _ hs => hs.left) fun rc => ?_
  exact setSender_spec hd fun _ => .pure le_rfl

end

-- Receiving.

section
variable {d : Discipline Act Act.Ret} {P : d.Knows} {E : Error → d.Knows} {h : Handle}

def did (P : d.Knows) (e : Event Act Act.Ret) : d.Knows :=
  P ⊓ known (e ∈ ·)

theorem did_spec (hp : P.Keeps Calm) {a : Act} (ha : Calm a) {α : Type} {f : a.Ret → Routine α} {M : α → d.Knows}
    (hf : ∀ r, (did P ⟨a, r⟩).Keeps Calm → Spec (did P ⟨a, r⟩) (f r) M E) : Spec P (perform a >>= f) M E :=
  .keep hp ha (fun r => known ((⟨a, r⟩ : Event Act Act.Ret) ∈ ·)) (fun _ _ _ _ _ e => e.right ▸ by simp)
    fun r => hf r (hp.inf (known_persistent mem_grows))

theorem copyFrom_spec {base : FileId} (n : Nat) : {P : d.Knows} → P.Keeps Calm → (addr : Nat) →
    Spec P (copyFrom base addr n)
      (fun bs => P ⊓ known fun t => bs.length = n ∧ Heard base (addr + ·) bs t) E := by
  induction n
  case zero => exact fun _ _ => .pure fun _ _ hs => ⟨hs, rfl, nofun⟩
  case succ n ih =>
    intro P hp addr
    refine did_spec hp readByte_calm fun b keeps => ?_
    refine .bind (ih keeps (addr + 1)) fun bs => .pure fun t _ hs => ?_
    obtain ⟨⟨hp, hb⟩, hl, heard⟩ := hs
    refine ⟨hp, congrArg (· + 1) hl, fun k hk => ?_⟩
    cases k
    case zero   => exact hb
    case succ k =>
      show ⟨.readByte base (addr + (k + 1)), bs.getD k 0⟩ ∈ t
      rw [Nat.add_comm k 1, ← Nat.add_assoc]
      exact heard k (Nat.lt_of_succ_lt_succ hk)

theorem readRing_spec (hp : P.Keeps Calm) {x : RingReceiver} {cursor len : Nat} :
    Spec P (x.readRing cursor len)
      (fun bs => P ⊓ known fun t => bs.length = len ∧ Heard x.base (x.area.address cursor len) bs t) E := by
  unfold RingReceiver.readRing
  simp only
  refine .bind (M := fun front => P ⊓ known fun t => front.length = x.area.firstLen cursor len ∧
    Heard x.base (x.dataOffset + (cursor &&& x.ringMask) + ·) front t) (copyFrom_spec _ hp _) fun front => ?_
  have heard : (known fun t => front.length = x.area.firstLen cursor len ∧
      Heard x.base (x.dataOffset + (cursor &&& x.ringMask) + ·) front t : d.Knows).Persistent :=
    known_persistent fun h => ⟨h.left, h.right.grows⟩
  have all : x.area.firstLen cursor len ≤ len := Nat.min_le_left ..
  split
  case isTrue lt =>
    refine .bind (M := fun back => P ⊓ _ ⊓ known fun t => back.length = len - x.area.firstLen cursor len ∧
      Heard x.base (x.dataOffset + ·) back t) (copyFrom_spec _ (hp.inf heard) _) fun back => .pure fun t _ hs => ?_
    obtain ⟨⟨hp, hf, front'⟩, hb, back'⟩ := hs
    refine ⟨hp, by rw [List.length_append]; omega, fun k hk => ?_⟩
    rw [List.length_append] at hk
    rcases Nat.lt_or_ge k front.length with lt | ge
    case inl => rw [List.getD_append _ _ _ k lt, Area.address_front (hf ▸ lt)]; exact front' k lt
    case inr =>
      rw [List.getD_append_right _ _ _ k ge, Area.address_back (hf ▸ ge), ← hf]
      exact back' (k - front.length) (by omega)
  case isFalse ge =>
    have ge : ¬ x.area.firstLen cursor len < len := ge
    refine .pure fun t _ ⟨hp, hf, front'⟩ => ⟨hp, by omega, fun k hk => ?_⟩
    rw [Area.address_front (hf ▸ hk)]
    exact front' k hk

-- The header of the record at a cursor.
def header (x : RingReceiver) (cursor : Nat) (v : Nat × Nat) (t : Events) : Prop :=
  ∃ bs : Bytes, bs.length = MSG_HEADER_SIZE ∧ Heard x.base (x.area.address cursor MSG_HEADER_SIZE) bs t ∧
    v.fst = fromLeBytes (bs.getD 0 0) (bs.getD 1 0) (bs.getD 2 0) (bs.getD 3 0) ∧
    v.snd = fromLeBytes (bs.getD 4 0) (bs.getD 5 0) (bs.getD 6 0) (bs.getD 7 0)

theorem header_grows {x : RingReceiver} {cursor : Nat} {v : Nat × Nat} : Grows (header x cursor v) :=
  fun ⟨bs, hl, heard, rest⟩ => ⟨bs, hl, heard.grows, rest⟩

theorem readMsgHeader_spec (hp : P.Keeps Calm) {x : RingReceiver} {cursor : Nat} :
    Spec P (x.readMsgHeader cursor) (fun v => P ⊓ known (header x cursor v)) E :=
  .bind (readRing_spec hp) fun bs => .pure fun _ _ hs => ⟨hs.left, bs, hs.right.left, hs.right.right, rfl, rfl⟩

variable (hd : Lenient d)
include hd

def peeked (h : Handle) : Option PeekedMessage → d.Knows
  | some m => known Untouched ⊓ known (Found h m)
  | none   => known Untouched

theorem peeked_keeps {v : Option PeekedMessage} : (peeked h v : d.Knows).Keeps Calm := by
  cases v
  case none   => exact untouched_keeps hd
  case some m => exact (untouched_keeps hd).inf (known_persistent Found.grows)

omit hd in
theorem peeked_le {v : Option PeekedMessage} : (peeked h v : d.Knows) ≤ known Untouched := by
  cases v
  case none   => exact le_rfl
  case some m => exact fun _ _ hs => hs.left

theorem tryPeekMessage_spec : Spec (known Untouched) (RingReceiver.tryPeekMessage h)
    (fun | .ready m => peeked h (some m) | .empty => known Untouched : TryPeekResult → d.Knows)
    (fun _ => known Untouched) := by
  refine did_spec (untouched_keeps hd) (calm_of_reads (by trivial)) fun self keeps => ?_
  refine .skip keeps (calm_of_reads (by trivial)) fun wc => .skip keeps sub_calm fun available => ?_
  split
  case isTrue => exact .pure fun _ _ hs => hs.left
  refine .bind (readMsgHeader_spec keeps) fun (payloadLen, seq) => ?_
  have keeps := keeps.inf (known_persistent (P := header self self.cachedRc (payloadLen, seq)) header_grows)
  simp only
  split
  case isTrue => exact .throw fun _ _ hs => hs.left.left
  case isFalse fits =>
    refine .skip keeps sub_calm fun available => ?_
    split
    case isTrue => exact .pure fun _ _ hs => hs.left.left
    refine .pure fun t _ hs => ⟨hs.left.left, ?_⟩
    obtain ⟨⟨_, hx⟩, bs, hl, heard, hlen, hseq⟩ := hs
    exact ⟨self, bs, hx, hl, heard, rfl, hlen, hseq, Nat.le_of_not_lt fits⟩

theorem tryPeekOrClosed_spec : Spec (known Untouched) (RingReceiver.tryPeekOrClosed h) (peeked h)
    (fun _ => known Untouched : Error → d.Knows) := by
  have keeps := untouched_keeps hd
  refine .bind (tryPeekMessage_spec hd) fun v => ?_
  cases v
  case ready m => exact .pure le_rfl
  refine .skip keeps (calm_of_reads (by trivial)) fun self =>
    .handle (checkReady_spec hd) (fun _ => .pure le_rfl) fun e => ?_
  simp only
  split
  case isFalse => exact .throw le_rfl
  refine .bind (tryPeekMessage_spec hd) fun v => ?_
  cases v
  case ready m => exact .pure le_rfl
  case empty   => exact .throw le_rfl

theorem waitForMessage_spec {wait : WaitStrategy} {timeout : Option Nat} :
    Spec (known Untouched) (RingReceiver.waitForMessage h wait timeout) (fun m => peeked h (some m))
      (fun _ => known Untouched : Error → d.Knows) := by
  refine .skip (untouched_keeps hd) (calm_of_reads (by trivial)) fun self => ?_
  have waits {a : Act} : Waits self.writerParked a → Calm a := Calm.of_waits (by trivial)
  refine waitUntil_spec ((untouched_keeps hd).mono fun _ => waits) (fun v => (peeked_keeps hd).mono fun _ => waits)
    (fun _ => (untouched_keeps hd).mono fun _ => waits) ⟨tryPeekOrClosed_spec hd, le_rfl, le_rfl⟩

-- The errors of a receiver that looks for a message.

-- The lock of the observer is not about records.
def Locks (d : Discipline Act Act.Ret) : Prop :=
  ∀ {t h e}, d.may t (.lockPeer h) (.error e) → ¬ e.Framing

def refused (h : Handle) (e : Error) : d.Knows :=
  known (Oversize h e)

omit hd in
theorem le_refused {e : Error} (he : ¬ e.Framing) : P ≤ refused h e :=
  fun _ _ _ => .of_framing he

theorem top_keeps : (⊤ : d.Knows).Keeps Calm :=
  Persistent.top.keeps fun ha _ _ => hd ha.runs

theorem tryPeekMessage_refused :
    Spec (⊤ : d.Knows) (RingReceiver.tryPeekMessage h) (fun _ => ⊤ : TryPeekResult → d.Knows) (refused h) := by
  refine did_spec (top_keeps hd) (calm_of_reads (by trivial)) fun self keeps => ?_
  refine .skip keeps (calm_of_reads (by trivial)) fun wc => .skip keeps sub_calm fun available => ?_
  split
  case isTrue => exact .pure fun _ _ _ => trivial
  refine .bind ((readMsgHeader_spec keeps).post (fun _ _ _ hs => hs.left) fun _ => le_rfl) fun (payloadLen, seq) => ?_
  simp only
  split
  case isTrue long => exact .throw fun _ _ hs => .of_mem hs.right long
  refine .skip keeps sub_calm fun available => ?_
  split
  case isTrue  => exact .pure fun _ _ _ => trivial
  case isFalse => exact .pure fun _ _ _ => trivial

variable (hl : Locks d)
include hl

theorem tryPeekOrClosed_refused :
    Spec (⊤ : d.Knows) (RingReceiver.tryPeekOrClosed h) (fun _ => ⊤ : Option PeekedMessage → d.Knows) (refused h) := by
  have keeps : (⊤ : d.Knows).Keeps Act.Ends := Persistent.top.keeps fun ha _ _ => hd ha.plain.runs
  refine .bind (tryPeekMessage_refused hd) fun v => ?_
  cases v
  case ready m => exact .pure le_rfl
  refine .skip (top_keeps hd) (calm_of_reads (by trivial)) fun self => ?_
  refine .handle (checkReady_framing keeps fun e => hl e.left) (fun _ => .pure le_rfl) fun e => ?_
  refine .assume fun he => ?_
  simp only
  split
  case isFalse => exact .throw (le_refused he)
  refine .bind (tryPeekMessage_refused hd) fun v => ?_
  cases v
  case ready m => exact .pure le_rfl
  case empty   => exact .throw (le_refused he)

theorem waitForMessage_refused {wait : WaitStrategy} {timeout : Option Nat} :
    Spec (⊤ : d.Knows) (RingReceiver.waitForMessage h wait timeout) (fun _ => ⊤ : PeekedMessage → d.Knows)
    (refused h) := by
  refine .skip (top_keeps hd) (calm_of_reads (by trivial)) fun self => ?_
  have waits {a : Act} : Waits self.writerParked a → Calm a := Calm.of_waits (by trivial)
  have keeps : (⊤ : d.Knows).Keeps (Waits self.writerParked) := (top_keeps hd).mono fun _ => waits
  refine waitUntil_spec (Q := fun _ => ⊤) keeps (fun _ => keeps) (fun e => ?_)
    ⟨tryPeekOrClosed_refused hd hl, le_rfl, le_refused id⟩
  exact (known_persistent Oversize.grows).keeps fun ha _ _ => hd (waits ha).runs

omit hl

-- Exactly these events since `P` was known.
def past (P : d.Knows) (l : Events) : d.Knows :=
  known fun t => ∃ t₀, P t₀ ∧ t = t₀ ++ l

theorem past_last {a : Act} (ha : ∀ n v, a ≠ .awaitNotified n v) {l : Events} :
    Spec (past P l) (perform a) (fun r => past P (l ++ [⟨a, r⟩])) E := by
  refine .perform (fun _ _ _ => hd ha) fun t r t' _ hp e => ?_
  obtain ⟨t₀, ht, rfl⟩ := hp
  exact ⟨t₀, ht, by rw [e.right, List.append_assoc]⟩

theorem past_spec {a : Act} (ha : ∀ n v, a ≠ .awaitNotified n v) {l : Events} {α : Type} {f : a.Ret → Routine α}
    {M : α → d.Knows}
    (hf : ∀ r, Spec (past P (l ++ [⟨a, r⟩])) (f r) M E) : Spec (past P l) (perform a >>= f) M E :=
  .bind (past_last hd ha) hf

def validated (P : d.Knows) (h : Handle) (seq : Nat) : d.Knows :=
  ex fun x => const (seq = x.expectedSeq) ⊓
    past P [⟨.getReceiver h, x⟩, ⟨.setReceiver h { x with expectedSeq := wrap32 (x.expectedSeq + 1) }, ()⟩]

theorem validateSeq_spec (hp : P.Keeps Calm) {seq : Nat} :
    Spec P (RingReceiver.validateSeq h seq) (fun _ => validated P h seq) (fun e => P ⊓ refused h e) := by
  refine .act (fun x => P ⊓ past P [⟨.getReceiver h, x⟩]) (fun _ hi => hp.ok (calm_of_reads (by trivial)) hi)
    (fun t r t' hi ht e => ⟨hp.kept (calm_of_reads (by trivial)) hi ht e, t, ht, e.right⟩) fun self => ?_
  split
  case isTrue => exact .throw fun _ _ hs => ⟨hs.left, nofun⟩
  case isFalse eq =>
    refine .pre (P := past P [⟨.getReceiver h, self⟩]) ?_ fun _ _ hs => hs.right
    exact (past_last hd (by nofun)).post (fun _ _ _ hs => ⟨self, not_not.mp eq, hs⟩) fun _ => le_rfl

theorem commit_fails (hp : P.Keeps Calm) {m : PeekedMessage} {copied : Option Bytes} :
    Spec P (RingReceiver.commitCurrentMessage h m copied) (fun _ => ⊤) (fun e => P ⊓ refused h e) := by
  refine .bind (validateSeq_spec hd hp) fun _ => plain_spec hd ?_
  refine .act trivial fun self => .act trivial fun _ => .act trivial fun _ => .act trivial fun _ =>
    .act trivial fun parked => ?_
  split
  case isTrue  => exact .perform trivial
  case isFalse => exact .pure

theorem commit_discards (hp : P.Keeps Calm) {m : PeekedMessage} :
    Spec P (RingReceiver.commitCurrentMessage h m none)
      (fun _ => ex fun v : RingReceiver × RingReceiver × Nat × Nat => const (m.seq = v.1.expectedSeq) ⊓
        past P (discarding h m v.1 v.2.1 v.2.2.1 v.2.2.2))
      (fun e => P ⊓ refused h e) := by
  refine .bind (validateSeq_spec hd hp) fun _ => .ex fun x => .pre (P := past P _ ⊓ const _) (.assume fun eq => ?_)
    fun _ _ hs => ⟨hs.right, hs.left⟩
  refine past_spec hd (by nofun) fun y => past_spec hd (by nofun) fun _ => past_spec hd (by nofun) fun _ =>
    past_spec hd (by nofun) fun n => ?_
  refine past_spec hd (by nofun) fun parked => ?_
  split
  case isTrue woken =>
    refine (past_last hd (by nofun)).post (fun _ _ _ hs => ⟨(x, y, n, parked), eq, ?_⟩) fun _ => le_rfl
    simpa [discarding, woken] using hs
  case isFalse idle => exact .pure fun _ _ hs => ⟨(x, y, n, parked), eq, by simpa [discarding, idle] using hs⟩

omit hd in
theorem copy_spec (hp : P.Keeps Calm) {m : PeekedMessage} :
    Spec P (RingReceiver.copyCurrentMessage h m m.payloadLen) (fun _ => P) E := by
  unfold RingReceiver.copyCurrentMessage
  rw [if_neg (Nat.lt_irrefl _)]
  refine .skip hp (calm_of_reads (by trivial)) fun self =>
    (readRing_spec hp).post (fun _ _ _ hs => hs.left) fun _ => le_rfl

theorem takeMessage_spec {m : PeekedMessage} : Spec (known Untouched) (RingReceiver.takeMessage h m)
    (fun _ => ⊤ : Bytes → d.Knows) (fun _ => known Untouched) := by
  have keeps := untouched_keeps hd
  exact .bind (copy_spec keeps) fun bs => .bind ((commit_fails hd keeps).post (fun _ => le_rfl) fun _ _ _ hs => hs.left)
    fun _ => .pure fun _ _ _ => trivial

-- A receive into the buffer of the caller that fails has left the record where it is, or it has discarded it,
-- and only the second answers that a message is too large that fits into the ring.
def Ended (h : Handle) (e : Error) (t : Events) : Prop :=
  Uncommitted t ∧ Oversize h e t ∨ Discarded h e t

theorem takeMessageInto_spec {m : PeekedMessage} : Spec (peeked h (some m)) (RingReceiver.takeMessageInto h m)
    (fun _ => ⊤ : Nat → d.Knows) (fun e => known (Ended h e)) := by
  refine did_spec (peeked_keeps hd) (calm_of_reads (by trivial)) fun b keeps => ?_
  split
  case isTrue lt =>
    refine .bind ((commit_discards hd keeps).post (fun _ => le_rfl) fun _ _ _ hs => ?_) fun _ => ?_
    · exact .inl ⟨hs.left.left.left.toUncommitted, hs.right⟩
    refine .throw fun t _ hs => .inr ?_
    obtain ⟨⟨x, y, n, parked⟩, eq, t₀, before, ht⟩ := hs
    exact ⟨m, b, x, y, n, parked, rfl, eq, t₀, ⟨before.left.left, before.left.right, before.right, lt⟩, ht⟩
  case isFalse =>
    refine .bind (copy_spec keeps) fun bs => ?_
    refine .act (fun _ => known Uncommitted) (fun _ _ _ => hd (by nofun)) (fun t r t' _ hs e => ?_) fun _ => ?_
    · have before : Uncommitted t := hs.left.left.toUncommitted
      exact e.right ▸ Uncommitted.same (before.toSilent.snoc id (by nofun)) rfl (fun _ => rfl) before
    refine .bind ((commit_fails hd (uncommitted_keeps hd)).post (fun _ => le_rfl) fun _ _ _ => .inl) fun _ => ?_
    exact .pure fun _ _ _ => trivial

theorem tryRecv_spec : Spec (known Untouched) (RingReceiver.tryRecv h) (fun _ => ⊤ : Option Bytes → d.Knows)
    (fun _ => known Untouched) := by
  refine .bind (tryPeekOrClosed_spec hd) fun v => ?_
  cases v
  case none   => exact .pure fun _ _ _ => trivial
  case some m => exact .pre (.bind (takeMessage_spec hd) fun _ => .pure fun _ _ _ => trivial) peeked_le

theorem recv_spec {wait : WaitStrategy} {timeout : Option Nat} : Spec (known Untouched)
    (RingReceiver.recv h wait timeout) (fun _ => ⊤ : Bytes → d.Knows) (fun _ => known Untouched) :=
  .bind (waitForMessage_spec hd) fun _ => .pre (takeMessage_spec hd) peeked_le

include hl in
theorem recvInto_spec {wait : WaitStrategy} {timeout : Option Nat} : Spec (known Untouched)
    (RingReceiver.recvInto h wait timeout) (fun _ => ⊤ : Nat → d.Knows) (fun e => known (Ended h e)) := by
  have waits : Spec (known Untouched : d.Knows) (RingReceiver.waitForMessage h wait timeout) _ _ :=
    waitForMessage_spec hd
  refine .bind (((waits.both (waitForMessage_refused hd hl)).pre fun _ _ hs => ⟨hs, trivial⟩).post (fun _ => le_rfl)
    fun _ _ _ hs => ?_) fun _ => ?_
  · exact .inl ⟨hs.left.toUncommitted, hs.right⟩
  · exact (takeMessageInto_spec hd).pre fun _ _ hs => hs.left

end
end Commit
