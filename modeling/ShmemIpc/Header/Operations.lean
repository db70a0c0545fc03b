import ShmemIpc.Header.Open
import ShmemIpc.Execution.Operation
import ShmemIpc.Execution.Waiting

-- Every operation on a channel reports the terminal state that the channel has.
namespace Header

open Assertion Channels Code Effects

section
variable {plat : Platform} {i : ThreadId} {α β ς : Type} {P : Assertion (headerProtocol plat) i}
variable {h : Handle} {x : SharedChannel} {b : FileId}

-- Code that keeps what is known, and whose terminal errors are those of the channel in `b`.
def Reports (P : Assertion (headerProtocol plat) i) (b : FileId) (p : Routine α) : Prop :=
  Spec P p (fun _ => P) (fun e => P ⊓ blames b e)

namespace Reports

theorem pure {y : α} : Reports P b (Pure.pure y) :=
  Spec.pure le_rfl

theorem throw {e : Error} (h : ¬ e.Terminal) : Reports P b (fail e : Routine α) :=
  Spec.throw fun _ _ hs => ⟨hs, blames_of_not_terminal h⟩

theorem only (hp : P.Persistent) {p : Routine α} (h : Code.Only Plain (¬ Error.Terminal ·) p) :
    Reports P b p :=
  (only_plain hp h).post (fun _ => le_rfl) fun _ _ _ hs => ⟨hs.left, blames_of_not_terminal hs.right⟩

theorem bind {p : Routine α} {f : α → Routine β} (hp : Reports P b p) (hf : ∀ y, Reports P b (f y)) :
    Reports P b (p >>= f) :=
  Spec.bind hp hf

theorem act (hp : P.Persistent) {a : Act} (ha : Plain a) {f : a.Ret → Routine α}
    (hf : ∀ r, Reports P b (f r)) : Reports P b (perform a >>= f) :=
  plain hp ha hf

theorem loop {body : ς → Routine (ς ⊕ α)} {y : ς} (hb : ∀ y, Reports P b (body y)) :
    Reports P b (Code.loop body y) := by
  refine Spec.loop (fun _ => P) le_rfl fun y => (hb y).post (fun v => ?_) fun _ => le_rfl
  cases v <;> exact le_rfl

-- An error that is caught and thrown again, after some other steps, is still the one of the channel.
theorem handle {p : Routine α} {f : Except Error α → Routine β} (hp : Reports P b p)
    (ok : ∀ y, Reports P b (f (.ok y)))
    (error : ∀ e, Spec (P ⊓ blames b e) (f (.error e)) (fun _ => P) (fun e => P ⊓ blames b e)) :
    Reports P b (Code.attempt p >>= f) :=
  Spec.handle hp ok error

theorem rethrow {e : Error} :
    Spec (P ⊓ blames b e) (fail e : Routine α) (fun _ => P) (fun e => P ⊓ blames b e) :=
  Spec.throw le_rfl

end Reports

-- The halves of a channel whose handle is known.
def owns (h : Handle) (x : SharedChannel) : Assertion (headerProtocol plat) i :=
  knows h x ⊓ built h

theorem owns_persistent : (owns h x : Assertion (headerProtocol plat) i).Persistent :=
  knows_persistent.inf fact_persistent

theorem checkReady_reports : Reports (owns h x : Assertion (headerProtocol plat) i) x.base
    (SharedChannel.checkReady h) :=
  (checkReady_spec owns_persistent fun _ _ hs => hs.left).post (fun _ _ _ hs => hs.left) fun _ => le_rfl

theorem getSender_reports {f : RingSender → Routine α}
    (hf : ∀ y : RingSender, y.shared = h → Reports (owns h x : Assertion (headerProtocol plat) i) b (f y)) :
    Reports (owns h x : Assertion (headerProtocol plat) i) b (getSender h >>= f) := by
  refine Spec.learn (a := .getSender h) (keeps_plain owns_persistent) (fun _ _ => trivial) (fun _ => ⊤)
    (fun y => y.shared = h) ?_ fun y hy => Spec.pre (hf y hy) fun _ _ hs => hs.left
  rintro s y _ _ hs ⟨⟨rfl, _⟩, _⟩
  exact ⟨trivial, hs.right.sender⟩

theorem getReceiver_reports {f : RingReceiver → Routine α}
    (hf : ∀ y : RingReceiver, y.shared = h → Reports (owns h x : Assertion (headerProtocol plat) i) b (f y)) :
    Reports (owns h x : Assertion (headerProtocol plat) i) b (getReceiver h >>= f) := by
  refine Spec.learn (a := .getReceiver h) (keeps_plain owns_persistent) (fun _ _ => trivial) (fun _ => ⊤)
    (fun y => y.shared = h) ?_ fun y hy => Spec.pre (hf y hy) fun _ _ hs => hs.left
  rintro s y _ _ hs ⟨⟨rfl, _⟩, _⟩
  exact ⟨trivial, hs.right.receiver⟩

-- Waiting for a condition.

theorem waits_plain {w : Word} (hw : w.IsParked) {a : Act} (ha : Waiting.Waits w a) : Plain a := by
  cases a
  case store w' v note =>
    obtain ⟨rfl, rfl⟩ := ha
    exact plain_of_signals ⟨hw, rfl⟩
  all_goals first | exact ha.elim | exact fun _ _ => trivial

theorem waitUntil_reports (hp : P.Persistent) {wait : WaitStrategy} {w : WaitHandle}
    {notify parked : Word} {timeout : Option Nat} {condition : Routine (Option α)}
    (hw : parked.IsParked) (hc : Reports P b condition) :
    Reports P b (wait.waitUntil w notify parked timeout condition) := by
  have keeps {Q : Assertion (headerProtocol plat) i} (hq : Q.Persistent) : Q.Keeps (Waiting.Waits parked) :=
    (keeps_plain hq).mono fun _ => waits_plain hw
  refine Waiting.waitUntil_spec (Q := fun _ => P) (keeps hp) (fun _ => keeps hp) (fun e => ?_) ⟨hc, le_rfl, ?_⟩
  · exact keeps (hp.inf fact_persistent)
  · exact fun _ _ hs => ⟨hs, trivial⟩

-- The sender.

theorem copyTo_plain {base : FileId} {F : Error → Prop} :
    (addr : Nat) → (bytes : Bytes) → Code.Only Plain F (copyTo base addr bytes)
  | _, []     => .pure
  | _, _ :: _ => .act (fun _ _ => trivial) fun _ => copyTo_plain _ _

theorem writeRing_plain {y : RingSender} {cursor : Nat} {data : Bytes} {F : Error → Prop} :
    Code.Only Plain F (y.writeRing cursor data) := by
  refine .bind (copyTo_plain _ _) fun _ => ?_
  split
  case isTrue  => exact copyTo_plain _ _
  case isFalse => exact .pure

theorem messageSize_plain {y : RingSender} {n : Nat} :
    Code.Only Plain (¬ Error.Terminal ·) (y.messageSize n) := by
  unfold RingSender.messageSize
  simp only
  split
  case isTrue  => exact .throw id
  case isFalse => exact .pure

theorem hasSpace_plain {y : RingSender} {wc n : Nat} {F : Error → Prop} :
    Code.Only Plain F (y.hasSpace wc n) :=
  .act (fun _ _ => trivial) fun _ => .act (fun _ _ => trivial) fun _ => .pure

theorem publishMessage_reports {wc : Nat} {payload : Bytes} :
    Reports (owns h x : Assertion (headerProtocol plat) i) b (RingSender.publishMessage h wc payload) := by
  have hp : (owns h x : Assertion (headerProtocol plat) i).Persistent := owns_persistent
  refine getSender_reports fun y hy => ?_
  refine .bind (.only hp writeRing_plain) fun _ => .bind (.only hp writeRing_plain) fun _ => ?_
  refine .bind (.only hp writeRing_plain) fun _ => .act hp (fun _ _ => by trivial) fun _ => ?_
  refine .act hp (fun _ _ => by exact hy) fun _ => .act hp (fun _ _ => by exact hy) fun _ => ?_
  refine .act hp (fun _ _ => by trivial) fun _ => .act hp (fun _ _ => by trivial) fun parked => ?_
  split
  case isTrue  => exact .only hp (.perform fun _ _ => by trivial)
  case isFalse => exact .pure

theorem trySendOnce_reports {payload : Bytes} :
    Reports (owns h x : Assertion (headerProtocol plat) i) x.base (RingSender.trySendOnce h payload) := by
  have hp : (owns h x : Assertion (headerProtocol plat) i).Persistent := owns_persistent
  refine getSender_reports fun y hy => ?_
  obtain rfl := hy
  refine .bind checkReady_reports fun ready => ?_
  cases ready
  case false => exact .pure
  case true =>
    refine .bind (.only hp messageSize_plain) fun n => .bind (.only hp hasSpace_plain) fun space => ?_
    cases space
    case true => exact .bind publishMessage_reports fun _ => .pure
    case false =>
      refine .act hp (fun _ _ => by trivial) fun rc => .act hp (fun _ _ => by rfl) fun _ => ?_
      refine .bind (.only hp hasSpace_plain) fun space => ?_
      cases space
      case true  => exact .bind publishMessage_reports fun _ => .pure
      case false => exact .pure

theorem spaceCondition_reports {y : RingSender} {wc n : Nat} :
    Reports (owns y.shared x : Assertion (headerProtocol plat) i) x.base (y.spaceCondition wc n) := by
  have hp : (owns y.shared x : Assertion (headerProtocol plat) i).Persistent := owns_persistent
  refine .bind checkReady_reports fun ready => ?_
  cases ready
  case false => exact .pure
  case true =>
    refine .act hp (fun _ _ => by trivial) fun rc => .act hp (fun _ _ => by trivial) fun used => ?_
    refine .act hp (fun _ _ => by trivial) fun free => ?_
    split
    case isTrue  => exact .pure
    case isFalse => exact .pure

-- What `send` does when its message does not fit in, and then the rest.
theorem awaitSpace_reports {wait : WaitStrategy} {n : Nat} {deadline : Option Nat} {rest : Routine α}
    (hr : Reports (owns h x : Assertion (headerProtocol plat) i) x.base rest) :
    Reports (owns h x : Assertion (headerProtocol plat) i) x.base (do
      let self ← getSender h
      let remaining ← RingSender.remainingUntil deadline
      let newRc ← wait.waitUntil self.readerWait self.readerNotify self.readerParked remaining
        (RingSender.spaceCondition self self.cachedWc n)
      setSender h { self with cachedRc := newRc }
      rest) := by
  have hp : (owns h x : Assertion (headerProtocol plat) i).Persistent := owns_persistent
  refine getSender_reports fun y hy => ?_
  obtain rfl := hy
  refine .bind (.only hp (now_plain remainingUntil_now)) fun remaining => ?_
  refine .bind (waitUntil_reports hp trivial spaceCondition_reports) fun rc => ?_
  exact .act hp (fun _ _ => by rfl) fun _ => hr

theorem send_reports {payload : Bytes} {wait : WaitStrategy} {timeout : Option Nat} :
    Reports (owns h x : Assertion (headerProtocol plat) i) x.base (RingSender.send h payload wait timeout) := by
  have hp : (owns h x : Assertion (headerProtocol plat) i).Persistent := owns_persistent
  refine getSender_reports fun y hy => .bind (.only hp messageSize_plain) fun n => ?_
  refine .bind (.only hp (now_plain deadlineOf_now)) fun deadline => .loop fun _ =>
    .bind trySendOnce_reports fun r => ?_
  cases r
  case sent => exact .pure
  case full => exact awaitSpace_reports .pure

-- The receiver.

theorem copyFrom_plain {base : FileId} {F : Error → Prop} :
    (addr : Nat) → (n : Nat) → Code.Only Plain F (copyFrom base addr n)
  | _, 0     => .pure
  | _, _ + 1 => .act (fun _ _ => trivial) fun _ => .bind (copyFrom_plain _ _) fun _ => .pure

theorem readRing_plain {y : RingReceiver} {cursor n : Nat} {F : Error → Prop} :
    Code.Only Plain F (y.readRing cursor n) := by
  refine .bind (copyFrom_plain _ _) fun _ => ?_
  split
  case isTrue  => exact .bind (copyFrom_plain _ _) fun _ => .pure
  case isFalse => exact .pure

theorem tryPeekMessage_plain : Code.Only Plain (¬ Error.Terminal ·) (RingReceiver.tryPeekMessage h) := by
  refine .act (fun _ _ => trivial) fun y => .act (fun _ _ => trivial) fun wc => ?_
  refine .act (fun _ _ => trivial) fun available => ?_
  split
  case isTrue => exact .pure
  refine .bind (.bind readRing_plain fun _ => .pure) fun r => ?_
  simp only
  split
  case isTrue => exact .throw id
  refine .act (fun _ _ => trivial) fun available => ?_
  split
  case isTrue  => exact .pure
  case isFalse => exact .pure

theorem tryPeekOrClosed_reports :
    Reports (owns h x : Assertion (headerProtocol plat) i) x.base (RingReceiver.tryPeekOrClosed h) := by
  have hp : (owns h x : Assertion (headerProtocol plat) i).Persistent := owns_persistent
  refine .bind (.only hp tryPeekMessage_plain) fun r => ?_
  cases r
  case ready m => exact .pure
  case empty =>
    refine getReceiver_reports fun y hy => ?_
    obtain rfl := hy
    refine .handle checkReady_reports (fun _ => .pure) fun e => ?_
    simp only
    split
    case isFalse => exact Reports.rethrow
    case isTrue =>
      have hp' := hp.inf (fact_persistent (P := Blames x.base e) (h := Blames.stays))
      refine .pass (keeps_plain hp') tryPeekMessage_plain (fun e' he => ?_) fun r => ?_
      · exact fun _ _ hs => ⟨hs.left, blames_of_not_terminal he⟩
      · cases r
        case ready m => exact .pure fun _ _ hs => hs.left
        case empty   => exact Reports.rethrow

theorem copyCurrentMessage_plain {m : PeekedMessage} {n : Nat} :
    Code.Only Plain (¬ Error.Terminal ·) (RingReceiver.copyCurrentMessage h m n) := by
  unfold RingReceiver.copyCurrentMessage
  split
  case isTrue  => exact .throw id
  case isFalse => exact .act (fun _ _ => trivial) fun _ => readRing_plain

theorem commitCurrentMessage_reports {m : PeekedMessage} {copied : Option Bytes} :
    Reports (owns h x : Assertion (headerProtocol plat) i) b
      (RingReceiver.commitCurrentMessage h m copied) := by
  have hp : (owns h x : Assertion (headerProtocol plat) i).Persistent := owns_persistent
  have validate : Reports (owns h x : Assertion (headerProtocol plat) i) b
      (RingReceiver.validateSeq h m.seq) := by
    refine getReceiver_reports fun y hy => ?_
    split
    case isTrue  => exact .throw id
    case isFalse => exact .only hp (.perform fun _ _ => by exact hy)
  refine .bind validate fun _ => getReceiver_reports fun y hy => .act hp (fun _ _ => by trivial) fun _ => ?_
  refine .act hp (fun _ _ => by exact hy) fun _ => .act hp (fun _ _ => by trivial) fun _ => ?_
  refine .act hp (fun _ _ => by trivial) fun parked => ?_
  split
  case isTrue  => exact .only hp (.perform fun _ _ => by trivial)
  case isFalse => exact .pure

theorem takeMessage_reports {m : PeekedMessage} :
    Reports (owns h x : Assertion (headerProtocol plat) i) b (RingReceiver.takeMessage h m) :=
  .bind (.only owns_persistent copyCurrentMessage_plain) fun _ =>
  .bind commitCurrentMessage_reports fun _ => .pure

theorem takeMessageInto_reports {m : PeekedMessage} :
    Reports (owns h x : Assertion (headerProtocol plat) i) b (RingReceiver.takeMessageInto h m) := by
  have hp : (owns h x : Assertion (headerProtocol plat) i).Persistent := owns_persistent
  refine .act hp (fun _ _ => by trivial) fun buf => ?_
  split
  case isTrue => exact .bind commitCurrentMessage_reports fun _ => .throw id
  case isFalse =>
    refine .bind (.only hp copyCurrentMessage_plain) fun bytes => .act hp (fun _ _ => by trivial) fun _ => ?_
    exact .bind commitCurrentMessage_reports fun _ => .pure

theorem waitForMessage_reports {wait : WaitStrategy} {timeout : Option Nat} :
    Reports (owns h x : Assertion (headerProtocol plat) i) x.base
      (RingReceiver.waitForMessage h wait timeout) :=
  getReceiver_reports fun _ _ =>
    waitUntil_reports owns_persistent trivial tryPeekOrClosed_reports

theorem recv_reports {wait : WaitStrategy} {timeout : Option Nat} :
    Reports (owns h x : Assertion (headerProtocol plat) i) x.base (RingReceiver.recv h wait timeout) :=
  .bind waitForMessage_reports fun _ => takeMessage_reports

theorem recvInto_reports {wait : WaitStrategy} {timeout : Option Nat} :
    Reports (owns h x : Assertion (headerProtocol plat) i) x.base (RingReceiver.recvInto h wait timeout) :=
  .bind waitForMessage_reports fun _ => takeMessageInto_reports

theorem tryRecv_reports :
    Reports (owns h x : Assertion (headerProtocol plat) i) x.base (RingReceiver.tryRecv h) := by
  refine .bind tryPeekOrClosed_reports fun v => ?_
  cases v
  case none   => exact .pure
  case some m => exact .bind takeMessage_reports fun _ => .pure

-- The asynchronous operations.

variable {wait : AsyncWait}

theorem spinSend_reports {payload : Bytes} :
    (n : Nat) → Reports (owns h x : Assertion (headerProtocol plat) i) x.base (Tokio.spinSend h payload n)
  | 0     => trySendOnce_reports
  | n + 1 => by
    refine .bind trySendOnce_reports fun r => ?_
    cases r
    case sent => exact .pure
    case full => exact spinSend_reports n

theorem spinPeekOrClosed_reports :
    (n : Nat) → Reports (owns h x : Assertion (headerProtocol plat) i) x.base (Tokio.spinPeekOrClosed h n)
  | 0     => tryPeekOrClosed_reports
  | n + 1 => by
    refine .bind tryPeekOrClosed_reports fun v => ?_
    cases v
    case some => exact .pure
    case none => exact spinPeekOrClosed_reports n

theorem sendAsync_reports {payload : Bytes} :
    Reports (owns h x : Assertion (headerProtocol plat) i) x.base (Tokio.sendAsync h wait payload) := by
  have hp : (owns h x : Assertion (headerProtocol plat) i).Persistent := owns_persistent
  refine .loop fun _ => .bind (spinSend_reports _) fun r => ?_
  cases r
  case sent => exact .pure
  case full =>
    refine .bind (.only hp (signals_plain (snapshot_signals.mono fun _ h => h.left))) fun observed =>
      .bind (spinSend_reports _) fun r => ?_
    cases r
    case sent => exact .pure
    case full => exact .bind (.only hp (signals_plain (waitChanged_signals.mono fun _ h => h.left))) fun _ => .pure

theorem peekAsync_reports :
    Reports (owns h x : Assertion (headerProtocol plat) i) x.base (Tokio.peekAsync h wait) := by
  have hp : (owns h x : Assertion (headerProtocol plat) i).Persistent := owns_persistent
  refine .loop fun _ => .bind (spinPeekOrClosed_reports _) fun v => ?_
  cases v
  case some => exact .pure
  case none =>
    refine .bind (.only hp (signals_plain (snapshot_signals.mono fun _ h => h.left))) fun observed =>
      .bind (spinPeekOrClosed_reports _) fun v => ?_
    cases v
    case some => exact .pure
    case none => exact .bind (.only hp (signals_plain (waitChanged_signals.mono fun _ h => h.left))) fun _ => .pure

theorem recvAsync_reports :
    Reports (owns h x : Assertion (headerProtocol plat) i) x.base (Tokio.recvAsync h wait) :=
  .bind peekAsync_reports fun _ => takeMessage_reports

theorem recvIntoAsync_reports :
    Reports (owns h x : Assertion (headerProtocol plat) i) x.base (Tokio.recvIntoAsync h wait) :=
  .bind peekAsync_reports fun _ => takeMessageInto_reports

theorem drainReadyWithSpin_reports {max spin : Nat} :
    Reports (owns h x : Assertion (headerProtocol plat) i) x.base (Tokio.drainReadyWithSpin h max spin) := by
  have hp : (owns h x : Assertion (headerProtocol plat) i).Persistent := owns_persistent
  refine .act hp (fun _ _ => by trivial) fun start => .bind (.loop fun _ => ?_) fun _ => ?_
  · refine .act hp (fun _ _ => by trivial) fun out => ?_
    split
    case isFalse => exact .pure
    case isTrue =>
      refine .handle (spinPeekOrClosed_reports _) (fun v => ?_) fun e => ?_
      · cases v
        case none   => exact .pure
        case some m => exact .bind takeMessage_reports fun _ => .act hp (fun _ _ => by trivial) fun _ => .pure
      · simp only
        split
        case isTrue  => exact .pure fun _ _ hs => hs.left
        case isFalse => exact Reports.rethrow
  · exact .act hp (fun _ _ => by trivial) fun _ => .pure

theorem recvManyAsync_reports {max : Nat} :
    Reports (owns h x : Assertion (headerProtocol plat) i) x.base (Tokio.recvManyAsync h wait max) := by
  have hp : (owns h x : Assertion (headerProtocol plat) i).Persistent := owns_persistent
  unfold Tokio.recvManyAsync
  split
  case isTrue => exact .pure
  refine .loop fun _ => .bind drainReadyWithSpin_reports fun drained => ?_
  split
  case isTrue => exact .pure
  refine .bind (.only hp (signals_plain (snapshot_signals.mono fun _ h => h.left))) fun observed =>
    .bind drainReadyWithSpin_reports fun drained => ?_
  split
  case isTrue  => exact .pure
  case isFalse => exact .bind (.only hp (signals_plain (waitChanged_signals.mono fun _ h => h.left))) fun _ => .pure

theorem drop_spec (hp : P.Persistent) (hk : P ≤ knows h x) :
    Spec P (SharedChannel.drop h) (fun _ => P ⊓ atLeast x.base 4) (fun _ => .const False) := by
  have hp' : (P ⊓ atLeast x.base 4).Persistent := hp.inf fact_persistent
  refine finish_then (.inl rfl) hp hk (getShared_spec hp' (fun s hi hs => hk s hi hs.left) ?_)
  refine .bind (M := fun _ => P ⊓ atLeast x.base 4) ?_ fun remove => ?_
  · exact (only_plain (F := fun _ => False) hp' (reads_plain removeOnDrop_reads)).post (fun _ => le_rfl)
      fun _ _ _ hs => hs.right
  · refine plain hp' (fun _ _ => by trivial) fun _ => ?_
    cases remove
    case false => exact .pure le_rfl
    case true  => exact plain hp' (fun _ _ => by trivial) fun _ => .pure le_rfl

end
end Header
