import ShmemIpc.Library.Unroll
import ShmemIpc.Execution.Solo
import ShmemIpc.Ring.Run

open Ring

namespace RingSender

-- `send` where its message does not fit in.
def awaitSpace (h : Handle) (wait : WaitStrategy) (msgLen : Nat) (deadline : Option Nat) : Routine Unit := do
  let self ← getSender h
  let remaining ← remainingUntil deadline
  let newRc ← wait.waitUntil self.readerWait self.readerNotify self.readerParked remaining
    (spaceCondition self self.cachedWc msgLen)
  setSender h { self with cachedRc := newRc }

-- The loop of `send`.
def sendLoop (h : Handle) (payload : Bytes) (wait : WaitStrategy) (msgLen : Nat) (deadline : Option Nat) :
    Routine Unit :=
  Code.loop (fun (_ : Unit) => do
    match ← trySendOnce h payload with
    | .sent => pure (.inr ())
    | .full => do
      awaitSpace h wait msgLen deadline
      pure (.inl ())) ()

-- `send` up to the answer of its second `try_send_once`, or of the first one if that has sent the message. The
-- other answers are for the rest of the code.
def sendTwice (h : Handle) (payload : Bytes) (wait : WaitStrategy) (timeout : Option Nat) :
    Routine (TrySendResult × Nat × Option Nat) := do
  let self ← getSender h
  let msgLen ← messageSize self payload.length
  let deadline ← deadlineOf timeout
  match ← trySendOnce h payload with
  | .sent => pure (.sent, msgLen, deadline)
  | .full => do
    awaitSpace h wait msgLen deadline
    let last ← trySendOnce h payload
    pure (last, msgLen, deadline)

def sendRest (h : Handle) (payload : Bytes) (wait : WaitStrategy) : TrySendResult × Nat × Option Nat → Routine Unit
  | (.sent, _)                => pure ()
  | (.full, msgLen, deadline) => do
    awaitSpace h wait msgLen deadline
    sendLoop h payload wait msgLen deadline

variable {h : Handle} {payload : Bytes} {wait : WaitStrategy} {timeout deadline : Option Nat} {msgLen : Nat}

theorem awaitSpace_bind {α : Type} {rest : Routine α} : (do
      awaitSpace h wait msgLen deadline
      rest) = (do
      let self ← getSender h
      let remaining ← remainingUntil deadline
      let newRc ← wait.waitUntil self.readerWait self.readerNotify self.readerParked remaining
        (spaceCondition self self.cachedWc msgLen)
      setSender h { self with cachedRc := newRc }
      rest) := by
  simp only [awaitSpace, Code.bind_assoc]

theorem send_eq : send h payload wait timeout = (do
    let self ← getSender h
    let msgLen ← messageSize self payload.length
    let deadline ← deadlineOf timeout
    sendLoop h payload wait msgLen deadline) := by
  simp only [sendLoop, awaitSpace_bind]
  rfl

theorem sendLoop_unrolls {rest : Routine Unit} (hr : (sendLoop h payload wait msgLen deadline).Unrolls rest) :
    (sendLoop h payload wait msgLen deadline).Unrolls (do
      match ← trySendOnce h payload with
      | .sent => pure ()
      | .full => do
        awaitSpace h wait msgLen deadline
        rest) := by
  have turn : (sendLoop h payload wait msgLen deadline).Unrolls (_ >>= Sum.elim (fun _ => rest) pure) :=
    .loop (fun _ => hr) fun _ => .refl
  rw [Code.bind_assoc] at turn
  refine cast (congrArg (Code.Unrolls _) ?_) turn
  refine congrArg (trySendOnce h payload >>= ·) (funext fun v => ?_)
  cases v
  case sent => rfl
  case full => exact Code.bind_assoc

theorem sendTwice_unrolls :
    (send h payload wait timeout).Unrolls (sendTwice h payload wait timeout >>= sendRest h payload wait) := by
  rw [send_eq]
  simp only [sendTwice, Code.bind_assoc]
  refine .bind fun self => .bind fun msgLen => .bind fun deadline => ?_
  refine cast (congrArg (Code.Unrolls _) ?_) (sendLoop_unrolls (sendLoop_unrolls .refl))
  refine congrArg (trySendOnce h payload >>= ·) (funext fun v => ?_)
  cases v
  case sent => rfl
  case full =>
    refine .trans ?_ Code.bind_assoc.symm
    refine congrArg (awaitSpace h wait msgLen deadline >>= ·) (funext fun _ => .trans ?_ Code.bind_assoc.symm)
    refine congrArg (trySendOnce h payload >>= ·) (funext fun v => ?_)
    cases v <;> rfl

end RingSender

namespace Link

-- What `try_send_once` does from the state `s`, where the read cursor of the receiver has its present value.
structure Exact (L : Link) (s : State) (p : Bytes) (v : Except Error TrySendResult) (s' : World) : Prop where
  uncached : v = RingSender.uncached L.size (wrapSub64 (L.ring s).wc (L.ring s).rc) p.length
  sent     : v = .ok .sent ↔ MSG_HEADER_SIZE + p.length ≤ L.size - wrapSub64 (L.ring s).wc (L.ring s).rc
  large    : (∃ n m, v = .error (.messageTooLarge n m)) ↔ L.size < MSG_HEADER_SIZE + p.length
  word     : v = .ok .full → s'.word = s.fst.word
  byte     : v = .ok .full → s'.byte = s.fst.byte
  drained  : (L.ring s).received.length = (L.ring s).sent.length → p.length ≤ L.size - MSG_HEADER_SIZE → v = .ok .sent

section
variable {L : Link} {plat : Platform} {c : L.system.Config} {s : State}

theorem Inv.lags (h : L.Inv (L.ring s)) (synced : (L.ring s).sender.cachedWc = (L.ring s).wc) :
    ∃ y, s.fst.sender L.hs = y ∧ y.shared = L.hs ∧ y.ringDataSize = L.size ∧
      y.used s.fst = wrapSub64 (L.ring s).wc (L.ring s).rc ∧ y.Lags s.fst := by
  obtain ⟨n, w, r, hs⟩ := h.sender
  obtain ⟨old, fresh, below, room⟩ := h.room
  have small := L.size_lt
  have wc : w = wrap64 (total (L.ring s).sent) := by
    rw [hs] at synced
    exact synced.trans h.wc
  have rc : (L.ring s).sender.cachedRc = r := by rw [hs]; rfl
  have taken := taken_le (v := L.ring s)
  have used : (L.sender n w r).used s.fst = wrapSub64 (L.ring s).wc (L.ring s).rc := by
    show wrapSub64 w (s.fst.word (L.sender n w r).readCursor) = _
    rw [wc, sender_readCursor, h.wc]
    rfl
  refine ⟨L.sender n w r, hs, sender_shared, sender_ringDataSize, used, ?_, ?_, sender_ringDataSize ▸ small⟩
  · show _ ≤ wrapSub64 w r
    rw [used, h.wc, h.rc, wc, ← rc, fresh, wrapSub64_wrap64 taken (by omega), wrapSub64_wrap64 (by omega) (by omega)]
    omega
  · show wrapSub64 w r ≤ _
    rw [wc, ← rc, fresh, wrapSub64_wrap64 (by omega) (by omega), sender_ringDataSize]
    omega

theorem Inv.named (h : L.Inv (L.ring s)) (connected : s.fst.word L.xs.stateWord = ChannelState.connected.toU32) :
    (s.fst.published L.xs).pid ≠ 0 := by
  unfold World.published
  cases L.xs.role
  case server => exact h.client connected
  case client => exact h.server

-- With no other step during the call.
theorem trySendOnce_exact (h : L.system.Reachable (machine plat) c) (idle : c.thr L.tx = none)
    (hl : c.mem.fst.Live L.hs L.xs) (hu : c.mem.fst.Unlocked L.hs) {p : Bytes} :
    Code.Alone (soundMachine plat) L.tx (RingSender.trySendOnce L.hs p) c.mem.fst (L.Exact c.mem p) := by
  have hi := inv_of_reachable h
  have synced : (L.ring c.mem).sender.cachedWc = (L.ring c.mem).wc := by
    obtain ⟨ps, r, hs, _⟩ := (idle_of_reachable h idle).left rfl
    rw [hs.sender, hi.wc, hs.sent]
    rfl
  obtain ⟨y, hy, shared, size, used, lags⟩ := hi.lags synced
  refine (Solo.trySendOnce_alone hl hu (hi.named hl.connected) hy shared lags).mono fun v s' hv => ?_
  rw [size, used] at hv
  have answer := hv.answer
  refine ⟨answer, ?_, ?_, ?_, ?_, fun drained short => ?_⟩
  · rw [answer, RingSender.uncached_sent_iff]
  · rw [answer, RingSender.uncached_large_iff]
  · rintro rfl
    exact hv.word nofun
  · rintro rfl
    exact hv.byte nofun
  · have taken : (L.ring c.mem).taken = total (L.ring c.mem).sent := by
      rw [RingState.taken, drained, List.take_length]
    have pos := L.size_pos
    rw [answer, RingSender.uncached_sent_iff, hi.wc, hi.rc, taken, wrapSub64_wrap64 (Nat.le_refl _) (by omega)]
    unfold MSG_HEADER_SIZE at *
    omega

end
end Link

-- Whatever the other threads do meanwhile.
namespace Ring

open Assertion Code Effects

section
variable {L : Link} {plat : Platform} {i : ThreadId} {ps : List Bytes} {p : Bytes} {wait : WaitStrategy}
variable {timeout : Option Nat}

-- Room that has been found remains.
theorem hasSpace_fits {n w r m : Nat} {E : Error → L.Tx plat} :
    Spec (sendingAt ps r ⊓ roomy r (total ps + m) : L.Tx plat) ((L.sender n w r).hasSpace (wrap64 (total ps)) m)
      (fun fits => sendingAt ps r ⊓ roomy r (total ps + m) ⊓ const (fits = true)) E := by
  have keeps : (sendingAt ps r ⊓ roomy r (total ps + m) : L.Tx plat).Keeps Act.Quiet :=
    sendingAt_keeps.inf roomy_persistent
  unfold RingSender.hasSpace
  rw [Link.sender_ringDataSize]
  refine .pre (space_spec keeps (fun s hi h => sends_of_sendingAt s hi h.left) fun c fresh old room => ?_)
    fun s hi h => ⟨h, roomy_mono (Nat.le_add_right _ m) s hi h.right⟩
  refine .pure fun s hi h => ⟨h.left, decide_eq_true ?_⟩
  obtain ⟨c', cleared, fresh', room'⟩ := h.left.right
  have sent : (L.ring s).sent = ps := h.left.left.left.sent
  have below : c' ≤ total ps := sent ▸ Nat.le_trans cleared Link.taken_le
  have small := L.size_lt
  have same : c = c' := eq_of_wrap64_eq (fresh.symm.trans fresh') old below room (by omega) (by omega)
  omega

theorem trySendOnce_fits {r : Nat} :
    Spec (sendingAt ps r ⊓ roomy r (total ps + frameSize p) : L.Tx plat) (RingSender.trySendOnce L.hs p)
      (fun v => sending (ps ++ [p]) ⊓ const (v = .sent)) (fun _ => sending ps) := by
  have keeps : (sendingAt ps r ⊓ roomy r (total ps + frameSize p) : L.Tx plat).Keeps Act.Quiet :=
    sendingAt_keeps.inf roomy_persistent
  have ended : sendingAt ps r ⊓ roomy r (total ps + frameSize p) ≤ (sending ps : L.Tx plat) :=
    fun s hi h => sending_of_sendingAt s hi h.left
  refine getSender_spec keeps (fun s hi h => sends_of_sendingAt s hi h.left) ?_
  rw [Link.sender_shared]
  refine .bind ((checkReady_reached keeps (fun _ _ h => h.left.right.right) (fun _ _ h => h.left.right.left) rfl).post
    (fun _ => le_rfl) fun _ => ended) fun ready => .assume ?_
  rintro rfl
  refine .bind (messageSize_spec fun _ => ended) fun m => .assume ?_
  rintro rfl
  refine .bind hasSpace_fits fun fits => .assume ?_
  rintro rfl
  refine .pre (offer_spec (fun _ _ h => ⟨h, rfl⟩) nofun) fun _ _ h => ⟨h.left, fun _ => h.right⟩

theorem sendTwice_spec :
    Spec (sending ps : L.Tx plat) (RingSender.sendTwice L.hs p wait timeout)
      (fun v => sending (ps ++ [p]) ⊓ const (v.fst = .sent)) (fun _ => sending ps) := by
  refine .ex fun r => getSender_spec waitingAt_keeps (fun _ _ hs => hs.left) ?_
  refine .bind (messageSize_spec fun _ _ _ hs => ⟨r, hs⟩) fun m => .assume ?_
  rintro rfl
  refine .pass waitingAt_keeps (clock_quiet deadlineOf_now) nofun fun deadline => ?_
  refine .pre (.bind trySendOnce_spec fun v => ?_) fun _ _ hs => ⟨r, hs⟩
  cases v
  case sent => exact .pure fun _ _ hs => ⟨hs, rfl⟩
  case full =>
    simp only [RingSender.awaitSpace_bind]
    refine awaitSpace_spec (fun _ => le_rfl) fun r => .bind trySendOnce_fits fun v => .pure ?_
    exact fun _ _ hs => hs

theorem sendTwice_reports {h : Handle} {x : SharedChannel} :
    Header.Reports (Header.owns h x : Assertion (headerProtocol plat) i) x.base
    (RingSender.sendTwice h p wait timeout) := by
  have hp : (Header.owns h x : Assertion (headerProtocol plat) i).Persistent := Header.owns_persistent
  refine Header.getSender_reports fun y hy => .bind (.only hp Header.messageSize_plain) fun n => ?_
  refine .bind (.only hp (Header.now_plain deadlineOf_now)) fun deadline => .bind Header.trySendOnce_reports fun v => ?_
  cases v
  case sent => exact .pure
  case full =>
    simp only [RingSender.awaitSpace_bind]
    exact Header.awaitSpace_reports (.bind Header.trySendOnce_reports fun _ => .pure)

end
end Ring

-- The code of `send` up to its second `try_send_once`, as an operation.
structure SendCall where
  payload : Bytes
  wait    : WaitStrategy
  timeout : Option Nat

namespace Link

open Assertion

-- The sender can also call it.
abbrev trying (L : Link) : System ThreadId Act Act.Ret State :=
  L.system.also (T := fun _ : SendCall => Except Error (TrySendResult × Nat × Option Nat))
    (fun _ o => RingSender.sendTwice L.hs o.payload o.wait o.timeout)
    fun i _ s => i = L.tx ∧ ∃ x, Attached s.fst L.hs x

variable {L : Link} {plat : Platform}

def headerTrying (L : Link) (plat : Platform) : Verified L.trying (headerProtocol plat) :=
  (L.headerVerified plat).also (fun _ _ _ _ => ⊤) (by
    rintro i o s hi - ⟨_, x, ha⟩
    have code : (RingSender.sendTwice L.hs o.payload o.wait o.timeout).Spec
        (Header.owns L.hs x : Assertion (headerProtocol plat) i) _ _ := sendTwice_reports
    exact ⟨_, Header.owns_of_attached hi ha, Program.Triple.post (fun _ _ _ _ => ⟨trivial, trivial⟩) code⟩)

def verifiedTrying (L : Link) (plat : Platform) : Verified L.trying (L.protocol plat) :=
  (L.verified plat).also (fun _ _ _ v => const (∀ r, v = .ok r → r.fst = .sent)) (by
    rintro i o s hi idle ⟨rfl, _⟩
    refine ⟨ex sending, idle.left rfl, Program.Triple.ex fun ps => Program.Triple.post (fun v => ?_) sendTwice_spec⟩
    have idle {ps : List Bytes} {s : State} (hs : (sending ps : L.Tx plat) s) : Ring.idle L plat L.tx s :=
      ⟨fun _ => ⟨_, hs⟩, fun h => absurd h L.threads⟩
    cases v
    case ok r    => exact fun _ _ hs => ⟨idle hs.left, fun | _, rfl => hs.right⟩
    case error e => exact fun _ _ hs => ⟨idle hs, nofun⟩)

-- If `try_send_once` answers that the ring is full and `send` waits, then the next `try_send_once` does not.
theorem sendTwice_sends {c : L.trying.Config} (h : L.trying.Reachable (machine plat) c) {i : ThreadId} {o : SendCall}
    {s : State} {r : TrySendResult × Nat × Option Nat} (hr : c.Returning i (.inr o) s (.ok r)) : r.fst = .sent :=
  ((L.verifiedTrying plat).post_of_returning ((L.headerTrying plat).under h) hr).right r rfl

theorem backpressure_exact :
    (∀ {c : L.system.Config}, L.system.Reachable (machine plat) c → c.thr L.tx = none →
      c.mem.fst.Live L.hs L.xs → c.mem.fst.Unlocked L.hs → ∀ p,
      Code.Alone (soundMachine plat) L.tx (RingSender.trySendOnce L.hs p) c.mem.fst (L.Exact c.mem p)) ∧
    (∀ p wait timeout, (RingSender.send L.hs p wait timeout).Unrolls
      (RingSender.sendTwice L.hs p wait timeout >>= RingSender.sendRest L.hs p wait)) ∧
    ∀ {c : L.trying.Config}, L.trying.Reachable (machine plat) c →
      ∀ {i o s r}, c.Returning i (.inr o) s (.ok r) → r.fst = .sent :=
  ⟨fun h idle hl hu _ => trySendOnce_exact h idle hl hu, fun _ _ _ => RingSender.sendTwice_unrolls, sendTwice_sends⟩

instance {s : World} {identity : ProcessIdentity} : Decidable (s.Breathes identity) :=
  match h : s.proc identity.pid with
  | none      => isFalse fun ⟨_, hp, _⟩ => nomatch h.symm.trans hp
  | some stat => decidable_of_iff (parseProcessStat stat = .ok (identity.birth, true))
    ⟨fun ht => ⟨stat, h, ht⟩, fun ⟨_, hp, ht⟩ => Option.some.inj (h.symm.trans hp) ▸ ht⟩

instance [Decidable L.discards] {i : ThreadId} {o : L.trying.Op} {s : State} : Decidable (L.trying.callable i o s) :=
  match o with
  | .inl o => inferInstanceAs (Decidable (L.system.callable i o s))
  | .inr _ => inferInstanceAs (Decidable (_ ∧ _))

-- The call of the thread 0 has sent its message, and the client has made room for it.
def sentLater (c : ringA.trying.Config) : Bool :=
  c.returns 0 fun
    | .inr _, s, .ok _ => decide ((ringA.ring s).rc < (ringA.ring c.mem).rc)
    | _, _, _          => false

theorem returning_of_sentLater {c : ringA.trying.Config} (h : sentLater c = true) :
    ∃ o s r, c.Returning 0 (.inr o) s (.ok r) ∧ (ringA.ring s).rc < (ringA.ring c.mem).rc := by
  have ⟨o, s, v, hr, hv⟩ := System.Config.returning h
  split at hv
  case h_1 => exact ⟨_, _, _, hr, of_decide_eq_true hv⟩
  case h_2 => cases hv

-- The server has sent a message of 40 bytes and finds no room for one of 10 bytes. It waits until the client has
-- received the first one, and then sends the other.
theorem backpressure_exact_full :
    (∃ c : ringA.system.Config,
      RingSender.uncached ringA.size (wrapSub64 (ringA.ring c.mem).wc (ringA.ring c.mem).rc) 10 = .ok .full ∧
      Code.Alone (soundMachine .linux) 0 (RingSender.trySendOnce 0 (List.replicate 10 7)) c.mem.fst
        (ringA.Exact c.mem (List.replicate 10 7))) ∧
    ∃ (c : ringA.trying.Config) (i : ThreadId) (o : SendCall) (s : State) (r : TrySendResult × Nat × Option Nat),
      c.Returning i (.inr o) s (.ok r) ∧ r.fst = .sent ∧ (ringA.ring s).rc < (ringA.ring c.mem).rc := by
  have ⟨solo, _, sends⟩ := @backpressure_exact ringA .linux
  constructor
  case left =>
    have ⟨c, reach, _, hc⟩ := ringA.reaches (crateOracle .linux) (fun _ h => h)
      (l := .call 0 (.trySendOnce 0 (List.replicate 40 7)) :: CrateMove.steps 0 77)
      (p := fun c => decide ((c.thr 0).isNone ∧
        (c.mem.fst.shared 0 = some ringA.xs ∧ c.mem.fst.word ringA.xs.stateWord = ChannelState.connected.toU32 ∧
          c.mem.fst.Breathes (c.mem.fst.observed 0 ringA.xs)) ∧
        (c.mem.fst.locked 0 = false ∧ c.mem.fst.poisoned 0 = false) ∧
        (ringA.ring c.mem).wc = 48 ∧ (ringA.ring c.mem).rc = 0)) (by decide +kernel)
    have ⟨idle, ⟨attached, connected, alive⟩, ⟨free, sound⟩, wc, rc⟩ := of_decide_eq_true hc
    exact ⟨c, by rw [wc, rc]; rfl,
      solo reach (Option.isNone_iff_eq_none.mp idle) ⟨attached, connected, alive⟩ ⟨free, sound⟩ _⟩
  case right =>
    have ⟨c, reach, _, hc⟩ := ringA.reaches_of_fresh (S := ringA.trying) (fun _ h => h)
      (crateOracle .linux) (fun _ h => h)
      (l := .call 0 (.inl (.trySendOnce 0 (List.replicate 40 7))) :: List.replicate 77 (.step 0 .normal) ++
        .call 0 (.inr ⟨List.replicate 10 7, .spinOnly, none⟩) :: List.replicate 40 (.step 0 .normal) ++
        .call 1 (.inl (.tryRecv 1)) :: List.replicate 61 (.step 1 .normal) ++ List.replicate 44 (.step 0 .normal))
      (p := sentLater) (by decide +kernel)
    have ⟨o, s, r, hr, room⟩ := returning_of_sentLater hc
    exact ⟨c, 0, o, s, r, hr, sends reach hr, room⟩

end Link
