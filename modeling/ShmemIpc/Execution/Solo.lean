import ShmemIpc.Execution.Corrupt
import ShmemIpc.Ring.Record

open Function

-- What a sender does while no other thread takes a step, the channel is connected and its peer is alive.

-- The identity that the opposite role has published.
def World.published (s : World) (x : SharedChannel) : ProcessIdentity :=
  match x.role with
  | .server => ⟨s.word (.global x.base .clientPid), s.word (.global x.base .clientBirth)⟩
  | .client => ⟨s.word (.global x.base .serverPid), s.word (.global x.base .serverBirth)⟩

-- The identity that the channel `h` observes, or will observe when it is probed first.
def World.observed (s : World) (h : Handle) (x : SharedChannel) : ProcessIdentity :=
  (s.peer h).getD (s.published x)

def World.Breathes (s : World) (identity : ProcessIdentity) : Prop :=
  ∃ stat, s.proc identity.pid = some stat ∧ parseProcessStat stat = .ok (identity.birth, true)

structure World.Live (s : World) (h : Handle) (x : SharedChannel) : Prop where
  attached  : s.shared h = some x
  connected : s.word x.stateWord = ChannelState.connected.toU32
  alive     : s.Breathes (s.observed h x)

-- Nobody holds the lock of the observer.
structure World.Unlocked (s : World) (h : Handle) : Prop where
  free  : s.locked h = false
  sound : s.poisoned h = false

-- The observer of processes does not fail.
def soundMachine (plat : Platform) : Machine ThreadId Act Act.Ret World :=
  (worldMachine plat).restrict fun _ a _ r _ => a.faulty r = false

-- The answer of `try_send_once` if it always looked at the read cursor of the receiver: `used` bytes of the
-- ring have not been taken.
def RingSender.uncached (ringDataSize used payloadLen : Nat) : Except Error TrySendResult :=
  if ringDataSize < MSG_HEADER_SIZE + payloadLen then
    .error (.messageTooLarge payloadLen (ringDataSize - MSG_HEADER_SIZE))
  else if MSG_HEADER_SIZE + payloadLen ≤ ringDataSize - used then
    .ok .sent
  else
    .ok .full

namespace RingSender

variable {ringDataSize used len : Nat}

theorem uncached_sent_iff :
    uncached ringDataSize used len = .ok .sent ↔ MSG_HEADER_SIZE + len ≤ ringDataSize - used := by
  unfold uncached
  split
  case isTrue  => exact ⟨nofun, fun _ => by omega⟩
  case isFalse => split <;> simp_all

theorem uncached_large_iff :
    (∃ n m, uncached ringDataSize used len = .error (.messageTooLarge n m)) ↔ ringDataSize < MSG_HEADER_SIZE + len := by
  unfold uncached
  split
  case isTrue long  => exact ⟨fun _ => long, fun _ => ⟨_, _, rfl⟩⟩
  case isFalse long => split <;> simp [long]

end RingSender

def RingSender.used (self : RingSender) (s : World) : Nat :=
  wrapSub64 self.cachedWc (s.word self.readCursor)

-- The copy of the read cursor may be old, but it does not leave more room than the read cursor.
structure RingSender.Lags (y : RingSender) (s : World) : Prop where
  used   : y.used s ≤ wrapSub64 y.cachedWc y.cachedRc
  inside : wrapSub64 y.cachedWc y.cachedRc ≤ y.ringDataSize
  small  : y.ringDataSize < 2 ^ 32

namespace Solo

open Code

variable {plat : Platform} {i : ThreadId} {s s' : World} {α : Type} {h : Handle} {x : SharedChannel}
variable {Q : Except Error α → World → Prop}

-- An action that cannot fail.
theorem act {a : Act} {f : a.Ret → Routine α} (hf : ∀ r, a.faulty r = false)
    (runs : ∃ r s', World.exec plat i a s r s')
    (rest : ∀ r t, World.exec plat i a s r t → Alone (soundMachine plat) i (f r) t Q) :
    Alone (soundMachine plat) i (perform a >>= f) s Q :=
  have ⟨v, s', e⟩ := runs
  .act ⟨v, s', e, hf v⟩ fun r t e => rest r t e.left

-- The same, with a single outcome.
theorem step {a : Act} {f : a.Ret → Routine α} {v : a.Ret} (hf : ∀ r, a.faulty r = false)
    (h : ∀ r t, World.exec plat i a s r t ↔ r = v ∧ t = s') (rest : Alone (soundMachine plat) i (f v) s' Q) :
    Alone (soundMachine plat) i (perform a >>= f) s Q := by
  refine act hf ⟨v, s', (h v s').mpr ⟨rfl, rfl⟩⟩ fun r t e => ?_
  obtain ⟨rfl, rfl⟩ := (h r t).mp e
  exact rest

theorem perform_alone {a : Act} {Q : Except Error a.Ret → World → Prop} (hf : ∀ r, a.faulty r = false)
    (runs : ∃ r s', World.exec plat i a s r s') (h : ∀ r t, World.exec plat i a s r t → Q (.ok r) t) :
    Alone (soundMachine plat) i (perform a) s Q :=
  have ⟨v, s', e⟩ := runs
  Program.Alone.act ⟨v, s', e, hf v⟩ fun r t e => .pure (h r t e.left)

theorem load_alone {w : Word} {f : Nat → Routine α} (hf : Alone (soundMachine plat) i (f (s.word w)) s Q) :
    Alone (soundMachine plat) i (load w >>= f) s Q :=
  step (v := s.word w) (fun _ => rfl) (fun _ _ => .rfl) hf

theorem sub_alone {a b : Nat} {f : Nat → Routine α} (hf : Alone (soundMachine plat) i (f (wrapSub64 a b)) s Q) :
    Alone (soundMachine plat) i (sub a b >>= f) s Q :=
  step (v := wrapSub64 a b) (fun _ => rfl) (fun _ _ => .rfl) hf

theorem getSender_alone {f : RingSender → Routine α} (hf : Alone (soundMachine plat) i (f (s.sender h)) s Q) :
    Alone (soundMachine plat) i (getSender h >>= f) s Q :=
  step (v := s.sender h) (fun _ => rfl) (fun _ _ => .rfl) hf

theorem getShared_alone (hs : s.shared h = some x) {f : SharedChannel → Routine α}
    (hf : Alone (soundMachine plat) i (f x) s Q) : Alone (soundMachine plat) i (getShared h >>= f) s Q := by
  refine step (v := x) (fun _ => rfl) (fun r t => ?_) hf
  show s.shared h = some r ∧ t = s ↔ r = x ∧ t = s
  rw [hs, Option.some_inj, eq_comm]

-- The shared memory, the halves of the channels and the channels are as before.
structure Kept (s s' : World) : Prop extends s.Standing s' where
  shared : s'.shared = s.shared

theorem Kept.refl : Kept s s :=
  ⟨⟨rfl, rfl, rfl, rfl⟩, rfl⟩

theorem Kept.trans {t : World} (h : Kept s s') (h' : Kept s' t) : Kept s t :=
  ⟨⟨h'.word.trans h.word, h'.byte.trans h.byte, h'.sender.trans h.sender, h'.receiver.trans h.receiver⟩,
   h'.shared.trans h.shared⟩

-- The observer of processes.

variable {identity : ProcessIdentity}

theorem isAlive_alone (hb : s.Breathes identity) :
    Alone (soundMachine plat) i (ProcessMonitor.isAlive identity) s fun v s' => v = .ok true ∧ s' = s := by
  obtain ⟨stat, hp, ht⟩ := hb
  have stat_alone : Alone (soundMachine plat) i (processStat identity.pid) s fun v s' =>
      v = .ok (identity.birth, true) ∧ s' = s := by
    refine Alone.act (A := Act) (R := Act.Ret) (a := Act.readProcStat identity.pid)
      ⟨.ok stat, s, ⟨rfl, by simp [hp]⟩, by simp [Act.faulty, ht, Except.isOk, Except.toBool]⟩ ?_
    rintro r t ⟨⟨rfl, e⟩, hf⟩
    rw [hp] at e
    cases r
    case ok =>
      cases e
      show Alone (soundMachine plat) i (Code.ofExcept (parseProcessStat stat)) t _
      rw [ht]
      exact .pure ⟨rfl, rfl⟩
    case error => exact absurd e (by simpa [Act.faulty] using hf)
  refine .attempt stat_alone ?_
  rintro v t ⟨rfl, rfl⟩
  exact .pure ⟨by simp, rfl⟩

theorem open_alone (hb : s.Breathes identity) (named : identity.pid ≠ 0) :
    Alone (soundMachine plat) i (ProcessMonitor.open identity) s fun v s' => v = .ok () ∧ s' = s := by
  unfold ProcessMonitor.open
  rw [if_neg named]
  refine .bind (isAlive_alone hb) ?_ nofun
  rintro v t ⟨hv, rfl⟩
  cases hv
  exact .pure ⟨rfl, rfl⟩

theorem observe_alone {j : ProcessIdentity} (hb : s.Breathes j) {ms : Nat} :
    Alone (soundMachine plat) i (SharedChannel.observe h j ms) s fun v s' => v = .ok () ∧ Kept s s' := by
  refine .bind (isAlive_alone hb) ?_ nofun
  rintro v t ⟨hv, rfl⟩
  cases hv
  refine .bind (M := fun v s' => v = .ok () ∧ s' = t) (.pure ⟨rfl, rfl⟩) ?_ nofun
  rintro v t' ⟨_, rfl⟩
  refine perform_alone (fun _ => rfl) ⟨(), _, rfl⟩ fun r t e => ?_
  obtain rfl := e
  exact ⟨rfl, ⟨rfl, rfl, rfl, rfl⟩, rfl⟩

theorem peerIdentity_alone :
    Alone (soundMachine plat) i x.peerIdentity s fun v s' => v = .ok (s.published x) ∧ s' = s := by
  unfold SharedChannel.peerIdentity World.published
  cases x.role
  case server => exact load_alone (load_alone (.pure ⟨rfl, rfl⟩))
  case client => exact load_alone (load_alone (.pure ⟨rfl, rfl⟩))

-- The channel.

theorem terminal_alone (hs : s.shared h = some x) (hc : s.word x.stateWord = ChannelState.connected.toU32) :
    Alone (soundMachine plat) i (SharedChannel.terminal h) s fun v s' => v = .ok () ∧ s' = s := by
  refine getShared_alone hs (load_alone ?_)
  rw [hc]
  exact .pure ⟨rfl, rfl⟩

theorem probe_alone (hl : s.Live h x) (named : (s.published x).pid ≠ 0) {ms : Nat} :
    Alone (soundMachine plat) i (SharedChannel.probe h x ms) s fun v s' => v = .ok false ∧ Kept s s' := by
  refine step (v := s.nextProbe h) (fun _ => rfl) (fun _ _ => .rfl) ?_
  split
  case isTrue => exact .pure ⟨rfl, .refl⟩
  refine .bind (terminal_alone hl.attached hl.connected) ?_ nofun
  rintro v t ⟨_, rfl⟩
  refine step (v := t.peer h) (fun _ => rfl) (fun _ _ => .rfl) ?_
  have alive := hl.alive
  unfold World.observed at alive
  cases hp : t.peer h
  case some peer =>
    rw [hp] at alive
    refine .bind (observe_alone alive) (fun v t' hv => .pure ⟨rfl, hv.right⟩) nofun
  case none =>
    rw [hp] at alive
    refine .bind peerIdentity_alone ?_ nofun
    rintro v t' ⟨hv, rfl⟩
    cases hv
    refine .attempt (open_alone alive named) ?_
    rintro v t ⟨rfl, rfl⟩
    refine act (fun _ => rfl) ⟨(), _, rfl⟩ fun r t' e => ?_
    obtain rfl := e
    refine .bind (observe_alone (j := t.published x) ?_) (fun v t' hv => .pure ⟨rfl, ?_⟩) nofun
    · exact alive
    · exact ⟨⟨hv.right.word, hv.right.byte, hv.right.sender, hv.right.receiver⟩, hv.right.shared⟩

theorem locked_alone (hu : s.Unlocked h) {section_ : Routine Bool}
    (hs : ∀ t, Kept s t → t.peer = s.peer → t.proc = s.proc →
      Alone (soundMachine plat) i section_ t fun v s' => v = .ok false ∧ Kept t s') :
    Alone (soundMachine plat) i (SharedChannel.locked h section_) s fun v s' => v = .ok false ∧ Kept s s' := by
  refine .act ⟨.ok (), _, ⟨hu.free, by rw [if_neg (by simp [hu.sound])]; exact ⟨rfl, rfl⟩⟩, rfl⟩ ?_
  rintro r t ⟨⟨_, e⟩, _⟩
  rw [if_neg (by simp [hu.sound])] at e
  obtain ⟨rfl, rfl⟩ := e
  refine .bind (M := fun v s' => v = .ok () ∧ s' = _) (.pure ⟨rfl, rfl⟩) ?_ nofun
  rintro v t ⟨_, rfl⟩
  refine .attempt (hs _ ⟨⟨rfl, rfl, rfl, rfl⟩, rfl⟩ rfl rfl) ?_
  rintro v t ⟨rfl, kept⟩
  refine act (fun _ => rfl) ⟨(), _, rfl⟩ fun r t' e => ?_
  obtain rfl := e
  exact .pure ⟨rfl, ⟨kept.word, kept.byte, kept.sender, kept.receiver⟩, kept.shared⟩

theorem checkReady_alone (hl : s.Live h x) (hu : s.Unlocked h) (named : (s.published x).pid ≠ 0) :
    Alone (soundMachine plat) i (SharedChannel.checkReady h) s fun v s' => v = .ok true ∧ s.Standing s' := by
  have await : Alone (soundMachine plat) i (SharedChannel.awaitConnected h x) s fun v s' => v = .ok true ∧ s' = s := by
    refine .loop (M := fun v s' => v = .ok (.inr true) ∧ s' = s) (load_alone ?_) nofun ?_ nofun
    · rw [hl.connected]
      exact .pure ⟨rfl, rfl⟩
    · rintro v t ⟨hv, rfl⟩
      cases hv
      exact ⟨rfl, rfl⟩
  have last {t : World} (ht : Kept s t) : Alone (soundMachine plat) i (do SharedChannel.terminal h; Pure.pure true) t
      fun v s' => v = .ok true ∧ s.Standing s' := by
    refine .bind (terminal_alone (ht.shared ▸ hl.attached) (ht.word ▸ hl.connected)) ?_ nofun
    rintro _ _ ⟨_, rfl⟩
    exact .pure ⟨rfl, ht.toStanding⟩
  refine getShared_alone hl.attached (.bind await ?_ nofun)
  rintro v t ⟨hv, rfl⟩
  cases hv
  refine act (fun _ => rfl) ⟨t.clock, t, Nat.le_refl _, rfl⟩ fun now t' e => ?_
  obtain ⟨_, e⟩ := e
  have kept : Kept t t' := by subst e; exact ⟨⟨rfl, rfl, rfl, rfl⟩, rfl⟩
  have live : t'.Live h x := by subst e; exact ⟨hl.attached, hl.connected, hl.alive⟩
  have unlocked : t'.Unlocked h := by subst e; exact ⟨hu.free, hu.sound⟩
  have named : (t'.published x).pid ≠ 0 := by subst e; exact named
  clear e
  refine step (v := t'.nextProbe h) (fun _ => rfl) (fun _ _ => .rfl) ?_
  split
  case isFalse => exact last kept
  refine .bind (locked_alone unlocked fun t'' kept hp hq => probe_alone ⟨?_, ?_, ?_⟩ ?_) ?_ nofun
  · exact kept.shared ▸ live.attached
  · exact kept.word ▸ live.connected
  · have alive := live.alive
    simpa only [World.Breathes, World.observed, World.published, hp, hq, kept.word] using alive
  · simpa only [World.published, kept.word] using named
  · rintro v t'' ⟨hv, kept'⟩
    cases hv
    exact last (kept.trans kept')

-- The sender.

theorem messageSize_alone {y : RingSender} {len : Nat} (hq : y.ringDataSize < MSG_HEADER_SIZE + len →
      Q (.error (.messageTooLarge len (y.ringDataSize - MSG_HEADER_SIZE))) s)
    {f : Nat → Routine α} (hf : MSG_HEADER_SIZE + len ≤ y.ringDataSize →
      Alone (soundMachine plat) i (f (MSG_HEADER_SIZE + len)) s Q) :
    Alone (soundMachine plat) i (y.messageSize len >>= f) s Q := by
  by_cases long : y.ringDataSize < MSG_HEADER_SIZE + len
  case pos =>
    have fails : y.messageSize len = fail (.messageTooLarge len (y.ringDataSize - MSG_HEADER_SIZE)) := if_pos long
    rw [fails]
    exact .bind (M := fun v s' => v = .error (.messageTooLarge len (y.ringDataSize - MSG_HEADER_SIZE)) ∧ s' = s)
      (.throw ⟨rfl, rfl⟩) nofun fun e t ⟨he, ht⟩ => by cases he; exact ht ▸ hq long
  case neg =>
    have passes : y.messageSize len = pure (MSG_HEADER_SIZE + len) := if_neg long
    rw [passes]
    exact hf (Nat.le_of_not_lt long)

theorem hasSpace_alone {y : RingSender} {wc msgLen : Nat} (inside : wrapSub64 wc y.cachedRc ≤ y.ringDataSize)
    (small : y.ringDataSize < 2 ^ 32) {f : Bool → Routine α}
    (hf : Alone (soundMachine plat) i (f (decide (msgLen ≤ y.ringDataSize - wrapSub64 wc y.cachedRc))) s Q) :
    Alone (soundMachine plat) i (y.hasSpace wc msgLen >>= f) s Q := by
  refine .bind (M := fun v s' => v = .ok (decide (msgLen ≤ y.ringDataSize - wrapSub64 wc y.cachedRc)) ∧ s' = s)
    (sub_alone (sub_alone (.pure ⟨?_, rfl⟩))) ?_ nofun
  · rw [Ring.wrapSub64_of_le inside (by omega)]
  · rintro v t ⟨hv, rfl⟩
    cases hv
    exact hf

def Done (v : Except Error Unit) (_ : World) : Prop :=
  v = .ok ()

theorem copyTo_alone {base : FileId} : (addr : Nat) → (bytes : Bytes) → (s : World) →
    Alone (soundMachine plat) i (copyTo base addr bytes) s Done
  | _, [], _      => .pure rfl
  | _, _ :: _, _ => act (fun _ => rfl) ⟨(), _, rfl⟩ fun _ _ _ => copyTo_alone _ _ _

theorem writeRing_alone {y : RingSender} {cursor : Nat} {data : Bytes} :
    Alone (soundMachine plat) i (y.writeRing cursor data) s Done := by
  refine .bind (copyTo_alone _ _ _) (fun _ t _ => ?_) nofun
  split
  case isTrue  => exact copyTo_alone _ _ _
  case isFalse => exact .pure rfl

theorem wake_runs {w : WaitHandle} {n : Word} : ∃ r s', World.exec plat i (.wake w n) s r s' := by
  by_cases waits : ∃ j, s.Waits plat w n j
  case pos =>
    obtain ⟨j, hj⟩ := waits
    exact ⟨(), _, .inl ⟨j, hj, rfl⟩⟩
  case neg =>
    have nobody : ∀ j, ¬ s.Waits plat w n j := fun j hj => waits ⟨j, hj⟩
    cases plat
    case linux   => exact ⟨(), _, .inr ⟨nobody, rfl⟩⟩
    case windows => exact ⟨(), _, .inr ⟨nobody, rfl⟩⟩

theorem publishMessage_alone {wc : Nat} {payload : Bytes} :
    Alone (soundMachine plat) i (RingSender.publishMessage h wc payload) s Done := by
  refine getSender_alone (.bind writeRing_alone (fun _ _ _ => ?_) nofun)
  refine .bind writeRing_alone (fun _ _ _ => .bind writeRing_alone (fun _ _ _ => ?_) nofun) nofun
  refine act (fun _ => rfl) ⟨(), _, rfl⟩ fun _ _ _ => act (fun _ => rfl) ⟨(), _, rfl⟩ fun _ _ _ => ?_
  refine act (fun _ => rfl) ⟨(), _, rfl⟩ fun _ _ _ => act (fun _ => rfl) ⟨_, _, rfl, rfl⟩ fun _ _ _ => ?_
  refine load_alone ?_
  split
  case isTrue  => exact perform_alone (fun _ => rfl) wake_runs fun _ _ _ => rfl
  case isFalse => exact .pure rfl

-- The answer is `answer`, and the shared memory changes only where a message is sent.
structure Offered (s : World) (answer v : Except Error TrySendResult) (s' : World) : Prop where
  answer : v = answer
  word   : v ≠ .ok .sent → s'.word = s.word
  byte   : v ≠ .ok .sent → s'.byte = s.byte

-- The answer depends on the read cursor of the receiver, and not on its copy.
theorem trySendOnce_alone {payload : Bytes} {y : RingSender} (hl : s.Live h x) (hu : s.Unlocked h)
    (named : (s.published x).pid ≠ 0) (hy : s.sender h = y) (shared : y.shared = h) (lags : y.Lags s) :
    Alone (soundMachine plat) i (RingSender.trySendOnce h payload) s
      (Offered s (RingSender.uncached y.ringDataSize (y.used s) payload.length)) := by
  obtain ⟨used, inside, small⟩ := lags
  generalize ha : RingSender.uncached y.ringDataSize (y.used s) payload.length = answer
  have publishes {t : World} {wc : Nat} (room : answer = .ok .sent) :
      Alone (soundMachine plat) i (do RingSender.publishMessage h wc payload; Pure.pure TrySendResult.sent) t
        (Offered s answer) :=
    .bind publishMessage_alone (fun _ _ _ => .pure ⟨room.symm, absurd rfl, absurd rfl⟩) nofun
  have ready : Alone (soundMachine plat) i (SharedChannel.checkReady y.shared) s fun v s' =>
      v = .ok true ∧ s.Standing s' := by
    rw [shared]
    exact checkReady_alone hl hu named
  refine getSender_alone ?_
  rw [hy]
  refine .bind ready ?_ nofun
  rintro v t ⟨hv, standing⟩
  cases hv
  refine messageSize_alone (fun long => ?_) fun short => ?_
  · exact ⟨(if_pos long).symm.trans ha, fun _ => standing.word, fun _ => standing.byte⟩
  have ha : (if MSG_HEADER_SIZE + payload.length ≤ y.ringDataSize - y.used s then .ok .sent else .ok .full) = answer :=
    (if_neg (Nat.not_lt.mpr short)).symm.trans ha
  refine hasSpace_alone inside small ?_
  split
  case isTrue fits =>
    have fits := of_decide_eq_true fits
    exact publishes (ha.symm.trans (if_pos (by omega)))
  case isFalse =>
    have fresh : wrapSub64 y.cachedWc (t.word y.readCursor) = y.used s := by
      rw [standing.word]
      rfl
    refine load_alone (act (fun _ => rfl) ⟨(), _, rfl⟩ fun _ t' e => ?_)
    obtain rfl := e
    have inside : wrapSub64 y.cachedWc (t.word y.readCursor) ≤ y.ringDataSize := by omega
    refine hasSpace_alone (y := { y with cachedRc := t.word y.readCursor }) inside small ?_
    simp only [fresh]
    split
    case isTrue fits => exact publishes (ha.symm.trans (if_pos (of_decide_eq_true fits)))
    case isFalse full =>
      have full : answer = .ok .full := ha.symm.trans (if_neg fun fits => full (decide_eq_true fits))
      exact .pure ⟨full.symm, fun _ => standing.word, fun _ => standing.byte⟩

end Solo
