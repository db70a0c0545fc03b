import ShmemIpc.Execution.Surroundings
import ShmemIpc.Execution.Run

-- Receiving the records of a ring in batches.

open Function

namespace RingReceiver

-- What `try_peek_message` finds at the cursor.
@[irreducible]
def peek (y : RingReceiver) (s : World) : Except Error TryPeekResult :=
  if y.available s < MSG_HEADER_SIZE then
    .ok .empty
  else if y.lengthWord s > y.ringDataSize - MSG_HEADER_SIZE then
    .error (.messageTooLarge (y.lengthWord s) (y.ringDataSize - MSG_HEADER_SIZE))
  else if y.available s < MSG_HEADER_SIZE + y.lengthWord s then
    .ok .empty
  else
    .ok (.ready ⟨y.cachedRc, y.lengthWord s, y.seqWord s⟩)

-- What `validate_seq` says of what has been found.
def validated (y : RingReceiver) : Except Error TryPeekResult → Except Error (Option PeekedMessage)
  | .ok (.ready m) => if m.seq ≠ y.expectedSeq then .error (.sequenceMismatch y.expectedSeq m.seq) else .ok (some m)
  | .ok .empty     => .ok none
  | .error e       => .error e

-- The record at the cursor, if there is a whole one.
def next (y : RingReceiver) (s : World) : Except Error (Option PeekedMessage) :=
  y.validated (y.peek s)

-- The receiver behind the record `m`.
def past (y : RingReceiver) (m : PeekedMessage) : RingReceiver :=
  { y with
    expectedSeq := wrap32 (y.expectedSeq + 1)
    cachedRc    := wrap64 (m.readCursor + (MSG_HEADER_SIZE + m.payloadLen)) }

-- The receiver `z` is behind the next `n` records.
def Takes (s : World) : RingReceiver → Nat → RingReceiver → Prop
  | y, 0, z     => z = y
  | y, n + 1, z => ∃ m, y.next s = .ok (some m) ∧ Takes s (y.past m) n z

end RingReceiver

-- What goes wrong at a record, or behind it.
def Surroundings.Broken (ready : Except Error Bool) (behind : PeekedMessage → Prop) :
    Except Error (Option PeekedMessage) → Prop
  | .ok (some m) => behind m
  | .ok none     => ∃ e, ready = .error e ∧ ¬ e.Terminal
  | .error _     => True

-- One of the next `n` records is corrupt, or there are fewer of them and the channel is not ready, for another
-- reason than its end.
def Surroundings.Breaks (d : Surroundings) (s : World) (x : SharedChannel) : Nat → RingReceiver → Prop
  | 0, _     => False
  | n + 1, y => Broken (d.ready s x) (fun m => d.Breaks s x n (y.past m)) (y.next s)

-- The same, behind a first record that can be taken.
def Surroundings.BreaksOff (d : Surroundings) (s : World) (x : SharedChannel) (n : Nat) (y : RingReceiver) : Prop :=
  ∃ m k, n = k + 1 ∧ y.next s = .ok (some m) ∧ d.Breaks s x k (y.past m)

-- The call has failed and changed nothing that its caller can see, or it has consumed and appended so many messages.
def Atomic (i : ThreadId) (h : Handle) (s : World) : Except Error Nat → World → Prop
  | .ok n, s'    => (∃ bs, s'.out i = s.out i ++ bs ∧ bs.length = n) ∧ (s.receiver h).Takes s n (s'.receiver h)
  | .error _, s' => s'.out i = s.out i ∧ s'.receiver h = s.receiver h ∧
      s'.word (s.receiver h).readCursor = s.word (s.receiver h).readCursor

namespace Batch

open Code Surroundings

variable {d : Surroundings} {plat : Platform} {i : ThreadId} {s t : World} {x : SharedChannel} {h : Handle}
variable {α : Type} {y : RingReceiver} {Q : Except Error α → World → Prop}

-- The actions that are the same whatever the surroundings are.
def Timeless : Act → Prop
  | .now | .readProcStat _ | .compareExchangeWeak .. | .spawnBridge _ => False
  | _                                                                  => True

theorem timeless_exec {a : Act} {r : a.Ret} {s' : World} (ha : Timeless a) :
    (worldMachine plat).exec i a s r s' ↔ (d.machine plat).exec i a s r s' := by
  cases a <;> first | exact .rfl | exact ha.elim

theorem copyFrom_timeless {base : FileId} : (n addr : Nat) → Code.Only Timeless (fun _ => False) (copyFrom base addr n)
  | 0, _        => .pure
  | n + 1, addr => .act trivial fun _ => .bind (copyFrom_timeless n (addr + 1)) fun _ => .pure

theorem readRing_timeless {cursor len : Nat} : Code.Only Timeless (fun _ => False) (y.readRing cursor len) := by
  refine .bind (copyFrom_timeless _ _) fun front => ?_
  split
  case isTrue  => exact .bind (copyFrom_timeless _ _) fun _ => .pure
  case isFalse => exact .pure

theorem readRing_alone {cursor len : Nat} : (y.readRing cursor len).Alone (d.machine plat) i s fun v s' =>
    v = .ok (s.bytesAt y cursor len) ∧ s' = s :=
  Program.Alone.along timeless_exec readRing_timeless Corrupt.readRing_alone

theorem getReceiver_alone {f : RingReceiver → Routine α} (hf : (f (s.receiver h)).Alone (d.machine plat) i s Q) :
    (getReceiver h >>= f).Alone (d.machine plat) i s Q :=
  .step (v := s.receiver h) (fun _ _ => .rfl) hf

theorem sub_alone {a b : Nat} {f : Nat → Routine α} (hf : (f (wrapSub64 a b)).Alone (d.machine plat) i s Q) :
    (sub a b >>= f).Alone (d.machine plat) i s Q :=
  .step (v := wrapSub64 a b) (fun _ _ => .rfl) hf

theorem tryPeekMessage_alone : (RingReceiver.tryPeekMessage h).Alone (d.machine plat) i s fun v s' =>
    v = (s.receiver h).peek s ∧ s' = s := by
  refine getReceiver_alone (load_alone (sub_alone ?_))
  unfold RingReceiver.peek
  split
  case isTrue small => exact .pure ⟨(if_pos small).symm, rfl⟩
  case isFalse large =>
  have large : ¬ (s.receiver h).available s < MSG_HEADER_SIZE := large
  rw [if_neg large]
  refine .bind (M := fun v s' => v = .ok ((s.receiver h).lengthWord s, (s.receiver h).seqWord s) ∧ s' = s) ?_ ?_ nofun
  · refine .bind readRing_alone ?_ nofun
    rintro header s' ⟨hh, rfl⟩
    cases hh
    exact .pure ⟨rfl, rfl⟩
  rintro v t ⟨hv, rfl⟩
  cases hv
  simp only
  split
  case isTrue  => exact .throw ⟨rfl, rfl⟩
  case isFalse =>
    refine sub_alone ?_
    split
    case isTrue few  => exact .pure ⟨(if_pos few).symm, rfl⟩
    case isFalse few => exact .pure ⟨(if_neg few).symm, rfl⟩

-- The records, the cursors, the receivers and the vectors of the callers are as before.
structure Seen (s t : World) : Prop where
  byte     : t.byte = s.byte
  receiver : t.receiver = s.receiver
  out      : t.out = s.out
  cursors  : ∀ b header, t.word (.ring b header .writeCursor) = s.word (.ring b header .writeCursor) ∧
    t.word (.ring b header .readCursor) = s.word (.ring b header .readCursor)

theorem Seen.refl : Seen s s :=
  ⟨rfl, rfl, rfl, fun _ _ => ⟨rfl, rfl⟩⟩

theorem Seen.trans {u : World} (a : Seen s t) (b : Seen t u) : Seen s u :=
  ⟨b.byte.trans a.byte, b.receiver.trans a.receiver, b.out.trans a.out,
   fun f header => ⟨(b.cursors f header).left.trans (a.cursors f header).left,
     (b.cursors f header).right.trans (a.cursors f header).right⟩⟩

theorem Seen.of_frame {parts : List Piece} (f : World.Frame parts s t)
    (h : .byte ∉ parts ∧ .receiver ∉ parts ∧ .out ∉ parts ∧ .word ∉ parts) : Seen s t :=
  ⟨f.byte h.left, f.receiver h.right.left, f.out h.right.right.left, fun _ _ =>
    by rw [f.word h.right.right.right]; simp⟩

theorem Seen.exchanged {b : FileId} {n v : Nat} {r : Except Nat Nat}
    (e : World.exec plat i (.compareExchange (.global b .state) v n) s r t) : Seen s t := by
  rcases e with ⟨_, _, rfl⟩ | ⟨_, _, rfl⟩
  case inl => exact ⟨rfl, rfl, rfl, fun _ _ => by simp [World.stored]⟩
  case inr => exact .refl

theorem Seen.bumped {w : Word} (hw : w.IsNotify) : Seen s (s.bumped w) := by
  have other {b : FileId} {header : Nat} {f : RingField} (h : ¬ Word.IsNotify (.ring b header f)) :
      Word.ring b header f ≠ w := fun eq => h (eq ▸ hw)
  exact ⟨rfl, rfl, rfl, fun _ _ => ⟨update_of_ne (other id) _ _, update_of_ne (other id) _ _⟩⟩

theorem Ends.parts {a : Act} (ha : a.Ends) : .byte ∉ a.parts ∧ .receiver ∉ a.parts ∧ .out ∉ a.parts := by
  cases a
  all_goals first
    | exact False.elim ha
    | simp [Act.parts]

theorem Seen.ends {a : Act} {r : a.Ret} (ha : a.Ends) (e : d.exec plat i a s r t) : Seen s t := by
  by_cases timeless : Timeless a
  case neg =>
    cases a
    case now                 => exact e.right ▸ ⟨rfl, rfl, rfl, fun _ _ => ⟨rfl, rfl⟩⟩
    case readProcStat        => exact e.right ▸ .refl
    case compareExchangeWeak => obtain ⟨⟨b, rfl⟩, _⟩ := ha; exact @exchanged plat i s t b _ _ r e
    case spawnBridge         => exact False.elim ha
    all_goals exact absurd trivial timeless
  case pos =>
    have e : World.exec plat i a s r t := (timeless_exec timeless).mpr e
    by_cases word : .word ∈ a.parts
    case pos =>
      cases a
      case compareExchange     => obtain ⟨⟨b, rfl⟩, _⟩ := ha; exact .exchanged e
      case compareExchangeWeak => exact False.elim timeless
      case fetchAdd w          => exact e.right ▸ .bumped ha
      case store | createNew   => exact False.elim ha
      all_goals exact absurd word (by simp [Act.parts])
    case neg =>
      obtain ⟨byte, receiver, out⟩ := Ends.parts ha
      exact .of_frame (World.frame e) ⟨byte, receiver, out, word⟩

def offered (ready : Except Error Bool) : Except Error TryPeekResult → Except Error (Option PeekedMessage)
  | .ok (.ready m) => .ok (some m)
  | .ok .empty     => ready.map fun _ => none
  | .error e       => .error e

-- The answer of `try_peek_or_closed`.
def peeked (d : Surroundings) (s : World) (x : SharedChannel) (y : RingReceiver) :
    Except Error (Option PeekedMessage) :=
  offered (d.ready s x) (y.peek s)

structure Looks (d : Surroundings) (x : SharedChannel) (h : Handle) (s : World)
    (v : Except Error (Option PeekedMessage))
    (t : World) : Prop where
  answer : v = peeked d s x (s.receiver h)
  seen   : Seen s t
  found  : ∀ m, v = .ok (some m) → t = s
  empty  : v = .ok none → t.locked d.handle = false ∧ (∀ b, d.ready s x = .ok b → d.ready t x = .ok b) ∧
    t = { s with clock := t.clock, peer := t.peer, nextProbe := t.nextProbe, locked := t.locked }

-- The channel of the receiver, and nobody else who observes it.
structure Owns (d : Surroundings) (x : SharedChannel) (h : Handle) (s : World) : Prop where
  mine     : (s.receiver h).shared = d.handle
  attached : s.shared d.handle = some x
  free     : s.locked d.handle = false

theorem peek_seen {y : RingReceiver} (seen : Seen s t) : y.peek t = y.peek s := by
  have available : y.available t = y.available s := by
    simp only [RingReceiver.available, RingReceiver.writeCursor, (seen.cursors _ _).left]
  have length : y.lengthWord t = y.lengthWord s := by simp only [RingReceiver.lengthWord, World.bytesAt, seen.byte]
  have seq : y.seqWord t = y.seqWord s := by simp only [RingReceiver.seqWord, World.bytesAt, seen.byte]
  simp only [RingReceiver.peek, available, length, seq]

theorem checkReady_seen (owns : Owns d x h s) :
    (SharedChannel.checkReady d.handle).Alone (d.machine plat) i s fun v t => d.Ready x s v t ∧ Seen s t := by
  have kept {a : Act} {u u' : World} {r : a.Ret} (ha : a.Ends) (e : d.exec plat i a u r u')
    (hs : Seen s u) : Seen s u' :=
    hs.trans (.ends ha e)
  exact Program.Alone.keeps (S := Act.Ends) (I := Seen s) kept Effects.checkReady_ends
    (checkReady_alone owns.attached owns.free) .refl

theorem tryPeekOrClosed_alone (owns : Owns d x h s) :
    (RingReceiver.tryPeekOrClosed h).Alone (d.machine plat) i s (Looks d x h s) := by
  have ready := @checkReady_seen d plat i s x h owns
  refine .bind tryPeekMessage_alone ?_ ?_
  case refine_2 =>
    rintro e t ⟨hv, rfl⟩
    have answer : peeked d t x (t.receiver h) = .error e := by
      rw [peeked, ← hv, offered]
    exact ⟨answer.symm, .refl, nofun, nofun⟩
  rintro v t ⟨hv, rfl⟩
  cases v
  case ready m =>
    have answer : peeked d t x (t.receiver h) = .ok (some m) := by
      rw [peeked, ← hv, offered]
    exact .pure ⟨answer.symm, .refl, fun _ _ => rfl, nofun⟩
  case empty =>
    refine getReceiver_alone ?_
    rw [owns.mine]
    refine .attempt ready ?_
    rintro v t' ⟨ready, seen⟩
    have answer : peeked d t x (t.receiver h) = v.map fun _ => none := by
      rw [peeked, ← hv, offered, ready.answer]
    cases v
    case ok b =>
      refine .pure ⟨answer.symm, seen, nofun, fun _ => ⟨ready.free, fun c hc => ?_, ready.same b rfl⟩⟩
      exact ready.again c (ready.answer.trans hc)
    case error e =>
      simp only
      split
      case isFalse => exact .throw ⟨answer.symm, seen, nofun, nofun⟩
      case isTrue  =>
        refine .bind tryPeekMessage_alone ?_ ?_
        · rintro w u ⟨hw, rfl⟩
          rw [seen.receiver, peek_seen seen, ← hv] at hw
          cases hw
          exact .throw ⟨answer.symm, seen, nofun, nofun⟩
        · rintro e' u ⟨hw, rfl⟩
          rw [seen.receiver, peek_seen seen, ← hv] at hw
          cases hw

theorem peeked_none {y : RingReceiver} (h : peeked d s x y = .ok none) : y.peek s = .ok .empty ∧ ∃ b,
    d.ready s x = .ok b := by
  rw [peeked] at h
  cases at_ : y.peek s
  case error e => rw [at_] at h; cases h
  case ok r    =>
    rw [at_] at h
    cases r
    case ready m => cases h
    case empty   =>
      cases hr : d.ready s x
      case ok b    => exact ⟨rfl, b, rfl⟩
      case error e => rw [hr] at h; cases h

-- After an empty answer, another one is given in the same way.
theorem Looks.again {v : Except Error (Option PeekedMessage)} {u : World} (empty : Looks d x h s (.ok none) t)
    (next : Looks d x h t v u) : Looks d x h s v u := by
  obtain ⟨at_, b, ready⟩ := peeked_none empty.answer.symm
  obtain ⟨_, again, same⟩ := empty.empty rfl
  have answer : peeked d t x (t.receiver h) = .ok none := by
    rw [peeked, empty.seen.receiver, peek_seen empty.seen, at_, again b ready]
    rfl
  have none : v = .ok none := next.answer.trans answer
  obtain ⟨free, still, same'⟩ := next.empty none
  refine ⟨none.trans empty.answer, empty.seen.trans next.seen, fun m hm => ?_, fun _ => ⟨free, fun b hb => ?_, ?_⟩⟩
  · exact nomatch none.symm.trans hm
  · exact still b (again b hb)
  · rw [same] at same'
    exact same'

theorem Looks.owns (owns : Owns d x h s) (empty : Looks d x h s (.ok none) t) : Owns d x h t := by
  obtain ⟨free, _, same⟩ := empty.empty rfl
  have shared : t.shared = s.shared := by rw [same]
  exact ⟨empty.seen.receiver ▸ owns.mine, shared ▸ owns.attached, free⟩

theorem spinPeekOrClosed_alone (owns : Owns d x h s) (n : Nat) :
    (Tokio.spinPeekOrClosed h n).Alone (d.machine plat) i s (Looks d x h s) := by
  induction n generalizing s
  case zero      => exact tryPeekOrClosed_alone owns
  case succ n ih =>
    refine .bind (tryPeekOrClosed_alone owns) (fun v t looks => ?_) fun e t looks =>
      ⟨looks.answer, looks.seen, nofun, nofun⟩
    cases v
    case some m => exact .pure looks
    case none   => exact (ih (looks.owns owns)).mono fun _ _ next => looks.again next

-- All on which the answers for the next record depend, but for the receiver.
structure View (s t : World) : Prop where
  byte      : t.byte = s.byte
  global    : ∀ b f, t.word (.global b f) = s.word (.global b f)
  cursor    : ∀ b header, t.word (.ring b header .writeCursor) = s.word (.ring b header .writeCursor)
  shared    : t.shared = s.shared
  peer      : t.peer = s.peer
  nextProbe : t.nextProbe = s.nextProbe
  poisoned  : t.poisoned = s.poisoned
  locked    : t.locked = s.locked

namespace View

theorem refl : View s s :=
  ⟨rfl, fun _ _ => rfl, fun _ _ => rfl, rfl, rfl, rfl, rfl, rfl⟩

theorem trans {u : World} (a : View s t) (b : View t u) : View s u where
  byte            := b.byte.trans a.byte
  global f g      := (b.global f g).trans (a.global f g)
  cursor f header := (b.cursor f header).trans (a.cursor f header)
  shared          := b.shared.trans a.shared
  peer            := b.peer.trans a.peer
  nextProbe       := b.nextProbe.trans a.nextProbe
  poisoned        := b.poisoned.trans a.poisoned
  locked          := b.locked.trans a.locked

theorem stored {w : Word} {n : Nat} (global : ∀ b f, w ≠ .global b f)
    (cursor : ∀ b header, w ≠ .ring b header .writeCursor) :
    View s (s.stored w n) where
  byte            := rfl
  global b f      := update_of_ne (global b f).symm _ _
  cursor b header := update_of_ne (cursor b header).symm _ _
  shared          := rfl
  peer            := rfl
  nextProbe       := rfl
  poisoned        := rfl
  locked          := rfl

theorem wake {w : WaitHandle} {n : Word} {r : Unit} (e : World.exec plat i (.wake w n) s r t) :
    View s t ∧ Seen s t := by
  have f := World.frame e
  have seen : Seen s t := .of_frame f (by simp [Act.parts])
  have word : t.word = s.word := f.word (by simp [Act.parts])
  refine ⟨⟨seen.byte, fun _ _ => by rw [word], fun _ _ => by rw [word], f.shared ?_, f.peer ?_,
    f.nextProbe ?_, f.poisoned ?_,
    f.locked ?_⟩, seen⟩
  all_goals simp [Act.parts]

theorem next (view : View s t) : y.next t = y.next s := by
  have available : y.available t = y.available s := by
    simp only [RingReceiver.available, RingReceiver.writeCursor, view.cursor]
  have length : y.lengthWord t = y.lengthWord s := by simp only [RingReceiver.lengthWord, World.bytesAt, view.byte]
  have seq : y.seqWord t = y.seqWord s := by simp only [RingReceiver.seqWord, World.bytesAt, view.byte]
  have peek : y.peek t = y.peek s := by simp only [RingReceiver.peek, available, length, seq]
  rw [RingReceiver.next, peek]
  rfl

theorem ready (view : View s t) : d.ready t x = d.ready s x := by
  have state : t.word x.stateWord = s.word x.stateWord := view.global _ _
  have published : t.published x = s.published x := by simp only [World.published, view.global]
  simp only [Surroundings.ready, awaited, probed, watched, state, published, view.peer, view.nextProbe, view.poisoned]

theorem breaks (view : View s t) {n : Nat} {y : RingReceiver} : d.Breaks t x n y ↔ d.Breaks s x n y := by
  induction n generalizing y
  case zero      => exact .rfl
  case succ n ih => simp only [Surroundings.Breaks, view.next, view.ready, ih]

theorem takes (view : View s t) {n : Nat} {y z : RingReceiver} : y.Takes t n z ↔ y.Takes s n z := by
  induction n generalizing y
  case zero      => exact .rfl
  case succ n ih => simp only [RingReceiver.Takes, view.next, ih]

end View

-- The receiver is behind the record `m`, and all else is as before.
structure Took (h : Handle) (m : PeekedMessage) (s t : World) : Prop where
  receiver : t.receiver h = (s.receiver h).past m
  view     : View s t
  out      : t.out = s.out

theorem copy_alone {m : PeekedMessage} : (RingReceiver.copyCurrentMessage h m m.payloadLen).Alone (d.machine plat) i s
    fun v t => (∃ bs, v = .ok bs) ∧ t = s := by
  unfold RingReceiver.copyCurrentMessage
  rw [if_neg (Nat.lt_irrefl _)]
  exact getReceiver_alone (readRing_alone.mono fun _ _ hv => ⟨⟨_, hv.left⟩, hv.right⟩)

theorem commit_alone {m : PeekedMessage} {copied : Option Bytes} (seq : m.seq = (s.receiver h).expectedSeq) :
    (RingReceiver.commitCurrentMessage h m copied).Alone (d.machine plat) i s fun v t => v = .ok () ∧ Took h m s t := by
  let y := { s.receiver h with expectedSeq := wrap32 ((s.receiver h).expectedSeq + 1) }
  let validated : World := { s with receiver := update s.receiver h y }
  have validates : (RingReceiver.validateSeq h m.seq).Alone (d.machine plat) i s fun v t => v = .ok () ∧
    t = validated := by
    refine getReceiver_alone ?_
    rw [if_neg (not_not.mpr seq)]
    exact .last ⟨(), _, rfl⟩ fun _ _ e => ⟨rfl, e⟩
  refine .bind validates ?_ nofun
  rintro _ _ ⟨_, rfl⟩
  have at_ : validated.receiver h = y := update_self _ _ _
  refine getReceiver_alone ?_
  rw [at_]
  let rc := wrap64 (m.readCursor + (MSG_HEADER_SIZE + m.payloadLen))
  let stored := validated.stored y.readCursor rc
  refine .step (v := ()) (fun _ t => (⟨fun e => ⟨rfl, e⟩, And.right⟩ : t = stored ↔ _ ∧ t = stored)) ?_
  let moved : World := { stored with receiver := update stored.receiver h { y with cachedRc := rc } }
  refine .step (v := ()) (fun _ t => (⟨fun e => ⟨rfl, e⟩, And.right⟩ : t = moved ↔ _ ∧ t = moved)) ?_
  refine .step (v := moved.word y.readerNotify) (fun _ _ => .rfl) (load_alone ?_)
  have took : Took h m s (moved.bumped y.readerNotify) := by
    have starts : View s validated := ⟨rfl, fun _ _ => rfl, fun _ _ => rfl, rfl, rfl, rfl, rfl, rfl⟩
    have stores : View validated stored := .stored nofun nofun
    have moves : View stored moved := ⟨rfl, fun _ _ => rfl, fun _ _ => rfl, rfl, rfl, rfl, rfl, rfl⟩
    exact ⟨update_self _ _ _, starts.trans (stores.trans (moves.trans (.stored nofun nofun))), rfl⟩
  split
  case isFalse => exact .pure ⟨rfl, took⟩
  case isTrue  =>
    refine .last (Solo.wake_runs (i := i)) fun _ t e => ⟨rfl, ?_⟩
    have ⟨view, seen⟩ := View.wake (i := i) (r := ()) e
    exact ⟨(congrFun seen.receiver h).trans took.receiver, took.view.trans view, seen.out.trans took.out⟩

theorem takeMessage_alone {m : PeekedMessage} (seq : m.seq = (s.receiver h).expectedSeq) :
    (RingReceiver.takeMessage h m).Alone (d.machine plat) i s fun v t => (∃ bs, v = .ok bs) ∧ Took h m s t := by
  refine .bind copy_alone ?_ fun _ _ hv => nomatch hv.left.choose_spec
  rintro bs t ⟨_, rfl⟩
  exact .bind (commit_alone seq) (fun _ _ hv => .pure ⟨⟨bs, rfl⟩, hv.right⟩) nofun

theorem takeMessage_refuses {m : PeekedMessage} (seq : m.seq ≠ (s.receiver h).expectedSeq) :
    (RingReceiver.takeMessage h m).Alone (d.machine plat) i s fun v t => (∃ e, v = .error e) ∧ t = s := by
  refine .bind copy_alone ?_ fun _ _ hv => nomatch hv.left.choose_spec
  rintro bs t ⟨_, rfl⟩
  have validates : (RingReceiver.validateSeq h m.seq).Alone (d.machine plat) i t fun v u =>
    (∃ e, v = .error e) ∧ u = t := by
    refine getReceiver_alone ?_
    rw [if_pos seq]
    exact .throw ⟨⟨_, rfl⟩, rfl⟩
  have commits : (RingReceiver.commitCurrentMessage h m (some bs)).Alone (d.machine plat) i t fun v u =>
      (∃ e, v = .error e) ∧ u = t :=
    .bind validates (fun _ _ hv => nomatch hv.left.choose_spec) fun e _ hv => ⟨⟨e, rfl⟩, hv.right⟩
  exact .bind commits (fun _ _ hv => nomatch hv.left.choose_spec) fun e _ hv => ⟨⟨e, rfl⟩, hv.right⟩

-- One turn of the loop of `drain_ready_with_spin`, whose caller had `start` messages.
def turn (h : Handle) (max spin start : Nat) : Routine (Unit ⊕ Unit) := do
  let out ← getOut
  if out.length - start < max then do
    match ← Code.attempt (Tokio.spinPeekOrClosed h spin) with
    | .ok (some message) => do
      let buf ← Tokio.commitMessageToVec h message
      setOut (out ++ [buf])
      Pure.pure (.inl ())
    | .ok none => Pure.pure (.inr ())
    | .error e => if e.Terminal ∧ out.length ≠ start then Pure.pure (.inr ()) else fail e
  else
    Pure.pure (.inr ())

theorem drain_eq {max spin : Nat} : Tokio.drainReadyWithSpin h max spin = (do
    let out ← getOut
    Code.loop (fun _ => turn h max spin out.length) ()
    let after ← getOut
    Pure.pure (after.length - out.length)) :=
  rfl

-- How a turn ends that finds no record.
def Stopped (d : Surroundings) (x : SharedChannel) (h : Handle) (started : Prop) [Decidable started]
    (v : Except Error (Unit ⊕ Unit)) (t : World) : Except Error Bool → Prop
  | .ok _    => v = .ok (.inr ()) ∧ Owns d x h t
  | .error e => v = if e.Terminal ∧ started then .ok (.inr ()) else .error e

-- What a turn does with what it finds.
def Turned (d : Surroundings) (x : SharedChannel) (i : ThreadId) (h : Handle) (start : Nat) (s : World)
    (v : Except Error (Unit ⊕ Unit)) (t : World) : Except Error (Option PeekedMessage) → Prop
  | .ok (some m) =>
      v = .ok (.inl ()) ∧ (∃ b, t.out i = s.out i ++ [b]) ∧ t.receiver h = (s.receiver h).past m ∧ View s t
  | .ok none     => Seen s t ∧ Stopped d x h ((s.out i).length ≠ start) v t (d.ready s x)
  | .error _     => (∃ e, v = .error e) ∧ Seen s t

-- What a turn does while the caller has not got all messages that it has asked for.
def Turns (d : Surroundings) (x : SharedChannel) (i : ThreadId) (h : Handle) (start : Nat) (s : World)
    (v : Except Error (Unit ⊕ Unit)) (t : World) : Prop :=
  Turned d x i h start s v t ((s.receiver h).next s)

theorem turn_ends {max spin start : Nat} (all : max ≤ (s.out i).length - start) :
    (turn h max spin start).Alone (d.machine plat) i s fun v t => v = .ok (.inr ()) ∧ t = s := by
  refine .step (v := s.out i) (fun _ _ => .rfl) ?_
  rw [if_neg (Nat.not_lt.mpr all)]
  exact .pure ⟨rfl, rfl⟩

theorem terminal_of_peek {e : Error} (h : y.peek s = .error e) : ¬ e.Terminal := by
  unfold RingReceiver.peek at h
  repeat' split at h
  all_goals cases h
  exact id

theorem Turns.of_found {start : Nat} {v : Except Error (Unit ⊕ Unit)} {found : Except Error TryPeekResult}
    (at_ : (s.receiver h).peek s = found) (turned : Turned d x i h start s v t ((s.receiver h).validated found)) :
    Turns d x i h start s v t := by
  rw [Turns, RingReceiver.next, at_]
  exact turned

theorem turn_alone {max spin start : Nat} (owns : Owns d x h s) (more : (s.out i).length - start < max) :
    (turn h max spin start).Alone (d.machine plat) i s (Turns d x i h start s) := by
  refine .step (v := s.out i) (fun _ _ => .rfl) ?_
  rw [if_pos more]
  refine .attempt (spinPeekOrClosed_alone owns spin) ?_
  intro v t looks
  have answer := looks.answer
  rw [peeked] at answer
  cases at_ : (s.receiver h).peek s
  case error e =>
    rw [at_, offered] at answer
    subst answer
    have other : ¬ (e.Terminal ∧ (s.out i).length ≠ start) := fun h => terminal_of_peek at_ h.left
    simp only
    rw [if_neg other]
    exact .throw (.of_found at_ ⟨⟨e, rfl⟩, looks.seen⟩)
  case ok r =>
  rw [at_] at answer
  cases r
  case empty =>
    rw [offered] at answer
    cases hr : d.ready s x
    case ok b =>
      rw [hr] at answer
      subst answer
      refine .pure (.of_found at_ ⟨looks.seen, ?_⟩)
      rw [hr]
      exact ⟨rfl, looks.owns owns⟩
    case error e =>
      rw [hr] at answer
      subst answer
      have stopped {v : Except Error (Unit ⊕ Unit)}
          (hv : v = if e.Terminal ∧ (s.out i).length ≠ start then .ok (.inr ()) else .error e) :
          Turns d x i h start s v t := by
        refine .of_found at_ ⟨looks.seen, ?_⟩
        rw [hr]
        exact hv
      simp only [Except.map]
      split
      case isTrue ends  => exact .pure (stopped (if_pos ends).symm)
      case isFalse ends => exact .throw (stopped (if_neg ends).symm)
  case ready m =>
    rw [offered] at answer
    subst answer
    obtain rfl := looks.found m rfl
    simp only
    by_cases seq : m.seq = (t.receiver h).expectedSeq
    case neg =>
      refine .bind (takeMessage_refuses seq) (fun _ _ hv => nomatch hv.left.choose_spec) fun e u hv => .of_found at_ ?_
      rw [RingReceiver.validated, if_pos seq]
      exact ⟨⟨e, rfl⟩, hv.right ▸ .refl⟩
    case pos =>
      refine .bind (takeMessage_alone seq) ?_ fun _ _ hv => nomatch hv.left.choose_spec
      rintro bs u ⟨_, took⟩
      refine .act ⟨(), _, rfl⟩ fun _ u' e => .pure (.of_found at_ ?_)
      rw [RingReceiver.validated, if_neg (not_not.mpr seq), show u' = _ from e]
      have ⟨byte, global, cursor, shared, peer, nextProbe, poisoned, locked⟩ := took.view
      exact ⟨rfl, ⟨bs, update_self _ _ _⟩, took.receiver, byte, global, cursor, shared, peer, nextProbe,
        poisoned, locked⟩

theorem Owns.of_view (owns : Owns d x h s) (view : View s t) {m : PeekedMessage}
    (past : t.receiver h = (s.receiver h).past m) :
    Owns d x h t where
  mine     := past ▸ owns.mine
  attached := view.shared ▸ owns.attached
  free     := view.locked ▸ owns.free

-- What the loop leaves when `n` messages are missing.
def Rest (d : Surroundings) (x : SharedChannel) (i : ThreadId) (h : Handle) (n : Nat) (s : World)
    (v : Except Error Unit)
    (t : World) : Prop :=
  ∃ bs, t.out i = s.out i ++ bs ∧
  match v with
  | .ok _    => (s.receiver h).Takes s bs.length (t.receiver h) ∧ ¬ d.Breaks s x n (s.receiver h)
  | .error _ => d.Breaks s x n (s.receiver h)

theorem Rest.taken {n : Nat} {m : PeekedMessage} {b : Bytes} {v : Except Error Unit} {u : World}
    (found : (s.receiver h).next s = .ok (some m)) (out : t.out i = s.out i ++ [b])
    (past : t.receiver h = (s.receiver h).past m) (view : View s t) (rest : Rest d x i h n t v u) :
    Rest d x i h (n + 1) s v u := by
  obtain ⟨bs, hb, rest⟩ := rest
  refine ⟨b :: bs, by rw [hb, out, List.append_assoc]; rfl, ?_⟩
  have breaks : d.Breaks s x (n + 1) (s.receiver h) ↔ d.Breaks t x n (t.receiver h) := by
    rw [view.breaks, past]
    rw [Surroundings.Breaks, found]
    rfl
  cases v
  case error e => exact breaks.mpr rest
  case ok =>
    refine ⟨⟨m, found, ?_⟩, fun h => rest.right (breaks.mp h)⟩
    rw [← past]
    exact view.takes.mp rest.left

theorem loop_alone {max spin start : Nat} (n : Nat) : {s : World} → Owns d x h s → start < (s.out i).length →
    (s.out i).length - start + n = max →
    (Code.loop (fun _ => turn h max spin start) ()).Alone (d.machine plat) i s (Rest d x i h n s) := by
  induction n
  case zero =>
    intro s _ _ all
    refine .loop (turn_ends (Nat.le_of_eq all.symm)) nofun ?_ nofun
    rintro _ t ⟨_, rfl⟩
    exact ⟨[], by simp, rfl, id⟩
  case succ n ih =>
    intro s owns some_ missing
    have turns : (turn h max spin start).Alone (d.machine plat) i s fun v t =>
        Turned d x i h start s v t ((s.receiver h).next s) := turn_alone owns (by omega)
    cases hn : (s.receiver h).next s
    case error e =>
      rw [hn] at turns
      refine .loop turns (fun _ _ hv => nomatch hv.left.choose_spec) (fun _ _ hv => nomatch hv.left.choose_spec) ?_
      rintro e' t ⟨_, seen⟩
      refine ⟨[], by rw [seen.out]; simp, ?_⟩
      show d.Breaks s x (n + 1) (s.receiver h)
      rw [Surroundings.Breaks, hn]
      trivial
    case ok r =>
    rw [hn] at turns
    cases r
    case some m =>
      refine .loop turns ?_ (fun _ _ hv => nomatch hv.left) fun _ _ hv => nomatch hv.left
      rintro _ t ⟨_, ⟨b, out⟩, past, view⟩
      refine (ih (owns.of_view view past) ?_ ?_).mono fun v u rest => rest.taken hn out past view
      · simp only [out, List.length_append]
        omega
      · simp only [out, List.length_append, List.length_singleton]
        omega
    case none =>
      have breaks : d.Breaks s x (n + 1) (s.receiver h) ↔ ∃ e, d.ready s x = .error e ∧ ¬ e.Terminal := by
        rw [Surroundings.Breaks, hn]
        rfl
      have turns :=
        turns.mono fun v t (hv : Seen s t ∧ Stopped d x h ((s.out i).length ≠ start) v t (d.ready s x)) => hv
      cases hr : d.ready s x
      case ok b =>
        rw [hr] at turns breaks
        refine .loop turns (fun _ _ hv => nomatch hv.right.left) ?_ fun _ _ hv => nomatch hv.right.left
        rintro _ t ⟨seen, _⟩
        exact ⟨[], by rw [seen.out]; simp, congrFun seen.receiver h, fun h => nomatch (breaks.mp h).choose_spec.left⟩
      case error e =>
        rw [hr] at turns breaks
        have started : (s.out i).length ≠ start := by omega
        have turns := turns.mono fun v t (hv : Seen s t ∧ v = if e.Terminal ∧ _ then _ else _) => hv
        by_cases terminal : e.Terminal
        case pos =>
          rw [if_pos (And.intro terminal started)] at turns
          refine .loop turns (fun _ _ hv => nomatch hv.right) ?_ fun _ _ hv => nomatch hv.right
          rintro _ t ⟨seen, _⟩
          refine ⟨[], by rw [seen.out]; simp, congrFun seen.receiver h, fun h => ?_⟩
          obtain ⟨e', he, other⟩ := breaks.mp h
          cases he
          exact other terminal
        case neg =>
          have no : ¬ (e.Terminal ∧ (s.out i).length ≠ start) := fun h => terminal h.left
          rw [if_neg no] at turns
          refine .loop turns (fun _ _ hv => nomatch hv.right) (fun _ _ hv => nomatch hv.right) ?_
          rintro e' t ⟨seen, _⟩
          exact ⟨[], by rw [seen.out]; simp, breaks.mpr ⟨e, rfl, terminal⟩⟩

-- The call has found nothing to take, and the channel is ready.
structure Idle (d : Surroundings) (x : SharedChannel) (h : Handle) (max : Nat) (s t : World) : Prop where
  seen  : Seen s t
  owns  : Owns d x h t
  empty : max = 0 ∨ (s.receiver h).next s = .ok none

-- What the call does.
def Drained (d : Surroundings) (x : SharedChannel) (i : ThreadId) (h : Handle) (max : Nat) (s : World)
    (v : Except Error Unit) (t : World) : Prop :=
  match v with
  | .error _ => d.BreaksOff s x max (s.receiver h) ∧ t.out i ≠ s.out i ∨ ¬ d.BreaksOff s x max (s.receiver h) ∧ Seen s t
  | .ok _    => ¬ d.BreaksOff s x max (s.receiver h) ∧
      (∃ bs, t.out i = s.out i ++ bs ∧ (s.receiver h).Takes s bs.length (t.receiver h)) ∧
      (t.out i = s.out i → Idle d x h max s t)

theorem breaksOff_iff {n : Nat} {m : PeekedMessage} (found : y.next s = .ok (some m)) :
    d.BreaksOff s x (n + 1) y ↔ d.Breaks s x n (y.past m) := by
  constructor
  case mp =>
    rintro ⟨m', k, hk, found', breaks⟩
    cases found.symm.trans found'
    cases hk
    exact breaks
  case mpr => exact fun breaks => ⟨m, n, rfl, found, breaks⟩

theorem not_breaksOff {n : Nat} (other : ∀ m, y.next s ≠ .ok (some m)) : ¬ d.BreaksOff s x n y :=
  fun ⟨m, _, _, found, _⟩ => other m found

theorem Drained.of_rest {n : Nat} {m : PeekedMessage} {b : Bytes} {v : Except Error Unit} {u : World}
    (found : (s.receiver h).next s = .ok (some m)) (out : t.out i = s.out i ++ [b])
    (past : t.receiver h = (s.receiver h).past m) (view : View s t) (rest : Rest d x i h n t v u) :
    Drained d x i h (n + 1) s v u := by
  obtain ⟨bs, hb, rest⟩ := rest
  have more : u.out i ≠ s.out i := by
    intro same
    have lengths := congrArg List.length same
    simp only [hb, out, List.length_append, List.length_singleton] at lengths
    omega
  have breaks : d.BreaksOff s x (n + 1) (s.receiver h) ↔ d.Breaks t x n (t.receiver h) := by
    rw [breaksOff_iff found, view.breaks, past]
  cases v
  case error e => exact .inl ⟨breaks.mpr rest, more⟩
  case ok =>
    refine ⟨fun h => rest.right (breaks.mp h), ⟨b :: bs, by rw [hb, out, List.append_assoc]; rfl, m, found, ?_⟩, ?_⟩
    · rw [← past]
      exact view.takes.mp rest.left
    · exact fun same => absurd same more

theorem drain_loop {max spin : Nat} (owns : Owns d x h s) :
    (Code.loop (fun _ => turn h max spin (s.out i).length) ()).Alone (d.machine plat) i s (Drained d x i h max s) := by
  cases max
  case zero =>
    refine .loop (turn_ends (Nat.zero_le _)) nofun ?_ nofun
    rintro _ t ⟨_, rfl⟩
    exact ⟨fun ⟨_, _, hk, _⟩ => (nomatch hk), ⟨[], by simp, rfl⟩, fun _ => ⟨.refl, owns, .inl rfl⟩⟩
  case succ n =>
    have turns : (turn h (n + 1) spin (s.out i).length).Alone (d.machine plat) i s fun v t =>
        Turned d x i h (s.out i).length s v t ((s.receiver h).next s) := turn_alone owns (by omega)
    cases hn : (s.receiver h).next s
    case error e =>
      rw [hn] at turns
      refine .loop turns (fun _ _ hv => nomatch hv.left.choose_spec) (fun _ _ hv => nomatch hv.left.choose_spec) ?_
      exact fun _ _ hv => .inr ⟨not_breaksOff fun m found => (nomatch hn.symm.trans found), hv.right⟩
    case ok r =>
    rw [hn] at turns
    cases r
    case some m =>
      refine .loop turns ?_ (fun _ _ hv => nomatch hv.left) fun _ _ hv => nomatch hv.left
      rintro _ t ⟨_, ⟨b, out⟩, past, view⟩
      refine (loop_alone n (owns.of_view view past) ?_ ?_).mono fun v u rest => .of_rest hn out past view rest
      · simp only [out, List.length_append, List.length_singleton]
        omega
      · simp only [out, List.length_append, List.length_singleton]
        omega
    case none =>
      have whole : ¬ d.BreaksOff s x (n + 1) (s.receiver h) := not_breaksOff fun m found => nomatch hn.symm.trans found
      have turns := turns.mono fun v t
        (hv : Seen s t ∧ Stopped d x h ((s.out i).length ≠ (s.out i).length) v t (d.ready s x)) => hv
      cases hr : d.ready s x
      case ok b =>
        rw [hr] at turns
        refine .loop turns (fun _ _ hv => nomatch hv.right.left) ?_ fun _ _ hv => nomatch hv.right.left
        rintro _ t ⟨seen, _, owns⟩
        refine ⟨whole, ⟨[], by rw [seen.out]; simp, congrFun seen.receiver h⟩, fun _ => ⟨seen, owns, .inr hn⟩⟩
      case error e =>
        rw [hr] at turns
        have no : ¬ (e.Terminal ∧ (s.out i).length ≠ (s.out i).length) := fun h => h.right rfl
        have turns := turns.mono fun v t (hv : Seen s t ∧ v = if e.Terminal ∧ _ then _ else _) => hv
        rw [if_neg no] at turns
        refine .loop turns (fun _ _ hv => nomatch hv.right) (fun _ _ hv => nomatch hv.right) ?_
        exact fun _ _ hv => .inr ⟨whole, hv.left⟩

-- The answer is the number of new messages.
theorem drain_alone {max spin : Nat} (owns : Owns d x h s) :
    (Tokio.drainReadyWithSpin h max spin).Alone (d.machine plat) i s fun v t =>
      ∃ w, v = w.map (fun _ => (t.out i).length - (s.out i).length) ∧ Drained d x i h max s w t := by
  rw [drain_eq]
  refine .step (v := s.out i) (fun _ _ => .rfl) (.bind (drain_loop owns) ?_ ?_)
  · refine fun u t drained => .step (v := t.out i) (fun _ _ => .rfl) (.pure ⟨.ok u, rfl, drained⟩)
  · exact fun e t drained => ⟨.error e, rfl, drained⟩

theorem atomic_of_drained {max : Nat} {w : Except Error Unit} (whole : ¬ d.BreaksOff s x max (s.receiver h))
    (drained : Drained d x i h max s w t) : Atomic i h s (w.map fun _ => (t.out i).length - (s.out i).length) t := by
  cases w
  case error e =>
    obtain ⟨breaks, _⟩ | ⟨_, seen⟩ := drained
    case inl => exact absurd breaks whole
    case inr => exact ⟨congrFun seen.out i, congrFun seen.receiver h, (seen.cursors _ _).right⟩
  case ok u =>
    obtain ⟨_, ⟨bs, out, takes⟩, _⟩ := drained
    have length : (t.out i).length - (s.out i).length = bs.length := by simp [out]
    show Atomic i h s (.ok ((t.out i).length - (s.out i).length)) t
    rw [length]
    exact ⟨⟨bs, out, rfl⟩, takes⟩

theorem not_atomic {max : Nat} {w : Except Error Unit} (breaks : d.BreaksOff s x max (s.receiver h))
    (drained : Drained d x i h max s w t) : ¬ Atomic i h s (w.map fun _ => (t.out i).length - (s.out i).length) t := by
  cases w
  case ok u    => exact absurd breaks drained.left
  case error e =>
    obtain ⟨_, more⟩ | ⟨whole, _⟩ := drained
    case inl => exact fun atomic => more atomic.left
    case inr => exact absurd breaks whole

-- A batch is atomic for all runs of the call alone.
def Atomically (d : Surroundings) (plat : Platform) (i : ThreadId) (h : Handle) (s : World) (p : Routine Nat) : Prop :=
  ∀ v t, Program.Ends (d.machine plat) i p s v t → Atomic i h s v t

theorem drain_atomic {max spin : Nat} (owns : Owns d x h s) :
    Atomically d plat i h s (Tokio.drainReadyWithSpin h max spin) ↔ ¬ d.BreaksOff s x max (s.receiver h) := by
  have alone : (Tokio.drainReadyWithSpin h max spin).Alone (d.machine plat) i s _ := drain_alone owns
  constructor
  case mp =>
    intro atomic breaks
    obtain ⟨v, t, ends, w, rfl, drained⟩ := Program.Alone.exists_end alone
    exact not_atomic breaks drained (atomic _ _ ends)
  case mpr =>
    intro whole v t ends
    obtain ⟨w, rfl, drained⟩ := Program.Alone.ends alone ends
    exact atomic_of_drained whole drained

-- While `recv_many` waits.

theorem View.of_frame {parts : List Piece} (f : World.Frame parts s t)
    (other : .byte ∉ parts ∧ .word ∉ parts ∧ .shared ∉ parts ∧ .peer ∉ parts ∧ .nextProbe ∉ parts ∧ .poisoned ∉ parts ∧
      .locked ∉ parts) : View s t := by
  obtain ⟨byte, word, shared, peer, nextProbe, poisoned, locked⟩ := other
  have same := f.word word
  exact ⟨f.byte byte, fun _ _ => by rw [same], fun _ _ => by rw [same], f.shared shared, f.peer peer,
    f.nextProbe nextProbe,
    f.poisoned poisoned, f.locked locked⟩

theorem Signals.parts {a : Act} (ha : a.Signals) : .byte ∉ a.parts ∧ .receiver ∉ a.parts ∧ .out ∉ a.parts ∧
    .shared ∉ a.parts ∧ .peer ∉ a.parts ∧ .nextProbe ∉ a.parts ∧ .poisoned ∉ a.parts ∧ .locked ∉ a.parts := by
  cases a
  all_goals first
    | exact False.elim ha
    | simp [Act.parts]

theorem signals_kept {a : Act} {r : a.Ret} (ha : a.Signals) (e : d.exec plat i a s r t) : View s t ∧ Seen s t := by
  by_cases timeless : Timeless a
  case neg =>
    cases a
    case now                 =>
      exact e.right ▸ ⟨⟨rfl, fun _ _ => rfl, fun _ _ => rfl, rfl, rfl, rfl, rfl, rfl⟩, rfl, rfl, rfl,
        fun _ _ => ⟨rfl, rfl⟩⟩
    case readProcStat        => exact e.right ▸ ⟨.refl, .refl⟩
    case compareExchangeWeak => exact False.elim ha
    case spawnBridge n       =>
      simp only [Surroundings.exec] at e
      split at e
      case h_1 =>
        exact e.right ▸ ⟨⟨rfl, fun _ _ => rfl, fun _ _ => rfl, rfl, rfl, rfl, rfl, rfl⟩, rfl, rfl, rfl,
          fun _ _ => ⟨rfl, rfl⟩⟩
      case h_2 => exact e.right ▸ ⟨.refl, .refl⟩
    all_goals exact absurd trivial timeless
  case pos =>
    have e : World.exec plat i a s r t := (timeless_exec timeless).mpr e
    by_cases word : .word ∈ a.parts
    case pos =>
      cases a
      case store w n note _    =>
        obtain ⟨parked, rfl⟩ := ha
        have e : t = s.stored w n := e
        rw [e]
        refine ⟨.stored ?_ ?_, rfl, rfl, rfl, fun b header => ⟨update_of_ne ?_ _ _, update_of_ne ?_ _ _⟩⟩
        · rintro b f rfl; exact parked
        · rintro b header rfl; exact parked
        · rintro rfl; exact parked
        · rintro rfl; exact parked
      case fetchAdd w _        =>
        have e : t = s.stored w (wrap32 (s.word w + 1)) := e.right
        rw [e]
        refine ⟨.stored ?_ ?_, .bumped ha⟩
        · rintro b f rfl; exact ha
        · rintro b header rfl; exact ha
      case compareExchangeWeak => exact False.elim timeless
      case compareExchange | createNew => exact False.elim ha
      all_goals exact absurd word (by simp [Act.parts])
    case neg =>
      obtain ⟨byte, receiver, out, shared, peer, nextProbe, poisoned, locked⟩ := Signals.parts ha
      exact ⟨.of_frame (World.frame e) ⟨byte, word, shared, peer, nextProbe, poisoned, locked⟩,
        .of_frame (World.frame e) ⟨byte, receiver, out, word⟩⟩

-- A call that has consumed nothing, and that will not break off.
structure Waiting (d : Surroundings) (x : SharedChannel) (h : Handle) (max : Nat) (s t : World) : Prop where
  seen  : Seen s t
  owns  : Owns d x h t
  whole : ¬ d.BreaksOff t x max (t.receiver h)

theorem Seen.next {y : RingReceiver} (seen : Seen s t) : y.next t = y.next s := by
  rw [RingReceiver.next, RingReceiver.next, peek_seen seen]

theorem Seen.takes (seen : Seen s t) {n : Nat} {y z : RingReceiver} : y.Takes t n z ↔ y.Takes s n z := by
  induction n generalizing y
  case zero      => exact .rfl
  case succ n ih => simp only [RingReceiver.Takes, Seen.next seen, ih]

theorem Waiting.kept {max : Nat} {u : World} (waiting : Waiting d x h max s t) (view : View t u) (seen : Seen t u) :
    Waiting d x h max s u := by
  refine ⟨waiting.seen.trans seen, ⟨seen.receiver ▸ waiting.owns.mine, view.shared ▸ waiting.owns.attached, ?_⟩, ?_⟩
  · exact view.locked ▸ waiting.owns.free
  · rintro ⟨m, k, hk, found, breaks⟩
    rw [seen.receiver] at found breaks
    exact waiting.whole ⟨m, k, hk, view.next ▸ found, view.breaks.mp breaks⟩

theorem Waiting.atomic {max : Nat} {u : World} {v : Except Error Nat} (waiting : Waiting d x h max s t)
    (atomic : Atomic i h t v u) : Atomic i h s v u := by
  have receiver := congrFun waiting.seen.receiver h
  have out := congrFun waiting.seen.out i
  cases v
  case ok n    =>
    obtain ⟨⟨bs, hb, hn⟩, takes⟩ := atomic
    rw [receiver] at takes
    exact ⟨⟨bs, out ▸ hb, hn⟩, (Seen.takes waiting.seen).mp takes⟩
  case error e =>
    obtain ⟨ho, hr, hc⟩ := atomic
    rw [receiver] at hr hc
    exact ⟨ho.trans out, hr, hc.trans (waiting.seen.cursors _ _).right⟩

theorem Waiting.again {max : Nat} {u : World} (waiting : Waiting d x h max s t) (idle : Idle d x h max t u) :
    Waiting d x h max s u := by
  refine ⟨waiting.seen.trans idle.seen, idle.owns, ?_⟩
  rintro ⟨m, k, rfl, found, _⟩
  rw [idle.seen.receiver, Seen.next idle.seen] at found
  rcases idle.empty with none | none
  case inl => exact nomatch none
  case inr => exact nomatch none.symm.trans found

open Assertion

variable {max spin : Nat} {wait : AsyncWait}

def waiting (d : Surroundings) (plat : Platform) (i : ThreadId) (x : SharedChannel) (h : Handle)
    (max : Nat) (s : World) :
    Assertion (Protocol.lone (d.machine plat) i) i :=
  .lone (Waiting d x h max s)

def answered (d : Surroundings) (plat : Platform) (i : ThreadId) (h : Handle) (s : World) (v : Except Error Nat) :
    Assertion (Protocol.lone (d.machine plat) i) i :=
  .lone (Atomic i h s v)

theorem waiting_keeps : (waiting d plat i x h max s).Keeps Act.Signals where
  ok _ _ _           := rfl
  kept ha _ hw exec := hw.kept (signals_kept ha exec).left (signals_kept ha exec).right

theorem waiting_fails {e : Error} : waiting d plat i x h max s ≤ answered d plat i h s (.error e) :=
  fun _ _ hw => ⟨congrFun hw.seen.out i, congrFun hw.seen.receiver h, (hw.seen.cursors _ _).right⟩

theorem Idle.of_none {w : Except Error Unit} (none : (w.map fun _ => (t.out i).length - (s.out i).length) = .ok 0)
    (drained : Drained d x i h max s w t) : Idle d x h max s t := by
  cases w
  case error => cases none
  case ok u  =>
    obtain ⟨_, ⟨bs, out, _⟩, idle⟩ := drained
    have length : (t.out i).length - (s.out i).length = 0 := Except.ok.inj none
    rw [out, List.length_append, Nat.add_sub_cancel_left] at length
    refine idle ?_
    rw [out, List.eq_nil_of_length_eq_zero length, List.append_nil]

theorem drain_spec : Code.Spec (waiting d plat i x h max s) (Tokio.drainReadyWithSpin h max spin)
    (fun n => answered d plat i h s (.ok n) ⊓ .given (n = 0) (waiting d plat i x h max s))
    (fun e => answered d plat i h s (.error e)) := by
  have alone (t : World) (hw : waiting d plat i x h max s t) :
    (Tokio.drainReadyWithSpin h max spin).Alone (d.machine plat) i t
      fun v u => Atomic i h s v u ∧ (v = .ok 0 → Waiting d x h max s u) := by
    refine (drain_alone hw.owns).mono ?_
    rintro v u ⟨w, rfl, drained⟩
    exact ⟨hw.atomic (atomic_of_drained hw.whole drained), fun none => hw.again (.of_none none drained)⟩
  refine (Code.Alone.spec alone).post (fun n u _ hu => ⟨hu.left, fun none => hu.right ?_⟩) fun e u _ hu => hu.left
  rw [none]

theorem recvMany_spec : Code.Spec (waiting d plat i x h max s) (Tokio.recvManyAsync h wait max)
    (fun n => answered d plat i h s (.ok n)) (fun e => answered d plat i h s (.error e)) := by
  have none {k : Nat} (hk : ¬ k ≠ 0) : answered d plat i h s (.ok k) ⊓ .given (k = 0) (waiting d plat i x h max s) ≤
      waiting d plat i x h max s := fun _ _ ht => ht.right (not_not.mp hk)
  unfold Tokio.recvManyAsync
  split
  case isTrue =>
    refine .pure fun t _ hw => ⟨⟨[], ?_, rfl⟩, congrFun hw.seen.receiver h⟩
    rw [congrFun hw.seen.out i, List.append_nil]
  refine .loop (fun _ => waiting d plat i x h max s) le_rfl fun _ => .bind drain_spec fun k => ?_
  split
  case isTrue     => exact .pure fun _ _ ht => ht.left
  case isFalse hk =>
    refine .pre (P := waiting d plat i x h max s) ?_ (none hk)
    refine .pass waiting_keeps Effects.snapshot_signals (fun _ _ => waiting_fails) fun observed => ?_
    refine .bind drain_spec fun k => ?_
    split
    case isTrue     => exact .pure fun _ _ ht => ht.left
    case isFalse hk =>
      refine .pre (P := waiting d plat i x h max s) ?_ (none hk)
      exact .pass waiting_keeps Effects.waitChanged_signals (fun _ _ => waiting_fails) fun _ => .pure le_rfl

theorem drain_breaks (owns : Owns d x h s) (breaks : d.BreaksOff s x max (s.receiver h)) :
    (Tokio.drainReadyWithSpin h max spin).Alone (d.machine plat) i s fun v t =>
      ∃ e, v = .error e ∧ t.out i ≠ s.out i := by
  refine (drain_alone owns).mono ?_
  rintro v t ⟨w, rfl, drained⟩
  cases w
  case ok u    => exact absurd breaks drained.left
  case error e =>
    obtain ⟨_, more⟩ | ⟨whole, _⟩ := drained
    case inl => exact ⟨e, rfl, more⟩
    case inr => exact absurd breaks whole

theorem recvMany_breaks (owns : Owns d x h s) (breaks : d.BreaksOff s x max (s.receiver h)) :
    (Tokio.recvManyAsync h wait max).Alone (d.machine plat) i s fun v t => ∃ e, v = .error e ∧ t.out i ≠ s.out i := by
  have some_ : max ≠ 0 := by
    obtain ⟨_, _, rfl, _⟩ := breaks
    exact Nat.succ_ne_zero _
  unfold Tokio.recvManyAsync
  rw [if_neg some_]
  refine .loop (M := fun v t => ∃ e, v = .error e ∧ t.out i ≠ s.out i) ?_ ?_ ?_ ?_
  · refine .bind (drain_breaks owns breaks) ?_ fun e t h => ⟨e, rfl, h.choose_spec.right⟩
    rintro k t ⟨e, he, _⟩
    cases he
  · rintro y t ⟨e, he, _⟩
    cases he
  · rintro v t ⟨e, he, _⟩
    cases he
  · rintro e' t ⟨e, he, more⟩
    exact ⟨e', rfl, more⟩

theorem recvMany_atomic (owns : Owns d x h s) :
    Atomically d plat i h s (Tokio.recvManyAsync h wait max) ↔ ¬ d.BreaksOff s x max (s.receiver h) := by
  constructor
  case mp =>
    intro atomic breaks
    have alone : (Tokio.recvManyAsync h wait max).Alone (d.machine plat) i s _ := recvMany_breaks owns breaks
    obtain ⟨v, t, ends, e, rfl, more⟩ := Program.Alone.exists_end alone
    exact more (atomic _ _ ends).left
  case mpr =>
    intro whole v t ends
    have known := Program.Triple.ends (p := Tokio.recvManyAsync h wait max) recvMany_spec ⟨.refl, owns, whole⟩ ends
    cases v
    case ok    => exact known
    case error => exact known

-- A batch is all or nothing as long as no error that is not the end of the channel is behind its first record.
theorem batches_atomic (owns : Owns d x h s) :
    (Atomically d plat i h s (Tokio.drainReady h max) ↔ ¬ d.BreaksOff s x max (s.receiver h)) ∧
    (Atomically d plat i h s (Tokio.recvManyAsync h wait max) ↔ ¬ d.BreaksOff s x max (s.receiver h)) :=
  ⟨drain_atomic owns, recvMany_atomic owns⟩

-- Two empty records, where the second one has the number of the first one.
def repeated : World := { World.start with
  word     := fun
    | .ring _ _ .writeCursor => 2 * MSG_HEADER_SIZE
    | .global _ .state       => ChannelState.connected.toU32
    | _                      => 0
  shared   := fun _ => some ⟨.server, 0, "a", 0, 1000⟩
  receiver := fun _ => ⟨0, 0, ⟨0, .ringAWriter⟩, ⟨0, .ringAReader⟩, 0, 64, 63, 0, 0, 0⟩ }

def calm : Surroundings where
  handle   := 0
  now      := 0
  stat _ _ := .ok []
  spawn    := .ok ()

-- The same, where it has the next number.
def numbered : World :=
  { repeated with byte := fun _ address => if address = 12 then 1 else 0 }

-- An empty record.
theorem next_empty (s : World) (y : RingReceiver) (n : Nat) (available : MSG_HEADER_SIZE ≤ y.available s)
    (length : y.lengthWord s = 0)
    (seq : y.seqWord s = n) : y.next s = y.validated (.ok (.ready ⟨y.cachedRc, 0, n⟩)) := by
  have peek : y.peek s = .ok (.ready ⟨y.cachedRc, 0, n⟩) := by
    unfold RingReceiver.peek
    rw [length, seq, if_neg (Nat.not_lt.mpr available), if_neg (Nat.not_lt_zero _), Nat.add_zero,
      if_neg (Nat.not_lt.mpr available)]
  rw [RingReceiver.next, peek]

theorem repeated_breaks : calm.BreaksOff repeated ⟨.server, 0, "a", 0, 1000⟩ 2 (repeated.receiver 0) := by
  have found : (repeated.receiver 0).next repeated = .ok (some ⟨0, 0, 0⟩) :=
    next_empty _ _ 0 (by decide +kernel) (by decide +kernel) (by decide +kernel)
  have broken : ((repeated.receiver 0).past ⟨0, 0, 0⟩).next repeated = .error (.sequenceMismatch 1 0) :=
    next_empty _ _ 0 (by decide +kernel) (by decide +kernel) (by decide +kernel)
  refine ⟨_, 1, rfl, found, ?_⟩
  rw [Surroundings.Breaks, broken]
  trivial

theorem numbered_whole : ¬ calm.BreaksOff numbered ⟨.server, 0, "a", 0, 1000⟩ 2 (numbered.receiver 0) := by
  have first : (numbered.receiver 0).next numbered = .ok (some ⟨0, 0, 0⟩) :=
    next_empty _ _ 0 (by decide +kernel) (by decide +kernel) (by decide +kernel)
  have second : ((numbered.receiver 0).past ⟨0, 0, 0⟩).next numbered = .ok (some ⟨8, 0, 1⟩) :=
    next_empty _ _ 1 (by decide +kernel) (by decide +kernel) (by decide +kernel)
  rintro ⟨m, k, hk, found, breaks⟩
  cases hk
  cases first.symm.trans found
  rw [Surroundings.Breaks, second] at breaks
  exact breaks

-- The batch of the first ring breaks off, and that of the second one does not.
theorem batches_atomic_repeated :
    ¬ Atomically calm .linux 0 0 repeated (Tokio.drainReady 0 2) ∧
    ¬ Atomically calm .linux 0 0 repeated
      (Tokio.recvManyAsync 0 ⟨0, ⟨0, .ringAWriter⟩, .ring 0 0 .writerNotify, .ring 0 0 .writerParked, 0⟩ 2) ∧
    Atomically calm .linux 0 0 numbered (Tokio.drainReady 0 2) ∧
    Atomically calm .linux 0 0 numbered
      (Tokio.recvManyAsync 0 ⟨0, ⟨0, .ringAWriter⟩, .ring 0 0 .writerNotify, .ring 0 0 .writerParked, 0⟩ 2) := by
  have owns : Owns calm ⟨.server, 0, "a", 0, 1000⟩ 0 repeated := ⟨rfl, rfl, rfl⟩
  have owns' : Owns calm ⟨.server, 0, "a", 0, 1000⟩ 0 numbered := ⟨rfl, rfl, rfl⟩
  have broken := @batches_atomic calm .linux 0 repeated _ 0 2
    ⟨0, ⟨0, .ringAWriter⟩, .ring 0 0 .writerNotify, .ring 0 0 .writerParked, 0⟩ owns
  have whole := @batches_atomic calm .linux 0 numbered _ 0 2
    ⟨0, ⟨0, .ringAWriter⟩, .ring 0 0 .writerNotify, .ring 0 0 .writerParked, 0⟩ owns'
  refine ⟨fun atomic => ?_, fun atomic => ?_, whole.left.mpr numbered_whole, whole.right.mpr numbered_whole⟩
  · exact broken.left.mp atomic repeated_breaks
  · exact broken.right.mp atomic repeated_breaks

end Batch
