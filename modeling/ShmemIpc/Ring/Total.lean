import ShmemIpc.Execution.Prompt
import ShmemIpc.Ring.Batch
import ShmemIpc.Ring.Copy
import ShmemIpc.Ring.Operations

-- A receiver that finds a message does not wait, and its calls return.

open Function

-- The actions by which a message is looked at and taken.
def Act.Takes : Act → Prop
  | load _ | store .. | fetchAdd _ | readByte .. | sub .. | getReceiver _ | setReceiver .. | getBuf | setBuf _
    | wake .. => True
  | _         => False

theorem Act.Takes.steady {a : Act} {h : Handle} (ha : a.Takes) : a.Steady h := by
  cases a <;> first | exact ha.elim | trivial

theorem Act.Takes.timeless {a : Act} (ha : a.Takes) : Batch.Timeless a := by
  cases a <;> first | exact ha.elim | trivial

namespace Total

open Code RingReceiver

variable {plat : Platform} {i : ThreadId} {s t : World} {α : Type} {h : Handle} {x : SharedChannel} {y z : RingReceiver}
variable {m : PeekedMessage} {Q : Except Error α → World → Prop}

theorem copyFrom_straight {base : FileId} : (n addr : Nat) → Code.Straight Act.Takes (copyFrom base addr n)
  | 0, _        => .pure
  | n + 1, addr => .act trivial fun _ => .bind (copyFrom_straight n (addr + 1)) fun _ => .pure

theorem readRing_straight {cursor len : Nat} : Code.Straight Act.Takes (y.readRing cursor len) := by
  refine .bind (copyFrom_straight _ _) fun front => ?_
  split
  case isTrue  => exact .bind (copyFrom_straight _ _) fun _ => .pure
  case isFalse => exact .pure

theorem tryPeekMessage_straight : Code.Straight Act.Takes (tryPeekMessage h) := by
  refine .act trivial fun y => .act trivial fun wc => .act trivial fun available => ?_
  split
  case isTrue => exact .pure
  refine .bind (.bind readRing_straight fun _ => .pure) fun header => ?_
  split
  split
  case isTrue => exact .throw
  refine .act trivial fun available => ?_
  split <;> exact .pure

theorem copyCurrentMessage_straight {n : Nat} : Code.Straight Act.Takes (copyCurrentMessage h m n) := by
  unfold copyCurrentMessage
  split
  case isTrue  => exact .throw
  case isFalse => exact .act trivial fun _ => readRing_straight

theorem commitCurrentMessage_straight {copied : Option Bytes} :
    Code.Straight Act.Takes (commitCurrentMessage h m copied) := by
  refine .bind (.act trivial fun y => ?_) fun _ => .act trivial fun y => .act trivial fun _ => .act trivial fun _ =>
    .act trivial fun _ => .act trivial fun parked => ?_
  · split
    case isTrue  => exact .throw
    case isFalse => exact .perform trivial
  · split
    case isTrue  => exact .perform trivial
    case isFalse => exact .pure

theorem takeMessage_straight : Code.Straight Act.Takes (takeMessage h m) :=
  .bind copyCurrentMessage_straight fun _ => .bind commitCurrentMessage_straight fun _ => .pure

theorem takeMessageInto_straight : Code.Straight Act.Takes (takeMessageInto h m) := by
  refine .act trivial fun buf => ?_
  split
  case isTrue  => exact .bind commitCurrentMessage_straight fun _ => .throw
  case isFalse =>
    exact .bind copyCurrentMessage_straight fun _ => .act trivial fun _ =>
      .bind commitCurrentMessage_straight fun _ => .pure

-- Such code ends in the world, and as it does where the time stands still.

theorem takes_alone {p : Routine α} (hp : Code.Straight Act.Takes p) (hs : s.shared h = some x) :
    p.Alone (worldMachine plat) i s fun _ t => Prompt.Same s t :=
  Prompt.straight_world (hp.mono fun _ ha => ha.steady) hs

theorem world_of_calm {p : Routine α} (hp : Code.Straight Act.Takes p)
    (alone : p.Alone (Batch.calm.machine plat) i s Q) :
    p.Alone (worldMachine plat) i s Q :=
  Program.Alone.along (fun ha => (Batch.timeless_exec ha).symm) (hp.mono fun _ ha => ha.timeless).only alone

theorem peek_alone : (tryPeekMessage h).Alone (worldMachine plat) i s fun v t => v = (s.receiver h).peek s ∧ t = s :=
  world_of_calm tryPeekMessage_straight Batch.tryPeekMessage_alone

-- The receiver `h` finds the message `m` at its cursor.
structure Finds (h : Handle) (m : PeekedMessage) (s : World) : Prop where
  peek : (s.receiver h).peek s = .ok (.ready m)
  seq  : m.seq = (s.receiver h).expectedSeq

theorem Finds.of_next (hn : (s.receiver h).next s = .ok (some m)) : Finds h m s := by
  rw [RingReceiver.next] at hn
  cases at_ : (s.receiver h).peek s
  case error => rw [at_] at hn; cases hn
  case ok r =>
    rw [at_] at hn
    cases r
    case empty => cases hn
    case ready m' =>
      rw [RingReceiver.validated] at hn
      split at hn
      case isTrue  => cases hn
      case isFalse seq =>
        cases hn
        exact ⟨at_, not_not.mp seq⟩

theorem tryPeekOrClosed_alone (finds : Finds h m s) :
    (tryPeekOrClosed h).Alone (worldMachine plat) i s fun v t => v = .ok (some m) ∧ t = s := by
  refine .bind peek_alone ?_ ?_
  · rintro r t ⟨hr, rfl⟩
    cases hr.trans finds.peek
    exact .pure ⟨rfl, rfl⟩
  · rintro e t ⟨he, rfl⟩
    cases he.trans finds.peek

theorem spinPeekOrClosed_alone (finds : Finds h m s) : (n : Nat) →
    (Tokio.spinPeekOrClosed h n).Alone (worldMachine plat) i s fun v t => v = .ok (some m) ∧ t = s
  | 0     => tryPeekOrClosed_alone finds
  | n + 1 => by
    refine .bind (tryPeekOrClosed_alone finds) ?_ nofun
    rintro v t ⟨hv, rfl⟩
    cases hv
    exact .pure ⟨rfl, rfl⟩

-- The wait for a message ends with the first look. A deadline has read the clock.

theorem clock_finds {n : Nat} (finds : Finds h m s) : Finds h m { s with clock := n } := by
  have same : (s.receiver h).peek { s with clock := n } = (s.receiver h).peek s :=
    Batch.peek_seen ⟨rfl, rfl, rfl, fun _ _ => ⟨rfl, rfl⟩⟩
  exact ⟨same.trans finds.peek, finds.seq⟩

theorem deadlineOf_alone {timeout : Option Nat} (finds : Finds h m s) :
    (deadlineOf timeout).Alone (worldMachine plat) i s fun v t => (∃ d, v = .ok d) ∧ Finds h m t ∧
    t.shared = s.shared := by
  cases timeout
  case none   => exact .pure ⟨⟨_, rfl⟩, finds, rfl⟩
  case some d =>
    refine .act ⟨s.clock, _, Nat.le_refl _, rfl⟩ fun now t e => ?_
    obtain ⟨_, rfl⟩ := e
    exact .pure ⟨⟨_, rfl⟩, clock_finds finds, rfl⟩

theorem waitUntil_alone {wait : WaitStrategy} {handle : WaitHandle} {notify parked : Word} {timeout : Option Nat}
    (finds : Finds h m s) :
    (wait.waitUntil handle notify parked timeout (tryPeekOrClosed h)).Alone (worldMachine plat) i s
      fun v t => v = .ok m ∧ Finds h m t ∧ t.shared = s.shared := by
  -- one look, and the rest
  have look {β : Type} {f : Option PeekedMessage → Routine β} {u : World} {Q : Except Error β → World → Prop}
      (finds : Finds h m u) (rest : (f (some m)).Alone (worldMachine plat) i u Q) :
      (tryPeekOrClosed h >>= f).Alone (worldMachine plat) i u Q := by
    refine .bind (tryPeekOrClosed_alone finds) ?_ nofun
    rintro v t ⟨hv, rfl⟩
    cases hv
    exact rest
  cases wait
  case spinOnly =>
    refine .bind (deadlineOf_alone finds) (fun d t ⟨_, finds, same⟩ => ?_) fun _ _ hv => nomatch hv.left.choose_spec
    refine .loop (M := fun v u => v = .ok (.inr m) ∧ u = t) (look finds (.pure ⟨rfl, rfl⟩)) nofun ?_ nofun
    rintro v u ⟨hv, rfl⟩
    cases hv
    exact ⟨rfl, finds, same⟩
  case spinThenWait w =>
    refine .bind (deadlineOf_alone finds) (fun d t ⟨_, finds, same⟩ => ?_) fun _ _ hv => nomatch hv.left.choose_spec
    cases w.spinCount
    case zero =>
      refine .bind (M := fun v u => v = .ok none ∧ u = t) (.pure ⟨rfl, rfl⟩) ?_ nofun
      rintro v u ⟨hv, rfl⟩
      cases hv
      refine .loop (M := fun v t => v = .ok (.inr m) ∧ t = u) ?_ nofun ?_ nofun
      · exact .step (v := u.word notify) (fun _ _ => .rfl) (look finds (.pure ⟨rfl, rfl⟩))
      · rintro v u ⟨hv, rfl⟩
        cases hv
        exact ⟨rfl, finds, same⟩
    case succ n =>
      refine .bind (M := fun v u => v = .ok (some m) ∧ u = t) (look finds (.pure ⟨rfl, rfl⟩)) ?_ nofun
      rintro v u ⟨hv, rfl⟩
      cases hv
      exact .pure ⟨rfl, finds, same⟩

theorem waitForMessage_alone {wait : WaitStrategy} {timeout : Option Nat} (finds : Finds h m s) :
    (waitForMessage h wait timeout).Alone (worldMachine plat) i s fun v t => v = .ok m ∧ t.shared = s.shared :=
  .step (v := s.receiver h) (fun _ _ => .rfl) ((waitUntil_alone finds).mono fun _ _ hv => ⟨hv.left, hv.right.right⟩)

theorem peekAsync_alone {wait : AsyncWait} (finds : Finds h m s) :
    (Tokio.peekAsync h wait).Alone (worldMachine plat) i s fun v t => v = .ok m ∧ t.shared = s.shared := by
  refine .loop (M := fun v t => v = .ok (.inr m) ∧ t = s) ?_ nofun ?_ nofun
  · refine .bind (spinPeekOrClosed_alone finds _) ?_ nofun
    rintro v t ⟨hv, rfl⟩
    cases hv
    exact .pure ⟨rfl, rfl⟩
  · rintro v t ⟨hv, rfl⟩
    cases hv
    exact ⟨rfl, rfl⟩

-- The message is taken then.
theorem then_takes {p : Routine PeekedMessage} {f : PeekedMessage → Routine α} (hs : s.shared h = some x)
    (hp : p.Alone (worldMachine plat) i s fun v t => v = .ok m ∧ t.shared = s.shared)
    (hf : Code.Straight Act.Takes (f m)) :
    (p >>= f).Alone (worldMachine plat) i s fun _ _ => True := by
  refine .bind hp ?_ fun _ _ _ => trivial
  rintro v t ⟨hv, same⟩
  cases hv
  exact (takes_alone hf (same ▸ hs)).mono fun _ _ _ => trivial

theorem tryRecv_alone (hs : s.shared h = some x) (finds : Finds h m s) :
    (tryRecv h).Alone (worldMachine plat) i s fun _ _ => True := by
  refine .bind (tryPeekOrClosed_alone finds) ?_ fun _ _ _ => trivial
  rintro v t ⟨hv, rfl⟩
  cases hv
  exact .bind (takes_alone takeMessage_straight hs) (fun _ _ _ => .pure trivial) fun _ _ _ => trivial

-- Batches.

variable {max spin start : Nat}

-- One turn appends a message.
structure Appends (i : ThreadId) (h : Handle) (m : PeekedMessage) (s t : World) : Prop where
  receiver : t.receiver h = (s.receiver h).past m
  view     : Batch.View s t
  out      : (t.out i).length = (s.out i).length + 1

theorem takeMessage_alone (seq : m.seq = (s.receiver h).expectedSeq) :
    (takeMessage h m).Alone (worldMachine plat) i s fun v t => (∃ bs, v = .ok bs) ∧ Batch.Took h m s t :=
  world_of_calm takeMessage_straight (Batch.takeMessage_alone seq)

theorem setOut_view {out : List Bytes} : Batch.View s { s with out := update s.out i out } :=
  ⟨rfl, fun _ _ => rfl, fun _ _ => rfl, rfl, rfl, rfl, rfl, rfl⟩

theorem turn_alone (finds : Finds h m s) (more : (s.out i).length - start < max) :
    (Batch.turn h max spin start).Alone (worldMachine plat) i s fun v t => v = .ok (.inl ()) ∧ Appends i h m s t := by
  refine .step (v := s.out i) (fun _ _ => .rfl) ?_
  rw [if_pos more]
  refine .attempt (spinPeekOrClosed_alone finds spin) ?_
  rintro v t ⟨rfl, rfl⟩
  refine .bind (takeMessage_alone finds.seq) ?_ fun _ _ hv => nomatch hv.left.choose_spec
  rintro bs u ⟨_, took⟩
  refine .act ⟨(), _, rfl⟩ fun _ u' e => .pure ⟨rfl, ?_⟩
  obtain rfl : u' = _ := e
  refine ⟨took.receiver, took.view.trans setOut_view, ?_⟩
  show (update u.out i (t.out i ++ [bs]) i).length = _
  rw [update_self, List.length_append, List.length_singleton]

theorem turn_last (all : max ≤ (s.out i).length - start) :
    (Batch.turn h max spin start).Alone (worldMachine plat) i s fun v t => v = .ok (.inr ()) ∧ t = s := by
  refine .step (v := s.out i) (fun _ _ => .rfl) ?_
  rw [if_neg (Nat.not_lt.mpr all)]
  exact .pure ⟨rfl, rfl⟩

-- `n` messages are missing, and that many are there.
theorem loop_alone (n : Nat) : {s : World} → (s.receiver h).Takes s n z → start ≤ (s.out i).length →
    (s.out i).length - start + n = max →
    (Code.loop (fun _ => Batch.turn h max spin start) ()).Alone (worldMachine plat) i s
      fun v t => (∃ u, v = .ok u) ∧ (t.out i).length - start = max := by
  induction n
  case zero =>
    intro s _ _ all
    refine .loop (turn_last (Nat.le_of_eq all.symm)) nofun ?_ nofun
    rintro u t ⟨_, rfl⟩
    exact ⟨⟨u, rfl⟩, all⟩
  case succ n ih =>
    intro s takes older missing
    obtain ⟨m, found, rest⟩ := takes
    refine .loop (turn_alone (.of_next found) (by omega)) ?_ (fun _ _ hv => nomatch hv.left)
      fun _ _ hv => nomatch hv.left
    rintro _ t ⟨_, appends⟩
    have out := appends.out
    refine ih ?_ (by omega) (by omega)
    rw [appends.receiver]
    exact appends.view.takes.mpr rest

theorem drain_alone (takes : (s.receiver h).Takes s max z) :
    (Tokio.drainReadyWithSpin h max spin).Alone (worldMachine plat) i s fun v _ => v = .ok max := by
  rw [Batch.drain_eq]
  refine .step (v := s.out i) (fun _ _ => .rfl) ?_
  refine .bind (loop_alone max takes (Nat.le_refl _) (by omega)) ?_ fun _ _ hv => nomatch hv.left.choose_spec
  rintro _ t ⟨_, count⟩
  exact .step (v := t.out i) (fun _ _ => .rfl) (.pure (congrArg _ count))

theorem recvMany_alone {wait : AsyncWait} (takes : (s.receiver h).Takes s max z) :
    (Tokio.recvManyAsync h wait max).Alone (worldMachine plat) i s fun v _ => v = .ok max := by
  unfold Tokio.recvManyAsync
  split
  case isTrue none   => exact .pure (congrArg _ none.symm)
  case isFalse some_ =>
    refine .loop (M := fun v _ => v = .ok (.inr max)) ?_ nofun ?_ nofun
    · refine .bind (drain_alone takes) ?_ nofun
      rintro k t hv
      cases hv
      rw [if_pos some_]
      exact .pure rfl
    · rintro k t hv
      cases hv
      rfl

-- With any number of messages, where the observer is asked in the end.

open Prompt (promptly)

-- The channel of the receiver, and nobody else who observes it.
structure Owns (h : Handle) (x : SharedChannel) (s : World) : Prop where
  mine     : (s.receiver h).shared = h
  attached : s.shared h = some x
  free     : s.locked h = false

structure Looked (h : Handle) (s t : World) : Prop extends Prompt.Open h s t where
  receiver : t.receiver = s.receiver
  out      : t.out = s.out

theorem Looked.owns (owns : Owns h x s) (looked : Looked h s t) : Owns h x t :=
  ⟨looked.receiver ▸ owns.mine, looked.shared ▸ owns.attached, looked.free⟩

theorem Looked.trans {u : World} (a : Looked h s t) (b : Looked h t u) : Looked h s u :=
  ⟨⟨b.shared.trans a.shared, b.free⟩, b.receiver.trans a.receiver, b.out.trans a.out⟩

theorem checkReady_looks (owns : Owns h x s) :
    (SharedChannel.checkReady h).Alone (promptWorld plat) i s fun _ t => Looked h s t := by
  have kept {a : Act} {u u' : World} {r : a.Ret} (ha : a.Ends) (e : (promptWorld plat).exec i a u r u')
      (hu : u.receiver = s.receiver ∧ u.out = s.out) : u'.receiver = s.receiver ∧ u'.out = s.out := by
    have frame := World.frame e.left
    have ⟨_, receiver, out⟩ := Batch.Ends.parts ha
    exact ⟨(frame.receiver receiver).trans hu.left, (frame.out out).trans hu.right⟩
  refine .mono (Program.Alone.keeps (S := Act.Ends) kept Effects.checkReady_ends
    (Prompt.checkReady_alone owns.attached owns.free) ⟨rfl, rfl⟩) fun _ t hv => ?_
  exact ⟨hv.left, hv.right.left, hv.right.right⟩

theorem tryPeekOrClosed_looks (owns : Owns h x s) :
    (tryPeekOrClosed h).Alone (promptWorld plat) i s fun _ t => Looked h s t := by
  have same : Looked h s s := ⟨⟨rfl, owns.free⟩, rfl, rfl⟩
  refine .bind (promptly peek_alone) ?_ fun _ _ hv => hv.right ▸ same
  rintro r t ⟨_, rfl⟩
  cases r
  case ready m => exact .pure same
  case empty =>
    refine Prompt.step (v := t.receiver h) (fun _ _ => .rfl) ?_
    rw [owns.mine]
    refine .attempt (checkReady_looks owns) fun v u looked => ?_
    cases v
    case ok b    => exact .pure looked
    case error e =>
      simp only
      split
      case isFalse => exact .throw looked
      case isTrue  =>
        refine .bind (promptly peek_alone) ?_ fun _ _ hv => hv.right ▸ looked
        rintro r u ⟨_, rfl⟩
        cases r
        case ready => exact .pure looked
        case empty => exact .throw looked

theorem spinPeekOrClosed_looks (n : Nat) : {s : World} → Owns h x s →
    (Tokio.spinPeekOrClosed h n).Alone (promptWorld plat) i s fun _ t => Looked h s t := by
  induction n
  case zero      => exact tryPeekOrClosed_looks
  case succ n ih =>
    intro s owns
    refine .bind (tryPeekOrClosed_looks owns) (fun v t looked => ?_) fun _ _ looked => looked
    cases v
    case some m => exact .pure looked
    case none   => exact (ih (looked.owns owns)).mono fun _ _ => looked.trans

theorem tryRecv_looks (owns : Owns h x s) : (tryRecv h).Alone (promptWorld plat) i s fun _ _ => True := by
  refine .bind (tryPeekOrClosed_looks owns) (fun v t looked => ?_) fun _ _ _ => trivial
  cases v
  case none   => exact .pure trivial
  case some m =>
    exact .bind (promptly (takes_alone takeMessage_straight (looked.owns owns).attached)) (fun _ _ _ => .pure trivial)
      fun _ _ _ => trivial

-- What a turn leaves, and whether it goes round again.
structure Turned (i : ThreadId) (h : Handle) (x : SharedChannel) (s : World)
    (v : Except Error (Unit ⊕ Unit)) (t : World) :
    Prop where
  grows : (s.out i).length ≤ (t.out i).length
  again : v = .ok (.inl ()) → Owns h x t ∧ (t.out i).length = (s.out i).length + 1

theorem turn_looks (owns : Owns h x s) :
    (Batch.turn h max spin start).Alone (promptWorld plat) i s (Turned i h x s) := by
  refine Prompt.step (v := s.out i) (fun _ _ => .rfl) ?_
  split
  case isFalse => exact .pure ⟨Nat.le_refl _, nofun⟩
  refine .attempt (spinPeekOrClosed_looks spin owns) fun v t looked => ?_
  have same : t.out i = s.out i := congrFun looked.out i
  cases v
  case error e =>
    simp only
    split
    case isTrue  => exact .pure ⟨Nat.le_of_eq (by rw [same]), nofun⟩
    case isFalse => exact .throw ⟨Nat.le_of_eq (by rw [same]), nofun⟩
  case ok r =>
  cases r
  case none => exact .pure ⟨Nat.le_of_eq (by rw [same]), nofun⟩
  case some m =>
    by_cases seq : m.seq = (t.receiver h).expectedSeq
    case neg =>
      refine .bind (promptly (world_of_calm takeMessage_straight (Batch.takeMessage_refuses seq))) ?_ ?_
      · exact fun _ _ hv => nomatch hv.left.choose_spec
      · rintro e u ⟨_, rfl⟩
        exact ⟨Nat.le_of_eq (by rw [same]), nofun⟩
    case pos =>
      refine .bind (promptly (takeMessage_alone seq)) ?_ fun _ _ hv => nomatch hv.left.choose_spec
      rintro bs u ⟨_, took⟩
      refine .act (Prompt.runs (r := ()) (t := { u with out := update u.out i (s.out i ++ [bs]) }) rfl)
        fun _ u' e => .pure ?_
      obtain rfl : u' = _ := e.left
      have out : (update u.out i (s.out i ++ [bs]) i).length = (s.out i).length + 1 := by
        rw [update_self, List.length_append, List.length_singleton]
      have owns := looked.owns owns
      refine ⟨Nat.le_trans (Nat.le_succ _) (Nat.le_of_eq out.symm), fun _ => ⟨⟨?_, ?_, ?_⟩, out⟩⟩
      · exact took.receiver ▸ owns.mine
      · exact took.view.shared ▸ owns.attached
      · exact took.view.locked ▸ owns.free

-- At most `n` turns are left that take a message.
theorem loop_looks (n : Nat) : {s : World} → Owns h x s → start ≤ (s.out i).length →
    max ≤ (s.out i).length - start + n →
    (Code.loop (fun _ => Batch.turn h max spin start) ()).Alone (promptWorld plat) i s
      fun _ t => (s.out i).length ≤ (t.out i).length := by
  induction n
  case zero =>
    intro s _ _ all
    refine .loop (promptly (turn_last (by omega))) nofun ?_ nofun
    rintro _ t ⟨_, rfl⟩
    exact Nat.le_refl _
  case succ n ih =>
    intro s owns older missing
    refine .loop (turn_looks owns) (fun _ t turned => ?_) (fun _ _ turned => turned.grows)
      fun _ _ turned => turned.grows
    obtain ⟨owns, out⟩ := turned.again rfl
    exact (ih owns (by omega) (by omega)).mono fun _ _ => Nat.le_trans turned.grows

theorem drain_looks (owns : Owns h x s) :
    (Tokio.drainReadyWithSpin h max spin).Alone (promptWorld plat) i s fun _ _ => True := by
  rw [Batch.drain_eq]
  refine Prompt.step (v := s.out i) (fun _ _ => .rfl) ?_
  refine .bind (loop_looks max owns (Nat.le_refl _) (by omega)) (fun _ t _ => ?_) fun _ _ _ => trivial
  exact Prompt.step (v := t.out i) (fun _ _ => .rfl) (.pure trivial)

-- A first message is taken in any case.
theorem drain_finds (owns : Owns h x s) (finds : Finds h m s) (some_ : max ≠ 0) :
    (Tokio.drainReadyWithSpin h max spin).Alone (promptWorld plat) i s fun v _ => v ≠ .ok 0 := by
  rw [Batch.drain_eq]
  refine Prompt.step (v := s.out i) (fun _ _ => .rfl) ?_
  have loops : (Code.loop (fun _ => Batch.turn h max spin (s.out i).length) ()).Alone (promptWorld plat) i s
      fun _ t => (s.out i).length < (t.out i).length := by
    refine .loop (promptly (turn_alone finds (by omega))) ?_ (fun _ _ hv => nomatch hv.left)
      fun _ _ hv => nomatch hv.left
    rintro _ t ⟨_, appends⟩
    have out := appends.out
    have owns : Owns h x t := by
      refine ⟨?_, appends.view.shared ▸ owns.attached, appends.view.locked ▸ owns.free⟩
      exact appends.receiver ▸ owns.mine
    exact (loop_looks max owns (by omega) (by omega)).mono fun _ _ grows => by omega
  refine .bind loops (fun _ t grows => ?_) fun _ _ _ => nofun
  refine Prompt.step (v := t.out i) (fun _ _ => .rfl) (.pure fun none => ?_)
  have none : (t.out i).length - (s.out i).length = 0 := Except.ok.inj none
  omega

theorem recvMany_finds {wait : AsyncWait} (owns : Owns h x s) (finds : Finds h m s) :
    (Tokio.recvManyAsync h wait max).Alone (promptWorld plat) i s fun _ _ => True := by
  unfold Tokio.recvManyAsync
  split
  case isTrue        => exact .pure trivial
  case isFalse some_ =>
    refine .loop (M := fun v _ => Prompt.Leaves v) ?_ (fun _ _ hv => absurd rfl (hv _)) (fun _ _ _ => trivial)
      fun _ _ _ => trivial
    refine .bind (drain_finds owns finds some_) (fun k t hv => ?_) fun _ _ _ => .fail
    have taken : k ≠ 0 := fun none => hv (congrArg _ none)
    rw [if_pos taken]
    exact .pure .done

end Total

namespace Link

open Ring Window

variable {L : Link} {s : State} {k n r : Nat} {p : Bytes}

-- The receiver as it is in front of the record number `k`.
def receiverAt (L : Link) (s : State) (k : Nat) : RingReceiver :=
  L.receiver (wrap32 (k + 1)) (wrap64 (total ((L.ring s).sent.take k)))

theorem receiver_modular : (L.receiver n r).area.Modular := by
  have size : (L.receiver n r).ringDataSize = L.size := receiver_ringDataSize
  have mask : (L.receiver n r).ringMask = L.size - 1 := receiver_ringMask
  obtain ⟨k, _, _, pow⟩ := L.size_eq
  exact ⟨⟨k, size.trans pow⟩, mask.trans (congrArg (· - 1) size.symm)⟩

theorem cell_eq {q : Nat} : (L.receiver n r).area.cell s.fst q = (L.ring s).cell q := by
  show s.fst.byte (L.receiver n r).base ((L.receiver n r).dataOffset + q % (L.receiver n r).ringDataSize) = _
  rw [receiver_base, receiver_dataOffset, receiver_ringDataSize]
  rfl

-- A cursor names the same cells as the position.
theorem read_of_holds {q : Nat} {bs : Bytes} (live : Holds (L.ring s).cell q bs) {m : Nat} (hm : m ≤ bs.length) :
    (L.receiver n r).area.read s.fst (wrap64 q) m = bs.take m := by
  refine List.ext_getElem (by simp [Area.read, hm]) fun j hj hj' => ?_
  have hj : j < m := by simpa [Area.read] using hj
  have position : (wrap64 q + j) % L.size = (q + j) % L.size := by
    obtain ⟨k, _, small, size⟩ := L.size_eq
    rw [size, wrap64, Nat.add_mod, Nat.mod_mod_of_dvd _ (Nat.pow_dvd_pow 2 (by omega)), ← Nat.add_mod]
  have cell : (L.ring s).cell (wrap64 q + j) = (L.ring s).cell (q + j) := by
    show s.fst.byte L.base (L.data + (wrap64 q + j) % L.size) = _
    rw [position]
    rfl
  rw [List.getElem_take, ← live j (by omega), ← cell]
  simp [Area.read, cell_eq]

-- The messages that have not been taken lie in the ring one after the other.
theorem Inv.record (h : L.Inv (L.ring s)) (old : (L.ring s).received.length ≤ k) (hp : (L.ring s).sent[k]? = some p) :
    Holds (L.ring s).cell (total ((L.ring s).sent.take k)) (record k p) := by
  generalize L.ring s = v at h old hp ⊢
  have younger : k < v.sent.length := (List.getElem?_eq_some_iff.mp hp).choose
  have order := h.order
  have split : v.sent.drop v.received.length = (v.sent.drop v.received.length).take (k - v.received.length) ++
    v.sent.drop k := by
    conv_lhs => rw [← List.take_append_drop (k - v.received.length) (v.sent.drop v.received.length)]
    rw [List.drop_drop, Nat.add_sub_cancel' old]
  have before : v.taken + total ((v.sent.drop v.received.length).take (k - v.received.length)) = total
    (v.sent.take k) := by
    rw [RingState.taken, ← total_append, ← List.take_add, Nat.add_sub_cancel' old]
  have number : v.received.length + ((v.sent.drop v.received.length).take (k - v.received.length)).length = k := by
    rw [List.length_take, List.length_drop]
    omega
  have live := h.live
  rw [split, records_append] at live
  have rest := live.right
  rw [length_records, before, number, drop_eq_cons hp] at rest
  exact rest.left

theorem next_of_record (h : L.Inv (L.ring s)) (old : (L.ring s).received.length ≤ k)
    (hp : (L.ring s).sent[k]? = some p) :
    (L.receiverAt s k).next s.fst = .ok (some (peeked k (total ((L.ring s).sent.take k)) p)) := by
  have live := h.record old hp
  have wc : s.fst.word L.writeCursor = wrap64 (total (L.ring s).sent) := h.wc
  have fits := fits_of_found h hp
  have upto : total ((L.ring s).sent.take k) + frameSize p ≤ total (L.ring s).sent := by
    rw [← total_take_succ hp, ← total_take_add_drop (L.ring s).sent (k + 1)]
    exact Nat.le_add_right _ _
  have within : total (L.ring s).sent ≤ total ((L.ring s).sent.take k) + L.size := by
    obtain ⟨c, _, cleared, room⟩ := h.room
    have taken : (L.ring s).taken ≤ total ((L.ring s).sent.take k) := total_take_le old
    omega
  generalize q_eq : total ((L.ring s).sent.take k) = q at live upto within
  have at_ : L.receiverAt s k = L.receiver (wrap32 (k + 1)) (wrap64 q) := by rw [receiverAt, q_eq]
  have size := L.size_lt
  have small := L.size_pos
  have frame := frameSize_pos (p := p)
  have short : p.length < 2 ^ 32 := by unfold frameSize at fits; omega
  have available : (L.receiver (wrap32 (k + 1)) (wrap64 q)).available s.fst = total (L.ring s).sent - q := by
    rw [RingReceiver.available, receiver_writeCursor, wc]
    exact wrapSub64_wrap64 (by omega) (by omega)
  have header : s.fst.bytesAt (L.receiver (wrap32 (k + 1)) (wrap64 q)) (wrap64 q) MSG_HEADER_SIZE =
      ((record k p).drop 0).take MSG_HEADER_SIZE := by
    have room : MSG_HEADER_SIZE ≤ (L.receiver (wrap32 (k + 1)) (wrap64 q)).area.size := by
      show MSG_HEADER_SIZE ≤ (L.receiver (wrap32 (k + 1)) (wrap64 q)).ringDataSize
      rw [receiver_ringDataSize]
      exact Nat.le_trans frame fits
    exact (bytesAt_eq receiver_modular room).trans (read_of_holds live (length_record ▸ frame))
  obtain ⟨length, seq⟩ := record_header (k := k) short
  have length : (L.receiver (wrap32 (k + 1)) (wrap64 q)).lengthWord s.fst = p.length := by
    rw [← length]
    exact congrArg (fun bs : Bytes => fromLeBytes (bs.getD 0 0) (bs.getD 1 0) (bs.getD 2 0) (bs.getD 3 0)) header
  have seq : (L.receiver (wrap32 (k + 1)) (wrap64 q)).seqWord s.fst = wrap32 (k + 1) := by
    rw [← seq]
    exact congrArg (fun bs : Bytes => fromLeBytes (bs.getD 4 0) (bs.getD 5 0) (bs.getD 6 0) (bs.getD 7 0)) header
  have found : (L.receiver (wrap32 (k + 1)) (wrap64 q)).peek s.fst = .ok (.ready (peeked k q p)) := by
    unfold frameSize MSG_HEADER_SIZE at *
    unfold RingReceiver.peek MSG_HEADER_SIZE
    rw [available, length, seq, receiver_ringDataSize, if_neg (by omega), if_neg (by omega), if_neg (by omega)]
    rfl
  rw [at_, RingReceiver.next, found]
  exact if_neg (not_not.mpr rfl)

theorem past_record (hp : (L.ring s).sent[k]? = some p) :
    (L.receiverAt s k).past (peeked k (total ((L.ring s).sent.take k)) p) = L.receiverAt s (k + 1) := by
  have seq : wrap32 (wrap32 (k + 1) + 1) = wrap32 (k + 1 + 1) := by simp [wrap32]
  have cursor : wrap64 (wrap64 (total ((L.ring s).sent.take k)) + (MSG_HEADER_SIZE + p.length)) =
      wrap64 (total ((L.ring s).sent.take (k + 1))) := by
    rw [total_take_succ hp]
    exact wrap64_add
  show L.receiver (wrap32 (wrap32 (k + 1) + 1))
    (wrap64 (wrap64 (total ((L.ring s).sent.take k)) + (MSG_HEADER_SIZE + p.length))) = _
  rw [seq, cursor]
  rfl

theorem takes_records (h : L.Inv (L.ring s)) (n : Nat) : {k : Nat} → (L.ring s).received.length ≤ k →
    k + n ≤ (L.ring s).sent.length → (L.receiverAt s k).Takes s.fst n (L.receiverAt s (k + n)) := by
  induction n
  case zero      => exact fun _ _ => rfl
  case succ n ih =>
    intro k old there
    have hp : (L.ring s).sent[k]? = some (L.ring s).sent[k] := List.getElem?_eq_getElem (by omega)
    refine ⟨_, next_of_record h old hp, ?_⟩
    rw [past_record hp, Nat.add_comm n 1, ← Nat.add_assoc]
    exact ih (Nat.le_succ_of_le old) (by omega)

end Link
