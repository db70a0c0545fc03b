import ShmemIpc.Library.Trace
import ShmemIpc.Execution.Operation
import ShmemIpc.Execution.Waiting
import ShmemIpc.Execution.Frame
import Mathlib.Data.List.Nodup

-- Which calls leave a ring and the private half of the caller as they were, whatever the other
-- threads do and whatever the ring contains.

namespace Events

def bumpsWord (w : Word) : Event Act Act.Ret → Bool
  | ⟨.fetchAdd w', _⟩ => w' = w
  | _                 => false

def movesState : Event Act Act.Ret → Bool
  | ⟨.compareExchange .., .ok _⟩ | ⟨.compareExchangeWeak .., .ok _⟩ => true
  | _                                                               => false

-- How often a word has been bumped.
def bumps (w : Word) (t : Events) : Nat :=
  t.countP (bumpsWord w)

-- How often the state of a channel has been changed.
def moves (t : Events) : Nat :=
  t.countP movesState

end Events

def Word.IsCursor : Word → Prop
  | ring _ _ .writeCursor | ring _ _ .readCursor => True
  | _                                            => False

-- The actions that publish a message, take one out of a ring, or begin a new file.
def Act.Commits : Act → Prop
  | writeByte .. | setReceiver .. | createNew _                                             => True
  | store w .. | fetchAdd w | compareExchange w .. | compareExchangeWeak w .. => w.IsCursor
  | _                                                                                       => False

-- The actions that give something to the caller before the call returns.
def Act.HandsOut : Act → Prop
  | setBuf _ | setOut _ => True
  | _                   => False

theorem Act.Quiet.not_handsOut {a : Act} (h : a.Quiet) : ¬ a.HandsOut := by
  cases a <;> first | exact id | exact h.elim

theorem Word.IsNotify.not_cursor {w : Word} (h : w.IsNotify) : ¬ w.IsCursor := by
  cases w
  case global       => exact id
  case ring _ _ f => cases f <;> first | exact id | exact h.elim

theorem Word.IsParked.not_cursor {w : Word} (h : w.IsParked) : ¬ w.IsCursor := by
  cases w
  case global       => exact id
  case ring _ _ f => cases f <;> first | exact id | exact h.elim

theorem Act.Quiet.not_commits {a : Act} (h : a.Quiet) : ¬ a.Commits := by
  cases a
  case store               => exact h.left.not_cursor
  case fetchAdd            => exact Word.IsNotify.not_cursor h
  case compareExchange     => obtain ⟨⟨b, rfl⟩, _⟩ := h; exact id
  case compareExchangeWeak => obtain ⟨⟨b, rfl⟩, _⟩ := h; exact id
  all_goals first | exact id | exact h.elim

-- What such an action changes.
structure World.Settled (s s' : World) : Prop where
  byte     : s'.byte = s.byte
  cursor   : ∀ w, w.IsCursor → s'.word w = s.word w
  receiver : s'.receiver = s.receiver

-- All other actions leave the messages where they are.
theorem World.settled {plat : Platform} {i : ThreadId} {a : Act} {s s' : World} {r : a.Ret} (ha : ¬ a.Commits)
    (e : World.exec plat i a s r s') : s.Settled s' := by
  have cursor {w w' : Word} {v : Nat} (hw : ¬ w.IsCursor) (hw' : w'.IsCursor) :
      Function.update s.word w v w' = s.word w' :=
    Function.update_of_ne (by rintro rfl; exact hw hw') ..
  have same {t : World} (h : t = s) : s.Settled t := h ▸ ⟨rfl, fun _ _ => rfl, rfl⟩
  have frame := World.frame e
  cases a
  case store w v note =>
    exact ⟨frame.byte (by simp [Act.parts]), fun w' hw' => e ▸ cursor ha hw', frame.receiver (by simp [Act.parts])⟩
  case fetchAdd w     =>
    exact ⟨frame.byte (by simp [Act.parts]), fun w' hw' => e.right ▸ cursor ha hw',
      frame.receiver (by simp [Act.parts])⟩
  case compareExchange w cur new =>
    rcases e with ⟨_, _, rfl⟩ | ⟨_, _, rfl⟩
    · exact ⟨rfl, fun w' hw' => cursor ha hw', rfl⟩
    · exact same rfl
  case compareExchangeWeak w cur new =>
    rcases e with ⟨_, _, rfl⟩ | ⟨_, rfl⟩
    · exact ⟨rfl, fun w' hw' => cursor ha hw', rfl⟩
    · exact same rfl
  case writeByte | setReceiver | createNew => exact absurd trivial ha
  all_goals
    exact ⟨frame.byte (by simp [Act.parts]), fun w _ => congrFun (frame.word (by simp [Act.parts])) w,
      frame.receiver (by simp [Act.parts])⟩

-- Nothing has been published or taken out. The sender may only have looked at the read cursor again.
structure Silent (t : Events) : Prop where
  silent : ∀ e ∈ t, ¬ e.fst.Commits
  sender : ∀ h x r, ⟨.setSender h x, r⟩ ∈ t → ∃ y, ⟨.getSender h, y⟩ ∈ t ∧ x = { y with cachedRc := x.cachedRc }

namespace Silent

variable {t : Events}

theorem snoc {a : Act} {r : a.Ret} (hc : ¬ a.Commits) (hs : ∀ h x, a ≠ .setSender h x) (h : Silent t) :
    Silent (t ++ [⟨a, r⟩]) where
  silent e he := by
    rcases List.mem_append.mp he with he | he
    case inl => exact h.silent e he
    case inr => exact List.mem_singleton.mp he ▸ hc
  sender k x u he := by
    rcases List.mem_append.mp he with he | he
    case inl =>
      have ⟨y, hy, hx⟩ := h.sender k x u he
      exact ⟨y, List.mem_append_left _ hy, hx⟩
    case inr => cases List.mem_singleton.mp he; exact absurd rfl (hs _ _)

-- The cursor that a sender has read again is its own.
theorem seen {h : Handle} {x : RingSender} {rc : Nat} (hx : ⟨.getSender h, x⟩ ∈ t) (hs : Silent t) :
    Silent (t ++ [⟨.setSender h { x with cachedRc := rc }, ()⟩]) where
  silent e he := by
    rcases List.mem_append.mp he with he | he
    case inl => exact hs.silent e he
    case inr => exact List.mem_singleton.mp he ▸ id
  sender k y u he := by
    rcases List.mem_append.mp he with he | he
    case inl =>
      have ⟨z, hz, hy⟩ := hs.sender k y u he
      exact ⟨z, List.mem_append_left _ hz, hy⟩
    case inr => cases List.mem_singleton.mp he; exact ⟨x, List.mem_append_left _ hx, rfl⟩

end Silent

-- Every bump of a notify word belongs to a change of the channel state.
structure Uncommitted (t : Events) : Prop extends Silent t where
  balanced : ∀ w, t.bumps w ≤ t.moves

structure Untouched (t : Events) : Prop extends Uncommitted t where
  kept : ∀ e ∈ t, ¬ e.fst.HandsOut

namespace Commit

open Assertion Code Discipline Effects Events

-- The actions that any call may take at any time.
structure Calm (a : Act) : Prop where
  quiet  : ¬ a.Commits
  kept   : ¬ a.HandsOut
  sender : ∀ h x, a ≠ .setSender h x
  bump   : ∀ w, a ≠ .fetchAdd w
  strong : ∀ w cur new, a ≠ .compareExchange w cur new
  weak   : ∀ w cur new, a ≠ .compareExchangeWeak w cur new
  runs   : ∀ n v, a ≠ .awaitNotified n v

theorem calm_of_reads {a : Act} (h : a.Reads) : Calm a := by
  refine ⟨h.quiet.not_commits, h.quiet.not_handsOut, ?_, ?_, ?_, ?_, ?_⟩
  all_goals intros; rintro rfl; exact h

section
variable {t : Events} {e : Event Act Act.Ret} {w : Word} {a : Act} {r : a.Ret}

theorem bumps_snoc : bumps w (t ++ [e]) = bumps w t + if bumpsWord w e then 1 else 0 := by
  simp [bumps, List.countP_append, List.countP_singleton]

theorem moves_snoc : moves (t ++ [e]) = moves t + if movesState e then 1 else 0 := by
  simp [moves, List.countP_append, List.countP_singleton]

theorem bumpsWord_of_calm (h : Calm a) : bumpsWord w ⟨a, r⟩ = false := by
  cases a
  case fetchAdd => exact absurd rfl (h.bump _)
  all_goals rfl

theorem movesState_of_calm (h : Calm a) : movesState ⟨a, r⟩ = false := by
  cases a
  case compareExchange     => exact absurd rfl (h.strong _ _ _)
  case compareExchangeWeak => exact absurd rfl (h.weak _ _ _)
  all_goals rfl

end

-- The words that are still to be bumped after a change of the channel state.
structure Owes (ws : List Word) (t : Events) : Prop extends Silent t where
  kept : ∀ e ∈ t, ¬ e.fst.HandsOut
  owes : ∀ w, bumps w t + ws.count w ≤ moves t

structure Credit (t : Events) : Prop extends Silent t where
  kept   : ∀ e ∈ t, ¬ e.fst.HandsOut
  credit : ∀ w, bumps w t + 1 ≤ moves t

section
variable {t : Events} {ws : List Word}

theorem kept_snoc {a : Act} {r : a.Ret} (ha : ¬ a.HandsOut) (h : ∀ e ∈ t, ¬ e.fst.HandsOut) :
    ∀ e ∈ t ++ [(⟨a, r⟩ : Event Act Act.Ret)], ¬ e.fst.HandsOut := by
  intro e he
  rcases List.mem_append.mp he with he | he
  case inl => exact h e he
  case inr => exact List.mem_singleton.mp he ▸ ha

theorem Owes.calm {a : Act} {r : a.Ret} (ha : Calm a) (h : Owes ws t) : Owes ws (t ++ [⟨a, r⟩]) where
  toSilent := h.toSilent.snoc ha.quiet ha.sender
  kept     := kept_snoc ha.kept h.kept
  owes w   := by
    rw [bumps_snoc, moves_snoc, bumpsWord_of_calm ha, movesState_of_calm ha]
    exact h.owes w

theorem Owes.bump {w : Word} {n : Nat} (hw : w.IsNotify) (h : Owes (w :: ws) t) :
    Owes ws (t ++ [⟨.fetchAdd w, n⟩]) where
  toSilent := h.toSilent.snoc hw.not_cursor nofun
  kept     := kept_snoc id h.kept
  owes w'  := by
    have known := h.owes w'
    rw [bumps_snoc, moves_snoc]
    by_cases hw : w = w'
    case pos => subst hw; simp [bumpsWord, movesState] at known ⊢; omega
    case neg => simpa [bumpsWord, movesState, hw] using known

theorem owes_nil : Owes [] t ↔ Untouched t :=
  ⟨fun h => ⟨⟨h.toSilent, by simpa using h.owes⟩, h.kept⟩,
   fun h => ⟨h.toSilent, h.kept, by simpa using h.balanced⟩⟩

theorem Credit.owes (hw : ws.Nodup) (h : Credit t) : Owes ws t where
  toSilent := h.toSilent
  kept     := h.kept
  owes w   := by
    have once := List.nodup_iff_count_le_one.mp hw w
    have := h.credit w
    omega

theorem Untouched.calm {a : Act} {r : a.Ret} (ha : Calm a) (h : Untouched t) : Untouched (t ++ [⟨a, r⟩]) :=
  owes_nil.mp ((owes_nil.mpr h).calm ha)

-- An event that is not about messages, and that is the successful change of a channel state.
theorem Untouched.moved {a : Act} {r : a.Ret} (hc : ¬ a.Commits) (hs : ∀ h x, a ≠ .setSender h x)
    (hk : ¬ a.HandsOut) (he : movesState ⟨a, r⟩ = true) (hb : ∀ w, bumpsWord w ⟨a, r⟩ = false) (h : Untouched t) :
    Credit (t ++ [⟨a, r⟩]) where
  toSilent := h.toSilent.snoc hc hs
  kept     := kept_snoc hk h.kept
  credit w := by
    rw [bumps_snoc, moves_snoc, hb w, he]
    exact Nat.succ_le_succ (h.balanced w)

theorem Uncommitted.same {e : Event Act Act.Ret} (hs : Silent (t ++ [e])) (he : movesState e = false)
    (hb : ∀ w, bumpsWord w e = false) (h : Uncommitted t) : Uncommitted (t ++ [e]) where
  toSilent   := hs
  balanced w := by
    rw [bumps_snoc, moves_snoc, hb w, he]
    exact h.balanced w

theorem Uncommitted.calm {a : Act} {r : a.Ret} (ha : Calm a) (h : Uncommitted t) : Uncommitted (t ++ [⟨a, r⟩]) :=
  Uncommitted.same (h.toSilent.snoc ha.quiet ha.sender) (movesState_of_calm ha) (fun _ => bumpsWord_of_calm ha) h

theorem Untouched.same {a : Act} {r : a.Ret} (hs : Silent (t ++ [⟨a, r⟩])) (hk : ¬ a.HandsOut)
    (he : movesState ⟨a, r⟩ = false) (hb : ∀ w, bumpsWord w ⟨a, r⟩ = false) (h : Untouched t) :
    Untouched (t ++ [⟨a, r⟩]) :=
  ⟨Uncommitted.same hs he hb h.toUncommitted, kept_snoc hk h.kept⟩

end

-- A discipline that permits all but to suspend.
def Lenient (d : Discipline Act Act.Ret) : Prop :=
  ∀ {t a}, (∀ n v, a ≠ .awaitNotified n v) → d.ok t a

section
variable {d : Discipline Act Act.Ret} (hd : Lenient d) {h : Handle} {x : SharedChannel}
variable {E : Error → d.Knows}
include hd

theorem owes_keeps {ws : List Word} : (known (Owes ws) : d.Knows).Keeps Calm :=
  keeps_of_snoc (fun ha _ => hd ha.runs) fun ha h => h.calm ha

theorem untouched_keeps : (known Untouched : d.Knows).Keeps Calm :=
  keeps_of_snoc (fun ha _ => hd ha.runs) Untouched.calm

theorem uncommitted_keeps : (known Uncommitted : d.Knows).Keeps Calm :=
  keeps_of_snoc (fun ha _ => hd ha.runs) Uncommitted.calm

theorem credit_keeps : (known Credit : d.Knows).Keeps Calm := by
  refine keeps_of_snoc (fun ha _ => hd ha.runs) fun ha h =>
    ⟨h.toSilent.snoc ha.quiet ha.sender, kept_snoc ha.kept h.kept, fun w => ?_⟩
  rw [bumps_snoc, moves_snoc, bumpsWord_of_calm ha, movesState_of_calm ha]
  exact h.credit w

omit hd in
theorem reads_spec {α : Type} {F : Error → Prop} {P : d.Knows} (hp : P.Keeps Calm) {p : Routine α}
    (h : Code.Only Act.Reads F p) : Spec P p (fun _ => P) (fun e => P ⊓ const (F e)) :=
  Spec.only hp (h.weaken fun _ => calm_of_reads)

theorem fetchAdd_spec {w : Word} (hw : w.IsNotify) {ws : List Word} {α : Type} {f : Nat → Routine α}
    {M : α → d.Knows} (hf : ∀ n, Spec (known (Owes ws)) (f n) M E) :
    Spec (known (Owes (w :: ws))) (fetchAdd w >>= f) M E :=
  .act (fun _ => known (Owes ws)) (fun _ _ _ => hd nofun) (fun _ _ _ _ h e => e.right ▸ h.bump hw) hf

theorem wakeRing_spec {b : FileId} {hdr : Nat} {w r : WaitSlot} {l : List Word} :
    Spec (known (Owes (.ring b hdr .writerNotify :: .ring b hdr .readerNotify :: l)))
      (SharedChannel.wakeRing b hdr w r) (fun _ => known (Owes l)) E := by
  have wakes {h w} : Calm (.wake h w) := ⟨id, id, nofun, nofun, nofun, nofun, nofun⟩
  refine fetchAdd_spec hd (by trivial) fun _ => .skip (owes_keeps hd) wakes fun _ =>
    fetchAdd_spec hd (by trivial) fun _ => ?_
  exact .perform (fun _ => (owes_keeps hd).ok wakes) fun _ _ _ => (owes_keeps hd).kept wakes

theorem wakeAll_spec : Spec (known Credit) (SharedChannel.wakeAll h) (fun _ => known Untouched) E := by
  refine .skip (credit_keeps hd) (calm_of_reads (by trivial)) fun x =>
    .skip (credit_keeps hd) (calm_of_reads (by trivial)) fun n => ?_
  refine .pre (P := known (Owes _)) (.bind (wakeRing_spec hd) fun _ =>
    (wakeRing_spec (l := []) hd).post ?_ fun _ => le_rfl) ?_
  · exact fun _ t _ h => owes_nil.mp h
  · refine fun t _ h => Credit.owes ?_ h
    simp [RingOffsets.new, RING_HEADER_SIZE]

-- A change of the channel state, after which all waiters are woken.
theorem exchange_spec {w : Word} {cur new : Nat} {p : Routine (Except Nat Nat)}
    (hp : p = compareExchange w cur new ∨ p = compareExchangeWeak w cur new) (hw : ¬ w.IsCursor) {α : Type}
    {f : Except Nat Nat → Routine α} {M : α → d.Knows}
    (ok : ∀ n, Spec (known Credit) (f (.ok n)) M E) (error : ∀ n, Spec (known Untouched) (f (.error n)) M E) :
    Spec (known Untouched) (p >>= f) M E := by
  refine .bind (M := either (known Credit) (known Untouched)) ?_ fun r => ?_
  · rcases hp with rfl | rfl
    all_goals
      refine .perform (fun _ _ _ => hd nofun) ?_
      rintro t (_ | _) _ _ h ⟨_, rfl⟩
      · exact Untouched.same (h.toSilent.snoc hw nofun) id rfl (fun _ => rfl) h
      · exact Untouched.moved hw nofun id rfl (fun _ => rfl) h
  · cases r
    case ok    => exact ok _
    case error => exact error _

theorem finish_spec {s : ChannelState} :
    Spec (known Untouched) (SharedChannel.finish h s) (fun _ => known Untouched) E := by
  have keeps := untouched_keeps hd
  refine .skip keeps (calm_of_reads (by trivial)) fun x => .skip keeps (calm_of_reads (by trivial)) fun n => ?_
  refine .loop (fun _ => known Untouched) le_rfl fun n => ?_
  have attempt : Spec (known Untouched) (SharedChannel.tryFinish h x s n)
      (Sum.elim (fun _ => known Untouched) fun _ => known Untouched) E :=
    exchange_spec hd (.inr rfl) id (fun _ => .bind (wakeAll_spec hd) fun _ => .pure le_rfl) fun _ => .pure le_rfl
  split
  all_goals first | exact .pure le_rfl | exact attempt

theorem awaitConnected_spec :
    Spec (known Untouched : d.Knows) (SharedChannel.awaitConnected h x) (fun _ => known Untouched)
    (fun _ => known Untouched) := by
  have keeps := untouched_keeps hd
  refine .loop (fun _ => known Untouched) le_rfl fun _ => .skip keeps (calm_of_reads (by trivial)) fun state => ?_
  have retire : Spec (known Untouched : d.Knows) (SharedChannel.retire h x state)
      (Sum.elim (fun _ => known Untouched) fun _ => known Untouched) (fun _ => known Untouched) := by
    refine .skip keeps (calm_of_reads (by trivial)) fun t => ?_
    split
    case isTrue  => exact .pure le_rfl
    case isFalse =>
      refine exchange_spec hd (.inl rfl) id (fun _ => ?_) fun _ => .pure le_rfl
      exact .bind (wakeAll_spec hd) fun _ => .throw le_rfl
  split
  all_goals first | exact .pure le_rfl | exact .throw le_rfl | exact retire

theorem reads_untouched {α : Type} {F : Error → Prop} {p : Routine α} (hp : Code.Only Act.Reads F p) :
    Spec (known Untouched) p (fun _ => known Untouched : α → d.Knows) (fun _ => known Untouched) :=
  (reads_spec (untouched_keeps hd) hp).post (fun _ => le_rfl) fun _ _ _ hs => hs.left

theorem observe_spec {peer : ProcessIdentity} {ms : Nat} :
    Spec (known Untouched) (SharedChannel.observe h peer ms) (fun _ => known Untouched : Unit → d.Knows)
      (fun _ => known Untouched) := by
  refine .bind (reads_untouched hd isAlive_reads) fun alive => .bind (M := fun _ => known Untouched) ?_ fun _ => ?_
  · cases alive
    case true  => exact .pure le_rfl
    case false => exact finish_spec hd
  · have stores {n} : Calm (.storeNextProbe h n) := ⟨id, id, nofun, nofun, nofun, nofun, nofun⟩
    exact .perform (fun _ => (untouched_keeps hd).ok stores) fun _ _ _ => (untouched_keeps hd).kept stores

theorem probe_spec {ms : Nat} : Spec (known Untouched) (SharedChannel.probe h x ms)
    (fun _ => known Untouched : Bool → d.Knows) (fun _ => known Untouched) := by
  have keeps := untouched_keeps hd
  refine .skip keeps (calm_of_reads (by trivial)) fun next => ?_
  split
  case isTrue => exact .pure le_rfl
  refine .bind (reads_untouched hd terminal_reads) fun _ => .skip keeps (calm_of_reads (by trivial)) fun peer => ?_
  cases peer
  case some peer => exact .bind (observe_spec hd) fun _ => .pure le_rfl
  case none =>
    refine .bind (reads_untouched hd (peerIdentity_reads (F := fun _ => True))) fun identity => ?_
    refine .bind (.attempt (reads_untouched hd open_reads)) fun r => .pre (P := known Untouched) ?_ fun _ _ h => ?_
    · split
      case h_1 =>
        refine .skip keeps (by exact ⟨id, id, nofun, nofun, nofun, nofun, nofun⟩) fun _ => ?_
        exact .bind (observe_spec hd) fun _ => .pure le_rfl
      case h_2 => exact .bind (finish_spec hd) fun _ => .bind (reads_untouched hd terminal_reads) fun _ => .pure le_rfl
      case h_3 => exact .throw le_rfl
    · cases r <;> exact h

theorem checkReady_spec : Spec (known Untouched) (SharedChannel.checkReady h)
    (fun _ => known Untouched : Bool → d.Knows) (fun _ => known Untouched) := by
  have keeps := untouched_keeps hd
  have ended : Spec (known Untouched) (do SharedChannel.terminal h; Pure.pure true)
      (fun _ => known Untouched : Bool → d.Knows) (fun _ => known Untouched) :=
    .bind (reads_untouched hd terminal_reads) fun _ => .pure le_rfl
  refine .skip keeps (calm_of_reads (by trivial)) fun self => .bind (awaitConnected_spec hd) fun ready => ?_
  cases ready
  case false => exact .pure le_rfl
  refine .skip keeps (calm_of_reads (by trivial)) fun t => .skip keeps (calm_of_reads (by trivial)) fun next => ?_
  split
  case isFalse => exact ended
  refine .bind (M := fun _ => known Untouched) ?_ fun probed => ?_
  · refine .skip keeps (by exact ⟨id, id, nofun, nofun, nofun, nofun, nofun⟩) fun r =>
      .bind (M := fun _ => known Untouched) ?_ fun _ => ?_
    · exact .ofExcept (by cases r <;> exact le_rfl)
    refine .bind (.attempt (probe_spec hd)) fun r => .pre (P := known Untouched) ?_ fun _ _ h => ?_
    · exact .skip keeps (by exact ⟨id, id, nofun, nofun, nofun, nofun, nofun⟩) fun _ =>
        .ofExcept (by cases r <;> exact le_rfl)
    · cases r <;> exact h
  · cases probed
    case true  => exact .pure le_rfl
    case false => exact ended

end
end Commit
