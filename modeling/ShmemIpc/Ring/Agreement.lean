import ShmemIpc.Execution.Messages
import ShmemIpc.Ring.Backpressure
import ShmemIpc.Ring.Batch

-- The blocking and the asynchronous operations do the same when nothing else runs.

open Code Assertion Surroundings

section

variable {m : Machine ThreadId Act Act.Ret World} {π : Protocol m} {i : ThreadId} {α : Type}

-- What is known after a condition has been evaluated.
def asked (M : α → Assertion π i) (K : Assertion π i) : Option α → Assertion π i
  | some x => M x
  | none   => K

-- A condition that is evaluated where `T` is known. If it does not hold, then `K` is known, and it does not hold
-- later either.
structure Awaits (T K : Assertion π i) (c : Routine (Option α)) (M : α → Assertion π i) (E : Error → Assertion π i) :
    Prop where
  ask   : Spec T c (asked M K) E
  again : Spec K c (fun v => .const (v = none) ⊓ K) fun _ => .const False
  stuck : K ≤ T
  looks : ∀ {w}, T.Keeps (· = .load w)
  keeps : K.Keeps Act.Signals

namespace Awaits

variable {T K : Assertion π i} {c : Routine (Option α)} {M : α → Assertion π i} {E : Error → Assertion π i}
variable {handle : WaitHandle} {notify parked : Word}

theorem spins (h : Awaits T K c M E) : (n : Nat) → Spec T (spin c n) (asked M T) E
  | 0     => .pure le_rfl
  | n + 1 => .bind h.ask fun
    | some _ => .pure le_rfl
    | none   => (h.spins n).pre h.stuck

theorem parks (h : Awaits T K c M E) (hp : parked.IsParked) :
    Spec T (SpinThenWait.park handle notify parked none c) (Sum.elim (fun _ => T) M) E := by
  have stores (n : Nat) : Act.Signals (.store parked n .none) := ⟨hp, rfl⟩
  have fences : Act.Signals .fence := trivial
  refine .skip h.looks rfl fun snapshot => .bind h.ask fun v => ?_
  cases v
  case some => exact .pure le_rfl
  case none =>
    refine .bind (M := fun _ => K) (.pure le_rfl) fun remaining => .skip h.keeps (stores 1) fun _ => ?_
    refine .skip h.keeps fences fun _ => .handle h.again (fun v => ?_) fun _ => .absurd
    refine (Spec.assume fun none => ?_).pre fun _ _ hs => ⟨hs.right, hs.left⟩
    cases none
    refine .pass h.keeps (Effects.waitOnHandle_signals (F := fun _ => False)) (fun _ no => no.elim) fun _ => ?_
    exact .skip h.keeps (stores 0) fun _ => .pure h.stuck

theorem turns (h : Awaits T K c M E) (n : Nat) : Spec T (SpinOnly.turn none c n) (Sum.elim (fun _ => T) M) E :=
  .bind h.ask fun
    | some _ => .pure le_rfl
    | none   => .pure h.stuck

-- A wait ends as the first evaluation of its condition.
theorem waits (h : Awaits T K c M E) (hp : parked.IsParked) {wait : WaitStrategy} :
    Spec T (wait.waitUntil handle notify parked none c) M E := by
  cases wait
  case spinThenWait s =>
    show Spec T (spin c s.spinCount >>= _) M E
    refine .bind (h.spins s.spinCount) fun v => ?_
    cases v
    case some => exact .pure le_rfl
    case none => exact .loop (fun _ => T) le_rfl fun _ => h.parks hp
  case spinOnly => exact Spec.loop (fun _ => T) le_rfl h.turns

end Awaits

-- While a bridge thread can be started, a suspended task learns nothing, and does not fail.
structure Starts (K : Assertion π i) (wait : AsyncWait) : Prop where
  keeps : K.Keeps Act.Signals
  runs  : Spec K wait.ensureRunning (fun _ => K) fun _ => .const False

namespace Starts

variable {K : Assertion π i} {wait : AsyncWait}

theorem snapshot (h : Starts K wait) : Spec K wait.snapshot (fun _ => K) fun _ => .const False :=
  have loads : Act.Signals (.load wait.notify) := trivial
  .bind h.runs fun _ => .perform (fun _ => h.keeps.ok loads) fun _ _ _ => h.keeps.kept loads

theorem waitChanged (h : Starts K wait) {observed : Nat} :
    Spec K (wait.waitChanged observed) (fun _ => K) fun _ => .const False := by
  refine .bind h.runs fun _ => Spec.post (Spec.only (F := fun _ => False) h.keeps (.loop fun _ => ?_))
    (fun _ => le_rfl) fun _ _ _ hs => hs.right
  refine .act trivial fun current => ?_
  split
  case isTrue => exact .pure
  refine .act trivial fun _ => .act trivial fun current => ?_
  split
  case isTrue => exact .pure
  refine .act trivial fun notified => ?_
  cases notified <;> exact .pure

end Starts

variable {T K : Assertion π i} {h : Handle} {wait : AsyncWait}

theorem Awaits.peeks {M : PeekedMessage → Assertion π i} {E : Error → Assertion π i}
    (awaits : Awaits T K (RingReceiver.tryPeekOrClosed h) M E) : (n : Nat) →
    Spec T (Tokio.spinPeekOrClosed h n) (asked M K) E
  | 0     => awaits.ask
  | n + 1 => .bind awaits.ask fun
    | some _ => .pure le_rfl
    | none   => (awaits.peeks n).pre awaits.stuck

end

namespace Agreement

variable {d : Surroundings} {plat : Platform} {i : ThreadId} {s t : World} {x : SharedChannel} {h : Handle}
variable {α : Type} {wait : WaitStrategy} {aw : AsyncWait}

-- What is known before the first evaluation of a condition that was called in the state `s`, and after one that
-- settles the matter.

def trying (d : Surroundings) (plat : Platform) (i : ThreadId) (s : World) (stuck : World → Prop) :
    Assertion (Protocol.lone (d.machine plat) i) i :=
  lone fun t => t = s ∨ stuck t

def settled (d : Surroundings) (plat : Platform) (i : ThreadId) (s : World) (c : Routine (Option α))
    (v : Except Error α) :
    Assertion (Protocol.lone (d.machine plat) i) i :=
  lone (Ends (d.machine plat) i c s (v.map some))

-- What can be shown of the first state and of those that are stuck.
theorem trying_spec {β : Type} {p : Routine β} {M : β → Assertion (Protocol.lone (d.machine plat) i) i}
    {E : Error → Assertion (Protocol.lone (d.machine plat) i) i} {stuck : World → Prop}
    (first : Spec (lone (· = s)) p M E)
    (later : Spec (lone stuck) p M E) : Spec (trying d plat i s stuck) p M E := by
  refine (Spec.ex (τ := Bool) (P := fun b => if b then lone (· = s) else lone stuck) fun b => ?_).pre fun t _ ht => ?_
  · cases b
    case true  => exact first
    case false => exact later
  · exact ht.elim (fun ht => ⟨true, ht⟩) fun ht => ⟨false, ht⟩

theorem awaits {c : Routine (Option α)} {stuck : World → Prop}
    (first : ∀ t, Ends (d.machine plat) i c s (.ok none) t → stuck t)
    (again : Spec (lone (m := d.machine plat) (i := i) stuck) c
    (fun v => .const (v = none) ⊓ lone stuck) fun _ => .const False)
    (keeps : (lone (m := d.machine plat) (i := i) stuck).Keeps Act.Signals) :
    Awaits (trying d plat i s stuck) (lone stuck) c (fun v => settled d plat i s c (.ok v))
      fun e => settled d plat i s c (.error e) where
  ask   := by
    refine trying_spec (Ends.spec.post (fun v t _ e => ?_) fun _ => le_rfl) ?_
    · cases v
      case none   => exact first t e
      case some v => exact e
    · refine again.post (fun v t _ ht => ?_) fun _ _ _ ht => ht.elim
      obtain ⟨rfl, ht⟩ := ht
      exact ht
  again := again
  stuck := fun _ _ ht => .inr ht
  looks := {
    ok   := fun _ _ _ => rfl
    kept := fun {a u r u'} ha _ ht exec => by
      cases ha
      obtain ⟨_, rfl⟩ : r = u.word _ ∧ u' = u := exec
      exact ht
  }
  keeps := keeps

theorem ensureRunning_runs {K : Assertion (Protocol.lone (d.machine plat) i) i} (keeps : K.Keeps Act.Signals)
    (spawn : d.spawn = .ok ()) : Spec K aw.ensureRunning (fun _ => K) fun _ => .const False := by
  have runs : Act.Signals (.setRunning aw.n true) := trivial
  refine .skip (a := .isRunning aw.n) keeps trivial fun running => ?_
  cases running
  case true  => exact .pure le_rfl
  case false =>
    refine .learn (a := .spawnBridge aw.n) keeps trivial (fun _ => ⊤) (· = .ok ())
      (fun u r u' _ _ exec => ⟨trivial, ?_⟩) ?_
    · have exec : d.exec plat i (.spawnBridge aw.n) u r u' := exec
      simp only [Surroundings.exec, spawn] at exec
      exact exec.left
    · rintro r rfl
      refine .pre (P := K) ?_ fun _ _ hs => hs.left
      refine .skip (a := .recvReady aw.n) keeps trivial fun _ => ?_
      exact .perform (fun _ => keeps.ok runs) fun _ _ _ => keeps.kept runs

-- A receiver that has nothing to take, of a channel that has not ended.
structure Empty (d : Surroundings) (x : SharedChannel) (h : Handle) (s : World) : Prop where
  owns  : Batch.Owns d x h s
  empty : (s.receiver h).peek s = .ok .empty
  ready : ∃ b, d.ready s x = .ok b

theorem Empty.kept {a : Act} {r : a.Ret} (empty : Empty d x h s) (ha : a.Signals) (e : d.exec plat i a s r t) :
    Empty d x h t := by
  obtain ⟨view, seen⟩ := Batch.signals_kept ha e
  refine ⟨⟨seen.receiver ▸ empty.owns.mine, view.shared ▸ empty.owns.attached, view.locked ▸ empty.owns.free⟩, ?_, ?_⟩
  · rw [seen.receiver, Batch.peek_seen seen]
    exact empty.empty
  · rw [view.ready]
    exact empty.ready

theorem Empty.of_looks (owns : Batch.Owns d x h s) (looks : Batch.Looks d x h s (.ok none) t) : Empty d x h t := by
  obtain ⟨empty, b, ready⟩ := Batch.peeked_none looks.answer.symm
  refine ⟨looks.owns owns, ?_, b, (looks.empty rfl).right.left b ready⟩
  rw [looks.seen.receiver, Batch.peek_seen looks.seen]
  exact empty

theorem Empty.peeked (empty : Empty d x h s) : Batch.peeked d s x (s.receiver h) = .ok none := by
  obtain ⟨b, ready⟩ := empty.ready
  rw [Batch.peeked, empty.empty, ready]
  rfl

theorem Empty.alone (empty : Empty d x h s) : (RingReceiver.tryPeekOrClosed h).Alone (d.machine plat) i s
    fun v t => v = .ok none ∧ Empty d x h t := by
  refine (Batch.tryPeekOrClosed_alone empty.owns).mono fun v t looks => ?_
  obtain rfl := looks.answer.trans empty.peeked
  exact ⟨rfl, .of_looks empty.owns looks⟩

def bridge : AsyncWait where
  n         := 0
  handle    := ⟨0, .ringAWriter⟩
  notify    := .ring 0 0 .writerNotify
  parked    := .ring 0 0 .writerParked
  spinCount := 0

-- The channel of the sender, and nobody else who observes it.
structure Sends (d : Surroundings) (x : SharedChannel) (h : Handle) (s : World) : Prop where
  mine     : (s.sender h).shared = d.handle
  attached : s.shared d.handle = some x
  free     : s.locked d.handle = false

def Fits (y : RingSender) (p : Bytes) (rc : Nat) : Prop :=
  MSG_HEADER_SIZE + p.length ≤ wrapSub64 y.ringDataSize (wrapSub64 y.cachedWc rc)

instance {y : RingSender} {p : Bytes} {rc : Nat} : Decidable (Fits y p rc) :=
  Nat.decLe ..

-- Neither the cached cursor nor the present one leaves enough space.
structure NoRoom (h : Handle) (p : Bytes) (s : World) : Prop where
  cached : ¬ Fits (s.sender h) p (s.sender h).cachedRc
  fresh  : ¬ Fits (s.sender h) p (s.word (s.sender h).readCursor)

def Small (h : Handle) (p : Bytes) (s : World) : Prop :=
  MSG_HEADER_SIZE + p.length ≤ (s.sender h).ringDataSize

def cachedFresh (h : Handle) (s : World) : World :=
  { s with sender := Function.update s.sender h { s.sender h with cachedRc := s.word (s.sender h).readCursor } }

-- What `try_send_once` does with the answer of `check_ready`.
inductive Tries (h : Handle) (p : Bytes) (u : World) : Except Error Bool → Except Error TrySendResult → World → Prop
  | fails {e : Error} : Tries h p u (.error e) (.error e) u
  | waits : Tries h p u (.ok false) (.ok .full) u
  | large {e : Error} (large : ¬ Small h p u)
      (he : e = .messageTooLarge p.length ((u.sender h).ringDataSize - MSG_HEADER_SIZE)) :
      Tries h p u (.ok true) (.error e) u
  | sends {t : World} (small : Small h p u) (room : ¬ NoRoom h p u) : Tries h p u (.ok true) (.ok .sent) t
  | full (small : Small h p u) (none : NoRoom h p u) : Tries h p u (.ok true) (.ok .full) (cachedFresh h u)

variable {p : Bytes} {v : Except Error TrySendResult} {y : RingSender}

theorem of_hasSpace {f : Bool → Routine α} {w : Except Error α} {wc n : Nat}
    (e : Ends (d.machine plat) i (y.hasSpace wc n >>= f) s w t) :
    Ends (d.machine plat) i (f (decide (n ≤ wrapSub64 y.ringDataSize (wrapSub64 wc y.cachedRc)))) s w t := by
  have space {v : Except Error Bool} {u : World} (e : Ends (d.machine plat) i (y.hasSpace wc n) s v u) :
      v = .ok (decide (n ≤ wrapSub64 y.ringDataSize (wrapSub64 wc y.cachedRc))) ∧ u = s := by
    obtain ⟨_, _, ⟨rfl, rfl⟩, e₁⟩ := e.of_act
    obtain ⟨_, _, ⟨rfl, rfl⟩, e₂⟩ := e₁.of_act
    exact e₂.of_pure
  obtain ⟨b, u, first, rest⟩ | ⟨_, _, first⟩ := e.of_bind
  case inl =>
    obtain ⟨hb, rfl⟩ := space first
    exact Except.ok.inj hb ▸ rest
  case inr => exact nomatch (space first).left

theorem of_messageSize {f : Nat → Routine α} {w : Except Error α} {n : Nat}
    (e : Ends (d.machine plat) i (y.messageSize n >>= f) s w t) :
    (MSG_HEADER_SIZE + n ≤ y.ringDataSize ∧ Ends (d.machine plat) i (f (MSG_HEADER_SIZE + n)) s w t) ∨
    (¬ MSG_HEADER_SIZE + n ≤ y.ringDataSize ∧
      w = .error (.messageTooLarge n (y.ringDataSize - MSG_HEADER_SIZE)) ∧ t = s) := by
  unfold RingSender.messageSize at e
  simp only at e
  split at e
  case isTrue large =>
    obtain ⟨_, _, first, _⟩ | ⟨_, rfl, first⟩ := e.of_bind
    case inl => exact nomatch first.of_throw.left
    case inr =>
      obtain ⟨he, rfl⟩ := first.of_throw
      cases he
      exact .inr ⟨Nat.not_le.mpr large, rfl, rfl⟩
  case isFalse small =>
    obtain ⟨_, _, first, rest⟩ | ⟨_, _, first⟩ := e.of_bind
    case inl =>
      obtain ⟨hn, rfl⟩ := first.of_pure
      cases hn
      exact .inl ⟨Nat.not_lt.mp small, rest⟩
    case inr => exact nomatch first.of_pure.left

theorem of_publish {wc : Nat} (e : Ends (d.machine plat) i (do
    RingSender.publishMessage h wc p
    Pure.pure TrySendResult.sent) s v t) : v = .ok .sent := by
  obtain ⟨_, _, _, last⟩ | ⟨_, _, first⟩ := e.of_bind
  case inl => exact last.of_pure.left
  case inr => exact nomatch (first.ok_of_only Effects.publishMessage_plain).choose_spec

theorem trySendOnce_tries (sends : Sends d x h s) (e : Ends (d.machine plat) i (RingSender.trySendOnce h p) s v t) :
    ∃ r u, d.Ready x s r u ∧ Tries h p u r v t := by
  obtain ⟨y, s', ⟨hy, hs⟩, e⟩ := e.of_act
  rw [hy, hs] at e
  have ready {r : Except Error Bool} {u : World}
      (e : Ends (d.machine plat) i (SharedChannel.checkReady (s.sender h).shared) s r u) : d.Ready x s r u := by
    rw [sends.mine] at e
    exact Program.Alone.ends (Surroundings.checkReady_alone sends.attached sends.free) e
  obtain ⟨b, u, first, e⟩ | ⟨e', rfl, first⟩ := e.of_bind
  case inr => exact ⟨_, _, ready first, .fails⟩
  have ready := ready first
  refine ⟨.ok b, u, ready, ?_⟩
  cases b
  case false =>
    obtain ⟨rfl, rfl⟩ := e.of_pure
    exact .waits
  case true =>
    have same : s.sender h = u.sender h := by rw [ready.same true rfl]
    rw [same] at e
    obtain ⟨small, e⟩ | ⟨large, rfl, rfl⟩ := of_messageSize e
    case inr => exact .large large rfl
    have e := of_hasSpace e
    split at e
    case isTrue cached =>
      obtain rfl := of_publish e
      exact .sends small fun none => none.cached (of_decide_eq_true cached)
    case isFalse cached =>
      obtain ⟨rc, u', ⟨hr, hu⟩, e⟩ := e.of_act
      obtain ⟨_, u'', hs, e⟩ := e.of_act
      have e := of_hasSpace e
      split at e
      case isTrue fresh =>
        obtain rfl := of_publish e
        refine .sends small fun none => none.fresh ?_
        rw [hr] at fresh
        exact of_decide_eq_true fresh
      case isFalse fresh =>
        obtain ⟨rfl, rfl⟩ := e.of_pure
        rw [hr] at fresh hs
        rw [hu] at hs
        rw [show t = cachedFresh h u from hs]
        exact .full small ⟨of_decide_eq_false (Bool.eq_false_of_not_eq_true cached),
          of_decide_eq_false (Bool.eq_false_of_not_eq_true fresh)⟩

-- A sender that has to wait: the client is missing, or the message does not fit in.
structure Full (d : Surroundings) (x : SharedChannel) (h : Handle) (p : Bytes) (s : World) : Prop where
  sends : Sends d x h s
  waits : ∃ b, d.ready s x = .ok b ∧ (b = true → Small h p s ∧ NoRoom h p s)

theorem Sends.after {b : Bool} {u : World} (sends : Sends d x h s) (ready : d.Ready x s (.ok b) u) : Sends d x h u where
  mine     := by rw [ready.same b rfl]; exact sends.mine
  attached := by rw [ready.same b rfl]; exact sends.attached
  free     := ready.free

theorem Tries.after {r : Except Error Bool} {u : World} (sends : Sends d x h s) (ready : d.Ready x s r u)
    (tries : Tries h p u r (.ok .full) t) : Full d x h p t := by
  cases tries
  case waits => exact ⟨sends.after ready, false, ready.again false rfl, nofun⟩
  case full small none =>
    have sends := sends.after ready
    have same : (cachedFresh h u).sender h = { u.sender h with cachedRc := u.word (u.sender h).readCursor } :=
      Function.update_self ..
    refine ⟨⟨?_, sends.attached, sends.free⟩, true, ready.again true rfl, fun _ => ⟨?_, ?_, ?_⟩⟩
    · rw [same]
      exact sends.mine
    · unfold Small
      rw [same]
      exact small
    · rw [same]
      exact none.fresh
    · rw [same]
      exact none.fresh

theorem trySendOnce_full (sends : Sends d x h s)
    (e : Ends (d.machine plat) i (RingSender.trySendOnce h p) s (.ok .full) t) :
    Full d x h p t := by
  obtain ⟨r, u, ready, tries⟩ := trySendOnce_tries sends e
  exact tries.after sends ready

theorem Full.again (full : Full d x h p s) (e : Ends (d.machine plat) i (RingSender.trySendOnce h p) s v t) :
    v = .ok .full ∧ Full d x h p t := by
  obtain ⟨r, u, ready, tries⟩ := trySendOnce_tries full.sends e
  obtain ⟨b, answer, stuck⟩ := full.waits
  have answer := ready.answer.trans answer
  suffices hv : v = .ok .full by
    subst hv
    exact ⟨rfl, tries.after full.sends ready⟩
  cases tries
  case fails          => cases answer
  case waits          => rfl
  case full           => rfl
  case large large _  =>
    cases answer
    have same : t.sender = s.sender := by rw [ready.same true rfl]
    refine absurd (stuck rfl).left ?_
    unfold Small
    rw [← same]
    exact large
  case sends room     =>
    cases answer
    have same := ready.same true rfl
    refine absurd ?_ room
    rw [same]
    exact ⟨(stuck rfl).right.cached, (stuck rfl).right.fresh⟩

theorem signals_sender {a : Act} {r : a.Ret} (ha : a.Signals) (e : d.exec plat i a s r t) : t.sender = s.sender := by
  have parts : .sender ∉ a.parts := by
    cases a
    all_goals first
      | exact False.elim ha
      | simp [Act.parts]
  by_cases timeless : Batch.Timeless a
  case pos => exact (World.frame ((Batch.timeless_exec timeless).mpr e)).sender parts
  case neg =>
    cases a
    case now                 => exact e.right ▸ rfl
    case readProcStat        => exact e.right ▸ rfl
    case compareExchangeWeak => exact False.elim ha
    case spawnBridge         =>
      simp only [Surroundings.exec] at e
      split at e <;> exact e.right ▸ rfl
    all_goals exact absurd trivial timeless

theorem Full.kept {a : Act} {r : a.Ret} (full : Full d x h p s) (ha : a.Signals) (e : d.exec plat i a s r t) :
    Full d x h p t := by
  obtain ⟨view, seen⟩ := Batch.signals_kept ha e
  have sender := signals_sender ha e
  obtain ⟨b, answer, stuck⟩ := full.waits
  refine ⟨⟨sender ▸ full.sends.mine, view.shared ▸ full.sends.attached, view.locked ▸ full.sends.free⟩, b,
    ?_, fun hb => ?_⟩
  · rw [view.ready]
    exact answer
  · obtain ⟨small, cached, fresh⟩ := stuck hb
    unfold Small
    rw [sender]
    refine ⟨small, sender ▸ cached, ?_⟩
    have cursor : t.word (s.sender h).readCursor = s.word (s.sender h).readCursor := (seen.cursors _ _).right
    rw [sender, cursor]
    exact fresh

theorem full_keeps : (lone (m := d.machine plat) (i := i) (Full d x h p)).Keeps Act.Signals where
  ok _ _ _          := rfl
  kept ha _ ht exec := ht.kept ha exec

-- What a call that tries to send ends with, if its first attempt settles the matter.
def Decides (d : Surroundings) (plat : Platform) (i : ThreadId) (h : Handle) (p : Bytes) (s : World)
    (v : Except Error Unit)
    (t : World) : Prop :=
  ∃ u, Ends (d.machine plat) i (RingSender.trySendOnce h p) s u t ∧ u ≠ .ok .full ∧ v = u.map fun _ => ()

def decided (d : Surroundings) (plat : Platform) (i : ThreadId) (h : Handle) (p : Bytes) (s : World)
    (v : Except Error Unit) :
    Assertion (Protocol.lone (d.machine plat) i) i :=
  lone (Decides d plat i h p s v)

-- What is known after an attempt.
def attempted (d : Surroundings) (plat : Platform) (i : ThreadId) (x : SharedChannel) (h : Handle)
    (p : Bytes) (s : World) :
    TrySendResult → Assertion (Protocol.lone (d.machine plat) i) i
  | .sent => decided d plat i h p s (.ok ())
  | .full => lone (Full d x h p)

theorem attempt_spec (sends : Sends d x h s) :
    Spec (trying d plat i s (Full d x h p)) (RingSender.trySendOnce h p) (attempted d plat i x h p s)
      fun e => decided d plat i h p s (.error e) := by
  refine trying_spec (Ends.to_spec ?_) (Ends.to_spec ?_)
  · rintro _ v t rfl e
    cases v
    case ok v =>
      cases v
      case sent => exact ⟨_, e, nofun, rfl⟩
      case full => exact trySendOnce_full sends e
    case error => exact ⟨_, e, nofun, rfl⟩
  · rintro _ v t full e
    obtain ⟨rfl, full⟩ := Full.again full e
    exact full

theorem stuck_trying : (lone (Full d x h p) : Assertion (Protocol.lone (d.machine plat) i) i) ≤ trying d plat i s
    (Full d x h p) :=
  fun _ _ ht => .inr ht

theorem spinSend_spec (sends : Sends d x h s) : (n : Nat) →
    Spec (trying d plat i s (Full d x h p)) (Tokio.spinSend h p n) (attempted d plat i x h p s)
      fun e => decided d plat i h p s (.error e)
  | 0     => attempt_spec sends
  | n + 1 => .bind (attempt_spec sends) fun
    | .sent => .pure le_rfl
    | .full => (spinSend_spec sends n).pre stuck_trying

theorem sendAsync_spec (sends : Sends d x h s) (spawn : d.spawn = .ok ()) :
    Spec (trying d plat i s (Full d x h p)) (Tokio.sendAsync h aw p) (fun _ => decided d plat i h p s (.ok ()))
      fun e => decided d plat i h p s (.error e) := by
  have starts : Starts (lone (m := d.machine plat) (i := i) (Full d x h p)) aw :=
    ⟨full_keeps, ensureRunning_runs full_keeps spawn⟩
  refine .loop (fun _ => trying d plat i s (Full d x h p)) le_rfl fun _ => .bind (spinSend_spec sends _) fun v => ?_
  cases v
  case sent => exact .pure le_rfl
  case full =>
    refine .bind (starts.snapshot.post (fun _ => le_rfl) fun _ _ _ no => no.elim) fun observed => ?_
    refine .bind ((spinSend_spec sends _).pre stuck_trying) fun v => ?_
    cases v
    case sent => exact .pure le_rfl
    case full =>
      exact .bind (starts.waitChanged.post (fun _ => le_rfl) fun _ _ _ no => no.elim) fun _ => .pure stuck_trying

theorem Full.after {b : Bool} {u : World} (full : Full d x h p s) (ready : d.Ready x s (.ok b) u) : Full d x h p u := by
  obtain ⟨c, answer, stuck⟩ := full.waits
  obtain rfl : b = c := Except.ok.inj (ready.answer.trans answer)
  have same := ready.same b rfl
  refine ⟨full.sends.after ready, b, ready.again b rfl, fun hb => ?_⟩
  rw [same]
  exact ⟨(stuck hb).left, (stuck hb).right.cached, (stuck hb).right.fresh⟩

-- The sender that waits, as it was when its wait began.
def waiting (d : Surroundings) (x : SharedChannel) (h : Handle) (p : Bytes) (y : RingSender) (s : World) : Prop :=
  Full d x h p s ∧ s.sender h = y

end Agreement
