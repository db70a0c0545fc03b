import ShmemIpc.Library.Straight
import ShmemIpc.Execution.Solo
import ShmemIpc.Execution.Frame

open Function

-- What a call does while the other threads do nothing, and no exchange fails without a reason. The observer of
-- processes may fail, and the clock may go on.

-- The exchange has failed although the word had the expected value.
def Act.Spurious : (a : Act) → a.Ret → World → Prop
  | .compareExchangeWeak w e _, .error _, s => s.word w = e
  | _, _, _                                 => False

def promptWorld (plat : Platform) : Machine ThreadId Act Act.Ret World :=
  (worldMachine plat).restrict fun _ a s r _ => ¬ a.Spurious r s

def promptMachine (plat : Platform) : Machine ThreadId Act Act.Ret State :=
  (machine plat).restrict fun _ a s r _ => ¬ a.Spurious r s.fst

-- The actions that are always possible as long as the channel `h` exists, and that leave the channels and their
-- locks alone.
def Act.Steady (h : Handle) : Act → Prop
  | getShared k => k = h
  | load _ | store .. | fetchAdd _ | compareExchange .. | compareExchangeWeak .. | readByte .. | sub .. | getReceiver _
  | setReceiver .. | getBuf | setBuf _ | getOut | setOut _ | getPeer _ | setPeer .. | loadNextProbe _
    | storeNextProbe ..
  | now | readProcStat _ | wake .. => True
  | _           => False

namespace Prompt

open Code

variable {plat : Platform} {i : ThreadId} {s t : World} {α : Type} {h : Handle} {x : SharedChannel}
variable {Q : Except Error α → World → Prop}

theorem world_runs {a : Act} (ha : a.Steady h) (hs : s.shared h = some x) : ∃ r t, World.exec plat i a s r t := by
  cases a
  case getShared =>
    cases ha
    exact ⟨x, s, hs, rfl⟩
  case compareExchange w e n =>
    by_cases at_ : s.word w = e
    case pos => exact ⟨.ok e, _, .inl ⟨at_, rfl, rfl⟩⟩
    case neg => exact ⟨_, s, .inr ⟨at_, rfl, rfl⟩⟩
  case compareExchangeWeak => exact ⟨_, s, .inr ⟨rfl, rfl⟩⟩
  case readProcStat pid =>
    cases hp : s.proc pid
    case none   => exact ⟨.error ⟨.notFound, ""⟩, s, rfl, by simp [hp]⟩
    case some t => exact ⟨.ok t, s, rfl, by simp [hp]⟩
  case now  => exact ⟨s.clock, _, Nat.le_refl _, rfl⟩
  case wake => exact Solo.wake_runs
  all_goals first | exact ha.elim | exact ⟨_, _, rfl, rfl⟩ | exact ⟨(), _, rfl⟩

theorem runs {a : Act} {r : a.Ret} (e : World.exec plat i a s r t) : ∃ r t, (promptWorld plat).exec i a s r t := by
  by_cases spurious : a.Spurious r s
  case neg => exact ⟨r, t, e, spurious⟩
  case pos =>
    unfold Act.Spurious at spurious
    split at spurious
    case h_1 => exact ⟨.ok _, _, .inl ⟨spurious, rfl, rfl⟩, id⟩
    case h_2 => exact spurious.elim

-- The channels and their locks are as before.
structure Same (s t : World) : Prop where
  shared : t.shared = s.shared
  locked : t.locked = s.locked

theorem Same.refl : Same s s :=
  ⟨rfl, rfl⟩

theorem Same.trans {u : World} (a : Same s t) (b : Same t u) : Same s u :=
  ⟨b.shared.trans a.shared, b.locked.trans a.locked⟩

theorem Same.steady {a : Act} {r : a.Ret} (ha : a.Steady h) (e : World.exec plat i a s r t) : Same s t := by
  have frame := World.frame e
  have other : .shared ∉ a.parts ∧ .locked ∉ a.parts := by
    cases a
    all_goals first
      | exact ha.elim
      | simp [Act.parts]
  exact ⟨frame.shared other.left, frame.locked other.right⟩

-- What ends in the world also ends here.
theorem promptly {p : Routine α} (alone : p.Alone (worldMachine plat) i s Q) : p.Alone (promptWorld plat) i s Q :=
  Program.Alone.fewer Machine.restrict_le runs alone

-- Code without loops.

theorem straight_world {p : Routine α} (hp : Code.Straight (Act.Steady h) p) (hs : s.shared h = some x) :
    p.Alone (worldMachine plat) i s fun _ t => Same s t :=
  Program.Alone.straight (I := Same s) (fun ha same => world_runs ha (same.shared ▸ hs))
    (fun ha same e => same.trans (.steady ha e)) hp .refl

theorem straight_alone {p : Routine α} (hp : Code.Straight (Act.Steady h) p) (hs : s.shared h = some x) :
    p.Alone (promptWorld plat) i s fun _ t => Same s t :=
  promptly (straight_world hp hs)

theorem wakeAll_straight : Code.Straight (Act.Steady h) (SharedChannel.wakeAll h) :=
  .act rfl fun _ => .act trivial fun _ =>
  .bind (.act trivial fun _ => .act trivial fun _ => .act trivial fun _ => .perform trivial) fun _ =>
  .act trivial fun _ => .act trivial fun _ => .act trivial fun _ => .perform trivial

theorem terminal_straight : Code.Straight (Act.Steady h) (SharedChannel.terminal h) := by
  refine .act rfl fun _ => .act trivial fun _ => ?_
  split
  all_goals first | exact .throw | exact .pure

theorem isAlive_straight {identity : ProcessIdentity} :
    Code.Straight (Act.Steady h) (ProcessMonitor.isAlive identity) := by
  refine .attempt (.act trivial fun r => ?_) fun v => ?_
  · cases r
    case ok    => exact .ofExcept
    case error =>
      simp only
      split <;> exact .throw
  · split
    all_goals first | exact .pure | exact .throw

theorem open_straight {identity : ProcessIdentity} : Code.Straight (Act.Steady h) (ProcessMonitor.open identity) := by
  unfold ProcessMonitor.open
  split
  case isTrue => exact .throw
  refine .bind isAlive_straight fun alive => ?_
  cases alive
  case true  => exact .pure
  case false => exact .throw

theorem peerIdentity_straight : Code.Straight (Act.Steady h) x.peerIdentity := by
  unfold SharedChannel.peerIdentity
  split
  all_goals exact .act trivial fun _ => .act trivial fun _ => .pure

-- An action with a single outcome.
theorem step {a : Act} {f : a.Ret → Routine α} {v : a.Ret} (hv : ∀ r u, World.exec plat i a s r u ↔ r = v ∧ u = t)
    (rest : (f v).Alone (promptWorld plat) i t Q) : (perform a >>= f).Alone (promptWorld plat) i s Q := by
  refine .act (runs ((hv v t).mpr ⟨rfl, rfl⟩)) fun r u e => ?_
  obtain ⟨rfl, rfl⟩ := (hv r u).mp e.left
  exact rest

theorem load_alone {w : Word} {f : Nat → Routine α} (hf : (f (s.word w)).Alone (promptWorld plat) i s Q) :
    (load w >>= f).Alone (promptWorld plat) i s Q :=
  step (v := s.word w) (fun _ _ => .rfl) hf

theorem getShared_alone (hs : s.shared h = some x) {f : SharedChannel → Routine α}
    (hf : (f x).Alone (promptWorld plat) i s Q) : (getShared h >>= f).Alone (promptWorld plat) i s Q := by
  refine step (v := x) (fun r u => ?_) hf
  show s.shared h = some r ∧ u = s ↔ r = x ∧ u = s
  rw [hs, Option.some_inj, eq_comm]

-- A loop is left.
def Leaves {β γ : Type} (v : Except Error (β ⊕ γ)) : Prop :=
  ∀ n, v ≠ .ok (.inl n)

theorem Leaves.done {β γ : Type} {b : γ} : Leaves (.ok (.inr b) : Except Error (β ⊕ γ)) :=
  nofun

theorem Leaves.fail {β γ : Type} {e : Error} : Leaves (.error e : Except Error (β ⊕ γ)) :=
  nofun

theorem loop_alone {β γ : Type} {body : β → Routine (β ⊕ γ)} {n : β}
    (hb : (body n).Alone (promptWorld plat) i s fun v t => Leaves v ∧ Same s t) :
    (Code.loop body n).Alone (promptWorld plat) i s fun _ t => Same s t :=
  .loop hb (fun _ _ hv => absurd rfl (hv.left _)) (fun _ _ hv => hv.right) fun _ _ hv => hv.right

-- The end of a channel. The exchange is tried once.
theorem finish_alone (hs : s.shared h = some x) {state : ChannelState} :
    (SharedChannel.finish h state).Alone (promptWorld plat) i s fun _ t => Same s t := by
  refine getShared_alone hs (load_alone (loop_alone ?_))
  have tries : (SharedChannel.tryFinish h x state (s.word x.stateWord)).Alone (promptWorld plat) i s
      fun v t => Leaves v ∧ Same s t := by
    refine .act (runs (.inr ⟨rfl, rfl⟩)) fun r t e => ?_
    obtain ⟨⟨_, rfl, rfl⟩ | ⟨rfl, rfl⟩, reason⟩ := e
    case inl =>
      refine .bind (straight_alone (s := s.stored _ _) wakeAll_straight hs) (fun _ _ same => .pure ⟨.done, ?_⟩)
        fun _ _ same => ⟨.fail, ?_⟩
      · exact ⟨same.shared, same.locked⟩
      · exact ⟨same.shared, same.locked⟩
    case inr => exact absurd rfl reason
  split
  all_goals first | exact .pure ⟨.done, .refl⟩ | exact tries

theorem awaitConnected_alone (hs : s.shared h = some x) :
    (SharedChannel.awaitConnected h x).Alone (promptWorld plat) i s fun _ t => Same s t := by
  refine loop_alone (load_alone ?_)
  have retires : (SharedChannel.retire h x (s.word x.stateWord)).Alone (promptWorld plat) i s
      fun v t => Leaves v ∧ Same s t := by
    refine .act (runs ⟨Nat.le_refl s.clock, rfl⟩) fun now t e => ?_
    obtain ⟨⟨_, rfl⟩, _⟩ := e
    split
    case isTrue => exact .pure ⟨.done, rfl, rfl⟩
    refine step (v := .ok (s.word x.stateWord))
      (t := World.stored { s with clock := now } x.stateWord ChannelState.closed.toU32) (fun r u => ?_) ?_
    · simp [World.exec]
    · refine .bind (straight_alone (s := World.stored _ _ _) wakeAll_straight hs) (fun _ _ same => .throw ⟨.fail, ?_⟩)
        fun _ _ same => ⟨.fail, ?_⟩
      · exact ⟨same.shared, same.locked⟩
      · exact ⟨same.shared, same.locked⟩
  split
  all_goals first | exact .pure ⟨.done, .refl⟩ | exact .throw ⟨.fail, .refl⟩ | exact retires

-- The observer of processes.

theorem observe_alone (hs : s.shared h = some x) {identity : ProcessIdentity} {ms : Nat} :
    (SharedChannel.observe h identity ms).Alone (promptWorld plat) i s fun _ t => Same s t := by
  refine .bind (straight_alone isAlive_straight hs) (fun alive t same => ?_) fun _ _ same => same
  have attached : t.shared h = some x := same.shared ▸ hs
  refine .bind (M := fun _ u => Same s u) ?_ (fun _ u same => ?_) fun _ _ same => same
  · cases alive
    case true  => exact .pure same
    case false => exact (finish_alone attached).mono fun _ _ => same.trans
  · exact (straight_alone (.perform (a := Act.storeNextProbe h _) trivial) (same.shared ▸ hs)).mono
      fun _ _ => same.trans

theorem probe_alone (hs : s.shared h = some x) {ms : Nat} :
    (SharedChannel.probe h x ms).Alone (promptWorld plat) i s fun _ t => Same s t := by
  -- straight code, and then the rest
  have after {β γ : Type} {p : Routine β} {f : β → Routine γ} {u : World} (same : Same s u)
      (hp : Code.Straight (Act.Steady h) p) (hf : ∀ v t, Same s t →
      (f v).Alone (promptWorld plat) i t fun _ t => Same s t) :
      (p >>= f).Alone (promptWorld plat) i u fun _ t => Same s t :=
    .bind (straight_alone hp (same.shared ▸ hs)) (fun v t same' => hf v t (same.trans same')) fun _ _ => same.trans
  have observes {u : World} (same : Same s u) {peer : ProcessIdentity} :
      (do SharedChannel.observe h peer ms; Pure.pure false : Routine Bool).Alone (promptWorld plat) i u
      fun _ t => Same s t :=
    .bind (observe_alone (same.shared ▸ hs)) (fun _ _ same' => .pure (same.trans same')) fun _ _ => same.trans
  refine after .refl (.perform (a := Act.loadNextProbe h) trivial) fun next t same => ?_
  split
  case isTrue => exact .pure same
  refine after same terminal_straight fun _ t same =>
    after same (.perform (a := Act.getPeer h) trivial) fun peer t same => ?_
  cases peer
  case some peer => exact observes same
  case none =>
    refine after same peerIdentity_straight fun identity t same => ?_
    refine .attempt (straight_alone open_straight (same.shared ▸ hs)) fun v t same' => ?_
    have same := same.trans same'
    cases v
    case ok => exact after same (.perform (a := Act.setPeer h identity) trivial) fun _ t same => observes same
    case error e =>
      cases e
      case peerDisconnected =>
        refine .bind (finish_alone (same.shared ▸ hs)) (fun _ t same' => ?_) fun _ _ => same.trans
        exact after (same.trans same') terminal_straight fun _ t same => .pure same
      all_goals exact .throw same

-- Nobody holds the lock of the observer.
structure Open (h : Handle) (s t : World) : Prop where
  shared : t.shared = s.shared
  free   : t.locked h = false

theorem locked_alone (hs : s.shared h = some x) (free : s.locked h = false) {ms : Nat} :
    (SharedChannel.locked h (SharedChannel.probe h x ms)).Alone (promptWorld plat) i s fun _ t => Open h s t := by
  have possible : ∃ r t, World.exec plat i (.lockPeer h) s r t := by
    by_cases poisoned : s.poisoned h = true
    case pos => exact ⟨_, s, free, by rw [if_pos poisoned]; exact ⟨rfl, rfl⟩⟩
    case neg => exact ⟨.ok (), _, free, by rw [if_neg poisoned]; exact ⟨rfl, rfl⟩⟩
  obtain ⟨_, _, possible⟩ := possible
  refine .act (runs possible) fun r t e => ?_
  have taken : t.shared = s.shared ∧ ((∃ e, r = .error e) → t = s) := by
    have e := e.left.right
    split at e
    case isTrue  => exact ⟨by rw [e.right], fun _ => e.right⟩
    case isFalse =>
      refine ⟨by rw [e.right], ?_⟩
      rintro ⟨_, he⟩
      exact absurd (he.symm.trans e.left) nofun
  cases r
  case error e' =>
    obtain rfl := taken.right ⟨e', rfl⟩
    refine .bind (M := fun v u => v = .error e' ∧ u = t) (.throw ⟨rfl, rfl⟩) nofun ?_
    rintro _ _ ⟨_, rfl⟩
    exact ⟨rfl, free⟩
  case ok =>
    refine .bind (M := fun v u => v = .ok () ∧ u = t) (.pure ⟨rfl, rfl⟩) ?_ nofun
    rintro _ _ ⟨_, rfl⟩
    refine .attempt (probe_alone (taken.left ▸ hs)) fun v u same => ?_
    refine step (v := ()) (t := { u with locked := update u.locked h false })
      (fun _ _ => ⟨fun e => ⟨rfl, e⟩, And.right⟩) ?_
    exact .ofExcept ⟨same.shared.trans taken.left, update_self _ _ _⟩

theorem checkReady_alone (hs : s.shared h = some x) (free : s.locked h = false) :
    (SharedChannel.checkReady h).Alone (promptWorld plat) i s fun _ t => Open h s t := by
  have opens {u : World} (same : Same s u) : Open h s u := ⟨same.shared, same.locked ▸ free⟩
  have last {u : World} (hu : Open h s u) :
      (do SharedChannel.terminal h; Pure.pure true : Routine Bool).Alone (promptWorld plat) i u
        fun _ t => Open h s t := by
    refine .bind (straight_alone terminal_straight (hu.shared ▸ hs)) (fun _ t same => .pure ?_) fun _ t same => ?_
    · exact ⟨same.shared.trans hu.shared, same.locked ▸ hu.free⟩
    · exact ⟨same.shared.trans hu.shared, same.locked ▸ hu.free⟩
  refine getShared_alone hs (.bind (awaitConnected_alone hs) (fun ready t same => ?_) fun _ _ same => opens same)
  cases ready
  case false => exact .pure (opens same)
  refine .act (runs ⟨Nat.le_refl t.clock, rfl⟩) fun now u e => ?_
  obtain ⟨⟨_, rfl⟩, _⟩ := e
  refine step (v := t.nextProbe h) (t := { t with clock := now }) (fun _ _ => .rfl) ?_
  have same : Same s { t with clock := now } := same.trans ⟨rfl, rfl⟩
  split
  case isFalse => exact last (opens same)
  refine .bind (locked_alone (same.shared ▸ hs) (opens same).free) (fun ended u hu => ?_) fun _ u hu => ?_
  · have hu : Open h s u := ⟨hu.shared.trans same.shared, hu.free⟩
    cases ended
    case true  => exact .pure hu
    case false => exact last hu
  · exact ⟨hu.shared.trans same.shared, hu.free⟩

end Prompt
