import ShmemIpc.Library.Ends
import ShmemIpc.Execution.Solo
import ShmemIpc.Execution.Frame

open Function

-- What a call meets while nothing else runs and the time stands still: the clock, what `/proc` answers before and
-- after the observer of the channel `handle` has been opened, and whether a thread can be spawned.
structure Surroundings where
  handle : Handle
  now    : Nat
  stat   : Bool → Nat → Except IoError (List Char)
  spawn  : Except IoError Unit

namespace Surroundings

def exec (d : Surroundings) (plat : Platform) (i : ThreadId) : (a : Act) → World → a.Ret → World → Prop
  | .now, s, r, s'                       => r = d.now ∧ s' = { s with clock := d.now }
  | .readProcStat pid, s, r, s'          => r = d.stat (s.peer d.handle).isSome pid ∧ s' = s
  | .compareExchangeWeak w e n, s, r, s' => World.exec plat i (.compareExchange w e n) s r s'
  | .spawnBridge n, s, r, s'             =>
    match d.spawn with
    | .ok _    => r = .ok () ∧ s' = s.bridged n fun _ => ⟨false, true, false, false, false, none⟩
    | .error e => r = .error e ∧ s' = s
  | a, s, r, s'                          => World.exec plat i a s r s'

def machine (d : Surroundings) (plat : Platform) : Machine ThreadId Act Act.Ret World where
  exec := d.exec plat

-- All this is possible in the world if its clock is not later and `/proc` can answer so.
theorem world_exec {d : Surroundings} {plat : Platform} {i : ThreadId} {a : Act} {s s' : World} {r : a.Ret}
    (clock : s.clock ≤ d.now) (h : ∀ b pid, World.exec plat i (.readProcStat pid) s (d.stat b pid) s)
    (e : d.exec plat i a s r s') : World.exec plat i a s r s' := by
  cases a
  case now                 => exact ⟨e.left ▸ clock, e.left ▸ e.right⟩
  case readProcStat pid    => exact e.left ▸ e.right ▸ h _ pid
  case compareExchangeWeak => exact e.imp_right fun h => ⟨h.right.left, h.right.right⟩
  case spawnBridge n       =>
    simp only [exec] at e
    split at e
    case h_1 => exact .inl e
    case h_2 => exact .inr ⟨e.left ▸ .intro _, e.right⟩
  all_goals exact e

-- What the observer of processes answers.

def read (d : Surroundings) (opened : Bool) (pid : Nat) : Except Error (Nat × Bool) :=
  match d.stat opened pid with
  | .ok t    => parseProcessStat t
  | .error e => .error (if e.kind = .notFound then .peerDisconnected else .io e)

def alive (d : Surroundings) (opened : Bool) (p : ProcessIdentity) : Except Error Bool :=
  match d.read opened p.pid with
  | .ok (birth, alive)       => .ok (alive && birth == p.birth)
  | .error .peerDisconnected => .ok false
  | .error e                 => .error e

def judged : Except Error Bool → Except Error Bool
  | .ok true  => .ok true
  | .ok false => .error .peerDisconnected
  | .error e  => .error e

def watched (d : Surroundings) (s : World) (x : SharedChannel) : Except Error Bool :=
  match s.peer d.handle with
  | some p => judged (d.alive true p)
  | none   =>
    if (s.published x).pid = 0 then
      .error .invalidHeader
    else
      match judged (d.alive false (s.published x)) with
      | .ok _    => judged (d.alive true (s.published x))
      | .error e => .error e

def probed (d : Surroundings) (s : World) (x : SharedChannel) : Except Error Bool :=
  if s.poisoned d.handle then .error (.io ⟨.other, "process observer lock poisoned"⟩) else d.watched s x

def elapsed (d : Surroundings) (x : SharedChannel) : Nat :=
  min ((d.now - x.started) / 1000000) U64_MAX

def awaited (d : Surroundings) (s : World) (x : SharedChannel) : Except Error Bool :=
  match ChannelState.fromU32 (s.word x.stateWord) with
  | some .connected        => .ok true
  | some .peerDisconnected => .error .peerDisconnected
  | some .closed           => .error .channelClosed
  | some .init | none      => .error .invalidHeader
  | _                      => if d.now - x.started < x.connectTimeout then .ok false else .error .timedOut

-- The answer of `check_ready`.
def ready (d : Surroundings) (s : World) (x : SharedChannel) : Except Error Bool :=
  match d.awaited s x with
  | .ok true => if s.nextProbe d.handle ≤ d.elapsed x then d.probed s x else .ok true
  | v        => v

open Code

variable {d : Surroundings} {plat : Platform} {i : ThreadId} {s s' : World} {α : Type} {x : SharedChannel}
variable {Q : Except Error α → World → Prop}

theorem load_alone {w : Word} {f : Nat → Routine α} (hf : (f (s.word w)).Alone (d.machine plat) i s Q) :
    (load w >>= f).Alone (d.machine plat) i s Q :=
  .step (v := s.word w) (fun _ _ => .rfl) hf

theorem getShared_alone {h : Handle} (hs : s.shared h = some x) {f : SharedChannel → Routine α}
    (hf : (f x).Alone (d.machine plat) i s Q) : (getShared h >>= f).Alone (d.machine plat) i s Q := by
  refine .step (v := x) (fun r t => ?_) hf
  show s.shared h = some r ∧ t = s ↔ r = x ∧ t = s
  rw [hs, Option.some_inj, eq_comm]

theorem processStat_alone {pid : Nat} : (processStat pid).Alone (d.machine plat) i s fun v s' =>
    v = d.read (s.peer d.handle).isSome pid ∧ s' = s := by
  refine .step (fun _ _ => Iff.rfl) ?_
  unfold Surroundings.read
  cases d.stat (s.peer d.handle).isSome pid
  case ok t    => exact .ofExcept ⟨rfl, rfl⟩
  case error e =>
    show (if e.kind = .notFound then fail .peerDisconnected else fail (.io e)).Alone (d.machine plat) i s _
    split
    case isTrue missing  => exact .throw ⟨by simp [missing], rfl⟩
    case isFalse missing => exact .throw ⟨by simp [missing], rfl⟩

theorem isAlive_alone {p : ProcessIdentity} : (ProcessMonitor.isAlive p).Alone (d.machine plat) i s fun v s' =>
    v = d.alive (s.peer d.handle).isSome p ∧ s' = s := by
  refine .attempt processStat_alone ?_
  rintro v s' ⟨rfl, rfl⟩
  unfold alive
  cases d.read (s'.peer d.handle).isSome p.pid
  case ok      => exact .pure ⟨rfl, rfl⟩
  case error e => cases e <;> first | exact .pure ⟨rfl, rfl⟩ | exact .throw ⟨rfl, rfl⟩

theorem open_alone {p : ProcessIdentity} (named : p.pid ≠ 0) :
    (ProcessMonitor.open p).Alone (d.machine plat) i s fun v s' =>
      v = (judged (d.alive (s.peer d.handle).isSome p)).map (fun _ => ()) ∧ s' = s := by
  unfold ProcessMonitor.open
  rw [if_neg named]
  refine .bind isAlive_alone ?_ ?_
  · rintro b t ⟨hb, rfl⟩
    rw [← hb]
    cases b
    case true  => exact .pure ⟨rfl, rfl⟩
    case false => exact .throw ⟨rfl, rfl⟩
  · rintro e t ⟨he, rfl⟩
    exact ⟨by rw [← he]; rfl, rfl⟩

theorem peerIdentity_alone :
    x.peerIdentity.Alone (d.machine plat) i s fun v s' => v = .ok (s.published x) ∧ s' = s := by
  unfold SharedChannel.peerIdentity World.published
  cases x.role
  case server => exact load_alone (load_alone (.pure ⟨rfl, rfl⟩))
  case client => exact load_alone (load_alone (.pure ⟨rfl, rfl⟩))

-- The end of a channel.

-- What the end of a channel leaves as it was.
structure Spared (s s' : World) : Prop where
  global : ∀ b f, s'.word (.global b f) = s.word (.global b f)
  shared : s'.shared = s.shared
  locked : s'.locked = s.locked

theorem Spared.trans {t : World} (h : Spared s s') (h' : Spared s' t) : Spared s t :=
  ⟨fun b f => (h'.global b f).trans (h.global b f), h'.shared.trans h.shared, h'.locked.trans h.locked⟩

theorem bumped_spared {b : FileId} {header : Nat} {f : RingField} : Spared s (s.bumped (.ring b header f)) :=
  ⟨fun _ _ => by simp [World.bumped], rfl, rfl⟩

theorem wake_spared {w : WaitHandle} {n : Word} {r : Unit} (e : World.exec plat i (.wake w n) s r s') :
    Spared s s' := by
  have frame := World.frame e
  exact ⟨fun _ _ => by rw [frame.word (by simp [Act.parts])], frame.shared (by simp [Act.parts]),
    frame.locked (by simp [Act.parts])⟩

theorem wakeRing_alone {b : FileId} {header : Nat} {writer reader : WaitSlot} :
    (SharedChannel.wakeRing b header writer reader).Alone (d.machine plat) i s fun v s' =>
      v = .ok () ∧ Spared s s' := by
  refine .step (v := s.word _) (fun _ _ => .rfl) (.act (Solo.wake_runs (i := i)) fun _ t he => ?_)
  have woken : Spared s t := bumped_spared.trans (wake_spared (i := i) (r := ()) he)
  refine .step (v := t.word _) (fun _ _ => .rfl) (.last (Solo.wake_runs (i := i)) fun _ t' he => ⟨rfl, ?_⟩)
  exact woken.trans (bumped_spared.trans (wake_spared (i := i) (r := ()) he))

theorem wakeAll_alone (hs : s.shared d.handle = some x) :
    (SharedChannel.wakeAll d.handle).Alone (d.machine plat) i s fun v s' => v = .ok () ∧ Spared s s' := by
  refine getShared_alone hs (load_alone (.bind wakeRing_alone ?_ nofun))
  rintro _ t ⟨_, spared⟩
  exact wakeRing_alone.mono fun _ _ h => ⟨h.left, spared.trans h.right⟩

theorem exchanges {w : Word} {n v : Nat} (at_ : s.word w = n) (r : Except Nat Nat) (t : World) :
    (d.machine plat).exec i (.compareExchange w n v) s r t ↔ r = .ok n ∧ t = s.stored w v := by
  simp [machine, Surroundings.exec, World.exec, at_]

theorem exchanges_weak {w : Word} {n v : Nat} (at_ : s.word w = n) (r : Except Nat Nat) (t : World) :
    (d.machine plat).exec i (.compareExchangeWeak w n v) s r t ↔ r = .ok n ∧ t = s.stored w v :=
  @exchanges d plat i s w n v at_ r t

theorem locks (free : s.locked d.handle = false) (sound : s.poisoned d.handle = false)
    (r : Except Error Unit) (t : World) :
    (d.machine plat).exec i (.lockPeer d.handle) s r t ↔
      r = .ok () ∧ t = { s with locked := update s.locked d.handle true } := by
  simp [machine, Surroundings.exec, World.exec, free, sound]

theorem locks_poisoned (free : s.locked d.handle = false) (poisoned : s.poisoned d.handle = true)
    (r : Except Error Unit)
    (t : World) : (d.machine plat).exec i (.lockPeer d.handle) s r t ↔
      r = .error (.io ⟨.other, "process observer lock poisoned"⟩) ∧ t = s := by
  simp [machine, Surroundings.exec, World.exec, free, poisoned]

theorem finish_alone (hs : s.shared d.handle = some x) (connected : s.word x.stateWord = ChannelState.connected.toU32)
    {state : ChannelState} :
    (SharedChannel.finish d.handle state).Alone (d.machine plat) i s fun v s' =>
      v = .ok () ∧ s'.word x.stateWord = state.toU32 ∧ s'.shared = s.shared ∧ s'.locked = s.locked := by
  refine getShared_alone hs (load_alone ?_)
  rw [connected]
  refine .loop (M := fun v s' => v = .ok (.inr ()) ∧ Spared (s.stored x.stateWord state.toU32) s') ?_ nofun ?_ nofun
  · refine .step (exchanges_weak connected) (.bind (wakeAll_alone (s := s.stored _ _) hs) ?_ nofun)
    rintro _ t ⟨_, spared⟩
    exact .pure ⟨rfl, spared⟩
  · rintro v t ⟨hv, spared⟩
    cases hv
    exact ⟨rfl, (spared.global _ _).trans (update_self _ _ _), spared.shared, spared.locked⟩

theorem terminal_alone (hs : s.shared d.handle = some x)
    (connected : s.word x.stateWord = ChannelState.connected.toU32) :
    (SharedChannel.terminal d.handle).Alone (d.machine plat) i s fun v s' => v = .ok () ∧ s' = s := by
  refine getShared_alone hs (load_alone ?_)
  rw [connected]
  exact .pure ⟨rfl, rfl⟩

theorem terminal_disconnected (hs : s.shared d.handle = some x)
    (ended : s.word x.stateWord = ChannelState.peerDisconnected.toU32) :
    (SharedChannel.terminal d.handle).Alone (d.machine plat) i s fun v s' => v = .error .peerDisconnected ∧ s' = s := by
  refine getShared_alone hs (load_alone ?_)
  rw [ended]
  exact .throw ⟨rfl, rfl⟩

-- Whether the channel is ready.

-- The answer is not changed by a call that gives it, and such a call changes nothing that another one sees.
structure Ready (d : Surroundings) (x : SharedChannel) (s : World) (v : Except Error Bool) (s' : World) : Prop where
  answer : v = d.ready s x
  free   : s'.locked d.handle = false
  again  : ∀ b, v = .ok b → d.ready s' x = .ok b
  same   : ∀ b, v = .ok b →
    s' = { s with clock := s'.clock, peer := s'.peer, nextProbe := s'.nextProbe, locked := s'.locked }

theorem observe_alone (hs : s.shared d.handle = some x) (connected : s.word x.stateWord = ChannelState.connected.toU32)
    {p : ProcessIdentity} (opened : s.peer d.handle = some p) {ms : Nat} :
    (SharedChannel.observe d.handle p ms).Alone (d.machine plat) i s fun v s' => s'.locked = s.locked ∧
      match d.alive true p with
      | .ok true  => v = .ok () ∧ s' = { s with nextProbe := s'.nextProbe }
      | .ok false => v = .ok () ∧ s'.shared = s.shared ∧ s'.word x.stateWord = ChannelState.peerDisconnected.toU32
      | .error e  => v = .error e := by
  have asked : d.alive (s.peer d.handle).isSome p = d.alive true p := by rw [opened]; rfl
  refine .bind isAlive_alone ?_ ?_
  case refine_2 =>
    rintro e t ⟨he, rfl⟩
    rw [asked] at he
    rw [← he]
    exact ⟨rfl, rfl⟩
  rintro b t ⟨hb, rfl⟩
  rw [asked] at hb
  rw [← hb]
  cases b
  case true =>
    refine .bind (M := fun v s' => v = .ok () ∧ s' = t) (.pure ⟨rfl, rfl⟩) ?_ nofun
    rintro _ _ ⟨_, rfl⟩
    exact .last ⟨(), _, rfl⟩ fun _ _ e => e ▸ ⟨rfl, rfl, rfl⟩
  case false =>
    refine .bind (finish_alone hs connected) ?_ nofun
    rintro _ t' ⟨_, state, shared, locked⟩
    exact .last ⟨(), _, rfl⟩ fun _ _ e => e ▸ ⟨locked, rfl, shared, state⟩

-- What the section that holds the lock of the observer leaves behind.
def Probes (d : Surroundings) (x : SharedChannel) (s : World) (v : Except Error Bool) (s' : World) : Prop :=
  s'.locked = s.locked ∧
  match d.watched s x with
  | .ok _    => v = .ok false ∧ s' = { s with peer := s'.peer, nextProbe := s'.nextProbe } ∧
      ∃ p, s'.peer d.handle = some p ∧ d.alive true p = .ok true
  | .error e => v = .error e ∨ e = .peerDisconnected ∧ v = .ok false ∧ s'.shared = s.shared ∧
      s'.word x.stateWord = ChannelState.peerDisconnected.toU32

theorem observe_probes (hs : s.shared d.handle = some x) (connected : s.word x.stateWord = ChannelState.connected.toU32)
    {p : ProcessIdentity} (opened : s.peer d.handle = some p) {ms : Nat} {t : World}
    (watched : d.watched t x = judged (d.alive true p)) (locked : s.locked = t.locked) (shared : s.shared = t.shared)
    (same : s = { t with peer := s.peer }) :
    (do SharedChannel.observe d.handle p ms; Pure.pure false : Routine Bool).Alone (d.machine plat) i s
      (d.Probes x t) := by
  have observed := @observe_alone d plat i s x hs connected p opened ms
  unfold Probes
  rw [watched]
  cases ha : d.alive true p
  case error e =>
    rw [ha] at observed
    refine .bind observed (fun _ _ h => nomatch h.right) fun e' u h => ⟨h.left.trans locked, .inl ?_⟩
    exact congrArg Except.error (Except.error.inj h.right)
  case ok b =>
    rw [ha] at observed
    cases b
    case true =>
      refine .bind observed (fun _ u h => .pure ⟨h.left.trans locked, rfl, ?_, p, ?_, ha⟩) fun _ _ h =>
        nomatch h.right.left
      · have after := h.right.right
        rw [same] at after
        rw [after]
      · rw [h.right.right]
        exact opened
    case false =>
      refine .bind observed (fun _ u h => .pure ⟨h.left.trans locked, .inr ⟨rfl, rfl, ?_, h.right.right.right⟩⟩)
        fun _ _ h => nomatch h.right.left
      exact h.right.right.left.trans shared

theorem probe_alone (hs : s.shared d.handle = some x) (connected : s.word x.stateWord = ChannelState.connected.toU32)
    {ms : Nat} (due : s.nextProbe d.handle ≤ ms) :
    (SharedChannel.probe d.handle x ms).Alone (d.machine plat) i s (d.Probes x s) := by
  refine .step (v := s.nextProbe d.handle) (fun _ _ => .rfl) ?_
  rw [if_neg (Nat.not_lt.mpr due)]
  refine .bind (terminal_alone hs connected) ?_ nofun
  rintro _ t ⟨_, rfl⟩
  refine .step (v := t.peer d.handle) (fun _ _ => .rfl) ?_
  cases hp : t.peer d.handle
  case some p => exact observe_probes hs connected hp (by simp only [watched, hp]) rfl rfl rfl
  case none =>
    refine .bind peerIdentity_alone ?_ nofun
    rintro p t' ⟨e, rfl⟩
    cases e
    by_cases named : (t'.published x).pid = 0
    case pos =>
      have opens : (ProcessMonitor.open (t'.published x)).Alone (d.machine plat) i t' fun v s' =>
          v = .error .invalidHeader ∧ s' = t' := by
        unfold ProcessMonitor.open
        rw [if_pos named]
        exact .throw ⟨rfl, rfl⟩
      refine .attempt opens ?_
      rintro _ t ⟨rfl, rfl⟩
      refine .throw ⟨rfl, ?_⟩
      simp [watched, hp, named]
    case neg =>
      refine .attempt (open_alone named) ?_
      rintro _ t ⟨rfl, rfl⟩
      simp only [hp, Option.isSome_none]
      cases ha : judged (d.alive false (t.published x))
      case ok b =>
        let opened : World := { t with peer := update t.peer d.handle (some (t.published x)) }
        refine .step (v := ()) (fun _ t' => (⟨fun e => ⟨rfl, e⟩, And.right⟩ : t' = opened ↔ _ ∧ t' = opened)) ?_
        refine observe_probes (p := t.published x) (s := opened) hs connected (update_self _ _ _) ?_ rfl rfl rfl
        simp only [watched, hp, named, ha, if_false]
      case error e =>
        have verdict : d.watched t x = .error e := by simp only [watched, hp, named, ha, if_false]
        unfold Probes
        rw [verdict]
        cases e
        case peerDisconnected =>
          refine .bind (finish_alone hs connected) ?_ nofun
          rintro _ t' ⟨_, ended, shared, locked⟩
          refine .bind (terminal_disconnected (shared ▸ hs) ended) nofun ?_
          rintro e t'' ⟨he, rfl⟩
          cases he
          exact ⟨locked, .inl rfl⟩
        all_goals exact .throw ⟨rfl, .inl rfl⟩

-- The state before the section, as the one that has taken the lock sees it.
theorem watched_locked {b : Handle → Bool} {n : Nat} :
    d.watched { s with locked := b, clock := n } x = d.watched s x := by
  cases x with
  | mk role => cases role <;> rfl

theorem locked_alone (hs : s.shared d.handle = some x) (connected : s.word x.stateWord = ChannelState.connected.toU32)
    {ms : Nat} (due : s.nextProbe d.handle ≤ ms) (free : s.locked d.handle = false) :
    (SharedChannel.locked d.handle (SharedChannel.probe d.handle x ms)).Alone (d.machine plat) i s fun v s' =>
      s'.locked d.handle = false ∧
      match d.probed s x with
      | .ok _    => v = .ok false ∧ s' = { s with peer := s'.peer, nextProbe := s'.nextProbe, locked := s'.locked } ∧
          s.poisoned d.handle = false ∧ ∃ p, s'.peer d.handle = some p ∧ d.alive true p = .ok true
      | .error e => v = .error e ∨ e = .peerDisconnected ∧ v = .ok false ∧ s'.shared = s.shared ∧
          s'.word x.stateWord = ChannelState.peerDisconnected.toU32 := by
  cases poisoned : s.poisoned d.handle
  case true =>
    refine .step (locks_poisoned free poisoned) (.throw ⟨free, ?_⟩)
    simp [probed, poisoned]
  case false =>
    let held : World := { s with locked := update s.locked d.handle true }
    have same : d.watched held x = d.watched s x := watched_locked
    have verdict : d.probed s x = d.watched s x := by simp [probed, poisoned]
    refine .step (locks free poisoned) (.attempt (probe_alone (s := held) hs connected due) ?_)
    intro v t ⟨_, h⟩
    refine .step (v := ()) (fun _ _ => ⟨fun e => ⟨rfl, e⟩, And.right⟩) (.ofExcept ⟨update_self _ _ _, ?_⟩)
    rw [verdict, ← same]
    cases hw : d.watched held x
    case ok b =>
      rw [hw] at h
      exact ⟨h.left, by rw [h.right.left], rfl, h.right.right⟩
    case error e =>
      rw [hw] at h
      exact h

theorem awaitConnected_alone (hs : s.shared d.handle = some x) (free : s.locked d.handle = false) :
    (SharedChannel.awaitConnected d.handle x).Alone (d.machine plat) i s fun v s' =>
      v = d.awaited s x ∧ s'.locked d.handle = false ∧ (v = .ok true → s' = s) ∧
      (v = .ok false → s' = { s with clock := d.now }) := by
  let Q (v : Except Error Bool) (s' : World) : Prop := v = d.awaited s x ∧ s'.locked d.handle = false ∧
    (v = .ok true → s' = s) ∧ (v = .ok false → s' = { s with clock := d.now })
  have expires (state : ChannelState) (at_ : ChannelState.fromU32 (s.word x.stateWord) = some state)
      (unready : d.awaited s x = if d.now - x.started < x.connectTimeout then .ok false else .error .timedOut) :
      (SharedChannel.retire d.handle x (s.word x.stateWord)).Alone (d.machine plat) i s fun v s' =>
        ∃ w, v = w.map .inr ∧ Q w s' := by
    refine .step (v := d.now) (fun _ _ => .rfl) ?_
    split
    case isTrue early =>
      exact .pure ⟨.ok false, rfl, by rw [unready, if_pos early], free, nofun, fun _ => rfl⟩
    case isFalse late =>
      refine .step (exchanges (s := { s with clock := d.now }) rfl)
        (.bind (wakeAll_alone (s := World.stored _ _ _) hs) ?_ nofun)
      rintro _ t ⟨_, spared⟩
      refine .throw ⟨.error .timedOut, rfl, by rw [unready, if_neg late], ?_, nofun, nofun⟩
      rw [spared.locked]
      exact free
  refine .loop (M := fun v s' => ∃ w, v = w.map .inr ∧ Q w s') (load_alone ?_) ?_ ?_ ?_
  · cases at_ : ChannelState.fromU32 (s.word x.stateWord)
    case none => exact .throw ⟨.error .invalidHeader, rfl, by simp [awaited, at_], free, nofun, nofun⟩
    case some state =>
      cases state
      case init             => exact .throw ⟨.error .invalidHeader, rfl, by simp [awaited, at_], free, nofun, nofun⟩
      case serverReady      => exact expires _ at_ (by simp [awaited, at_])
      case clientClaimed    => exact expires _ at_ (by simp [awaited, at_])
      case connected        => exact .pure ⟨.ok true, rfl, by simp [awaited, at_], free, fun _ => rfl, nofun⟩
      case closed           => exact .throw ⟨.error .channelClosed, rfl, by simp [awaited, at_], free, nofun, nofun⟩
      case peerDisconnected =>
        exact .throw ⟨.error .peerDisconnected, rfl, by simp [awaited, at_], free, nofun, nofun⟩
  · rintro _ t ⟨w, hw, _⟩
    cases w <;> cases hw
  · rintro v t ⟨w, hw, h⟩
    cases w <;> cases hw
    exact h
  · rintro e t ⟨w, hw, h⟩
    cases w <;> cases hw
    exact h

theorem awaited_connected (h : d.awaited s x = .ok true) : s.word x.stateWord = ChannelState.connected.toU32 := by
  unfold awaited at h
  split at h
  case h_1 at_ => exact ChannelState.fromU32_eq_some.mp at_
  case h_6     => split at h <;> cases h
  all_goals cases h

theorem ready_awaited {v : Except Error Bool} (h : d.awaited s x = v) (other : v ≠ .ok true) : d.ready s x = v := by
  unfold ready
  rw [h]
  split
  case h_1 => exact absurd rfl other
  case h_2 => rfl

theorem ready_connected (h : d.awaited s x = .ok true) :
    d.ready s x = if s.nextProbe d.handle ≤ d.elapsed x then d.probed s x else .ok true := by
  unfold ready
  rw [h]

theorem probed_true {b : Bool} (h : d.probed s x = .ok b) : b = true := by
  have judged_true {v : Except Error Bool} {b : Bool} (h : judged v = .ok b) : b = true := by
    unfold judged at h
    split at h <;> cases h
    rfl
  unfold probed watched at h
  repeat' split at h
  all_goals first | exact judged_true h | cases h

theorem checkReady_alone (hs : s.shared d.handle = some x) (free : s.locked d.handle = false) :
    (SharedChannel.checkReady d.handle).Alone (d.machine plat) i s (d.Ready x s) := by
  refine getShared_alone hs (.bind (awaitConnected_alone hs free) ?_ ?_)
  case refine_2 =>
    rintro e t ⟨answer, free, _⟩
    exact ⟨(ready_awaited answer.symm nofun).symm, free, nofun, nofun⟩
  rintro ready t ⟨answer, free', connected, early⟩
  cases ready
  case false =>
    obtain rfl := early rfl
    have answer : d.ready s x = .ok false := ready_awaited answer.symm nofun
    refine .pure ⟨answer.symm, free, fun b hb => ?_, fun _ _ => rfl⟩
    cases hb
    exact answer
  case true =>
    obtain rfl := connected rfl
    have state := awaited_connected answer.symm
    have verdict := ready_connected answer.symm
    refine .step (v := d.now) (fun _ _ => .rfl) (.step (v := t.nextProbe d.handle) (fun _ _ => .rfl) ?_)
    split
    case isFalse later =>
      have verdict : d.ready t x = .ok true := verdict.trans (if_neg later)
      refine .bind (terminal_alone (s := { t with clock := d.now }) hs state) ?_ nofun
      rintro _ _ ⟨_, rfl⟩
      refine .pure ⟨verdict.symm, free, fun b hb => ?_, fun _ _ => rfl⟩
      cases hb
      exact verdict
    case isTrue due =>
      have verdict : d.ready t x = d.probed t x := verdict.trans (if_pos due)
      have probed : d.probed { t with clock := d.now } x = d.probed t x :=
        congrArg (fun v => if t.poisoned d.handle then _ else v) (watched_locked (b := t.locked) (n := d.now))
      refine .bind (locked_alone (s := { t with clock := d.now }) hs state due free) ?_ ?_
      case refine_2 =>
        rintro e u ⟨free, h⟩
        rw [probed] at h
        cases hp : d.probed t x
        case ok b    => rw [hp] at h; cases h.left
        case error e' =>
          rw [hp] at h
          rcases h with h | ⟨_, h, _⟩ <;> cases h
          exact ⟨(verdict.trans hp).symm, free, nofun, nofun⟩
      rintro b u ⟨free, h⟩
      rw [probed] at h
      cases hp : d.probed t x
      case error e =>
        rw [hp] at h
        rcases h with h | ⟨gone, hb, shared, ended⟩
        case inl => cases h
        case inr =>
          cases hb
          cases gone
          refine .bind (terminal_disconnected (shared ▸ hs) ended) nofun ?_
          rintro e u' ⟨he, rfl⟩
          cases he
          exact ⟨(verdict.trans hp).symm, free, nofun, nofun⟩
      case ok b =>
        rw [hp] at h
        obtain ⟨hb, same, sound, p, opened, alive⟩ := h
        cases hb
        obtain rfl := probed_true hp
        have word : u.word = t.word := by rw [same]
        have shared : u.shared = t.shared := by rw [same]
        have poisoned : u.poisoned d.handle = false := by
          rw [same]
          exact sound
        have clock : u.clock = d.now := by rw [same]
        refine .bind (terminal_alone (shared ▸ hs) (word ▸ state)) ?_ nofun
        rintro _ u ⟨_, rfl⟩
        refine .pure ⟨(verdict.trans hp).symm, free, fun b hb => ?_, fun _ _ => ?_⟩
        · cases hb
          have awaited : d.awaited u x = .ok true := by
            rw [answer]
            simp only [Surroundings.awaited, word]
          rw [ready_connected awaited]
          split
          case isFalse => rfl
          case isTrue  => simp [Surroundings.probed, watched, opened, alive, judged, poisoned]
        · rw [clock]
          exact same

end Surroundings
