import ShmemIpc.Library.Trace
import ShmemIpc.Library.Spec
import ShmemIpc.Code.Tokio

-- What a call has done.
abbrev Events :=
  Trace Act Act.Ret

-- What the parts of the code that are not about messages can do.

-- The actions that change nothing but the clock. None of them looks at the messages of a ring.
def Act.Reads : Act → Prop
  | load _ | fence | getSender _ | getReceiver _ | getBuf | getOut | getShared _ | isPoisoned _ | getPeer _
  | loadNextProbe _ | now | currentPid | readProcStat _ | newWaitKey | newWaitSet | openFile _ | fileLen _
  | mapMut _ | isRunning _ | recvReady _ | loadStop _ | joinBridge _ => True
  | _                                                                => False

-- The actions of threads that wait, and of those that wake them.
def Act.Signals : Act → Prop
  | fetchAdd w     => w.IsNotify
  | store w _ note => w.IsParked ∧ note = .none
  | waitOn .. | resume | wake .. | spawnBridge _ | setRunning .. | sendReady _ | storeStop _ | notified _
  | awaitNotified .. | notifyWaiters _ | exitBridge _ => True
  | a              => a.Reads

theorem Act.Reads.signals : {a : Act} → a.Reads → a.Signals
  | load _, h | fence, h | getSender _, h | getReceiver _, h | getBuf, h | getOut, h | getShared _, h
  | isPoisoned _, h | getPeer _, h | loadNextProbe _, h | now, h | currentPid, h | readProcStat _, h
  | newWaitKey, h | newWaitSet, h | openFile _, h | fileLen _, h | mapMut _, h | isRunning _, h
  | recvReady _, h | loadStop _, h | joinBridge _, h => h

-- The actions by which a channel is observed and ended.
def Act.Quiet : Act → Prop
  | lockPeer _ | unlockPeer _ | setPeer .. | storeNextProbe .. | freeShared _ | removeFile _ => True
  | compareExchange w _ new | compareExchangeWeak w _ new =>
      (∃ b, w = .global b .state) ∧ new ≠ ChannelState.connected.toU32
  | a => a.Signals

theorem Act.Signals.quiet {a : Act} (h : a.Signals) : a.Quiet := by
  cases a <;> first | exact h | exact h.elim

theorem Act.Reads.quiet {a : Act} (h : a.Reads) : a.Quiet :=
  h.signals.quiet

-- The actions by which a call looks at a channel, and may end it.
def Act.Ends : Act → Prop
  | lockPeer _ | unlockPeer _ | setPeer .. | storeNextProbe .. | freeShared _ | removeFile _ | wake .. => True
  | fetchAdd w => w.IsNotify
  | compareExchange w _ new | compareExchangeWeak w _ new =>
      (∃ b, w = .global b .state) ∧ new ≠ ChannelState.connected.toU32
  | a => a.Reads

theorem Act.Reads.ends {a : Act} (h : a.Reads) : a.Ends := by
  cases a <;> first | exact h | exact h.elim

theorem Act.Ends.quiet {a : Act} (h : a.Ends) : a.Quiet := by
  cases a <;> first | exact h | exact h.elim

namespace Effects

open Act

variable {α : Type} {F : Error → Prop}

-- The observer of processes. Only `processStat` itself reports a missing process.

theorem parseProcessStat_error {stat : List Char} {e : Error} (h : parseProcessStat stat = .error e) :
    e = .invalidHeader := by
  unfold parseProcessStat at h
  repeat' split at h
  all_goals cases h
  all_goals rfl

theorem processStat_reads {pid : Nat} :
    Code.Only Reads (fun e => e ≠ .channelClosed ∧ ¬ e.Framing) (processStat pid) := by
  refine .act trivial fun r => ?_
  cases r
  case ok stat => exact .ofExcept fun e he => parseProcessStat_error he ▸ ⟨nofun, id⟩
  case error e =>
    simp only
    split
    case isTrue  => exact .throw ⟨nofun, id⟩
    case isFalse => exact .throw ⟨nofun, id⟩

theorem isAlive_reads {identity : ProcessIdentity} :
    Code.Only Reads (fun e => ¬ e.Terminal ∧ ¬ e.Framing) (ProcessMonitor.isAlive identity) := by
  refine .attempt processStat_reads fun r hr => ?_
  cases r
  case ok => exact .pure
  case error e =>
    cases e
    case channelClosed    => exact absurd rfl (hr _ rfl).left
    case peerDisconnected => exact .pure
    all_goals exact .throw ⟨id, (hr _ rfl).right⟩

theorem open_reads {identity : ProcessIdentity} :
    Code.Only Reads (fun e => e ≠ .channelClosed ∧ ¬ e.Framing) (ProcessMonitor.open identity) := by
  unfold ProcessMonitor.open
  split
  case isTrue => exact .throw ⟨nofun, id⟩
  case isFalse =>
    refine .bind (.mono (fun e h => ⟨?_, h.right⟩) isAlive_reads) fun alive => ?_
    · rintro rfl
      exact h.left trivial
    · cases alive
      case true  => exact .pure
      case false => exact .throw ⟨nofun, id⟩

theorem currentIdentity_reads : Code.Only Reads (¬ Error.Terminal ·) currentIdentity := by
  refine .act trivial fun pid => .attempt processStat_reads fun r hr => ?_
  cases r
  case ok => exact .pure
  case error e =>
    cases e
    case channelClosed    => exact absurd rfl (hr _ rfl).left
    case peerDisconnected => exact .throw id
    all_goals exact .throw id

theorem peerIdentity_reads {x : SharedChannel} : Code.Only Reads F x.peerIdentity := by
  unfold SharedChannel.peerIdentity
  split
  all_goals exact .act trivial fun _ => .act trivial fun _ => .pure

theorem removeOnDrop_reads {h : Handle} {x : SharedChannel} :
    Code.Only Reads F (SharedChannel.removeOnDrop h x) := by
  unfold SharedChannel.removeOnDrop
  split
  case h_1 => exact .pure
  refine .act trivial fun poisoned => ?_
  cases poisoned
  case true => exact .pure
  refine .act trivial fun peer => ?_
  cases peer
  case none => exact .pure
  refine .attempt isAlive_reads fun r _ => ?_
  split <;> exact .pure

-- Waiting and waking.

theorem wakeRing_signals {b : FileId} {hdr : Nat} {w r : WaitSlot} :
    Code.Only Signals F (SharedChannel.wakeRing b hdr w r) :=
  .act trivial fun _ => .act trivial fun _ => .act trivial fun _ => .perform trivial

theorem wakeAll_signals {h : Handle} : Code.Only Signals F (SharedChannel.wakeAll h) :=
  .act trivial fun _ => .act trivial fun _ => .bind wakeRing_signals fun _ => wakeRing_signals

theorem deadlineOf_now {t : Option Nat} : Code.Only (· = Act.now) F (deadlineOf t) := by
  cases t
  case none   => exact .pure
  case some d => exact .act rfl fun _ => .pure

theorem remainingUntil_now {t : Option Nat} : Code.Only (· = Act.now) F (RingSender.remainingUntil t) := by
  cases t
  case none   => exact .pure
  case some d => exact .act rfl fun _ => .pure

theorem remainingQuantum_now {t : Option Nat} :
    Code.Only (· = Act.now) (· = .timedOut) (remainingQuantum t) := by
  cases t
  case none => exact .pure
  case some d =>
    refine .act rfl fun t => ?_
    split
    case isTrue  => exact .throw rfl
    case isFalse => exact .pure

theorem waitOnHandle_signals {h : WaitHandle} {w : Word} {e t : Nat} :
    Code.Only Signals F (waitOnHandle h w e t) :=
  .act trivial fun _ => .perform trivial

variable {wait : AsyncWait}

theorem ensureRunning_signals :
    Code.Only Signals (fun e => ¬ e.Terminal ∧ ¬ e.Framing) wait.ensureRunning := by
  refine .act trivial fun running => ?_
  cases running
  case true => exact .pure
  case false =>
    refine .act trivial fun r => .bind ?_ fun _ => .act trivial fun _ => .perform trivial
    cases r
    case ok    => exact .pure
    case error => exact .throw ⟨id, id⟩

theorem snapshot_signals : Code.Only Signals (fun e => ¬ e.Terminal ∧ ¬ e.Framing) wait.snapshot :=
  .bind ensureRunning_signals fun _ => .perform trivial

theorem waitChanged_signals {observed : Nat} :
    Code.Only Signals (fun e => ¬ e.Terminal ∧ ¬ e.Framing) (wait.waitChanged observed) := by
  refine .bind ensureRunning_signals fun _ => .loop fun _ => .act trivial fun current => ?_
  split
  case isTrue => exact .pure
  refine .act trivial fun _ => .act trivial fun current => ?_
  split
  case isTrue => exact .pure
  refine .act trivial fun notified => ?_
  cases notified <;> exact .pure

theorem turn_signals (hw : wait.parked.IsParked) : Code.Only Signals F wait.turn := by
  refine .act trivial fun stop => ?_
  cases stop
  case true => exact .pure
  case false =>
    refine .act trivial fun observed => .act ⟨hw, rfl⟩ fun _ => .act trivial fun _ => .act trivial fun current => ?_
    split
    case isTrue => exact .act ⟨hw, rfl⟩ fun _ => .act trivial fun _ => .pure
    refine .bind waitOnHandle_signals fun _ => .act ⟨hw, rfl⟩ fun _ => .act trivial fun current => ?_
    refine .act trivial fun stop => ?_
    cases stop
    case true => exact .pure
    case false =>
      simp only [Bool.false_eq_true, if_false]
      split
      case isTrue  => exact .act trivial fun _ => .pure
      case isFalse => exact .pure

theorem waitLoop_signals (hw : wait.parked.IsParked) : Code.Only Signals F wait.waitLoop :=
  .act trivial fun _ => .bind (.loop fun _ => turn_signals hw) fun _ => .perform trivial

theorem drop_signals (hw : wait.notify.IsNotify) : Code.Only Signals F wait.drop := by
  refine .act trivial fun running => ?_
  cases running
  case false => exact .pure
  case true =>
    refine .act trivial fun _ => .act trivial fun _ => .act hw fun _ => .act trivial fun _ => ?_
    exact .act trivial fun _ => .perform trivial

-- The end of a channel.

variable {h : Handle} {x : SharedChannel}

theorem any {α : Type} {S : Act → Prop} {G : Error → Prop} {p : Routine α} (hp : Code.Only S G p) :
    Code.Only S (fun _ => True) p :=
  hp.mono fun _ _ => trivial

theorem reads_quiet {α : Type} {G : Error → Prop} {p : Routine α} (hp : Code.Only Reads G p) :
    Code.Only Quiet G p :=
  hp.weaken fun _ ha => ha.quiet

theorem reads_ends {α : Type} {G : Error → Prop} {p : Routine α} (hp : Code.Only Reads G p) :
    Code.Only Ends G p :=
  hp.weaken fun _ ha => ha.ends

theorem wakeRing_ends {b : FileId} {hdr : Nat} {w r : WaitSlot} :
    Code.Only Ends F (SharedChannel.wakeRing b hdr w r) :=
  .act trivial fun _ => .act trivial fun _ => .act trivial fun _ => .perform trivial

theorem wakeAll_ends : Code.Only Ends F (SharedChannel.wakeAll h) :=
  .act trivial fun _ => .act trivial fun _ => .bind wakeRing_ends fun _ => wakeRing_ends

theorem signals_quiet {α : Type} {G : Error → Prop} {p : Routine α} (hp : Code.Only Signals G p) :
    Code.Only Quiet G p :=
  hp.weaken fun _ ha => ha.quiet

theorem terminal_reads : Code.Only Reads (¬ Error.Framing ·) (SharedChannel.terminal h) := by
  refine .act trivial fun self => .act trivial fun state => ?_
  split
  all_goals first | exact .throw id | exact .pure

theorem finish_ends {t : ChannelState} (ht : t ≠ .connected) : Code.Only Ends F (SharedChannel.finish h t) := by
  have new : t.toU32 ≠ ChannelState.connected.toU32 := fun he => ht (ChannelState.toU32_inj he)
  refine .act trivial fun self => .act trivial fun current => .loop fun current => ?_
  have attempt : Code.Only Ends F (SharedChannel.tryFinish h self t current) := by
    refine .act ⟨⟨_, rfl⟩, new⟩ fun r => ?_
    cases r
    case ok    => exact .bind wakeAll_ends fun _ => .pure
    case error => exact .pure
  split
  all_goals first | exact .pure | exact attempt

theorem awaitConnected_ends : Code.Only Ends (¬ Error.Framing ·) (SharedChannel.awaitConnected h x) := by
  refine .loop fun _ => .act trivial fun state => ?_
  have retire : Code.Only Ends (¬ Error.Framing ·) (SharedChannel.retire h x state) := by
    refine .act trivial fun t => ?_
    split
    case isTrue => exact .pure
    refine .act ⟨⟨_, rfl⟩, by decide⟩ fun r => ?_
    cases r
    case ok    => exact .bind wakeAll_ends fun _ => .throw id
    case error => exact .pure
  split
  all_goals first | exact .pure | exact .throw id | exact retire

theorem observe_ends {peer : ProcessIdentity} {ms : Nat} :
    Code.Only Ends (¬ Error.Framing ·) (SharedChannel.observe h peer ms) := by
  refine .bind ((reads_ends isAlive_reads).mono fun _ h => h.right) fun alive => .bind ?_ fun _ => .perform trivial
  cases alive
  case true  => exact .pure
  case false => exact finish_ends nofun

theorem probe_ends {n : Nat} : Code.Only Ends (¬ Error.Framing ·) (SharedChannel.probe h x n) := by
  refine .act trivial fun next => ?_
  split
  case isTrue => exact .pure
  refine .bind (reads_ends terminal_reads) fun _ => .act trivial fun peer => ?_
  cases peer
  case some peer => exact .bind observe_ends fun _ => .pure
  case none =>
    refine .bind (reads_ends peerIdentity_reads) fun identity => .attempt (reads_ends open_reads) fun r hr => ?_
    split
    case h_1 => exact .act trivial fun _ => .bind observe_ends fun _ => .pure
    case h_2 => exact .bind (finish_ends nofun) fun _ => .bind (reads_ends terminal_reads) fun _ => .pure
    case h_3 => exact .throw (hr _ rfl).right

theorem locked_ends {section_ : Routine Bool} (hs : Code.Only Ends F section_) :
    Code.Only Ends (fun _ => True) (SharedChannel.locked h section_) := by
  refine .act trivial fun r => .bind (.ofExcept fun _ _ => trivial) fun _ => ?_
  exact .attempt hs fun r _ => .act trivial fun _ => .ofExcept fun _ _ => trivial

theorem checkReady_ends : Code.Only Ends (fun _ => True) (SharedChannel.checkReady h) := by
  refine .act trivial fun self => .bind (any awaitConnected_ends) fun ready => ?_
  cases ready
  case false => exact .pure
  refine .act trivial fun t => .act trivial fun next => ?_
  split
  case isFalse => exact .bind (any (reads_ends terminal_reads)) fun _ => .pure
  refine .bind (locked_ends probe_ends) fun probed => ?_
  cases probed
  case true  => exact .pure
  case false => exact .bind (any (reads_ends terminal_reads)) fun _ => .pure

theorem close_ends : Code.Only Ends (fun _ => True) (SharedChannel.close h) := by
  refine .bind (finish_ends nofun) fun _ => .attempt (reads_ends terminal_reads) fun r _ => ?_
  split
  case h_1 => exact .pure
  case h_2 => exact .ofExcept fun _ _ => trivial

theorem drop_ends : Code.Only Ends F (SharedChannel.drop h) := by
  refine .bind (finish_ends nofun) fun _ => .act trivial fun self => ?_
  refine .bind (reads_ends removeOnDrop_reads) fun remove => .act trivial fun _ => ?_
  cases remove
  case true  => exact .act trivial fun _ => .pure
  case false => exact .pure

-- The errors of `check_ready` are not about records, in any protocol in which those of its lock are not.

section
open Assertion

variable {ι σ : Type} {m : Machine ι Act Act.Ret σ} {π : Protocol m} {i : ι} {P : Assertion π i}

theorem locked_framing (hp : P.Keeps Ends) (lock : ∀ {s e s'}, m.exec i (.lockPeer h) s (.error e) s' → ¬ e.Framing)
    {section_ : Routine Bool} (hs : Code.Only Ends (¬ Error.Framing ·) section_) :
    Code.Spec P (SharedChannel.locked h section_) (fun _ => P) (fun e => P ⊓ const (¬ e.Framing)) := by
  refine .learn hp (a := .lockPeer h) trivial (fun _ => ⊤) (fun r => ∀ e, r = .error e → ¬ e.Framing) ?_ fun r hr => ?_
  · rintro s r s' _ _ exec
    exact ⟨trivial, fun e he => lock (he ▸ exec)⟩
  refine .bind (M := fun _ => P) (.ofExcept ?_) fun _ => ?_
  · cases r
    case ok      => exact fun _ _ hs => hs.left
    case error e => exact fun _ _ hs => ⟨hs.left, hr e rfl⟩
  · refine .handle (.only hp hs) (fun r => .skip hp (a := .unlockPeer h) trivial fun _ => .ofExcept le_rfl) fun e => ?_
    exact .skip hp.const (a := .unlockPeer h) trivial fun _ => .ofExcept le_rfl

theorem checkReady_framing (hp : P.Keeps Ends)
    (lock : ∀ {s e s'}, m.exec i (.lockPeer h) s (.error e) s' → ¬ e.Framing) :
    Code.Spec P (SharedChannel.checkReady h) (fun _ => P) (fun e => P ⊓ const (¬ e.Framing)) := by
  have passes {e : Error} (he : ¬ e.Framing) : P ≤ P ⊓ const (¬ e.Framing) := fun _ _ hs => ⟨hs, he⟩
  have last : Code.Spec P (do SharedChannel.terminal h; Pure.pure true) (fun _ => P)
    (fun e => P ⊓ const (¬ e.Framing)) :=
    .pass hp (reads_ends terminal_reads) (fun _ => passes) fun _ => .pure le_rfl
  refine .skip hp (a := .getShared h) trivial fun self => .pass hp awaitConnected_ends (fun _ => passes) fun ready => ?_
  cases ready
  case false => exact .pure le_rfl
  refine .skip hp (a := .now) trivial fun t => .skip hp (a := .loadNextProbe h) trivial fun next => ?_
  split
  case isFalse => exact last
  refine .bind (locked_framing hp lock probe_ends) fun probed => ?_
  cases probed
  case true  => exact .pure le_rfl
  case false => exact last

end

theorem terminal_quiet : Code.Only Quiet (¬ Error.Framing ·) (SharedChannel.terminal h) :=
  reads_quiet terminal_reads

theorem finish_quiet {t : ChannelState} (ht : t ≠ .connected) : Code.Only Quiet F (SharedChannel.finish h t) :=
  (finish_ends ht).weaken fun _ => Ends.quiet

theorem checkReady_quiet : Code.Only Quiet (fun _ => True) (SharedChannel.checkReady h) :=
  checkReady_ends.weaken fun _ => Ends.quiet

theorem close_quiet : Code.Only Quiet (fun _ => True) (SharedChannel.close h) :=
  close_ends.weaken fun _ => Ends.quiet

theorem drop_quiet : Code.Only Quiet F (SharedChannel.drop h) :=
  drop_ends.weaken fun _ => Ends.quiet

end Effects
