import ShmemIpc.Ring.Shared

-- Once a channel has been connected, `check_ready` fails for no other reason than the end of the
-- channel, or a failure of the observer of processes.
namespace Ring

open Assertion Code Effects

section
variable {L : Link} {plat : Platform} {α β : Type} {P : L.Rx plat} {h : Handle} {x : SharedChannel}

def faulted : L.Rx plat :=
  fact (fun v => v.faulted = true) faulted_stays

-- The error is the end of the channel, or the fault of the observer.
def explained (e : Error) : L.Rx plat :=
  given (¬ e.Terminal) faulted

theorem explained_persistent {e : Error} : (explained e : L.Rx plat).Persistent :=
  .given fact_persistent

def Explains (P : L.Rx plat) (p : Routine α) : Prop :=
  Spec P p (fun _ => P) (fun e => P ⊓ explained e)

namespace Explains

theorem pure {y : α} : Explains P (Pure.pure y) :=
  Spec.pure le_rfl

theorem throw {e : Error} (he : e.Terminal) : Explains P (fail e : Routine α) :=
  Spec.throw fun _ _ hs => ⟨hs, fun h => absurd he h⟩

theorem rethrow {e : Error} : Spec (P ⊓ explained e) (fail e : Routine α) (fun _ => P) (fun e => P ⊓ explained e) :=
  Spec.throw le_rfl

theorem bind {p : Routine α} {f : α → Routine β} (hp : Explains P p) (hf : ∀ y, Explains P (f y)) :
    Explains P (p >>= f) :=
  Spec.bind hp hf

theorem act (hp : P.Keeps Act.Quiet) {a : Act} (ha : a.Quiet) {f : a.Ret → Routine α}
    (hf : ∀ r, Explains P (f r)) : Explains P (perform a >>= f) :=
  Spec.skip hp ha hf

theorem only (hp : P.Keeps Act.Quiet) {p : Routine α} (h : Code.Only Act.Quiet (fun _ => False) p) :
    Explains P p :=
  (Spec.only hp h).post (fun _ => le_rfl) fun _ _ _ hs => hs.right.elim

end Explains

-- A failure is recorded.
theorem exec_faulty {i : ThreadId} {a : Act} {r : a.Ret} {s s' : State} (hf : a.faulty r = true)
    (e : ((machine plat).under (headerProtocol plat)).exec i a s r s') : s'.snd.faults i = true := by
  obtain ⟨⟨_, hg⟩, _⟩ := e
  rw [hg]
  simp [History.record, hf]

theorem processStat_explains (hp : P.Keeps Act.Quiet) {pid : Nat} : Explains P (processStat pid) := by
  refine Spec.act (fun r => P ⊓ given (Act.faulty (.readProcStat pid) r = true) faulted)
    (fun _ => hp.ok (a := .readProcStat pid) trivial) ?_ fun r => ?_
  · exact fun s r s' hi hs e => ⟨hp.kept (a := .readProcStat pid) trivial hi hs e, fun hf => exec_faulty hf e⟩
  · cases r
    case ok stat =>
      refine .ofExcept ?_
      cases ht : parseProcessStat stat
      case ok      => exact fun _ _ hs => hs.left
      case error e =>
        exact fun _ _ hs => ⟨hs.left, fun _ => hs.right (by simp [Act.faulty, ht, Except.isOk, Except.toBool])⟩
    case error e =>
      simp only
      split
      case isTrue     => exact .throw fun _ _ hs => ⟨hs.left, fun h => absurd trivial h⟩
      case isFalse hk => exact .throw fun _ _ hs => ⟨hs.left, fun _ => hs.right (by simp [Act.faulty, hk])⟩

theorem isAlive_explains (hp : P.Keeps Act.Quiet) {identity : ProcessIdentity} :
    Explains P (ProcessMonitor.isAlive identity) := by
  refine .handle (processStat_explains hp) (fun _ => .pure le_rfl) fun e => ?_
  cases e
  case peerDisconnected => exact .pure fun _ _ hs => hs.left
  all_goals exact Explains.rethrow

theorem open_explains (hp : P.Keeps Act.Quiet) {identity : ProcessIdentity} (hi : identity.pid ≠ 0) :
    Explains P (ProcessMonitor.open identity) := by
  unfold ProcessMonitor.open
  rw [if_neg hi]
  refine .bind (isAlive_explains hp) fun alive => ?_
  cases alive
  case true  => exact .pure
  case false => exact .throw trivial

theorem terminal_explains (hp : P.Keeps Act.Quiet) (hk : P ≤ held h x) (hr : P ≤ reached 3) (hx : x.base = L.base) :
    Explains P (SharedChannel.terminal h) := by
  refine getShared_held hp hk (loadState_reached hp hk hr hx fun n hn => .pre (P := P) ?_ fun _ _ hs => hs.left)
  rcases hn with rfl | rfl | rfl
  · exact Explains.pure
  · exact Explains.throw trivial
  · exact Explains.throw trivial

theorem finish_explains (hp : P.Keeps Act.Quiet) : Explains P (SharedChannel.finish h .peerDisconnected) :=
  .only hp (finish_quiet nofun)

theorem observe_explains (hp : P.Keeps Act.Quiet) {peer : ProcessIdentity} {ms : Nat} :
    Explains P (SharedChannel.observe h peer ms) := by
  refine .bind (isAlive_explains hp) fun alive => .bind ?_ fun _ => .only hp (.perform trivial)
  cases alive
  case true  => exact .pure
  case false => exact finish_explains hp

theorem peerIdentity_spec (hp : P.Keeps Act.Quiet) (hc : P ≤ identified) (hx : x.base = L.base)
    {E : Error → L.Rx plat} : Spec P x.peerIdentity (fun identity => P ⊓ const (identity.pid ≠ 0)) E := by
  have pid {w : Word} (hw : ∀ s, L.Inv (L.ring s) → P s → s.fst.word w ≠ 0) (w' : Word) :
      Spec P (do let pid ← load w; let birth ← load w'; Pure.pure ⟨pid, birth⟩ : Routine ProcessIdentity)
        (fun identity => P ⊓ const (identity.pid ≠ 0)) E := by
    refine .learn hp (a := .load w) trivial (fun _ => ⊤) (· ≠ 0) ?_ fun n hn => ?_
    · intro s n s' hi hs e
      obtain ⟨rfl, _⟩ := Link.exec_load (L := L) e.left
      exact ⟨trivial, hw s hi hs⟩
    · refine .pre (P := P) ?_ fun _ _ hs => hs.left
      exact .skip hp (a := .load w') trivial fun birth => .pure fun _ _ hs => ⟨hs, hn⟩
  unfold SharedChannel.peerIdentity
  rw [hx]
  cases x.role
  case server => exact pid (fun s hi hs => hc s hi hs) _
  case client => exact pid (fun s hi hs => hi.server) _

theorem probe_explains (hp : P.Keeps Act.Quiet) (hk : P ≤ held h x) (hr : P ≤ reached 3) (hc : P ≤ identified)
    (hx : x.base = L.base) {ms : Nat} : Explains P (SharedChannel.probe h x ms) := by
  refine .act hp (by trivial) fun next => ?_
  split
  case isTrue => exact .pure
  refine .bind (terminal_explains hp hk hr hx) fun _ => .act hp (by trivial) fun peer => ?_
  cases peer
  case some peer => exact .bind (observe_explains hp) fun _ => .pure
  case none =>
    refine Spec.bind (peerIdentity_spec hp hc hx) fun identity => .assume fun hi => ?_
    refine .handle (open_explains hp hi) (fun _ => ?_) fun e => ?_
    · exact Explains.act hp (by trivial) fun _ => .bind (observe_explains hp) fun _ => .pure
    · cases e
      case peerDisconnected =>
        refine .pre ?_ fun _ _ hs => hs.left
        exact Explains.bind (finish_explains hp) fun _ => .bind (terminal_explains hp hk hr hx) fun _ => .pure
      all_goals exact Explains.rethrow

theorem locked_explains (hp : P.Keeps Act.Quiet) {section_ : Routine Bool} (hs : Explains P section_) :
    Explains P (SharedChannel.locked h section_) := by
  refine Spec.act (fun r => P ⊓ given (Act.faulty (.lockPeer h) r = true) faulted)
    (fun _ => hp.ok (a := .lockPeer h) trivial) ?_ fun r => ?_
  · exact fun s r s' hi hs e => ⟨hp.kept (a := .lockPeer h) trivial hi hs e, fun hf => exec_faulty hf e⟩
  · refine .bind (M := fun _ => P) (.ofExcept ?_) fun _ => ?_
    · cases r
      case ok    => exact fun _ _ hs => hs.left
      case error => exact fun _ _ hs => ⟨hs.left, fun _ => hs.right rfl⟩
    · refine .handle hs (fun r => .skip hp (a := .unlockPeer h) trivial fun _ => .ofExcept le_rfl) fun e => ?_
      exact .skip (hp.inf explained_persistent) (a := .unlockPeer h) trivial fun _ => .ofExcept le_rfl

theorem checkReady_explains (hp : P.Keeps Act.Quiet) (hk : P ≤ held h x) (hr : P ≤ reached 3) (hx : x.base = L.base) :
    Explains P (SharedChannel.checkReady h) := by
  have hp' : (P ⊓ identified).Keeps Act.Quiet := hp.inf fact_persistent
  have hk' : P ⊓ identified ≤ held h x := fun s hi hs => hk s hi hs.left
  have hr' : P ⊓ identified ≤ reached 3 := fun s hi hs => hr s hi hs.left
  refine getShared_held hp hk (.bind ((awaitConnected_reached hp hk hr hx).post (fun _ => le_rfl) ?_) fun ready => ?_)
  · exact fun _ _ _ hs => ⟨hs.left, fun h => absurd hs.right h⟩
  refine Spec.post (M := fun _ => P ⊓ identified) (E := fun e => P ⊓ identified ⊓ explained e) ?_
    (fun _ _ _ hs => hs.left) fun _ _ _ hs => ⟨hs.left.left, hs.right⟩
  refine .assume ?_
  rintro rfl
  have last : Explains (P ⊓ identified) (do SharedChannel.terminal h; Pure.pure true) :=
    .bind (terminal_explains hp' hk' hr' hx) fun _ => .pure
  refine Explains.act hp' (by trivial) fun t => .act hp' (by trivial) fun next => ?_
  split
  case isFalse => exact last
  case isTrue =>
    refine .bind (locked_explains hp' (probe_explains hp' hk' hr' (fun _ _ hs => hs.right) hx)) fun probed => ?_
    cases probed
    case true  => exact .pure
    case false => exact last

end
end Ring
