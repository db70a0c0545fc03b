import ShmemIpc.Header.Exclusion
import ShmemIpc.Execution.Run

-- How the halves of a channel tell that it has ended. A half that finds its peer dead ends the channel, unless
-- it has ended before.
namespace Header

open Assertion Channels Code Effects

-- Where the peer of a channel has published its identity.

def peerPid (x : SharedChannel) : Word :=
  match x.role with
  | .server => .global x.base .clientPid
  | .client => .global x.base .serverPid

def peerBirth (x : SharedChannel) : Word :=
  match x.role with
  | .server => .global x.base .clientBirth
  | .client => .global x.base .serverBirth

-- The call has taken this process for the peer, because it is the one that the half knows or the one in the header.
def Takes (h : Handle) (x : SharedChannel) (identity : ProcessIdentity) (t : Events) : Prop :=
  ⟨.getPeer h, some identity⟩ ∈ t ∨
    ⟨.load (peerPid x), identity.pid⟩ ∈ t ∧ ⟨.load (peerBirth x), identity.birth⟩ ∈ t

-- The stat file says that the process has ended: there is none, or it is a zombie or another process.
inductive Gone (identity : ProcessIdentity) : Except IoError (List Char) → Prop
  | missing {e : IoError} (kind : e.kind = .notFound) : Gone identity (.error e)
  | ended {stat : List Char} {birth : Nat} {alive : Bool} (parsed : parseProcessStat stat = .ok (birth, alive))
      (other : ¬ (alive && birth == identity.birth) = true) : Gone identity (.ok stat)

-- The call has looked at its peer, and has found it dead.
def FoundDead (h : Handle) (x : SharedChannel) (t : Events) : Prop :=
  ∃ identity r, Takes h x identity t ∧ ⟨.readProcStat identity.pid, r⟩ ∈ t ∧ Gone identity r

-- What a call may have seen that takes no other process than this one for its peer, and has not found it dead.
def Agreed (h : Handle) (x : SharedChannel) (identity : ProcessIdentity) : Event Act Act.Ret → Prop
  | ⟨.getPeer k, r⟩         => k = h → ∀ peer, r = some peer → peer = identity
  | ⟨.load w, r⟩            => (w = peerPid x → r = identity.pid) ∧ (w = peerBirth x → r = identity.birth)
  | ⟨.readProcStat pid, r⟩  => pid = identity.pid → ¬ Gone identity r
  | _                       => True

def Well (h : Handle) (x : SharedChannel) (identity : ProcessIdentity) (t : Events) : Prop :=
  ∀ e ∈ t, Agreed h x identity e

-- The actions that tell nothing about a process.
def Deaf : Act → Prop
  | .getPeer _ | .readProcStat _ => False
  | .load (.global _ f)          => f ≠ .clientPid ∧ f ≠ .clientBirth ∧ f ≠ .serverPid ∧ f ≠ .serverBirth
  | _                            => True

section
variable {h : Handle} {x : SharedChannel} {identity : ProcessIdentity} {t : Events} {a : Act} {r : a.Ret}

theorem peerPid_ne : peerPid x ≠ peerBirth x := by
  unfold peerPid peerBirth
  cases x.role <;> nofun

theorem peerIdentity_eq : x.peerIdentity = (do
    let pid ← load (peerPid x)
    let birth ← load (peerBirth x)
    Pure.pure ⟨pid, birth⟩) := by
  unfold SharedChannel.peerIdentity peerPid peerBirth
  cases x.role <;> rfl

theorem Deaf.not_pid (ha : Deaf a) : a ≠ .load (peerPid x) := by
  rintro rfl
  unfold peerPid at ha
  split at ha
  · exact ha.left rfl
  · exact ha.right.right.left rfl

theorem Deaf.not_birth (ha : Deaf a) : a ≠ .load (peerBirth x) := by
  rintro rfl
  unfold peerBirth at ha
  split at ha
  · exact ha.right.left rfl
  · exact ha.right.right.right rfl

theorem Deaf.agreed (ha : Deaf a) : Agreed h x identity ⟨a, r⟩ := by
  cases a
  case getPeer | readProcStat => exact ha.elim
  case load w =>
    exact ⟨fun hw => absurd (congrArg Act.load hw) ha.not_pid, fun hw => absurd (congrArg Act.load hw) ha.not_birth⟩
  all_goals trivial

theorem Well.nil : Well h x identity [] :=
  nofun

theorem Well.snoc {e : Event Act Act.Ret} (ht : Well h x identity t) (he : Agreed h x identity e) :
    Well h x identity (t ++ [e]) := by
  intro e' hm
  rcases List.mem_append.mp hm with hm | hm
  case inl => exact ht e' hm
  case inr => exact List.mem_singleton.mp hm ▸ he

theorem Well.not_foundDead (ht : Well h x identity t) : ¬ FoundDead h x t := by
  rintro ⟨⟨pid, birth⟩, r, taken, looked, gone⟩
  have same : (⟨pid, birth⟩ : ProcessIdentity) = identity := by
    rcases taken with known | ⟨hp, hb⟩
    case inl => exact ht _ known rfl _ rfl
    case inr =>
      have hp : pid = identity.pid := (ht _ hp).left rfl
      have hb : birth = identity.birth := (ht _ hb).right rfl
      rw [hp, hb]
  subst same
  exact ht _ looked rfl gone

theorem FoundDead.of_snoc (ha : Deaf a) (ht : FoundDead h x (t ++ [⟨a, r⟩])) : FoundDead h x t := by
  have old {b : Act} {v : b.Ret} (hb : a ≠ b) (hm : ⟨b, v⟩ ∈ t ++ [(⟨a, r⟩ : Event Act Act.Ret)]) : ⟨b, v⟩ ∈ t := by
    rcases List.mem_append.mp hm with hm | hm
    case inl => exact hm
    case inr => exact absurd (congrArg Sigma.fst (List.mem_singleton.mp hm)).symm hb
  obtain ⟨identity, r, taken, looked, gone⟩ := ht
  refine ⟨identity, r, ?_, old (by rintro rfl; exact ha) looked, gone⟩
  exact taken.imp (old (by rintro rfl; exact ha)) fun ⟨hp, hb⟩ => ⟨old ha.not_pid hp, old ha.not_birth hb⟩

-- The code that does not look at the peer.

theorem wakeAll_deaf {V : Error → Prop} : Code.Only Deaf V (SharedChannel.wakeAll h) :=
  .act trivial fun _ => .act ⟨nofun, nofun, nofun, nofun⟩ fun _ =>
  .bind (.act trivial fun _ => .act trivial fun _ => .act trivial fun _ => .perform trivial) fun _ =>
  .act trivial fun _ => .act trivial fun _ => .act trivial fun _ => .perform trivial

theorem terminal_deaf : Code.Only Deaf (fun _ => True) (SharedChannel.terminal h) := by
  refine .act trivial fun self => .act ⟨nofun, nofun, nofun, nofun⟩ fun state => ?_
  split
  all_goals first | exact .throw trivial | exact .pure

theorem awaitConnected_deaf : Code.Only Deaf (fun _ => True) (SharedChannel.awaitConnected h x) := by
  refine .loop fun _ => .act ⟨nofun, nofun, nofun, nofun⟩ fun state => ?_
  have retire : Code.Only Deaf (fun _ => True) (SharedChannel.retire h x state) := by
    refine .act trivial fun t => ?_
    split
    case isTrue => exact .pure
    refine .act trivial fun r => ?_
    cases r
    case ok    => exact .bind wakeAll_deaf fun _ => .throw trivial
    case error => exact .pure
  split
  all_goals first | exact .pure | exact .throw trivial | exact retire

end

section
variable {plat : Platform} {i : ThreadId} {l₀ : Log ThreadId Act Act.Ret} {α : Type}
variable {G : Assertion (decisionProtocol plat) i} {h : Handle} {x : SharedChannel} {identity : ProcessIdentity}
variable {M : α → Assertion (decisionProtocol plat) i} {E : Error → Assertion (decisionProtocol plat) i}

-- What the protocol of the header says of code, while the thread remembers something else.
theorem spec_told {P : Assertion (headerProtocol plat) i} {p : Routine α} {N : α → Assertion (headerProtocol plat) i}
    {F : Error → Assertion (headerProtocol plat) i} (keeps : G.Keeps fun _ => True) (hp : Spec P p N F) :
    Spec (told P ⊓ G) p (fun v => told (N v) ⊓ G) (fun e => told (F e) ⊓ G) := by
  have any : p.Triple G fun _ => G := Program.Triple.post (fun _ _ _ hs => And.left hs) (.only keeps .all)
  refine Program.Triple.post (fun v => ?_) ((Program.Triple.logged hp).under any)
  cases v <;> exact le_rfl

-- The next action, and what the thread has seen then.
theorem look (hg : G.Persistent) {a : Act} {F : Events → Prop} (F' : a.Ret → Events → Prop)
    (hF : ∀ t r, F t → F' r (t ++ [⟨a, r⟩])) {f : a.Ret → Routine α} (hf : ∀ r, Spec (trail l₀ (F' r) ⊓ G) (f r) M E) :
    Spec (trail l₀ F ⊓ G) (Code.perform a >>= f) M E :=
  trail_skip hg hF hf

-- The call has not found its peer dead.
def healthy (h : Handle) (x : SharedChannel) (l₀ : Log ThreadId Act Act.Ret) : Assertion (decisionProtocol plat) i :=
  trail l₀ fun t => ∃ identity, Well h x identity t

-- What the thread has done does not matter.
def blank (l₀ : Log ThreadId Act Act.Ret) : Assertion (decisionProtocol plat) i :=
  trail l₀ fun _ => True

-- The channel has ended.
def doomed (h : Handle) (x : SharedChannel) (l₀ : Log ThreadId Act Act.Ret) : Assertion (decisionProtocol plat) i :=
  told (knows h x ⊓ atLeast x.base 4) ⊓ blank l₀

-- What is known when the peer has been looked at.
def probed (h : Handle) (x : SharedChannel) (l₀ : Log ThreadId Act Act.Ret) : Assertion (decisionProtocol plat) i :=
  .ex fun dead : Bool => if dead then doomed h x l₀ else healthy h x l₀

-- An error is about the end of the channel if the peer has been found dead.
def admitted (h : Handle) (x : SharedChannel) (l₀ : Log ThreadId Act Act.Ret) (e : Error) :
    Assertion (decisionProtocol plat) i :=
  trail l₀ fun t => FoundDead h x t → e.Terminal

theorem blank_keeps {S : Act → Prop} : (blank l₀ : Assertion (decisionProtocol plat) i).Keeps S :=
  trail_keeps fun _ _ => trivial

theorem doomed_keeps {S : Act → Prop} : (doomed h x l₀ : Assertion (decisionProtocol plat) i).Keeps S where
  ok _ _ _       := trivial
  kept _ hi hs e := ⟨(told_persistent (knows_persistent.inf fact_persistent)).stays hi trivial e hs.left,
    blank_keeps.kept (S := fun _ => True) trivial hi hs.right e⟩

theorem healthy_keeps : (healthy h x l₀ : Assertion (decisionProtocol plat) i).Keeps Deaf :=
  trail_keeps fun ha ht => ht.imp fun _ hw => hw.snoc ha.agreed

theorem probed_keeps : (probed h x l₀ : Assertion (decisionProtocol plat) i).Keeps Deaf := by
  refine .ex fun dead => ?_
  cases dead
  case false => exact healthy_keeps
  case true  => exact doomed_keeps

theorem admitted_keeps {e : Error} : (admitted h x l₀ e : Assertion (decisionProtocol plat) i).Keeps Deaf :=
  trail_keeps fun ha ht found => ht (found.of_snoc ha)

theorem healthy_le {e : Error} : healthy h x l₀ ≤ (admitted h x l₀ e : Assertion (decisionProtocol plat) i) :=
  fun _ _ hs => trail_mono hs fun _ ⟨_, well⟩ found => absurd found well.not_foundDead

theorem healthy_le_probed : healthy h x l₀ ≤ (probed h x l₀ : Assertion (decisionProtocol plat) i) :=
  fun _ _ hs => ⟨false, hs⟩

theorem doomed_le_probed : doomed h x l₀ ≤ (probed h x l₀ : Assertion (decisionProtocol plat) i) :=
  fun _ _ hs => ⟨true, hs⟩

-- The observer of processes. Under the condition `c` it has found that the process lives.

def wellIf (h : Handle) (x : SharedChannel) (l₀ : Log ThreadId Act Act.Ret) (identity : ProcessIdentity) (c : Prop) :
    Assertion (decisionProtocol plat) i :=
  trail l₀ fun t => c → Well h x identity t

def well (h : Handle) (x : SharedChannel) (l₀ : Log ThreadId Act Act.Ret) (identity : ProcessIdentity) :
    Assertion (decisionProtocol plat) i :=
  wellIf h x l₀ identity True

theorem wellIf_mono {c c' : Prop} (hc : c' → c) :
    wellIf h x l₀ identity c ≤ (wellIf h x l₀ identity c' : Assertion (decisionProtocol plat) i) :=
  fun _ _ hs => trail_mono hs fun _ ht h => ht (hc h)

theorem wellIf_keeps {c : Prop} : (wellIf h x l₀ identity c : Assertion (decisionProtocol plat) i).Keeps Deaf :=
  trail_keeps fun ha ht hc => (ht hc).snoc ha.agreed

theorem well_le_healthy : well h x l₀ identity ≤ (healthy h x l₀ : Assertion (decisionProtocol plat) i) :=
  fun _ _ hs => trail_mono hs fun _ ht => ⟨identity, ht trivial⟩

theorem wellIf_le_blank {c : Prop} : wellIf h x l₀ identity c ≤ (blank l₀ : Assertion (decisionProtocol plat) i) :=
  fun _ _ hs => trail_mono hs fun _ _ => trivial

theorem processStat_sees (hg : G.Persistent) :
    Spec (well h x l₀ identity ⊓ G) (processStat identity.pid)
      (fun v => wellIf h x l₀ identity ((v.2 && v.1 == identity.birth) = true) ⊓ G)
      (fun e => wellIf h x l₀ identity (e ≠ .peerDisconnected) ⊓ G) := by
  refine look hg (fun r t => ¬ Gone identity r → Well h x identity t) (fun t r ht lives => ?_) fun r => ?_
  · exact (ht trivial).snoc fun _ => lives
  have learnt {c : Prop} (hc : c → ¬ Gone identity r) : wellIf h x l₀ identity (¬ Gone identity r) ⊓ G ≤
      (wellIf h x l₀ identity c ⊓ G : Assertion (decisionProtocol plat) i) :=
    fun s hi hs => ⟨wellIf_mono hc s hi hs.left, hs.right⟩
  cases r
  case ok stat =>
    refine .ofExcept ?_
    cases parsed : parseProcessStat stat
    case ok v =>
      refine learnt fun lives gone => ?_
      cases gone
      case ended other parsed' =>
        cases parsed.symm.trans parsed'
        exact other lives
    case error e =>
      refine learnt fun _ gone => ?_
      cases gone
      case ended _ parsed' => cases parsed.symm.trans parsed'
  case error e =>
    simp only
    split
    case isTrue        => exact .throw (learnt fun he => absurd rfl he)
    case isFalse other => exact .throw (learnt fun _ => fun | .missing kind => other kind)

theorem isAlive_sees (hg : G.Persistent) :
    Spec (well h x l₀ identity ⊓ G) (ProcessMonitor.isAlive identity)
      (fun alive => wellIf h x l₀ identity (alive = true) ⊓ G) (fun _ => well h x l₀ identity ⊓ G) := by
  refine .handle (processStat_sees hg) (fun v => .pure le_rfl) fun e => ?_
  cases e
  case peerDisconnected => exact .pure fun s hi hs => ⟨wellIf_mono nofun s hi hs.left, hs.right⟩
  all_goals exact .throw fun s hi hs => ⟨wellIf_mono (fun _ => nofun) s hi hs.left, hs.right⟩

theorem open_sees (hg : G.Persistent) :
    Spec (well h x l₀ identity ⊓ G) (ProcessMonitor.open identity) (fun _ => well h x l₀ identity ⊓ G)
      (fun e => wellIf h x l₀ identity (e ≠ .peerDisconnected) ⊓ G) := by
  have weaken {c : Prop} : well h x l₀ identity ⊓ G ≤
      (wellIf h x l₀ identity c ⊓ G : Assertion (decisionProtocol plat) i) :=
    fun s hi hs => ⟨wellIf_mono (fun _ => trivial) s hi hs.left, hs.right⟩
  unfold ProcessMonitor.open
  split
  case isTrue => exact .throw weaken
  refine .bind ((isAlive_sees hg).post (fun _ => le_rfl) fun _ => weaken) fun alive => ?_
  cases alive
  case true  => exact .pure fun s hi hs => ⟨wellIf_mono (fun _ => rfl) s hi hs.left, hs.right⟩
  case false => exact .throw fun s hi hs => ⟨wellIf_mono (fun he => absurd rfl he) s hi hs.left, hs.right⟩

theorem finish_dooms :
    Spec (told (knows h x) ⊓ blank l₀) (SharedChannel.finish h .peerDisconnected) (fun _ => doomed h x l₀) E := by
  have finish : Spec (knows h x : Assertion (headerProtocol plat) i) (SharedChannel.finish h .peerDisconnected)
      (fun _ => knows h x ⊓ atLeast x.base 4) (fun _ => .const False) :=
    finish_spec (.inr rfl) knows_persistent le_rfl
  exact (spec_told blank_keeps finish).post (fun _ => le_rfl) fun _ _ _ hs => hs.left.right.elim

-- A half that looks at the state after the end finds it.
theorem terminal_doomed {f : Unit → Routine α} :
    Spec (doomed h x l₀) (SharedChannel.terminal h >>= f) M (admitted h x l₀) := by
  have hp : (knows h x ⊓ atLeast x.base 4 : Assertion (headerProtocol plat) i).Persistent :=
    knows_persistent.inf fact_persistent
  have ends := spec_told (G := (blank l₀ : Assertion (decisionProtocol plat) i)) blank_keeps
    (terminal_spec hp (fun _ _ hs => hs.left) fun _ _ hs => hs.right)
  refine .bind (M := fun _ => .const False) (ends.post (fun _ _ _ hs => ?_) fun e _ _ hs => ?_) fun _ => .absurd
  · exact absurd hs.left.right.right (Nat.lt_irrefl 4)
  · exact trail_mono hs.right fun _ _ _ => hs.left.right.right

theorem observe_sees {ms : Nat} :
    Spec (well h x l₀ identity ⊓ told (knows h x) : Assertion (decisionProtocol plat) i)
      (SharedChannel.observe h identity ms) (fun _ => probed h x l₀) (admitted h x l₀) := by
  refine .bind ((isAlive_sees (told_persistent knows_persistent)).post (fun _ => le_rfl) ?_) fun alive => ?_
  · exact fun _ s hi hs => healthy_le s hi (well_le_healthy s hi hs.left)
  refine .bind (M := fun _ => probed h x l₀) ?_ fun _ => ?_
  · cases alive
    case true  => exact .pure fun s hi hs => healthy_le_probed s hi (trail_mono hs.left fun _ ht => ⟨identity, ht rfl⟩)
    case false =>
      refine .pre (P := told (knows h x) ⊓ blank l₀) ?_ fun s hi hs => ⟨hs.right, wellIf_le_blank s hi hs.left⟩
      exact finish_dooms.post (fun _ => doomed_le_probed) fun _ => le_rfl
  · exact .perform (fun _ _ _ => trivial) fun _ _ _ => probed_keeps.kept (by trivial)

-- Nothing is known of the peer yet.
def fresh (h : Handle) (x : SharedChannel) (l₀ : Log ThreadId Act Act.Ret) : Assertion (decisionProtocol plat) i :=
  trail l₀ fun t => ∀ identity, Well h x identity t

theorem fresh_keeps : (fresh h x l₀ : Assertion (decisionProtocol plat) i).Keeps Deaf :=
  trail_keeps fun ha ht identity => (ht identity).snoc ha.agreed

theorem fresh_le : fresh h x l₀ ≤ (healthy h x l₀ : Assertion (decisionProtocol plat) i) :=
  fun _ _ hs => trail_mono hs fun _ ht => ⟨⟨0, 0⟩, ht _⟩

theorem peerIdentity_sees (hg : G.Persistent) :
    Spec (fresh h x l₀ ⊓ G) x.peerIdentity (fun identity => well h x l₀ identity ⊓ G) E := by
  rw [peerIdentity_eq]
  refine look hg (fun pid t => ∀ birth, Well h x ⟨pid, birth⟩ t) (fun t pid ht birth => ?_) fun pid => ?_
  · exact (ht _).snoc ⟨fun _ => rfl, fun hw => absurd hw peerPid_ne⟩
  refine look hg (fun birth t => Well h x ⟨pid, birth⟩ t) (fun t birth ht => ?_) fun birth => ?_
  · exact (ht _).snoc ⟨fun hw => absurd hw.symm peerPid_ne, fun _ => rfl⟩
  · exact .pure fun _ _ hs => ⟨trail_mono hs.left fun _ ht _ => ht, hs.right⟩

theorem probe_sees {ms : Nat} :
    Spec (fresh h x l₀ ⊓ told (knows h x) : Assertion (decisionProtocol plat) i)
      (SharedChannel.probe h x ms) (fun ended => probed h x l₀ ⊓ .const (ended = false)) (admitted h x l₀) := by
  have hg : (told (knows h x) : Assertion (decisionProtocol plat) i).Persistent := told_persistent knows_persistent
  have keeps : (fresh h x l₀ ⊓ told (knows h x) : Assertion (decisionProtocol plat) i).Keeps Deaf := fresh_keeps.inf hg
  have observes {peer : ProcessIdentity} : Spec
    (well h x l₀ peer ⊓ told (knows h x) : Assertion (decisionProtocol plat) i)
      (do SharedChannel.observe h peer ms; Pure.pure false) (fun ended => probed h x l₀ ⊓ .const (ended = false))
      (admitted h x l₀) :=
    .bind observe_sees fun _ => .pure fun _ _ hs => ⟨hs, rfl⟩
  refine .skip keeps (a := .loadNextProbe h) trivial fun next => ?_
  split
  case isTrue => exact .pure fun s hi hs => ⟨healthy_le_probed s hi (fresh_le s hi hs.left), rfl⟩
  refine .pass keeps terminal_deaf (fun _ _ s hi hs => healthy_le s hi (fresh_le s hi hs.left)) fun _ => ?_
  refine look hg (fun r t => ∀ identity, (∀ peer, r = some peer → peer = identity) → Well h x identity t)
    (fun t r ht identity hr => (ht identity).snoc fun _ => hr) fun peer => ?_
  cases peer
  case some peer =>
    refine .pre (P := well h x l₀ peer ⊓ told (knows h x)) observes fun _ _ hs => ⟨trail_mono hs.left ?_, hs.right⟩
    exact fun _ ht _ => ht peer fun _ same => Option.some.inj same.symm
  case none =>
    refine .pre (P := fresh h x l₀ ⊓ told (knows h x)) ?_ fun _ _ hs => ⟨trail_mono hs.left ?_, hs.right⟩
    · refine .bind (peerIdentity_sees hg) fun identity => .handle (open_sees hg) (fun _ => ?_) fun e => ?_
      · exact .skip (wellIf_keeps.inf hg) (a := .setPeer h identity) trivial fun _ => observes
      · cases e
        case peerDisconnected =>
          refine .pre (P := told (knows h x) ⊓ blank l₀) ?_ fun s hi hs => ⟨hs.right, wellIf_le_blank s hi hs.left⟩
          exact .bind finish_dooms fun _ => terminal_doomed
        all_goals
          exact .throw fun s hi hs => healthy_le s hi (trail_mono hs.left fun _ ht => ⟨identity, ht nofun⟩)
    · exact fun _ ht identity => ht identity nofun

theorem locked_sees {ms : Nat} :
    Spec (fresh h x l₀ ⊓ told (knows h x) : Assertion (decisionProtocol plat) i)
      (SharedChannel.locked h (SharedChannel.probe h x ms)) (fun ended => probed h x l₀ ⊓ .const (ended = false))
      (admitted h x l₀) := by
  have hg : (told (knows h x) : Assertion (decisionProtocol plat) i).Persistent := told_persistent knows_persistent
  have keeps : (fresh h x l₀ ⊓ told (knows h x) : Assertion (decisionProtocol plat) i).Keeps Deaf := fresh_keeps.inf hg
  refine .skip keeps (a := .lockPeer h) trivial fun r => ?_
  refine .pass (F := fun _ => True) keeps (.ofExcept fun _ _ => trivial)
    (fun _ _ s hi hs => healthy_le s hi (fresh_le s hi hs.left)) fun _ => ?_
  refine .handle probe_sees (fun ended => ?_) fun e => ?_
  · exact .skip probed_keeps.const (a := .unlockPeer h) trivial fun _ => .ofExcept le_rfl
  · exact .skip admitted_keeps (a := .unlockPeer h) trivial fun _ => .ofExcept le_rfl

theorem checkReady_sees :
    Spec (fresh h x l₀ ⊓ told (knows h x) : Assertion (decisionProtocol plat) i) (SharedChannel.checkReady h)
      (fun _ => healthy h x l₀) (admitted h x l₀) := by
  have hg : (told (knows h x) : Assertion (decisionProtocol plat) i).Persistent := told_persistent knows_persistent
  have keeps : (fresh h x l₀ ⊓ told (knows h x) : Assertion (decisionProtocol plat) i).Keeps Deaf := fresh_keeps.inf hg
  have last : Spec (healthy h x l₀ : Assertion (decisionProtocol plat) i) (do SharedChannel.terminal h; Pure.pure true)
      (fun _ => healthy h x l₀) (admitted h x l₀) :=
    .pass healthy_keeps terminal_deaf (fun _ _ => healthy_le) fun _ => .pure le_rfl
  have fine : fresh h x l₀ ⊓ told (knows h x) ≤ (healthy h x l₀ : Assertion (decisionProtocol plat) i) :=
    fun s hi hs => fresh_le s hi hs.left
  refine .learn keeps (a := .getShared h) trivial (fun _ => ⊤) (· = x) (fun s y s' hi hs e => ?_) fun y hy => ?_
  · have known : Knows h x (channels s.fst) := hs.right.right
    exact ⟨trivial, known.same y e.left.left.left.left⟩
  subst hy
  refine .pre ?_ fun _ _ hs => hs.left
  refine .pass keeps awaitConnected_deaf (fun _ _ s hi hs => healthy_le s hi (fine s hi hs)) fun ready => ?_
  cases ready
  case false => exact .pure fine
  refine .skip keeps (a := .now) trivial fun t => .skip keeps (a := .loadNextProbe h) trivial fun next => ?_
  split
  case isFalse => exact last.pre fine
  refine .bind locked_sees fun ended => .assume ?_
  rintro rfl
  refine .ex fun dead => ?_
  cases dead
  case false => exact last
  case true  => exact terminal_doomed

-- What the answer of an operation that was called in the state `s` says of the peer.
def sights (s : State × Log ThreadId Act Act.Ret) : (o : Operation) → o.Ret → Assertion (decisionProtocol plat) i
  | .checkReady h, v => match s.fst.fst.shared h with
    | some x => trail s.snd fun t => FoundDead h x t → ∃ e, v = .error e ∧ e.Terminal
    | none   => ⊤
  | _, _             => ⊤

end

def sighted (plat : Platform) : Verified crateSystem.logged (decisionProtocol plat) where
  idle _       := ⊤
  post _ o s v := sights s o v
  init         := (decisions plat).init
  spec := by
    intro i o s hi _ can
    have free (ho : ∀ v : o.Ret, (sights s o v : Assertion (decisionProtocol plat) i) = ⊤) :
        ∃ P : Assertion (decisionProtocol plat) i, P s ∧ o.code.Triple P fun v => ⊤ ⊓ sights s o v := by
      have keeps : (⊤ : Assertion (decisionProtocol plat) i).Keeps fun _ => True :=
        Persistent.top.keeps fun _ _ _ => trivial
      exact ⟨⊤, trivial, (Program.Triple.only keeps .all).post fun v _ _ _ => ⟨trivial, by rw [ho v]; trivial⟩⟩
    cases o
    case checkReady h =>
      obtain ⟨x, ha⟩ := can.left h rfl
      have owned : (owns h x : Assertion (headerProtocol plat) i) s.fst := owns_of_attached hi.left ha
      have known : (told (knows h x) : Assertion (decisionProtocol plat) i) s := ⟨hi.left, owned.left⟩
      have start : (fresh h x s.snd : Assertion (decisionProtocol plat) i) s := by
        have nothing : Log.Since i s.snd (fun t => ∀ identity, Well h x identity t) s.snd := .start fun _ => .nil
        exact nothing
      refine ⟨fresh h x s.snd ⊓ told (knows h x), ⟨start, known⟩, Program.Triple.post (fun v => ?_) checkReady_sees⟩
      simp only [sights, ha.shared]
      cases v
      case ok ready => exact fun _ _ hs => ⟨trivial, trail_mono hs fun _ ⟨_, ht⟩ found => absurd found ht.not_foundDead⟩
      case error e  => exact fun _ _ hs => ⟨trivial, trail_mono hs fun _ ht found => ⟨e, rfl, ht found⟩⟩
    all_goals exact free fun v => rfl

-- A channel only moves forward and ends once, in one of two ways, and from then on every operation of every
-- process reports that end.
structure Settled (c c' : crateSystem.logged.Config) : Prop where
  forward : ∀ b < c.mem.fst.fst.files,
    ∃ t t', InState c.forget b t ∧ InState c'.forget b t' ∧ (t' = t ∨ t.rank < t'.rank)
  blames  : ∀ {i o s e h x}, c.Returning i o s (.error e) → o.handle = some h → s.fst.fst.shared h = some x →
    e.Terminal → ∃ t : ChannelState, t.Terminal ∧ e = t.error ∧ InState c.forget x.base t
  agrees  : ∀ {i o s v h x t}, c'.Returning i o s v → o.handle = some h → s.fst.fst.shared h = some x →
    x.base < c.mem.fst.fst.files → InState c.forget x.base t → t.Terminal → Agrees t o v
  -- what the operations say and leave that end a channel
  closed  : ∀ {i s h x}, c.Returning i (.close h) s (.ok ()) → s.fst.fst.shared h = some x →
    InState c.forget x.base .closed
  refused : ∀ {i s e h x}, c.Returning i (.close h) s (.error e) → s.fst.fst.shared h = some x →
    e = .peerDisconnected ∧ InState c.forget x.base .peerDisconnected
  dropped : ∀ {i s h x} {v : Except Error Unit}, c.Returning i (.drop h) s v → s.fst.fst.shared h = some x →
    ∃ t : ChannelState, t.Terminal ∧ InState c.forget x.base t
  retired : ∀ {i s h x}, c.Returning i (.checkReady h) s (.error .timedOut) → s.fst.fst.shared h = some x →
    InState c.forget x.base .closed
  died    : ∀ {i s h x} {v : Except Error Bool}, c.Returning i (.checkReady h) s v → s.fst.fst.shared h = some x →
    FoundDead h x (Log.since i s.snd c.mem.snd) →
    ∃ t : ChannelState, t.Terminal ∧ v = .error t.error ∧ InState c.forget x.base t
  -- a death that is found after the end, as after a close
  late    : ∀ {i s h x t} {v : Except Error Bool}, c'.Returning i (.checkReady h) s v → s.fst.fst.shared h = some x →
    FoundDead h x (Log.since i s.snd c'.mem.snd) → x.base < c.mem.fst.fst.files → InState c.forget x.base t →
    t.Terminal → v = .error t.error

section
variable {plat : Platform} {c c' : crateSystem.logged.Config} {i : ThreadId} {h : Handle} {x : SharedChannel}
variable {s : State × Log ThreadId Act Act.Ret}

theorem Config.returning_forget {o : Operation} {v : o.Ret} (hr : c.Returning i o s v) :
    c.forget.Returning i o s.fst v :=
  congrArg (Option.map System.Frame.forget) hr

theorem dead_of_returning (hc : crateSystem.logged.Reachable (machine plat).logged c) {v : Except Error Bool}
    (hr : c.Returning i (.checkReady h) s v) (hx : s.fst.fst.shared h = some x)
    (found : FoundDead h x (Log.since i s.snd c.mem.snd)) :
    ∃ t : ChannelState, t.Terminal ∧ v = .error t.error ∧ InState c.forget x.base t := by
  have known := ((sighted plat).post_of_returning ((verified plat).logged.under hc) hr).right
  simp only [sighted, sights, hx] at known
  have seen : Log.Since i s.snd (fun t => FoundDead h x t → ∃ e, v = .error e ∧ e.Terminal) c.mem.snd := known
  obtain ⟨e, rfl, terminal⟩ := seen.holds found
  obtain ⟨t, ht, rfl, at_⟩ := (blames_of_returning hc.forget (Config.returning_forget hr) rfl hx).exists_state terminal
  exact ⟨t, ht, rfl, at_⟩

theorem terminal_cause_agrees (hc : crateSystem.logged.Reachable (machine plat).logged c)
    (e : crateSystem.logged.Steps (machine plat).logged c c') : Settled c c' := by
  have stays {b : FileId} {t : ChannelState} (hb : b < c.mem.fst.fst.files) (ht : InState c.forget b t)
      (hterm : t.Terminal) : InState c'.forget b t :=
    (stays_along hc.forget e.forget Final.stays ⟨hb, ChannelState.terminal_iff.mp hterm, ht⟩).at_
  constructor
  case forward => exact fun b => forward_along hc.forget e.forget
  case blames  =>
    exact fun hr ho hx he => (blames_of_returning hc.forget (Config.returning_forget hr) ho hx).exists_state he
  case agrees =>
    intro i o s v h x t hr ho hx hb ht hterm
    have known := verdict_of_returning (hc.steps e).forget (Config.returning_forget hr) ho hx
    exact .of_known known (stays hb ht hterm)
  case closed =>
    intro i s h x hr hx
    have known := verdict_of_returning hc.forget (Config.returning_forget hr) rfl hx
    exact Final.at_ known
  case refused =>
    intro i s e h x hr hx
    have known := verdict_of_returning hc.forget (Config.returning_forget hr) rfl hx
    exact ⟨known.right, Final.at_ known.left⟩
  case dropped =>
    intro i s h x v hr hx
    have known := verdict_of_returning hc.forget (Config.returning_forget hr) rfl hx
    cases v
    case error => exact known.elim
    case ok =>
      have old : AtLeast x.base 4 (channels c.mem.fst) := known
      obtain ⟨t, ht⟩ := ChannelState.exists_toU32 ((inv_of_reachable hc.forget).valid x.base)
      have at_ : (channels c.mem.fst).state x.base = t.toU32 := ht
      have ended : 4 ≤ t.toU32 := at_ ▸ Nat.le_trans old.bound (Nat.min_le_left ..)
      exact ⟨t, ChannelState.terminal_iff.mpr ended, ht⟩
  case retired => exact fun hr hx => (exclusive hc .refl).closed ⟨hr, _, hx, rfl⟩
  case died => exact fun hr hx found => dead_of_returning hc hr hx found
  case late =>
    intro i s h x t v hr hx found hb ht hterm
    obtain ⟨t', -, rfl, at_⟩ := dead_of_returning (hc.steps e) hr hx found
    have same : InState c'.forget x.base t := stays hb ht hterm
    rw [ChannelState.toU32_inj (same.symm.trans at_)]

end

-- Whether the events show that the client with the pid 2 has been found dead.
def showsDead (t : Events) : Bool :=
  t.any (fun | ⟨.load (.global 0 .clientPid), pid⟩ => pid = 2 | _ => false) &&
    t.any (fun | ⟨.load (.global 0 .clientBirth), birth⟩ => birth = 100 | _ => false) &&
    t.any (fun | ⟨.readProcStat 2, .error e⟩ => e.kind = .notFound | _ => false)

-- The client has closed the channel in the file 0.
def hasClosed (c : crateSystem.logged.Config) : Bool :=
  c.returns 1 fun
    | .close h, s, .ok _ => decide (h = 1) && (s.fst.fst.shared 1).any (·.base = 0) && decide (0 < c.mem.fst.fst.files)
    | _, _, _            => false

-- The server has found its client dead.
def hasMourned (c : crateSystem.logged.Config) : Bool :=
  c.returns 0 fun
    | .checkReady h, s, _ => decide (h = 0) && (s.fst.fst.shared 0).any (fun x => x.base = 0 ∧ x.role = .server) &&
      showsDead (Log.since 0 s.snd c.mem.snd)
    | _, _, _             => false

theorem foundDead_of_showsDead {t : Events} {h : Handle} {x : SharedChannel} (base : x.base = 0)
    (role : x.role = .server)
    (ht : showsDead t = true) : FoundDead h x t := by
  obtain ⟨both, missing⟩ := (Bool.and_eq_true _ _).mp ht
  obtain ⟨pid, birth⟩ := (Bool.and_eq_true _ _).mp both
  obtain ⟨p, hp, pid⟩ := List.any_eq_true.mp pid
  obtain ⟨b, hb, birth⟩ := List.any_eq_true.mp birth
  obtain ⟨e, he, missing⟩ := List.any_eq_true.mp missing
  split at pid
  case h_2 => cases pid
  split at birth
  case h_2 => cases birth
  split at missing
  case h_2 => cases missing
  case h_1 =>
    obtain rfl := of_decide_eq_true pid
    obtain rfl := of_decide_eq_true birth
    have pidWord : peerPid x = .global 0 .clientPid := by simp only [peerPid, role, base]
    have birthWord : peerBirth x = .global 0 .clientBirth := by simp only [peerBirth, role, base]
    refine ⟨⟨2, 100⟩, _, .inr ⟨?_, ?_⟩, he, .missing (of_decide_eq_true missing)⟩
    · exact pidWord ▸ hp
    · exact birthWord ▸ hb

theorem returning_of_hasClosed {c : crateSystem.logged.Config} (hc : hasClosed c = true) :
    ∃ s x, c.Returning 1 (.close 1) s (.ok ()) ∧ s.fst.fst.shared 1 = some x ∧ x.base = 0 ∧
      0 < c.mem.fst.fst.files := by
  obtain ⟨o, s, v, hr, hv⟩ := System.Config.returning hc
  split at hv
  case h_2 => cases hv
  case h_1 =>
    obtain ⟨call, old⟩ := (Bool.and_eq_true _ _).mp hv
    obtain ⟨call, hx⟩ := (Bool.and_eq_true _ _).mp call
    obtain rfl := of_decide_eq_true call
    obtain ⟨x, hx, base⟩ := (Option.any_eq_true _ _).mp hx
    exact ⟨s, x, hr, hx, of_decide_eq_true base, of_decide_eq_true old⟩

theorem returning_of_hasMourned {c : crateSystem.logged.Config} (hc : hasMourned c = true) :
    ∃ s x v, c.Returning 0 (.checkReady 0) s v ∧ s.fst.fst.shared 0 = some x ∧ x.base = 0 ∧
      FoundDead 0 x (Log.since 0 s.snd c.mem.snd) := by
  obtain ⟨o, s, v, hr, hv⟩ := System.Config.returning hc
  split at hv
  case h_2 => cases hv
  case h_1 =>
    obtain ⟨call, dead⟩ := (Bool.and_eq_true _ _).mp hv
    obtain ⟨call, hx⟩ := (Bool.and_eq_true _ _).mp call
    obtain rfl := of_decide_eq_true call
    obtain ⟨x, hx, known⟩ := (Option.any_eq_true _ _).mp hx
    obtain ⟨base, role⟩ := of_decide_eq_true known
    exact ⟨s, x, _, hr, hx, base, foundDead_of_showsDead base role dead⟩

-- A server looks at its client, which closes the channel meanwhile and ends. The server reports the close.
theorem terminal_cause_agrees_closed :
    ∃ c c' s s' x x', crateSystem.logged.Reachable (machine .linux).logged c ∧
      crateSystem.logged.Steps (machine .linux).logged c c' ∧ c.Returning 1 (.close 1) s (.ok ()) ∧
      s.fst.fst.shared 1 = some x ∧ InState c.forget x.base .closed ∧
      c'.Returning 0 (.checkReady 0) s' (.error .channelClosed) ∧ s'.fst.fst.shared 0 = some x' ∧ x'.base = x.base ∧
      FoundDead 0 x' (Log.since 0 s'.snd c'.mem.snd) := by
  have ⟨c, steps, good, hc⟩ := System.run_test (S := crateSystem.logged) (O := (crateOracle .linux).logged)
    (c := ⟨((World.start, History.start), []), fun _ => none⟩)
    (l := CrateMove.connect ++ .call 0 (.checkReady 0) :: CrateMove.steps 0 9 ++
    .call 1 (.close 1) :: CrateMove.steps 1 16)
    (p := fun c => hasClosed c && (crateSystem.logged.run (crateOracle .linux).logged c
      (.call 2 (.env (.setProc 2 none)) :: CrateMove.steps 2 2 ++ CrateMove.steps 0 10)).any hasMourned)
    (@crateStart_good .linux) (by decide +kernel)
  have reach : crateSystem.logged.Reachable (machine .linux).logged c :=
    .intro ⟨⟨crateStart_initial.mem, rfl⟩, fun _ => rfl⟩ steps
  have ⟨closed, more⟩ := (Bool.and_eq_true _ _).mp hc
  have ⟨c', steps', _, hc'⟩ := System.run_test good more
  obtain ⟨s, x, hr, hx, base, old⟩ := returning_of_hasClosed closed
  obtain ⟨s', x', v, hr', hx', base', dead⟩ := returning_of_hasMourned hc'
  have settled := terminal_cause_agrees reach steps'
  have at_ : InState c.forget x.base .closed := settled.closed hr hx
  have same : x'.base = x.base := base'.trans base.symm
  have found : v = .error .channelClosed := settled.late (t := .closed) hr' hx' dead (base'.symm ▸ old)
    (same ▸ at_) trivial
  exact ⟨c, c', s, s', x, x', reach, steps', hr, hx, at_, found ▸ hr', hx', same, dead⟩

end Header
