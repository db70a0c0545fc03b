import ShmemIpc.Library.Cut
import ShmemIpc.Handshake.Pairing

open Function Assertion Code

namespace Handshake

variable {plat : Platform} {i j : ThreadId} {s s' : State}

section Sessions

variable {α β : Type} {P : Assertion (protocol plat) i} {N : β → Assertion (protocol plat) i}
variable {l : ListenerId} {x : Listener} {st : StreamId} {t : Ticket} {f : FileId}

def itself (p : ProcessIdentity → Prop) : Assertion (protocol plat) i :=
  steady {
    holds s          := p (s.fst.fst.process i)
    kept _ _ grows h := grows.process ▸ h }

-- A process that reads its own record finds its own birth.
theorem processStat_yields {pid : Nat} :
    Yields (itself (·.pid = pid)) (world (processStat pid)) fun v =>
      (itself (· = ⟨pid, v.fst⟩) : Assertion (protocol plat) i) := by
  let parsed (stat : List Char) : Assertion (protocol plat) i :=
    itself fun p => ∃ alive, parseProcessStat stat = .ok (p.birth, alive)
  refine world_keep .fact (by exact id) (gained parsed) ?_ fun r => ?_
  case refine_1 =>
    rintro ⟨⟨w, n⟩, g⟩ r ⟨⟨w', n'⟩, g'⟩ _ own e
    obtain ⟨⟨same, _⟩, _, _⟩ := world_exec e
    have ordinary := ordinary_exec e
    obtain rfl : w' = w := same
    cases r
    case ok    => exact ordinary own.symm
    case error => trivial
  case refine_2 =>
    cases r
    case error e =>
      suffices fails : Yields ⊤ (Code.inl (if e.kind = .notFound then fail .peerDisconnected else fail (.io e))) _ from
        fails.pre fun _ _ _ => trivial
      split <;> exact Yields.fails
    case ok stat =>
      suffices known : ∀ x, parseProcessStat stat = x →
          Yields (itself (·.pid = pid) ⊓ parsed stat) (Code.inl (Code.ofExcept x)) _ from known _ rfl
      rintro (e | ⟨birth, alive⟩) same
      case error => exact Yields.fails
      case ok    =>
        refine Spec.pure fun s _ hs => ?_
        obtain ⟨own, _, same'⟩ := hs
        have ⟨born, _⟩ := Prod.mk.inj (Except.ok.inj (same.symm.trans same'))
        exact congrArg₂ ProcessIdentity.mk own born.symm

theorem currentIdentity_yields :
    Yields ⊤ (world currentIdentity) fun identity => (itself (· = identity) : Assertion (protocol plat) i) := by
  refine world_keep .top (by exact id) (fun pid => itself (·.pid = pid)) ?_ fun pid => ?_
  case refine_1 =>
    rintro ⟨⟨w, n⟩, g⟩ pid ⟨⟨w', n'⟩, g'⟩ _ _ e
    obtain ⟨⟨rfl, rfl⟩, _⟩ := world_exec e
    rfl
  case refine_2 =>
    refine Code.inl_bind ▸ Code.inl_attempt ▸ Spec.handle (processStat_yields.pre fun _ _ hs => hs.right) ?_ ?_
    case refine_1 => exact fun _ => Spec.pure le_rfl
    case refine_2 =>
      intro e
      cases e <;> exact Yields.fails

theorem listenerIncarnation_yields :
    Yields ⊤ listenerIncarnation fun text =>
      (ex fun d => drew d ⊓ .const (text = incarnationText d.fst d.snd) : Assertion (protocol plat) i) := by
  refine Spec.bind currentIdentity_yields fun identity => ?_
  refine net_act (a := .fetchNext) (fun n => drew (identity, n)) (fun _ _ _ => trivial) ?_ fun n => ?_
  case refine_1 =>
    rintro ⟨⟨w, n⟩, g⟩ k ⟨⟨w', n'⟩, g'⟩ _ own e
    obtain ⟨⟨rfl, rfl⟩, rfl, rfl⟩ := net_exec e
    have own : w'.process i = identity := own
    exact own ▸ update_self ..
  case refine_2 => exact Spec.pure fun _ _ hs => ⟨(identity, n), hs, rfl⟩

theorem bind_spec {name : String} {config : ChannelConfig} :
    Yields ⊤ (Listener.bind name config) fun _ => (⊤ : Assertion (protocol plat) i) := by
  refine Spec.bind listenerIncarnation_yields fun incarnation => Spec.ex fun d => Spec.assume fun same => ?_
  refine idle_act .fact (by exact trivial) fun _ => ?_
  refine net_act (a := .bind (handshakePath name)) (gained fun k => drew d ⊓ socket k (handshakePath name))
    (fun _ _ _ => trivial) ?_ fun r => ?_
  case refine_1 =>
    rintro ⟨⟨w, n⟩, g⟩ r ⟨⟨w', n'⟩, g'⟩ _ hs e
    obtain ⟨step, rfl, rfl⟩ := net_exec e
    obtain ⟨_, rfl, rfl⟩ | ⟨⟨_⟩, rfl⟩ := step
    case inl => exact ⟨hs, Nat.lt_succ_self _, update_self ..⟩
    case inr => trivial
  case refine_2 =>
    cases r
    case error => exact Yields.fails
    case ok k  =>
      refine Spec.perform (fun s _ hs => ?_) fun _ _ _ _ _ _ => trivial
      exact ⟨hs.right.left, hs.right.right, d, hs.left, rfl, same, rfl⟩

theorem drop_spec : Yields (has l x) (Listener.drop l) fun _ => (⊤ : Assertion (protocol plat) i) := by
  refine (getListener_yields .top (Spec.pre ?_ fun _ _ hs => hs.left)).pre fun _ _ hs => ⟨hs, trivial⟩
  exact idle_act .fact (by exact trivial) fun _ => Spec.perform (fun _ _ hs => hs.right.left) fun _ _ _ _ _ _ => trivial

theorem giveListener_spec {j : ThreadId} :
    Yields (has l x) (net (.giveListener l j)) fun _ => (⊤ : Assertion (protocol plat) i) :=
  Spec.perform (fun _ _ hs => hs.right.left) fun _ _ _ _ _ _ => trivial

theorem cleanup_spec {name : String} : Yields ⊤ (Listener.cleanup name) fun _ => (⊤ : Assertion (protocol plat) i) :=
  idle_act .top (by exact trivial) fun _ => Spec.pure le_rfl

-- The client has opened the file that the server has created for its stream.
def joined (name : String) (ch : Channel) : Assertion (protocol plat) i :=
  ex fun st => ex fun t => ex fun f =>
    dialer st (handshakePath name) ⊓ paired st t f ⊓ mapped ch.shared f ⊓ .const (t.name = name)

theorem joined_of_opened {name : String} {ch : Channel} :
    (opened (dialer st (handshakePath name) ⊓ paired st t f) t.text ch : Assertion (protocol plat) i) ≤
    joined name ch := by
  rintro s inv ⟨f', ⟨⟨dialer, paired⟩, old, named⟩, mapped⟩
  obtain ⟨lt, ticket, served⟩ := paired
  -- the file that has the name of this stream is the one of this stream
  obtain ⟨st', ticket', served'⟩ := inv.files.made f' old t named
  obtain rfl := inv.numbers.own _ _ _ ticket ticket'
  obtain rfl : f = f' := Option.some.inj (served.symm.trans served')
  have at_ := (inv.queues.ticket _ _ ticket).right
  have same : t.name = name := handshakePath_inj (at_.symm.trans dialer.right)
  exact ⟨st, t, f, ⟨⟨⟨dialer, lt, ticket, served⟩, mapped⟩, same⟩⟩

theorem joins {name connName : String} {p : SiteRoutine Channel}
    (opens : ∀ {P : Assertion (protocol plat) i}, Steady P → Yields P p (opened P connName)) :
    Yields (ex fun t => ex fun f => dialer st (handshakePath name) ⊓ paired st t f ⊓ .const (connName = t.text)) p
      (joined name : Channel → Assertion (protocol plat) i) := by
  refine Spec.ex fun t => Spec.ex fun f => Spec.assume fun same => ?_
  have steady : Steady (dialer st (handshakePath name) ⊓ paired st t f : Assertion (protocol plat) i) :=
    Steady.fact.inf .fact
  exact (opens steady).post (fun ch => same ▸ joined_of_opened) fun _ => le_rfl

theorem connect_spec {name : String} {config : ChannelConfig} :
    Yields ⊤ (connect name config) (joined name : Channel → Assertion (protocol plat) i) := by
  refine Spec.bind (world_only .top currentIdentity_harmless) fun _ => now_act .top fun t => ?_
  refine Spec.bind dial_yields fun st => Spec.bind readConnName_yields fun connName => joins openWithConfig_yields

theorem connectAsync_spec {name : String} {config : ChannelConfig} :
    Yields ⊤ (Tokio.connect name config) (joined name : Channel → Assertion (protocol plat) i) := by
  refine Spec.bind (world_only .top currentIdentity_harmless) fun _ => now_act .top fun t => ?_
  refine Spec.bind dial_yields fun st => Spec.bind readConnName_yields fun connName => joins openChannel_yields

end Sessions

-- What a thread can call.
inductive Operation
  | bind (name : String) (config : ChannelConfig)
  | accept (l : ListenerId)
  | acceptTimeout (l : ListenerId) (timeout : Nat)
  | acceptAsync (l : ListenerId)
  | acceptTimeoutAsync (l : ListenerId)
  | dropListener (l : ListenerId)
  | giveListener (l : ListenerId) (j : ThreadId)
  | cleanup (name : String)
  | connect (name : String) (config : ChannelConfig)
  | connectAsync (name : String) (config : ChannelConfig)
  -- a single step of anything else, which makes no file for a connection
  | env (a : Act) (other : ∀ t : Ticket, a ≠ .createNew (shmPath t.text))

namespace Operation

@[reducible]
def Answer : Operation → Type
  | bind ..                                                                          => ListenerId
  | accept _ | acceptTimeout .. | acceptAsync _ | acceptTimeoutAsync _               => Channel
  | connect .. | connectAsync ..                                                     => Channel
  | dropListener _ | giveListener .. | cleanup _                                     => Unit
  | env a _                                                                          => a.Ret

def code : (o : Operation) → SiteRoutine o.Answer
  | bind name config         => Listener.bind name config
  | accept l                 => Listener.accept l
  | acceptTimeout l timeout  => Listener.acceptTimeout l timeout
  | acceptAsync l            => Tokio.accept l
  | acceptTimeoutAsync l     => Tokio.acceptTimeout l
  | dropListener l           => Listener.drop l
  | giveListener l j         => net (.giveListener l j)
  | cleanup name             => Listener.cleanup name
  | connect name config      => Handshake.connect name config
  | connectAsync name config => Tokio.connect name config
  | env a _                  => world (Code.perform a)

-- The listener that an operation borrows.
def listener : Operation → Option ListenerId
  | accept l | acceptTimeout l _ | acceptAsync l | acceptTimeoutAsync l | dropListener l | giveListener l _ => some l
  | _                                                                                                   => none

-- The operations that are futures.
def Async : Operation → Prop
  | acceptAsync _ | acceptTimeoutAsync _ | connectAsync .. => True
  | _                                                      => False

instance : DecidablePred Async := fun o => by
  cases o
  case acceptAsync | acceptTimeoutAsync | connectAsync => exact isTrue trivial
  all_goals exact isFalse id

end Operation

-- Where a future can be dropped.
def Suspends : SiteAct → Prop
  | .inr (.acceptAsync ..) | .inr (.connect _) | .inr (.write ..) | .inr (.flush _) | .inr (.read ..)
    | .inr .sleep => True
  | _ => False

instance : DecidablePred Suspends := fun a => by
  rcases a with a | a
  · exact isFalse id
  cases a
  case acceptAsync | connect | write | flush | read | sleep => exact isTrue trivial
  all_goals exact isFalse id

-- The operations that need a listener are called by the thread that holds it.
def Callable (i : ThreadId) (o : Operation) (s : State) : Prop :=
  ∀ l ∈ o.listener, s.fst.snd.holder l = i ∧ (s.fst.snd.listener l).isSome

instance decidableCallable (i : ThreadId) (o : Operation) (s : State) : Decidable (Callable i o s) :=
  inferInstanceAs (Decidable (∀ l ∈ o.listener, _))

-- There are no files and no sockets at first.
structure Initial (s : State) : Prop where
  world    : (∀ p, s.fst.fst.path p = none) ∧ s.fst.fst.files = 0 ∧ ∀ h, s.fst.fst.shared h = none
  memory   : (∀ l, s.fst.snd.listener l = none) ∧ s.fst.snd.listeners = 0
  sockets  : (∀ p, s.fst.snd.bound p = none) ∧ ∀ k, s.fst.snd.backlog k = []
  streams  : s.fst.snd.streams = 0
  track    : ∀ i, s.snd.drawn i = none ∧ s.snd.serving i = none ∧ s.snd.dialing i = none
  unnamed  : ∀ st, s.snd.ticket st = none ∧ s.snd.served st = none

theorem Initial.inv (h : Initial s) : Inv s where
  numbers := by
    obtain ⟨listener, listeners⟩ := h.memory
    exact {
      drawn i _ _ hd := by simp [(h.track i).left] at hd
      once i _ _ hd  := by simp [(h.track i).left] at hd
      below l lt     := by simp [listeners] at lt
      fresh i l lt   := by simp [listeners] at lt
      apart l _ lt   := by simp [listeners] at lt
      parts l _ hx   := by simp [listener] at hx
      used st _ ht   := by simp [(h.unnamed st).left] at ht
      own st _ _ ht  := by simp [(h.unnamed st).left] at ht }
  queues := {
      bound p _ hp     := by simp [h.sockets.left] at hp
      inner l _ hx     := by simp [h.memory.left] at hx
      waiting k _ hk   := by simp [h.sockets.right] at hk
      once k           := by simp [h.sockets.right]
      apart k _ _ hk   := by simp [h.sockets.right] at hk
      serving i _ hi   := by simp [(h.track i).right.left] at hi
      server i _ _ hi  := by simp [(h.track i).right.left] at hi
      dialing i _ hi   := by simp [(h.track i).right.right] at hi
      client i _ _ hi  := by simp [(h.track i).right.right] at hi
      ticket st _ ht   := by simp [(h.unnamed st).left] at ht }
  files := by
    obtain ⟨path, files, _⟩ := h.world
    exact {
      path p _ hp    := by simp [path] at hp
      short f lt     := by simp [files] at lt
      made f lt      := by simp [files] at lt
      served st _ hs := by simp [(h.unnamed st).right] at hs
      sent st lt     := by simp [h.streams] at lt }
  handles k _ hk := by simp [h.world.right.right] at hk

def handshakes : System ThreadId SiteAct SiteRet State where
  Op       := Operation
  Ret o    := Except Error o.Answer
  body _ o := o.code
  callable := Callable
  init     := Initial

theorem has_of_callable {o : Operation} {l : ListenerId} (inv : Inv s) (hl : l ∈ o.listener) (can : Callable i o s) :
    ∃ x, (has l x : Assertion (protocol plat) i) s := by
  obtain ⟨holder, present⟩ := can l hl
  obtain ⟨x, hx⟩ := Option.isSome_iff_exists.mp present
  exact ⟨x, (inv.numbers.parts l x hx).left, holder, hx⟩

-- What is known of the answer of an operation.
def told : (o : Operation) → o.Answer → Assertion (protocol plat) i
  | .accept _, ch | .acceptTimeout .., ch | .acceptAsync _, ch | .acceptTimeoutAsync _, ch => handed ch
  | .connect name _, ch | .connectAsync name _, ch                                         => joined name ch
  | _, _                                                                                   => ⊤

theorem env_spec {a : Act} (other : ∀ t : Ticket, a ≠ .createNew (shmPath t.text)) :
    Yields ⊤ (world (Code.perform a)) fun _ => (⊤ : Assertion (protocol plat) i) := by
  refine Spec.perform (a := Sum.inl a) (fun s _ _ => ?_) fun _ _ _ _ _ _ => trivial
  cases a
  case createNew p =>
    refine .inl fun t => ?_
    rintro rfl
    exact other t rfl
  all_goals trivial

theorem exists_spec {o : Operation} (inv : Inv s) (can : Callable i o s) :
    ∃ P : Assertion (protocol plat) i, P s ∧ Yields P o.code (told o) := by
  have held {l : ListenerId} (hl : l ∈ o.listener) : ∃ x, (has l x : Assertion (protocol plat) i) s :=
    has_of_callable inv hl can
  cases o
  case bind                 => exact ⟨⊤, trivial, bind_spec⟩
  case accept               => exact (held rfl).elim fun x hx => ⟨has _ x, hx, accept_spec⟩
  case acceptTimeout        => exact (held rfl).elim fun x hx => ⟨has _ x, hx, acceptTimeout_spec⟩
  case acceptAsync          => exact (held rfl).elim fun x hx => ⟨has _ x, hx, acceptWith_spec⟩
  case acceptTimeoutAsync   => exact (held rfl).elim fun x hx => ⟨has _ x, hx, acceptWith_spec⟩
  case dropListener         => exact (held rfl).elim fun x hx => ⟨has _ x, hx, drop_spec⟩
  case giveListener         => exact (held rfl).elim fun x hx => ⟨has _ x, hx, giveListener_spec⟩
  case cleanup              => exact ⟨⊤, trivial, cleanup_spec⟩
  case connect              => exact ⟨⊤, trivial, connect_spec⟩
  case connectAsync         => exact ⟨⊤, trivial, connectAsync_spec⟩
  case env a other          => exact ⟨⊤, trivial, env_spec other⟩

def verified (plat : Platform) : Verified handshakes (protocol plat) where
  idle _       := ⊤
  post _ o _ v := outcome (told o) (fun _ => ⊤) v
  init h       := ⟨h.inv, fun _ => trivial⟩
  spec {i o s} hi _ can := by
    have ⟨P, hp, spec⟩ := @exists_spec plat i s o hi can
    exact ⟨P, hp, Program.Triple.post (fun _ _ _ hs => ⟨trivial, hs⟩) spec⟩

-- Dropped futures.

-- The actions after which a thread still has its listener.
def Retains : SiteAct → Prop
  | .inr (.freeListener _) | .inr (.giveListener ..) => False
  | _                                               => True

def owns (l : ListenerId) : Assertion (protocol plat) i :=
  ex fun x => has l x

theorem owns_kept {l : ListenerId} {a : SiteAct} {r : SiteRet a} (ha : Retains a) (e : (machine plat).exec i a s r s')
    (hs : (owns l : Assertion (protocol plat) i) s) : (owns l : Assertion (protocol plat) i) s' := by
  obtain ⟨⟨w, n⟩, g⟩ := s
  obtain ⟨⟨w', n'⟩, g'⟩ := s'
  obtain ⟨x, lt, holder, found⟩ := hs
  cases a
  case inl a =>
    obtain ⟨_, rfl, _⟩ := world_exec e
    exact ⟨x, lt, holder, found⟩
  case inr a =>
    obtain ⟨step, rfl, rfl⟩ := net_exec e
    cases a
    case freeListener | giveListener => exact ha.elim
    case newListener y =>
      obtain ⟨rfl, rfl⟩ := step
      have old : l ≠ n.listeners := Nat.ne_of_lt lt
      exact ⟨x, Nat.lt_succ_of_lt lt, by simpa [old] using holder, by simpa [old] using found⟩
    case bumpCounter k =>
      obtain ⟨y, _, rfl⟩ := step
      by_cases same : l = k
      case pos => subst same; exact ⟨{ y with counter := wrap64 (y.counter + 1) }, lt, holder, update_self ..⟩
      case neg => exact ⟨x, lt, holder, by simpa [same] using found⟩
    -- the other actions leave the listeners alone
    case fetchNext | getListener       => obtain ⟨_, rfl⟩ := step; exact ⟨x, lt, holder, found⟩
    case setBlocking | flush | sleep   => obtain rfl := step; exact ⟨x, lt, holder, found⟩
    case removeSocket | setNonblocking => obtain ⟨_, rfl⟩ | ⟨_, rfl⟩ := step <;> exact ⟨x, lt, holder, found⟩
    case bind    => obtain ⟨_, _, rfl⟩ | ⟨_, rfl⟩ := step <;> exact ⟨x, lt, holder, found⟩
    case connect => obtain ⟨_, _, _, rfl⟩ | ⟨_, _, rfl⟩ := step <;> exact ⟨x, lt, holder, found⟩
    case write | read =>
      obtain ⟨_, _, _, rfl⟩ | ⟨_, rfl⟩ | ⟨_, _, rfl⟩ := step <;> exact ⟨x, lt, holder, found⟩
    case accept =>
      obtain ⟨_, _, _, _, rfl⟩ | ⟨_, _, _, rfl⟩ | ⟨_, _, rfl⟩ := step <;> exact ⟨x, lt, holder, found⟩
    case acceptAsync =>
      obtain ⟨_, _, _, _, rfl⟩ | ⟨_, _, rfl⟩ | ⟨_, _, rfl⟩ := step <;> exact ⟨x, lt, holder, found⟩

section Retaining

variable {α : Type}

abbrev Retaining (p : SiteRoutine α) : Prop :=
  Code.Only Retains (fun _ => True) p

theorem world_retaining {p : Routine α} : Retaining (world p) := by
  have all : Code.Only (fun _ => True) (fun _ => True) p :=
    Program.Only.mono (fun _ h => h) (fun | .ok _, _ | .error _, _ => trivial) .all
  have inl : Code.Only (Sum.elim (fun _ => True) fun _ => False) (fun _ => True) (world p) := all.inl
  exact inl.weaken fun
    | .inl _, _ => trivial
    | .inr _, h => h.elim

theorem succeed_retaining {r : Except IoError α} : Retaining (succeed r) := by
  cases r
  case ok    => exact .pure
  case error => exact .throw trivial

theorem writeAll_retaining {st : StreamId} {b : Bytes} : Retaining (writeAll st b) := by
  refine .loop fun left => ?_
  split
  case isTrue => exact .pure
  refine .act trivial fun r => ?_
  rcases r with _ | _ | n
  · exact .pure
  · exact .throw trivial
  · simp only
    split
    case isTrue  => exact .throw trivial
    case isFalse => exact .pure

theorem sendConnName_retaining {st : StreamId} {name : String} : Retaining (sendConnName st name) :=
  .bind writeAll_retaining fun _ => .bind writeAll_retaining fun _ => .act trivial fun _ => succeed_retaining

theorem handshake_retaining {l : ListenerId} {st : StreamId} : Retaining (Listener.handshake l st) := by
  refine .act trivial fun x => .act trivial fun _ => .bind world_retaining fun ch => ?_
  refine .attempt sendConnName_retaining fun r _ => ?_
  cases r
  case ok    => exact .pure
  case error => exact .bind world_retaining fun _ => .throw trivial

theorem acceptWith_retaining {l : ListenerId} {timed : Bool} : Retaining (Tokio.acceptWith l timed) := by
  refine .act trivial fun x => .act trivial fun r => ?_
  cases r
  case none   => exact .throw trivial
  case some r => exact .bind succeed_retaining fun _ => handshake_retaining

end Retaining

abbrev system : System ThreadId SiteAct SiteRet State :=
  handshakes.dropping Suspends Operation.Async

-- A future of a listener that is dropped leaves the listener to its thread.
theorem acceptWith_pausing {l : ListenerId} {timed : Bool} :
    (Tokio.acceptWith l timed).Triple
      ((owns l).pausing : Assertion ((protocol plat).pausing i Suspends (owns l : Assertion (protocol plat) i)) i)
      fun v => (outcome handed (fun _ => ⊤) v).pausing := by
  have spec : Yields (owns l) (Tokio.acceptWith l timed) (handed : Channel → Assertion (protocol plat) i) :=
    Spec.ex fun x => acceptWith_spec
  have pausing : (Tokio.acceptWith l timed).Triple
      ((owns l ⊓ owns l).pausing : Assertion ((protocol plat).pausing i Suspends
      (owns l : Assertion (protocol plat) i)) i) _ :=
    Program.Triple.pausing_keeps (fun ha _ _ e hs => owns_kept ha e hs) acceptWith_retaining spec
  refine Program.Triple.pre ?_ (Program.Triple.post (fun v => ?_) pausing)
  · exact fun _ _ hs => ⟨hs, hs⟩
  · exact fun _ _ hs => hs.left.left

theorem connectAsync_pausing {name : String} {config : ChannelConfig} :
    (Tokio.connect name config).Triple
      ((⊤ : Assertion (protocol plat) i).pausing :
        Assertion ((protocol plat).pausing i Suspends (⊤ : Assertion (protocol plat) i)) i)
      fun v => (outcome (joined name) (fun _ => ⊤) v).pausing := by
  have spec : Yields ⊤ (Tokio.connect name config) (joined name : Channel → Assertion (protocol plat) i) :=
    connectAsync_spec
  exact Program.Triple.pauses (D := ⊤) (fun _ _ => trivial) spec

def dropping (plat : Platform) : Verified system (protocol plat) :=
  (verified plat).dropping Suspends Operation.Async (fun _ _ _ => ⊤) fun {i o s} hi _ async can => by
    have held {l : ListenerId} (hl : l ∈ o.listener) : (owns l : Assertion (protocol plat) i) s :=
      has_of_callable hi hl can
    have known {P : Assertion (protocol plat) i} : P ≤ ⊤ ⊓ ⊤ := fun _ _ _ => ⟨trivial, trivial⟩
    cases o
    case acceptAsync l        =>
      exact ⟨owns l, held rfl, known, Program.Triple.post (fun _ _ _ hs => ⟨trivial, hs⟩) acceptWith_pausing⟩
    case acceptTimeoutAsync l =>
      exact ⟨owns l, held rfl, known, Program.Triple.post (fun _ _ _ hs => ⟨trivial, hs⟩) acceptWith_pausing⟩
    case connectAsync         =>
      exact ⟨⊤, trivial, known, Program.Triple.post (fun _ _ _ hs => ⟨trivial, hs⟩) connectAsync_pausing⟩
    all_goals exact async.elim

end Handshake
