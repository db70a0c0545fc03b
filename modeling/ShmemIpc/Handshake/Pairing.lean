import ShmemIpc.Library.Verified
import ShmemIpc.Handshake.Protocol
import ShmemIpc.Execution.Effects

open Function Assertion Code

namespace Handshake

variable {plat : Platform} {i j : ThreadId} {s s' : State}

def protocol (plat : Platform) : Protocol (machine plat) where
  inv       := Inv
  ok        := Ok
  preserves := Inv.preserves

-- What holds as long as the thread itself takes no step that matters here.
structure Steady (P : Assertion (protocol plat) i) : Prop where
  kept : ∀ {s s'}, Inv s → Leaves i s s' → Grows s s' → P s → P s'

structure Fact (i : ThreadId) where
  holds : State → Prop
  kept  : ∀ {s s'}, Inv s → Leaves i s s' → Grows s s' → holds s → holds s'

def steady (F : Fact i) : Assertion (protocol plat) i where
  holds                 := F.holds
  stable ne inv ok e h  := F.kept inv (leaves inv ne ok e) (grows ok e) h

namespace Steady

variable {P Q : Assertion (protocol plat) i}

theorem fact {F : Fact i} : Steady (steady F : Assertion (protocol plat) i) :=
  ⟨F.kept⟩

theorem top : Steady (⊤ : Assertion (protocol plat) i) :=
  ⟨fun _ _ _ h => h⟩

theorem const {p : Prop} : Steady (.const p : Assertion (protocol plat) i) :=
  ⟨fun _ _ _ h => h⟩

theorem inf (hp : Steady P) (hq : Steady Q) : Steady (P ⊓ Q) :=
  ⟨fun inv l g h => ⟨hp.kept inv l g h.left, hq.kept inv l g h.right⟩⟩

end Steady

-- What a thread holds.
def has (l : ListenerId) (x : Listener) : Assertion (protocol plat) i :=
  steady {
    holds s := l < s.fst.snd.listeners ∧ s.fst.snd.holder l = i ∧ s.fst.snd.listener l = some x
    kept _ leaves _ h :=
      have ⟨lt, holder, same⟩ := leaves.listener l h.left h.right.left
      ⟨lt, holder, same.trans h.right.right⟩ }

def drew (d : ProcessIdentity × Nat) : Assertion (protocol plat) i :=
  steady {
    holds s           := s.snd.drawn i = some d
    kept _ leaves _ h := leaves.drawn.trans h }

-- The thread serves a stream, which has this name and this file, and on which it has sent these bytes.
def serves (st : StreamId) (t : Option Ticket) (f : Option FileId) (b : Bytes) : Assertion (protocol plat) i :=
  steady {
    holds s := s.snd.serving i = some st ∧ s.snd.ticket st = t ∧ s.snd.served st = f ∧ s.fst.snd.sent st = b
    kept _ leaves _ h :=
      have ⟨ticket, served, sent⟩ := leaves.server st h.left
      ⟨leaves.serving.trans h.left, ticket.trans h.right.left, served.trans h.right.right.left,
        sent.trans h.right.right.right⟩ }

-- The thread has dialled a stream, and has read these bytes.
def dials (st : StreamId) (b : Bytes) : Assertion (protocol plat) i :=
  steady {
    holds s := s.snd.dialing i = some st ∧ s.fst.snd.read st = b.length ∧ b <+: s.fst.snd.sent st
    kept inv leaves grows h :=
      ⟨leaves.dialing.trans h.left, (leaves.client st h.left).trans h.right.left,
        h.right.right.trans (grows.sent st (inv.queues.dialing _ st h.left))⟩ }

-- What remains true.

def socket (k : SocketId) (p : String) : Assertion (protocol plat) i :=
  steady {
    holds s           := k < s.fst.snd.sockets ∧ s.snd.address k = p
    kept _ _ grows h  := (grows.socket k h.left).imp_right (·.trans h.right) }

def dialled (st : StreamId) (p : String) : Assertion (protocol plat) i :=
  steady {
    holds s           := st < s.fst.snd.streams ∧ s.snd.dialled st = p
    kept _ _ grows h  := (grows.stream st h.left).imp_right (·.trans h.right) }

def named (f : FileId) (p : String) : Assertion (protocol plat) i :=
  steady {
    holds s           := f < s.fst.fst.files ∧ s.snd.name f = p
    kept _ _ grows h  := (grows.file f h.left).imp_right (·.trans h.right) }

def mapped (h : Handle) (f : FileId) : Assertion (protocol plat) i :=
  steady {
    holds s            := h < s.fst.fst.handles ∧ s.snd.file h = f
    kept _ _ grows hs  := (grows.handle h hs.left).imp_right (·.trans hs.right) }

def paired (st : StreamId) (t : Ticket) (f : FileId) : Assertion (protocol plat) i :=
  steady {
    holds s          := st < s.fst.snd.streams ∧ s.snd.ticket st = some t ∧ s.snd.served st = some f
    kept _ _ grows h :=
      ⟨(grows.stream st h.left).left, grows.ticket st h.left t h.right.left, grows.served st h.left f h.right.right⟩ }

-- The code of a channel matters only where it creates a file.

def Harmless (a : Act) : Prop :=
  ¬ Creates a

theorem harmless_of_signals {a : Act} (h : a.Signals) : Harmless a := by
  cases a
  case createNew => exact h.elim
  all_goals exact id

-- The actions of the net at which no thread looks but the one that takes them.
def Idle : Net.Act → Prop
  | .getListener _ | .removeSocket _ | .setNonblocking .. | .setBlocking _ | .flush _ | .sleep => True
  | _                                                                                         => False

def Minor : SiteAct → Prop :=
  Sum.elim Harmless Idle

theorem Minor.leaves {a : SiteAct} {r : SiteRet a} (ha : Minor a) (e : (machine plat).exec i a s r s') :
    Leaves i s s' := by
  obtain ⟨⟨w, n⟩, g⟩ := s
  obtain ⟨⟨w', n'⟩, g'⟩ := s'
  cases a
  case inl a =>
    obtain ⟨_, rfl, h⟩ := world_exec e
    obtain rfl := Eq.trans h (record_world ha)
    exact { Leaves.refl with }
  case inr a =>
    obtain ⟨step, rfl, rfl⟩ := net_exec e
    cases a
    case removeSocket | setNonblocking => obtain ⟨_, rfl⟩ | ⟨_, rfl⟩ := step <;> exact { Leaves.refl with }
    case getListener                   => obtain ⟨_, rfl⟩ := step; exact { Leaves.refl with }
    case setBlocking | flush | sleep   => obtain rfl := step; exact { Leaves.refl with }
    all_goals exact ha.elim

theorem Minor.ok {a : SiteAct} (ha : Minor a) : Ok i a s := by
  cases a
  case inl a =>
    cases a
    case createNew => exact absurd trivial ha
    all_goals trivial
  case inr a => cases a <;> trivial

theorem Steady.keeps {P : Assertion (protocol plat) i} (hp : Steady P) : P.Keeps Minor where
  ok ha _ _        := ha.ok
  kept ha inv h e  := hp.kept inv (ha.leaves e) (grows ha.ok e) h

section Worlds

variable {α β : Type} {P : Assertion (protocol plat) i} {N : β → Assertion (protocol plat) i}

-- The errors tell nothing.
abbrev Yields (P : Assertion (protocol plat) i) (p : SiteRoutine β) (N : β → Assertion (protocol plat) i) : Prop :=
  Spec P p N fun _ => ⊤

-- What is known of an answer, if it is no error.
def gained {ε α : Type} (M : α → Assertion (protocol plat) i) : Except ε α → Assertion (protocol plat) i :=
  outcome M fun _ => ⊤

-- As above, for an action which leaves alone what was known unless it succeeds.
def changed {α : Type} (M : α → Assertion (protocol plat) i) (P : Assertion (protocol plat) i) :
    Option (Except IoError α) → Assertion (protocol plat) i
  | some (.ok x) => M x
  | _            => P

theorem Yields.fails {e : Error} : Yields P (Code.throw e) N :=
  Spec.throw fun _ _ _ => trivial

theorem world_act {a : Act} (hp : Steady P) (ha : Harmless a) {f : a.Ret → Routine β}
    (hf : ∀ r, Yields P (f r).inl N) : Yields P (Code.perform a >>= f).inl N :=
  Code.inl_bind ▸ Spec.skip (a := Sum.inl a) hp.keeps ha hf

theorem world_keep {a : Act} (hp : Steady P) (ha : Harmless a) (F : a.Ret → Assertion (protocol plat) i)
    {f : a.Ret → Routine β}
    (step : ∀ s r s', Inv s → P s → (machine plat).exec i (.inl a) s r s' → F r s')
    (hf : ∀ r, Yields (P ⊓ F r) (f r).inl N) : Yields P (Code.perform a >>= f).inl N :=
  Code.inl_bind ▸ Spec.keep (S := Minor) (a := Sum.inl a) hp.keeps ha F step hf

theorem world_pass {p : Routine α} {F : Error → Prop} (hp : Steady P) (ho : Code.Only Harmless F p)
    {f : α → Routine β} (hf : ∀ x, Yields P (f x).inl N) : Yields P (p >>= f).inl N :=
  Code.inl_bind ▸ Spec.pass hp.keeps ho.inl (fun _ _ _ _ _ => trivial) hf

theorem world_only {p : Routine β} {F : Error → Prop} (hp : Steady P) (ho : Code.Only Harmless F p) :
    Yields P (world p) fun _ => P :=
  (Spec.only hp.keeps ho.inl).post (fun _ => le_rfl) fun _ _ _ _ => trivial

theorem orFail_harmless {r : Except IoError α} : Code.Only Harmless (fun _ => True) (orFail r) := by
  cases r
  case ok    => exact .pure
  case error => exact .throw trivial

theorem reads_harmless {p : Routine α} {F : Error → Prop} (h : Code.Only Act.Reads F p) : Code.Only Harmless F p :=
  h.weaken fun _ ha => harmless_of_signals ha.signals

theorem signals_harmless {p : Routine α} {F : Error → Prop} (h : Code.Only Act.Signals F p) : Code.Only Harmless F p :=
  h.weaken fun _ => harmless_of_signals

theorem ends_harmless {p : Routine α} {F : Error → Prop} (h : Code.Only Act.Ends F p) : Code.Only Harmless F p :=
  h.weaken fun a ha => by cases a <;> first | exact ha.elim | exact id

theorem ofExcept_harmless {x : Except Error α} : Code.Only Harmless (fun _ => True) (Code.ofExcept x : Routine α) :=
  .ofExcept fun _ _ => trivial

theorem currentIdentity_harmless : Code.Only Harmless (fun _ => True) currentIdentity :=
  (reads_harmless Effects.currentIdentity_reads).mono fun _ _ => trivial

theorem initHeader_harmless {f : FileId} {config : ChannelConfig} {identity : ProcessIdentity} {key : Nat} :
    Code.Only Harmless (fun _ => True) (Channel.initHeader f config identity key) := by
  have stores {w : Word} {v : Nat} {note : Note} : Harmless (.store w v note) := id
  have ring {header : Nat} : Code.Only Harmless (fun _ => True) (Channel.initRingHeader f header) :=
    .act stores fun _ => .act stores fun _ => .act stores fun _ => .act stores fun _ =>
    .act stores fun _ => .perform stores
  refine .act stores fun _ => .act stores fun _ => .act stores fun _ => .act stores fun _ => .act stores fun _ => ?_
  exact .act stores fun _ => .act stores fun _ => .act stores fun _ => .bind ring fun _ => ring

theorem fromShared_yields {h : Handle} {config : ChannelConfig} (hp : Steady P) :
    Yields P (Channel.fromShared h config).inl fun ch => P ⊓ .const (ch.shared = h) := by
  refine world_act hp (by exact id) fun _ => world_act hp (by exact id) fun _ => world_act hp (by exact id) fun _ => ?_
  exact Spec.pure fun _ _ hs => ⟨hs, rfl⟩

theorem newShared_yields {x : SharedChannel} {peer : Option ProcessIdentity} {f : Handle → Routine β} (hp : Steady P)
    (hf : ∀ h, Yields (P ⊓ mapped h x.base) (f h).inl N) : Yields P (newShared x peer >>= f).inl N := by
  refine world_keep hp (by exact id) (fun h => mapped h x.base) ?_ hf
  rintro ⟨⟨w, n⟩, g⟩ h ⟨⟨w', n'⟩, g'⟩ _ _ ⟨⟨⟨e, _⟩, _⟩, rfl⟩
  obtain ⟨rfl, rfl⟩ := e
  exact ⟨Nat.lt_succ_self _, update_self ..⟩

-- The channel that is created is in the file that is created.
theorem createWithConfig_yields {name : String} {config : ChannelConfig} {Q : FileId → Assertion (protocol plat) i}
    (hp : Steady P) (hq : ∀ f, Steady (Q f)) (may : ∀ s, Inv s → P s → MayCreate s.snd i (shmPath name))
    (creates : ∀ s f s', Inv s → P s → (machine plat).exec i (.inl (.createNew (shmPath name))) s (.ok f) s' → Q f s') :
    Yields P (world (Channel.createWithConfig name config)) fun ch => ex fun f => Q f ⊓ mapped ch.shared f := by
  refine world_pass hp ofExcept_harmless fun _ => world_pass hp currentIdentity_harmless fun identity => ?_
  refine world_act hp (by exact id) fun key => world_act hp (by exact id) fun r =>
    world_pass hp orFail_harmless fun _ => ?_
  refine Code.inl_bind ▸ Spec.act (a := Sum.inl (Act.createNew (shmPath name))) (gained Q) may
    (fun s r s' inv h e => ?_) fun r => ?_
  case refine_1 =>
    cases r
    case ok    => exact creates s _ s' inv h e
    case error => trivial
  case refine_2 =>
    cases r
    case error => exact Yields.fails
    case ok f  =>
      refine world_act (hq f) (by exact id) fun r => world_pass (hq f) orFail_harmless fun _ => ?_
      refine world_act (hq f) (by exact id) fun r => world_pass (hq f) orFail_harmless fun _ => ?_
      refine world_pass (hq f) initHeader_harmless fun _ => ?_
      refine world_act (hq f) (by exact id) fun _ => world_act (hq f) (by exact id) fun _ => ?_
      refine newShared_yields (hq f) fun h => ?_
      have hm : Steady (Q f ⊓ mapped h f) := (hq f).inf .fact
      refine (fromShared_yields hm).post (fun ch => ?_) fun _ => le_rfl
      rintro s _ ⟨hs, rfl⟩
      exact ⟨f, hs⟩

theorem validateHeader_harmless {f : FileId} {n : Nat} {config : ChannelConfig} :
    Code.Only Harmless (fun _ => True) (Channel.validateHeader f n config) := by
  have loads {w : Word} : Harmless (.load w) := id
  refine .act loads fun magic => ?_
  split
  case isTrue => exact .throw trivial
  refine .act loads fun version => ?_
  split
  case isTrue => exact .throw trivial
  refine .act loads fun size => ?_
  split
  case isTrue => exact .throw trivial
  exact .act loads fun _ => .act loads fun _ => .pure

theorem claim_harmless {f : FileId} {identity : ProcessIdentity} :
    Code.Only Harmless (fun _ => True) (Channel.claim f identity) := by
  have exchanges {w : Word} {n m : Nat} : Harmless (.compareExchange w n m) := id
  have stores {w : Word} {v : Nat} {note : Note} : Harmless (.store w v note) := id
  refine .act exchanges fun r => ?_
  cases r
  case error => exact .throw trivial
  refine .act stores fun _ => .act stores fun _ => .act exchanges fun r => ?_
  cases r
  case error => exact .throw trivial
  case ok    => exact .pure

-- The channel that is opened is in the file of the name.
def opened (P : Assertion (protocol plat) i) (name : String) (ch : Channel) : Assertion (protocol plat) i :=
  ex fun f => P ⊓ named f (shmPath name) ⊓ mapped ch.shared f

theorem tryOpen_yields {name : String} {config : ChannelConfig} {identity : ProcessIdentity} (hp : Steady P) :
    Yields P (world (Channel.tryOpen name config identity)) fun o => o.elim P (opened P name) := by
  refine world_keep hp (by exact id) (gained fun f => named f (shmPath name)) ?_ fun r => ?_
  case refine_1 =>
    rintro ⟨⟨w, n⟩, g⟩ r ⟨⟨w', n'⟩, g'⟩ inv _ ⟨⟨⟨⟨same, found⟩, _⟩, _⟩, rfl⟩
    obtain rfl : w' = w := same
    cases r
    case error => trivial
    case ok f  =>
      cases at_ : w'.path (shmPath name)
      case none   => simp only [at_] at found
      case some b =>
        simp only [at_] at found
        exact found ▸ inv.files.path _ _ at_
  case refine_2 =>
    cases r
    case error e =>
      suffices ends : Yields P (Code.inl (if e.kind = .notFound then Pure.pure none else fail (.io e))) fun o =>
          o.elim P (opened P name) from ends.pre fun _ _ hs => hs.left
      split
      case isTrue  => exact Spec.pure fun _ _ hs => hs
      case isFalse => exact Yields.fails
    case ok f =>
      have hp : Steady (P ⊓ named f (shmPath name)) := hp.inf .fact
      have absent : Yields (P ⊓ named f (shmPath name)) (Code.inl (Pure.pure none)) fun o => o.elim P (opened P name) :=
        Spec.pure fun _ _ hs => hs.left
      refine world_act hp (by exact id) fun r => world_pass hp orFail_harmless fun len => ?_
      split
      case isTrue => exact absent
      refine world_act hp (by exact id) fun r => world_pass hp orFail_harmless fun mapLen => ?_
      refine world_act hp (by exact id) fun state => ?_
      split
      case h_2 => exact absent
      case h_1 =>
        refine world_pass hp validateHeader_harmless fun server => ?_
        refine world_pass hp (reads_harmless Effects.open_reads) fun _ => world_act hp (by exact id) fun _ => ?_
        refine world_act hp (by exact id) fun r => world_pass hp orFail_harmless fun _ => ?_
        refine world_pass hp claim_harmless fun _ => world_act hp (by exact id) fun started => ?_
        refine newShared_yields hp fun h => ?_
        have hm : Steady (P ⊓ named f (shmPath name) ⊓ mapped h f) := hp.inf .fact
        refine world_pass hm (signals_harmless (Effects.wakeAll_signals (F := fun _ => True))) fun _ => ?_
        refine Spec.inl_bind (fromShared_yields hm) fun ch => Spec.pure ?_
        rintro s _ ⟨hs, rfl⟩
        exact ⟨f, hs⟩
      all_goals exact Yields.fails

theorem openWithConfig_yields {name : String} {config : ChannelConfig} (hp : Steady P) :
    Yields P (world (Channel.openWithConfig name config)) (opened P name) := by
  refine world_pass hp ofExcept_harmless fun _ => world_pass hp currentIdentity_harmless fun identity => ?_
  refine world_act hp (by exact id) fun t => Code.inl_loop ▸ Spec.loop (fun _ => P) le_rfl fun _ => ?_
  refine Spec.inl_bind (tryOpen_yields hp) fun o => ?_
  cases o
  case some ch => exact Spec.pure le_rfl
  case none    =>
    refine world_act hp (by exact id) fun t => ?_
    split
    case isTrue  => exact Yields.fails
    case isFalse => exact Spec.pure le_rfl

theorem net_act {a : Net.Act} {f : a.Ret → SiteRoutine β} (M : a.Ret → Assertion (protocol plat) i)
    (ok : ∀ s, Inv s → P s → Ok i (.inr a) s)
    (step : ∀ s r s', Inv s → P s → (machine plat).exec i (.inr a) s r s' → M r s')
    (hf : ∀ r, Yields (M r) (f r) N) : Yields P (net a >>= f) N :=
  Spec.act M ok step hf

theorem idle_act {a : Net.Act} (hp : Steady P) (ha : Idle a) {f : a.Ret → SiteRoutine β}
    (hf : ∀ r, Yields P (f r) N) : Yields P (net a >>= f) N :=
  Spec.skip (a := Sum.inr a) hp.keeps ha hf

theorem now_act (hp : Steady P) {f : Nat → SiteRoutine β} (hf : ∀ t, Yields P (f t) N) : Yields P (world now >>= f) N :=
  Spec.skip (a := Sum.inl Act.now) hp.keeps id hf

theorem ofExcept_yields {x : Except Error α} {f : α → SiteRoutine β} (hf : ∀ y, x = .ok y → Yields P (f y) N) :
    Yields P (Code.ofExcept x >>= f) N := by
  cases x
  case ok y    => exact hf y rfl
  case error e => exact Yields.fails

theorem succeed_yields {x : Except IoError α} {f : α → SiteRoutine β} (hf : ∀ y, x = .ok y → Yields P (f y) N) :
    Yields P (succeed x >>= f) N := by
  cases x
  case ok y    => exact hf y rfl
  case error e => exact Yields.fails

theorem openChannel_yields {name : String} {config : ChannelConfig} (hp : Steady P) :
    Yields P (Tokio.openChannel name config) (opened P name) := by
  refine ofExcept_yields fun _ _ => Spec.bind (world_only hp currentIdentity_harmless) fun identity => ?_
  refine now_act hp fun t => Spec.loop (fun _ => P) le_rfl fun _ => Spec.bind (tryOpen_yields hp) fun o => ?_
  cases o
  case some ch => exact Spec.pure le_rfl
  case none    =>
    refine now_act hp fun t => ?_
    split
    case isTrue  => exact Yields.fails
    case isFalse => exact idle_act hp (by exact trivial) fun _ => Spec.pure le_rfl

end Worlds

section Streams

variable {α β : Type} {P : Assertion (protocol plat) i} {N : β → Assertion (protocol plat) i}
variable {st : StreamId} {t : Ticket} {f : FileId}

theorem writeAll_yields (sent : Bytes) {b rest : Bytes} (whole : sent ++ b ++ rest = frame t.text) :
    Yields (serves st (some t) (some f) sent) (writeAll st b) fun _ =>
      (serves st (some t) (some f) (sent ++ b) : Assertion (protocol plat) i) := by
  -- what has been sent, and what is left
  refine Spec.loop (fun left => ex fun done => serves st (some t) (some f) done ⊓ .const (done ++ left = sent ++ b))
    (fun _ _ hs => ⟨sent, hs, rfl⟩) fun left => Spec.ex fun done => Spec.assume fun same => ?_
  split
  case isTrue empty =>
    obtain rfl := List.isEmpty_iff.mp empty
    exact Spec.pure (by rw [← same, List.append_nil]; exact le_rfl)
  refine net_act (a := .write st left)
    (changed (fun n => serves st (some t) (some f) (done ++ left.take n)) (serves st (some t) (some f) done))
    (fun s _ hs => ?_) (fun s r s' _ hs e => ?_) fun r => ?_
  case refine_1 =>
    obtain ⟨serving, ticket, served, done⟩ := hs
    refine ⟨serving, t, f, ticket, served, ?_⟩
    rw [done, same, ← whole]
    exact List.prefix_append ..
  case refine_2 =>
    obtain ⟨⟨w, n⟩, g⟩ := s
    obtain ⟨⟨w', n'⟩, g'⟩ := s'
    obtain ⟨e, rfl, rfl⟩ := net_exec e
    obtain ⟨serving, ticket, served, done⟩ := hs
    obtain ⟨m, _, rfl, rfl⟩ | ⟨rfl, rfl⟩ | ⟨_, rfl, rfl⟩ := e
    case inl => exact ⟨serving, ticket, served, (update_self ..).trans (congrArg (· ++ _) done)⟩
    all_goals exact ⟨serving, ticket, served, done⟩
  case refine_3 =>
    rcases r with _ | _ | k
    · exact Spec.pure fun _ _ hs => ⟨done, hs, same⟩
    · exact Yields.fails
    · simp only
      split
      case isTrue  => exact Yields.fails
      case isFalse =>
        refine Spec.pure fun _ _ hs => ⟨done ++ left.take k, hs, ?_⟩
        simpa [List.append_assoc] using same

theorem readExact_yields {n : Nat} {b : Bytes} :
    Yields (dials st b) (readExact st n) fun buf =>
      (dials st (b ++ buf) ⊓ .const (buf.length = n) : Assertion (protocol plat) i) := by
  refine Spec.loop (fun buf => dials st (b ++ buf) ⊓ .const (buf.length ≤ n))
    (fun _ _ hs => ⟨by simpa using hs, Nat.zero_le _⟩) fun buf => Spec.assume fun short => ?_
  split
  case isTrue enough => exact Spec.pure fun _ _ hs => ⟨hs, Nat.le_antisymm short enough⟩
  refine net_act (a := .read st (n - buf.length))
    (changed (fun c => dials st (b ++ (buf ++ c)) ⊓ .const (c.length ≤ n - buf.length)) (dials st (b ++ buf)))
    (fun s _ hs => hs.left) (fun s r s' _ hs e => ?_) fun r => ?_
  case refine_1 =>
    obtain ⟨⟨w, k⟩, g⟩ := s
    obtain ⟨⟨w', k'⟩, g'⟩ := s'
    obtain ⟨e, rfl, rfl⟩ := net_exec e
    obtain ⟨dialing, read, sent⟩ := hs
    obtain ⟨m, le, rfl, rfl⟩ | ⟨rfl, rfl⟩ | ⟨_, rfl, rfl⟩ := e
    case inl =>
      have read : k.read st = (b ++ buf).length := read
      obtain ⟨rest, sent⟩ : b ++ buf <+: k.sent st := sent
      have chunk : ((k.sent st).drop (k.read st)).take m = rest.take m := by rw [← sent, read, List.drop_left]
      refine ⟨⟨dialing, ?_, ?_⟩, Nat.le_trans (List.length_take_le ..) le⟩
      case refine_1 => simp [read, Nat.add_assoc]
      case refine_2 =>
        rw [chunk]
        refine ⟨rest.drop m, ?_⟩
        simpa [List.append_assoc] using sent
    all_goals exact ⟨dialing, read, sent⟩
  case refine_2 =>
    rcases r with _ | _ | c
    · exact Spec.pure fun _ _ hs => ⟨hs, short⟩
    · exact Yields.fails
    · simp only
      split
      case isTrue  => exact Yields.fails
      case isFalse =>
        refine Spec.pure fun _ _ hs => ⟨hs.left, ?_⟩
        have le : c.length ≤ n - buf.length := hs.right
        have fits : (buf ++ c).length ≤ n := by rw [List.length_append]; omega
        exact fits

theorem sendConnName_yields :
    Yields (serves st (some t) (some f) []) (sendConnName st t.text) fun _ =>
      (serves st (some t) (some f) (frame t.text) : Assertion (protocol plat) i) := by
  let len := lenToLeBytes (Utf8.encode t.text.toList).length
  have name : len ++ Utf8.encode t.text.toList ++ [] = frame t.text := List.append_nil _
  refine Spec.bind (writeAll_yields [] rfl) fun _ => Spec.bind (writeAll_yields len name) fun _ => ?_
  refine idle_act .fact (by exact trivial) fun r => ?_
  cases r
  case ok    => exact Spec.pure le_rfl
  case error => exact Yields.fails

variable {l : ListenerId} {x : Listener}

theorem getListener_yields (hp : Steady P) {g : Listener → SiteRoutine β} (hg : Yields (has l x ⊓ P) (g x) N) :
    Yields (has l x ⊓ P) (net (.getListener l) >>= g) N := by
  have keeps : (has l x ⊓ P).Keeps Minor := (Steady.fact.inf hp).keeps
  refine Spec.learn (S := Minor) (a := Sum.inr (.getListener l)) keeps trivial (fun _ => ⊤) (fun r => r = x) ?_ ?_
  case refine_1 =>
    rintro ⟨⟨w, n⟩, g⟩ r ⟨⟨w', n'⟩, g'⟩ _ hs e
    obtain ⟨⟨found, _⟩, _, _⟩ := net_exec e
    exact ⟨trivial, Option.some.inj (found.symm.trans hs.left.right.right)⟩
  case refine_2 =>
    rintro _ rfl
    exact hg.pre fun _ _ hs => hs.left

theorem mapped_persistent {h : Handle} {f : FileId} : (mapped h f : Assertion (protocol plat) i).Persistent :=
  ⟨fun _ ok e hs => ((grows ok e).handle h hs.left).imp_right (·.trans hs.right)⟩

theorem dialled_persistent {p : String} : (dialled st p : Assertion (protocol plat) i).Persistent :=
  ⟨fun _ ok e hs => ((grows ok e).stream st hs.left).imp_right (·.trans hs.right)⟩

-- A stream whose server has just taken it.
def taken (l : ListenerId) (x : Listener) (st : StreamId) : Assertion (protocol plat) i :=
  has l x ⊓ (serves st none none [] ⊓ dialled st (handshakePath x.name))

theorem taken_of_pop {w : World} {n : Net} {g : Track} {rest : List StreamId} (inv : Inv ((w, n), g))
    (hs : (has l x : Assertion (protocol plat) i) ((w, n), g)) (hk : n.backlog x.inner = st :: rest) :
    (taken l x st : Assertion (protocol plat) i)
      ((w, { n with backlog := update n.backlog x.inner rest }),
      { g with serving := update g.serving i (some st) }) := by
  have ⟨lt, at_, free, _⟩ := inv.queues.waiting x.inner st (by simp [hk])
  have unserved : g.served st = none := by
    cases served : g.served st
    case none   => rfl
    case some f =>
      have ⟨_, t, ticket, _⟩ := inv.files.served st f served
      exact nomatch free.symm.trans ticket
  have unsent : n.sent st = [] := by
    obtain unsent | ⟨t, _, ticket, _⟩ := inv.files.sent st lt
    case inl => exact unsent
    case inr => exact nomatch free.symm.trans ticket
  exact ⟨hs, ⟨update_self .., free, unserved, unsent⟩, lt, at_.trans (inv.queues.inner l x hs.right.right).right⟩

def polled (l : ListenerId) (x : Listener) : Option (Except IoError StreamId) → Assertion (protocol plat) i :=
  changed (taken l x) (has l x)

theorem accept_yields {g : Option (Except IoError StreamId) → SiteRoutine β} (hg : ∀ r, Yields (polled l x r) (g r) N) :
    Yields (has l x) (net (.accept x.inner) >>= g) N := by
  refine net_act (a := .accept x.inner) (polled l x) (fun _ _ _ => trivial) ?_ hg
  rintro ⟨⟨w, n⟩, g⟩ r ⟨⟨w', n'⟩, g'⟩ inv hs e
  obtain ⟨step, rfl, rfl⟩ := net_exec e
  obtain ⟨st, rest, hk, rfl, rfl⟩ | ⟨_, _, rfl, rfl⟩ | ⟨_, rfl, rfl⟩ := step
  case inl => exact taken_of_pop inv hs hk
  all_goals exact hs

theorem acceptAsync_yields {timed : Bool} {g : Option (Except IoError StreamId) → SiteRoutine β}
    (hg : ∀ r, Yields (polled l x r) (g r) N) : Yields (has l x) (net (.acceptAsync x.inner timed) >>= g) N := by
  refine net_act (a := .acceptAsync x.inner timed) (polled l x) (fun _ _ _ => trivial) ?_ hg
  rintro ⟨⟨w, n⟩, g⟩ r ⟨⟨w', n'⟩, g'⟩ inv hs e
  obtain ⟨step, rfl, rfl⟩ := net_exec e
  obtain ⟨st, rest, hk, rfl, rfl⟩ | ⟨_, rfl, rfl⟩ | ⟨_, rfl, rfl⟩ := step
  case inl => exact taken_of_pop inv hs hk
  all_goals exact hs

theorem Listener.Makes.connName (h : x.Makes t) : x.connName = t.text := by
  rw [Listener.connName, h.name, h.incarnation, h.counter, Ticket.text]

-- The stream has got its name.
def ticketed (l : ListenerId) (x : Listener) (st : StreamId) : Assertion (protocol plat) i :=
  ex fun t => ex fun y => has l y ⊓ serves st (some t) none [] ⊓ .const (x.connName = t.text)

theorem bumpCounter_yields {g : Unit → SiteRoutine β} (hg : Yields (ticketed l x st) (g ()) N) :
    Yields (taken l x st) (net (.bumpCounter l) >>= g) N := by
  refine net_act (a := .bumpCounter l) (fun _ => ticketed l x st) ?_ ?_ fun _ => hg
  case refine_1 =>
    intro s _ hs
    obtain ⟨⟨_, holder, found⟩, ⟨serving, free, _⟩, _, at_⟩ := hs
    exact ⟨holder, st, x, serving, free, found, at_⟩
  case refine_2 =>
    rintro ⟨⟨w, n⟩, g⟩ r ⟨⟨w', n'⟩, g'⟩ inv ⟨⟨lt, holder, found⟩, ⟨serving, _, unserved, unsent⟩, _⟩ e
    obtain ⟨⟨y, same, rfl⟩, rfl, rfl⟩ := net_exec e
    obtain rfl : x = y := Option.some.inj (found.symm.trans same)
    have serving : g.serving i = some st := serving
    refine ⟨g.upcoming l, { x with counter := wrap64 (x.counter + 1) },
      ⟨⟨lt, holder, update_self ..⟩, serving, ?_, unserved, unsent⟩, (inv.numbers.parts l x found).right.connName⟩
    simp [Track.record, serving]

-- The server has sent the name under which it has created the file of the channel.
def handed (ch : Channel) : Assertion (protocol plat) i :=
  ex fun st => ex fun t => ex fun f => serves st (some t) (some f) (frame t.text) ⊓ mapped ch.shared f

theorem create_yields {config : ChannelConfig} :
    Yields (serves st (some t) none []) (world (Channel.createWithConfig t.text config)) fun ch =>
      (ex fun f => serves st (some t) (some f) [] ⊓ mapped ch.shared f : Assertion (protocol plat) i) := by
  refine createWithConfig_yields .fact (fun _ => .fact) (fun s _ hs => ?_) ?_
  case refine_1 => exact .inr ⟨st, t, hs.left, hs.right.left, hs.right.right.left, rfl⟩
  case refine_2 =>
    rintro ⟨⟨w, n⟩, g⟩ f ⟨⟨w', n'⟩, g'⟩ _ ⟨serving, ticket, unserved, unsent⟩ ⟨⟨⟨e, same⟩, _⟩, rfl⟩
    obtain rfl : n' = n := same
    refine ⟨serving, ticket, ?_, unsent⟩
    simp [Track.record, Track.stream_some serving ticket]

theorem handshake_yields :
    Yields (taken l x st) (Listener.handshake l st) (handed : Channel → Assertion (protocol plat) i) := by
  refine getListener_yields (Steady.fact.inf .fact) (bumpCounter_yields ?_)
  refine Spec.ex fun t => Spec.ex fun y => Spec.assume fun same => ?_
  rw [same]
  refine Spec.bind (create_yields.pre fun _ _ hs => hs.right) fun ch => Spec.ex fun f => ?_
  refine Spec.handle (sendConnName_yields.persist mapped_persistent) (fun _ => ?_) fun e => ?_
  case refine_1 => exact Spec.pure fun _ _ hs => ⟨st, t, f, hs⟩
  case refine_2 =>
    refine Spec.bind (M := fun _ => ⊤) ?_ fun _ => Yields.fails
    exact (world_only .top (ends_harmless (Effects.drop_ends (F := fun _ => True)))).pre fun _ _ _ => trivial

theorem acceptStream_yields {r : Except IoError StreamId} :
    Yields (polled l x (some r)) (succeed r >>= Listener.handshake l)
    (handed : Channel → Assertion (protocol plat) i) := by
  cases r
  case ok st => exact handshake_yields
  case error => exact Yields.fails

theorem accept_spec : Yields (has l x) (Listener.accept l) (handed : Channel → Assertion (protocol plat) i) := by
  refine (getListener_yields .top (Spec.pre ?_ fun _ _ hs => hs.left)).pre fun _ _ hs => ⟨hs, trivial⟩
  refine accept_yields fun r => ?_
  cases r
  case none   => exact Yields.fails
  case some r => exact acceptStream_yields

theorem acceptWith_spec {timed : Bool} :
    Yields (has l x) (Tokio.acceptWith l timed) (handed : Channel → Assertion (protocol plat) i) := by
  refine (getListener_yields .top (Spec.pre ?_ fun _ _ hs => hs.left)).pre fun _ _ hs => ⟨hs, trivial⟩
  refine acceptAsync_yields fun r => ?_
  cases r
  case none   => exact Yields.fails
  case some r => exact acceptStream_yields

-- The stream that the loop has found, if it has.
theorem awaitStream_yields {deadline : Nat} :
    Yields (has l x) (Listener.awaitStream x.inner deadline)
      (gained (taken l x) : Except Error StreamId → Assertion (protocol plat) i) := by
  refine Spec.loop (fun _ => has l x) le_rfl fun _ => accept_yields fun r => ?_
  rcases r with _ | e | st
  case none =>
    refine now_act .fact fun t => ?_
    split
    case isTrue  => exact Spec.pure fun _ _ _ => trivial
    case isFalse => exact idle_act .fact (by exact trivial) fun _ => Spec.pure le_rfl
  case some.error => exact Spec.pure fun _ _ _ => trivial
  case some.ok    =>
    have hp : Steady (taken l x st : Assertion (protocol plat) i) := Steady.fact.inf (Steady.fact.inf .fact)
    exact idle_act hp (by exact trivial) fun r => succeed_yields fun _ _ => Spec.pure le_rfl

theorem acceptTimeout_spec {timeout : Nat} :
    Yields (has l x) (Listener.acceptTimeout l timeout) (handed : Channel → Assertion (protocol plat) i) := by
  refine (getListener_yields .top (Spec.pre ?_ fun _ _ hs => hs.left)).pre fun _ _ hs => ⟨hs, trivial⟩
  refine idle_act .fact (by exact trivial) fun r => succeed_yields fun _ _ => now_act .fact fun t => ?_
  refine Spec.bind awaitStream_yields fun r => ?_
  cases r
  case error e => exact idle_act .top (by exact trivial) fun r => succeed_yields fun _ _ => Yields.fails
  case ok st   =>
    have hp : Steady (taken l x st : Assertion (protocol plat) i) := Steady.fact.inf (Steady.fact.inf .fact)
    exact idle_act hp (by exact trivial) fun r => succeed_yields fun _ _ => handshake_yields

-- The client.

def dialer (st : StreamId) (p : String) : Assertion (protocol plat) i :=
  steady {
    holds s                := s.snd.dialing i = some st ∧ s.snd.dialled st = p
    kept inv leaves grows h :=
      ⟨leaves.dialing.trans h.left, (grows.stream st (inv.queues.dialing _ st h.left)).right.trans h.right⟩ }

theorem dial_yields {p : String} {deadline : Nat} {again : ConnectError → Bool} :
    Yields ⊤ (dial p deadline again) fun st => (dials st [] ⊓ dialled st p : Assertion (protocol plat) i) := by
  refine Spec.loop (fun _ => ⊤) le_rfl fun _ => ?_
  refine net_act (a := .connect p) (gained fun st => dials st [] ⊓ dialled st p) (fun _ _ _ => trivial) ?_ fun r => ?_
  case refine_1 =>
    rintro ⟨⟨w, n⟩, g⟩ r ⟨⟨w', n'⟩, g'⟩ _ _ e
    obtain ⟨step, rfl, rfl⟩ := net_exec e
    obtain ⟨k, _, rfl, rfl⟩ | ⟨_, rfl, _⟩ := step
    case inl => exact ⟨⟨update_self .., update_self .., List.nil_prefix⟩, Nat.lt_succ_self _, update_self ..⟩
    case inr => trivial
  case refine_2 =>
    cases r
    case ok    => exact Spec.pure le_rfl
    case error =>
      refine now_act .top fun t => ?_
      split
      case isTrue  => exact idle_act .top (by exact trivial) fun _ => Spec.pure le_rfl
      case isFalse => exact Yields.fails

-- The client reads the name that the server has sent.
theorem readConnName_yields {p : String} :
    Yields (dials st [] ⊓ dialled st p) (readConnName st) fun name =>
      (ex fun t => ex fun f => dialer st p ⊓ paired st t f ⊓ .const (name = t.text) : Assertion (protocol plat) i) := by
  have reads {n : Nat} {b : Bytes} : Yields (dials st b ⊓ dialled st p) (readExact st n) fun buf =>
      (dials st (b ++ buf) ⊓ .const (buf.length = n) ⊓ dialled st p : Assertion (protocol plat) i) :=
    (readExact_yields.persist dialled_persistent).post (fun _ => le_rfl) fun _ _ _ _ => trivial
  refine Spec.bind reads fun len => ?_
  refine Spec.pre (P := dials st len ⊓ dialled st p ⊓ .const (len.length = 2)) (Spec.assume fun two => ?_)
    fun _ _ hs => ⟨⟨hs.left.left, hs.right⟩, hs.left.right⟩
  refine Spec.bind reads fun buf => ?_
  -- what has been read is the first part of what the server sends
  let found : Assertion (protocol plat) i :=
    ex fun t => ex fun f => dialer st p ⊓ paired st t f ⊓ .const (Utf8.decode buf = some t.text.toList)
  refine Spec.pre (P := found) (Spec.ex fun t => Spec.ex fun f => Spec.assume fun decoded => ?_) ?_
  case refine_1 =>
    rw [decoded]
    exact Spec.pure fun _ _ hs => ⟨t, f, hs, String.ofList_toList⟩
  case refine_2 =>
    rintro s inv ⟨⟨hs, length⟩, lt, at_⟩
    have ⟨dialing, _, read⟩ := hs
    obtain unsent | ⟨t, f, ticket, served, sent⟩ := inv.files.sent st lt
    case inl =>
      have none : len ++ buf = [] := List.prefix_nil.mp (unsent ▸ read)
      simp [List.append_eq_nil_iff.mp none] at two
    case inr =>
      obtain ⟨old, u, ticket', name⟩ := inv.files.served st f served
      obtain rfl : t = u := Option.some.inj (ticket.symm.trans ticket')
      have short := inv.files.short f old
      rw [name] at short
      refine ⟨t, f, ⟨⟨dialing, at_⟩, lt, ticket, served⟩, ?_⟩
      have small : (Utf8.encode t.text.toList).length ≤ PATH_MAX := Nat.le_trans length_shmPath short
      exact decode_of_prefix (read.trans sent) two length (Nat.lt_of_le_of_lt small (by decide))

end Streams

end Handshake
