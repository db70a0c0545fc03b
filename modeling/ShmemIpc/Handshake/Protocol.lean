import ShmemIpc.Handshake.Names
import ShmemIpc.Execution.Frame

open Function

namespace Handshake

def Ticket.next (t : Ticket) : Ticket :=
  { t with counter := t.counter + 1 }

-- Who does what in a handshake. No action reads it.
structure Track where
  -- what a thread has drawn from the counter of its process, until it has made a listener of it
  drawn    : ThreadId → Option (ProcessIdentity × Nat)
  -- the parts of the next name that a listener will use
  upcoming : ListenerId → Ticket
  -- the streams which a thread has accepted, and dialled, last
  serving  : ThreadId → Option StreamId
  dialing  : ThreadId → Option StreamId
  -- the path that a stream was dialled at, the name that was made for it, and the file that was created for it
  dialled  : StreamId → String
  ticket   : StreamId → Option Ticket
  served   : StreamId → Option FileId
  address  : SocketId → String
  name     : FileId → String
  file     : Handle → FileId

namespace Track

-- The stream for which the thread creates a file at `p`.
def stream (g : Track) (i : ThreadId) (p : String) : Option StreamId :=
  (g.serving i).filter fun st => (g.ticket st).any fun t => p = shmPath t.text

def record (i : ThreadId) (a : SiteAct) (r : SiteRet a) (s : Site) (g : Track) : Track :=
  match a, r with
  | .inl (.createNew p), .ok f        =>
      { g with
        name   := update g.name f p
        served := (g.stream i p).elim g.served fun st => update g.served st (some f) }
  | .inl (.newShared x _), h          => { g with file := update g.file h x.base }
  | .inr .fetchNext, n                => { g with drawn := update g.drawn i (some (s.fst.process i, n)) }
  | .inr (.newListener x), l          =>
      { g with
        drawn    := update g.drawn i none
        upcoming := (g.drawn i).elim g.upcoming fun d => update g.upcoming l ⟨x.name, d.fst, d.snd, 0⟩ }
  | .inr (.bumpCounter l), _          =>
      { g with
        upcoming := update g.upcoming l (g.upcoming l).next
        ticket   := (g.serving i).elim g.ticket fun st => update g.ticket st (some (g.upcoming l)) }
  | .inr (.bind p), .ok k             => { g with address := update g.address k p }
  | .inr (.accept _), some (.ok st)
  | .inr (.acceptAsync ..), some (.ok st) => { g with serving := update g.serving i (some st) }
  | .inr (.connect p), .ok st         =>
      { g with
        dialing := update g.dialing i (some st)
        dialled := update g.dialled st p
        ticket  := update g.ticket st none
        served  := update g.served st none }
  | _, _                              => g

end Track

abbrev State :=
  Site × Track

def machine (plat : Platform) : Machine ThreadId SiteAct SiteRet State :=
  (siteMachine plat).ghost Track.record

variable {plat : Platform} {i j : ThreadId} {s s' : State}

theorem ordinary_exec {a : SiteAct} {r : SiteRet a} (e : (machine plat).exec i a s r s') : Ordinary i a s.fst r :=
  e.left.right

theorem world_exec {a : Act} {r : a.Ret} {w w' : World} {n n' : Net} {g g' : Track}
    (e : (machine plat).exec i (.inl a) ((w, n), g) r ((w', n'), g')) :
    World.exec plat i a w r w' ∧ n' = n ∧ g' = Track.record i (.inl a) r (w, n) g :=
  ⟨e.left.left.left, e.left.left.right, e.right⟩

theorem net_exec {a : Net.Act} {r : a.Ret} {w w' : World} {n n' : Net} {g g' : Track}
    (e : (machine plat).exec i (.inr a) ((w, n), g) r ((w', n'), g')) :
    Net.exec w.process i a n r n' ∧ w' = w ∧ g' = Track.record i (.inr a) r (w, n) g :=
  ⟨e.left.left.left, e.left.left.right, e.right⟩

-- The names of files, and the steps that leave them alone.

def Creates : Act → Prop
  | .createNew _ => True
  | _            => False

theorem world_keeps {a : Act} {w w' : World} {r : a.Ret} (e : World.exec plat i a w r w') (h : ¬ Creates a) :
    w'.files = w.files ∧ ∀ p f, w'.path p = some f → w.path p = some f := by
  by_cases removes : ∃ q, a = .removeFile q
  case pos =>
    obtain ⟨q, rfl⟩ := removes
    obtain ⟨_, _, rfl⟩ | ⟨_, rfl⟩ := e
    case inr => exact ⟨rfl, fun _ _ h => h⟩
    case inl =>
      refine ⟨rfl, fun p f hp => ?_⟩
      by_cases same : p = q
      case pos => simp [same] at hp
      case neg => simpa [same] using hp
  case neg =>
    have path : w'.path = w.path := (World.frame e).path fun hp => by
      cases a <;> simp [Act.parts, Creates] at hp h removes
    have files : w'.files = w.files := (World.frame e).files fun hf => by
      cases a <;> simp [Act.parts, Creates] at hf h
    exact ⟨files, fun p f hp => path ▸ hp⟩

theorem record_world {a : Act} {r : a.Ret} {x : Site} {g : Track} (h : ¬ Creates a) :
    Track.record i (.inl a) r x g = { g with file := (Track.record i (.inl a) r x g).file } := by
  cases a
  case createNew => exact absurd trivial h
  all_goals rfl

def Handles (w : World) (file : Handle → FileId) : Prop :=
  ∀ h x, w.shared h = some x → h < w.handles ∧ file h = x.base

-- The file of a handle is that of its channel.
theorem Handles.world {a : Act} {w w' : World} {r : a.Ret} {x : Site} {g : Track} (inv : Handles w g.file)
    (ha : ¬ Creates a)
    (e : World.exec plat i a w r w') : Handles w' (Track.record i (.inl a) r x g).file := by
  by_cases new : ∃ x q, a = .newShared x q
  case pos =>
    obtain ⟨x, q, rfl⟩ := new
    obtain ⟨rfl, rfl⟩ := e
    intro h y hy
    by_cases same : h = w.handles
    case pos =>
      subst same
      obtain rfl : x = y := by simpa using hy
      exact ⟨Nat.lt_succ_self _, update_self ..⟩
    case neg =>
      have ⟨lt, file⟩ := inv h y (by simpa [same] using hy)
      exact ⟨Nat.lt_succ_of_lt lt, (update_of_ne same ..).trans file⟩
  case neg =>
    have handles : w'.handles = w.handles := (World.frame e).handles fun hp => by
      cases a <;> simp [Act.parts] at hp new
    have file : (Track.record i (.inl a) r x g).file = g.file := by
      cases a
      case newShared x q => exact absurd ⟨x, q, rfl⟩ new
      case createNew     => exact absurd trivial ha
      all_goals rfl
    have shared (h : Handle) (y : SharedChannel) (hy : w'.shared h = some y) : w.shared h = some y := by
      by_cases frees : ∃ k, a = .freeShared k
      case pos =>
        obtain ⟨k, rfl⟩ := frees
        obtain rfl := e
        by_cases same : h = k
        case pos => simp [same] at hy
        case neg => simpa [same] using hy
      case neg =>
        rwa [(World.frame e).shared fun hp => by cases a <;> simp [Act.parts] at hp new frees] at hy
    exact fun h y hy => by rw [handles, file]; exact inv h y (shared h y hy)

-- A ticket which the listener has used already.
structure Ticket.Before (t u : Ticket) : Prop where
  name     : t.name = u.name
  identity : t.identity = u.identity
  serial   : t.serial = u.serial
  counter  : t.counter < u.counter

structure Listener.Makes (x : Listener) (t : Ticket) : Prop where
  name        : x.name = t.name
  incarnation : x.incarnation = incarnationText t.identity t.serial
  counter     : x.counter = t.counter

structure Numbers (n : Net) (g : Track) : Prop where
  drawn : ∀ i p k, g.drawn i = some (p, k) → k < n.next p
  once  : ∀ i j d, g.drawn i = some d → g.drawn j = some d → i = j
  below : ∀ l < n.listeners, (g.upcoming l).serial < n.next (g.upcoming l).identity
  fresh : ∀ i l, l < n.listeners → g.drawn i ≠ some ((g.upcoming l).identity, (g.upcoming l).serial)
  apart : ∀ l l', l < n.listeners → l' < n.listeners → (g.upcoming l).identity = (g.upcoming l').identity →
    (g.upcoming l).serial = (g.upcoming l').serial → l = l'
  parts : ∀ l x, n.listener l = some x → l < n.listeners ∧ x.Makes (g.upcoming l)
  used  : ∀ st t, g.ticket st = some t → ∃ l < n.listeners, t.Before (g.upcoming l)
  own   : ∀ st st' t, g.ticket st = some t → g.ticket st' = some t → st = st'

structure Queues (n : Net) (g : Track) : Prop where
  bound   : ∀ p k, n.bound p = some k → k < n.sockets ∧ g.address k = p
  inner   : ∀ l x, n.listener l = some x → x.inner < n.sockets ∧ g.address x.inner = handshakePath x.name
  waiting : ∀ k st, st ∈ n.backlog k →
    st < n.streams ∧ g.dialled st = g.address k ∧ g.ticket st = none ∧ ∀ i, g.serving i ≠ some st
  once    : ∀ k, (n.backlog k).Nodup
  apart   : ∀ k k' st, st ∈ n.backlog k → st ∈ n.backlog k' → k = k'
  serving : ∀ i st, g.serving i = some st → st < n.streams
  server  : ∀ i j st, g.serving i = some st → g.serving j = some st → i = j
  dialing : ∀ i st, g.dialing i = some st → st < n.streams
  client  : ∀ i j st, g.dialing i = some st → g.dialing j = some st → i = j
  ticket  : ∀ st t, g.ticket st = some t → st < n.streams ∧ g.dialled st = handshakePath t.name

structure Files (w : World) (n : Net) (g : Track) : Prop where
  path   : ∀ p f, w.path p = some f → f < w.files ∧ g.name f = p
  short  : ∀ f < w.files, (Utf8.encode (g.name f).toList).length ≤ PATH_MAX
  made   : ∀ f < w.files, ∀ t : Ticket, g.name f = shmPath t.text → ∃ st, g.ticket st = some t ∧ g.served st = some f
  served : ∀ st f, g.served st = some f → f < w.files ∧ ∃ t, g.ticket st = some t ∧ g.name f = shmPath t.text
  sent   : ∀ st < n.streams,
    n.sent st = [] ∨ ∃ t f, g.ticket st = some t ∧ g.served st = some f ∧ n.sent st <+: frame t.text

structure Inv (s : State) : Prop where
  numbers : Numbers s.fst.snd s.snd
  queues  : Queues s.fst.snd s.snd
  files   : Files s.fst.fst s.fst.snd s.snd
  handles : Handles s.fst.fst s.snd.file

-- A thread may create a file for its stream, and files that are not named like connections.
def MayCreate (g : Track) (i : ThreadId) (p : String) : Prop :=
  (∀ t : Ticket, p ≠ shmPath t.text) ∨
  ∃ st t, g.serving i = some st ∧ g.ticket st = some t ∧ g.served st = none ∧ p = shmPath t.text

-- The name of a connection is used only for the stream for which it was made, and only by the thread that serves it.
def Ok (i : ThreadId) (a : SiteAct) (s : State) : Prop :=
  match a with
  | .inl (.createNew p)       => MayCreate s.snd i p
  | .inr (.newListener x)     =>
      x.inner < s.fst.snd.sockets ∧ s.snd.address x.inner = handshakePath x.name ∧
      ∃ d, s.snd.drawn i = some d ∧ x.Makes ⟨x.name, d.fst, d.snd, 0⟩
  | .inr (.bumpCounter l)     =>
      s.fst.snd.holder l = i ∧ ∃ st x, s.snd.serving i = some st ∧ s.snd.ticket st = none ∧
        s.fst.snd.listener l = some x ∧ s.snd.dialled st = handshakePath x.name
  | .inr (.freeListener l)    => s.fst.snd.holder l = i
  | .inr (.giveListener l _)  => s.fst.snd.holder l = i
  | .inr (.write st b)        =>
      s.snd.serving i = some st ∧
      ∃ t f, s.snd.ticket st = some t ∧ s.snd.served st = some f ∧ s.fst.snd.sent st ++ b <+: frame t.text
  | .inr (.read st _)         => s.snd.dialing i = some st
  | _                         => True

section Preserves

variable {w w' : World} {n n' : Net} {g g' : Track} {a : SiteAct} {r : SiteRet a}

theorem Numbers.congr (h : Numbers n g) (next : n'.next = n.next) (listener : n'.listener = n.listener)
    (listeners : n'.listeners = n.listeners) (drawn : g'.drawn = g.drawn) (upcoming : g'.upcoming = g.upcoming)
    (ticket : g'.ticket = g.ticket) : Numbers n' g' where
  drawn := by rw [next, drawn]; exact h.drawn
  once  := by rw [drawn]; exact h.once
  below := by rw [next, listeners, upcoming]; exact h.below
  fresh := by rw [listeners, drawn, upcoming]; exact h.fresh
  apart := by rw [listeners, upcoming]; exact h.apart
  parts := by rw [listener, listeners, upcoming]; exact h.parts
  used  := by rw [listeners, ticket, upcoming]; exact h.used
  own   := by rw [ticket]; exact h.own

-- A thread draws a number that nobody has drawn.
theorem Numbers.draws {p : ProcessIdentity} (h : Numbers n g) :
    Numbers { n with next := update n.next p (n.next p + 1) }
    { g with drawn := update g.drawn i (some (p, n.next p)) } := by
  have grows (q : ProcessIdentity) : n.next q ≤ update n.next p (n.next p + 1) q := by
    by_cases hq : q = p
    case pos => subst hq; simp
    case neg => simp [hq]
  have other {j k : ThreadId} (hj : g.drawn j = some (p, n.next p)) : j = k :=
    absurd (h.drawn _ _ _ hj) (Nat.lt_irrefl _)
  refine ⟨fun j q k hj => ?_, fun j j' d hj hj' => ?_, fun l hl => ?_, fun j l hl => ?_, h.apart,
    h.parts, h.used, h.own⟩
  case refine_1 =>
    by_cases same : j = i
    case pos =>
      subst same
      obtain ⟨rfl, rfl⟩ : p = q ∧ n.next p = k := by simpa using hj
      simp
    case neg => exact Nat.lt_of_lt_of_le (h.drawn _ _ _ (by simpa [same] using hj)) (grows q)
  case refine_2 =>
    by_cases same : j = i <;> by_cases same' : j' = i
    · exact same.trans same'.symm
    · obtain rfl : (p, n.next p) = d := by simpa [same] using hj
      exact (other (by simpa [same'] using hj')).symm
    · obtain rfl : (p, n.next p) = d := by simpa [same'] using hj'
      exact other (by simpa [same] using hj)
    · exact h.once _ _ _ (by simpa [same] using hj) (by simpa [same'] using hj')
  case refine_3 => exact Nat.lt_of_lt_of_le (h.below l hl) (grows _)
  case refine_4 =>
    by_cases same : j = i
    case neg => simpa [same] using h.fresh j l hl
    case pos =>
      intro hj
      obtain ⟨rfl, serial⟩ : p = (g.upcoming l).identity ∧ n.next p = (g.upcoming l).serial := by
        simpa [same] using hj
      exact absurd (h.below l hl) (by omega)

-- The number that a thread has drawn becomes the one of its listener.
theorem Numbers.listens {x : Listener} {d : ProcessIdentity × Nat} (h : Numbers n g) (hd : g.drawn i = some d)
    (makes : x.Makes ⟨x.name, d.fst, d.snd, 0⟩) :
    Numbers
      { n with
        listener  := update n.listener n.listeners (some x)
        holder    := update n.holder n.listeners i
        listeners := n.listeners + 1 }
      { g with
        drawn    := update g.drawn i none
        upcoming := update g.upcoming n.listeners ⟨x.name, d.fst, d.snd, 0⟩ } := by
  have old {l : ListenerId} (hl : l < n.listeners) :
      update g.upcoming n.listeners ⟨x.name, d.fst, d.snd, 0⟩ l = g.upcoming l := update_of_ne (Nat.ne_of_lt hl) ..
  have new : update g.upcoming n.listeners ⟨x.name, d.fst, d.snd, 0⟩ n.listeners = ⟨x.name, d.fst, d.snd, 0⟩ :=
    update_self ..
  have drawn {j : ThreadId} {d' : ProcessIdentity × Nat} (hj : update g.drawn i none j = some d') :
      j ≠ i ∧ g.drawn j = some d' := by
    by_cases same : j = i
    case pos => simp [same] at hj
    case neg => exact ⟨same, by simpa [same] using hj⟩
  refine ⟨fun j p k hj => h.drawn _ _ _ (drawn hj).right, fun j j' d hj hj' => ?_, fun l hl => ?_,
    fun j l hl hj => ?_, ?_,
    fun l y hy => ?_, fun st t ht => ?_, h.own⟩
  case refine_1 => exact h.once _ _ _ (drawn hj).right (drawn hj').right
  case refine_2 =>
    obtain hl | rfl := Nat.lt_succ_iff_lt_or_eq.mp hl
    case inl => simpa only [old hl] using h.below l hl
    case inr => simpa only [new] using h.drawn _ _ _ hd
  case refine_3 =>
    obtain ⟨ne, hj⟩ := drawn hj
    obtain hl | rfl := Nat.lt_succ_iff_lt_or_eq.mp hl
    case inl => exact h.fresh j l hl (by simpa only [old hl] using hj)
    case inr => exact ne (h.once _ _ _ (by simpa only [new] using hj) hd)
  case refine_4 =>
    intro l l' hl hl' identity serial
    obtain hl | rfl := Nat.lt_succ_iff_lt_or_eq.mp hl <;> obtain hl' | rfl := Nat.lt_succ_iff_lt_or_eq.mp hl'
    · simp only [old hl, old hl'] at identity serial
      exact h.apart _ _ hl hl' identity serial
    · simp only [old hl, new] at identity serial
      exact absurd (by rw [identity, serial]; exact hd) (h.fresh i l hl)
    · simp only [old hl', new] at identity serial
      exact absurd (by rw [← identity, ← serial]; exact hd) (h.fresh i l' hl')
    · rfl
  case refine_5 =>
    by_cases same : l = n.listeners
    case pos =>
      subst same
      obtain rfl : x = y := by simpa using hy
      exact ⟨Nat.lt_succ_self _, by simpa only [new] using makes⟩
    case neg =>
      have ⟨hl, parts⟩ := h.parts l y (by simpa [same] using hy)
      exact ⟨Nat.lt_succ_of_lt hl, by simpa only [old hl] using parts⟩
  case refine_6 =>
    have ⟨l, hl, before⟩ := h.used st t ht
    exact ⟨l, Nat.lt_succ_of_lt hl, by simpa only [old hl] using before⟩

-- A listener uses a ticket that nobody has used.
theorem Numbers.fresh_ticket {l : ListenerId} {st : StreamId} (h : Numbers n g) (hl : l < n.listeners) :
    g.ticket st ≠ some (g.upcoming l) := by
  intro ht
  have ⟨l', hl', before⟩ := h.used st _ ht
  obtain rfl := h.apart _ _ hl hl' before.identity before.serial
  exact Nat.lt_irrefl _ before.counter

theorem Numbers.bumps {l : ListenerId} {x : Listener} {st : StreamId} (h : Numbers n g) (hx : n.listener l = some x)
    (free : g.ticket st = none) :
    Numbers { n with listener := update n.listener l (some { x with counter := x.counter + 1 }) }
      { g with
        upcoming := update g.upcoming l (g.upcoming l).next
        ticket   := update g.ticket st (some (g.upcoming l)) } := by
  have ⟨hl, makes⟩ := h.parts l x hx
  have fresh {st : StreamId} : g.ticket st ≠ some (g.upcoming l) := h.fresh_ticket hl
  have same (k : ListenerId) :
      (update g.upcoming l (g.upcoming l).next k).identity = (g.upcoming k).identity ∧
      (update g.upcoming l (g.upcoming l).next k).serial = (g.upcoming k).serial := by
    by_cases hk : k = l
    case pos => subst hk; simp [Ticket.next]
    case neg => simp [hk]
  have later {t : Ticket} {k : ListenerId} (ht : t.Before (g.upcoming k)) :
      t.Before (update g.upcoming l (g.upcoming l).next k) := by
    by_cases hk : k = l
    case pos =>
      subst hk
      rw [update_self]
      exact ⟨ht.name, ht.identity, ht.serial, Nat.lt_succ_of_lt ht.counter⟩
    case neg => rwa [update_of_ne hk]
  refine ⟨h.drawn, h.once, fun k hk => ?_, fun j k hk => ?_, fun k k' hk hk' => ?_, fun k y hy => ?_,
    fun st' t ht => ?_, ?_⟩
  case refine_1 => rw [(same k).left, (same k).right]; exact h.below k hk
  case refine_2 => rw [(same k).left, (same k).right]; exact h.fresh j k hk
  case refine_3 => rw [(same k).left, (same k).right, (same k').left, (same k').right]; exact h.apart k k' hk hk'
  case refine_4 =>
    by_cases hk : k = l
    case neg =>
      have ⟨hk', parts⟩ := h.parts k y (by simpa [hk] using hy)
      exact ⟨hk', by simpa [hk] using parts⟩
    case pos =>
      subst hk
      obtain rfl : { x with counter := x.counter + 1 } = y := by simpa using hy
      have next : Listener.Makes { x with counter := x.counter + 1 } (g.upcoming k).next :=
        ⟨makes.name, makes.incarnation, congrArg (· + 1) makes.counter⟩
      exact ⟨hl, by simpa only [update_self] using next⟩
  case refine_5 =>
    by_cases hst : st' = st
    case pos =>
      subst hst
      obtain rfl : g.upcoming l = t := by simpa using ht
      have next : (g.upcoming l).Before (g.upcoming l).next := ⟨rfl, rfl, rfl, Nat.lt_succ_self _⟩
      exact ⟨l, hl, by simpa only [update_self] using next⟩
    case neg =>
      have ⟨k, hk, before⟩ := h.used st' t (by simpa [hst] using ht)
      exact ⟨k, hk, later before⟩
  case refine_6 =>
    intro s₁ s₂ t h₁ h₂
    by_cases e₁ : s₁ = st <;> by_cases e₂ : s₂ = st
    · exact e₁.trans e₂.symm
    · obtain rfl : g.upcoming l = t := by simpa [e₁] using h₁
      exact absurd (by simpa [e₂] using h₂) fresh
    · obtain rfl : g.upcoming l = t := by simpa [e₂] using h₂
      exact absurd (by simpa [e₁] using h₁) fresh
    · exact h.own _ _ _ (by simpa [e₁] using h₁) (by simpa [e₂] using h₂)

theorem Numbers.frees {l : ListenerId} (h : Numbers n g) : Numbers { n with listener := update n.listener l none } g :=
  { h with
    parts := fun k y hy => by
      by_cases same : k = l
      case pos => simp [same] at hy
      case neg => exact h.parts k y (by simpa [same] using hy) }

-- A stream has no name yet.
theorem Numbers.forgets {st : StreamId} (h : Numbers n g) : Numbers n { g with ticket := update g.ticket st none } := by
  have old {st' : StreamId} {t : Ticket} (ht : update g.ticket st none st' = some t) : g.ticket st' = some t := by
    by_cases same : st' = st
    case pos => simp [same] at ht
    case neg => simpa [same] using ht
  exact { h with
    used := fun st' t ht => h.used st' t (old ht)
    own  := fun s₁ s₂ t h₁ h₂ => h.own s₁ s₂ t (old h₁) (old h₂) }

theorem Queues.congr (h : Queues n g) (bound : n'.bound = n.bound) (backlog : n'.backlog = n.backlog)
    (sockets : n'.sockets = n.sockets) (streams : n'.streams = n.streams) (listener : n'.listener = n.listener)
    (serving : g'.serving = g.serving) (dialing : g'.dialing = g.dialing) (dialled : g'.dialled = g.dialled)
    (ticket : g'.ticket = g.ticket) (address : g'.address = g.address) : Queues n' g' where
  bound   := by rw [bound, sockets, address]; exact h.bound
  inner   := by rw [listener, sockets, address]; exact h.inner
  waiting := by rw [backlog, streams, dialled, address, ticket, serving]; exact h.waiting
  once    := by rw [backlog]; exact h.once
  apart   := by rw [backlog]; exact h.apart
  serving := by rw [serving, streams]; exact h.serving
  server  := by rw [serving]; exact h.server
  dialing := by rw [dialing, streams]; exact h.dialing
  client  := by rw [dialing]; exact h.client
  ticket  := by rw [ticket, streams, dialled]; exact h.ticket

theorem Queues.unbinds {p : String} (h : Queues n g) : Queues { n with bound := update n.bound p none } g :=
  { h with
    bound := fun q k hk => by
      by_cases same : q = p
      case pos => simp [same] at hk
      case neg => exact h.bound q k (by simpa [same] using hk) }

theorem Queues.binds {p : String} (h : Queues n g) :
    Queues
      { n with
        bound       := update n.bound p (some n.sockets)
        nonblocking := update n.nonblocking n.sockets false
        backlog     := update n.backlog n.sockets []
        sockets     := n.sockets + 1 }
      { g with address := update g.address n.sockets p } := by
  have old {k : SocketId} (hk : k < n.sockets) : update g.address n.sockets p k = g.address k :=
    update_of_ne (Nat.ne_of_lt hk) ..
  have queued {k : SocketId} {st : StreamId} (hk : st ∈ update n.backlog n.sockets [] k) :
      k ≠ n.sockets ∧ st ∈ n.backlog k := by
    by_cases same : k = n.sockets
    case pos => simp [same] at hk
    case neg => exact ⟨same, by simpa [same] using hk⟩
  refine ⟨fun q k hk => ?_, fun l x hx => ?_, fun k st hk => ?_, fun k => ?_, fun k k' st hk hk' => ?_,
    h.serving, h.server,
    h.dialing, h.client, h.ticket⟩
  case refine_1 =>
    by_cases same : q = p
    case pos =>
      subst same
      obtain rfl : n.sockets = k := by simpa using hk
      exact ⟨Nat.lt_succ_self _, update_self ..⟩
    case neg =>
      have ⟨lt, address⟩ := h.bound q k (by simpa [same] using hk)
      exact ⟨Nat.lt_succ_of_lt lt, (old lt).trans address⟩
  case refine_2 =>
    have ⟨lt, address⟩ := h.inner l x hx
    exact ⟨Nat.lt_succ_of_lt lt, (old lt).trans address⟩
  case refine_3 =>
    obtain ⟨ne, hk⟩ := queued hk
    simpa [ne] using h.waiting k st hk
  case refine_4 =>
    by_cases same : k = n.sockets
    case pos => simp [same]
    case neg => simpa [same] using h.once k
  case refine_5 => exact h.apart _ _ st (queued hk).right (queued hk').right

-- The first stream of a backlog gets its server.
theorem Queues.accepts {k : SocketId} {st : StreamId} {rest : List StreamId} (h : Queues n g)
    (hk : n.backlog k = st :: rest) :
    Queues { n with backlog := update n.backlog k rest } { g with serving := update g.serving i (some st) } := by
  have first : st ∈ n.backlog k := by simp [hk]
  have ⟨lt, _, _, unserved⟩ := h.waiting k st first
  have nodup := h.once k
  rw [hk] at nodup
  have queued {k' : SocketId} {st' : StreamId} (h' : st' ∈ update n.backlog k rest k') :
      st' ∈ n.backlog k' ∧ st' ≠ st := by
    by_cases same : k' = k
    case pos =>
      subst same
      have h' : st' ∈ rest := by simpa using h'
      exact ⟨by simp [hk, h'], fun eq => (List.nodup_cons.mp nodup).left (eq ▸ h')⟩
    case neg =>
      have h' : st' ∈ n.backlog k' := by simpa [same] using h'
      exact ⟨h', fun eq => same (h.apart _ _ st (eq ▸ h') first)⟩
  have serves {j : ThreadId} {st' : StreamId} (hj : update g.serving i (some st) j = some st') :
      j = i ∧ st' = st ∨ j ≠ i ∧ st' ≠ st ∧ g.serving j = some st' := by
    by_cases same : j = i
    case pos => exact .inl ⟨same, by simpa [same, eq_comm] using hj⟩
    case neg =>
      have hj : g.serving j = some st' := by simpa [same] using hj
      exact .inr ⟨same, fun eq => unserved j (eq ▸ hj), hj⟩
  refine ⟨h.bound, h.inner, fun k' st' h' => ?_, fun k' => ?_, fun k₁ k₂ st' h₁ h₂ => ?_, fun j st' hj => ?_,
    fun j j' st' hj hj' => ?_,
    h.dialing, h.client, h.ticket⟩
  case refine_1 =>
    have ⟨h', ne⟩ := queued h'
    have ⟨lt', dialled, free, nobody⟩ := h.waiting k' st' h'
    refine ⟨lt', dialled, free, fun j hj => ?_⟩
    obtain ⟨_, eq⟩ | ⟨_, _, hj⟩ := serves hj
    case inl => exact ne eq
    case inr => exact nobody j hj
  case refine_2 =>
    by_cases same : k' = k
    case pos => subst same; simpa using (List.nodup_cons.mp nodup).right
    case neg => simpa [same] using h.once k'
  case refine_3 => exact h.apart _ _ st' (queued h₁).left (queued h₂).left
  case refine_4 =>
    obtain ⟨_, rfl⟩ | ⟨_, _, hj⟩ := serves hj
    case inl => exact lt
    case inr => exact h.serving j st' hj
  case refine_5 =>
    obtain ⟨rfl, eq⟩ | ⟨_, ne, hj⟩ := serves hj <;> obtain ⟨rfl, eq'⟩ | ⟨_, ne', hj'⟩ := serves hj'
    · rfl
    · exact absurd eq ne'
    · exact absurd eq' ne
    · exact h.server _ _ st' hj hj'

theorem Queues.connects {p : String} {k : SocketId} (h : Queues n g) (hp : n.bound p = some k) :
    Queues
      { n with
        backlog := update n.backlog k (n.backlog k ++ [n.streams])
        sent    := update n.sent n.streams []
        read    := update n.read n.streams 0
        streams := n.streams + 1 }
      { g with
        dialing := update g.dialing i (some n.streams)
        dialled := update g.dialled n.streams p
        ticket  := update g.ticket n.streams none
        served  := update g.served n.streams none } := by
  have queued {k' : SocketId} {st : StreamId} (h' : st ∈ update n.backlog k (n.backlog k ++ [n.streams]) k') :
      st < n.streams ∧ st ∈ n.backlog k' ∨ st = n.streams ∧ k' = k := by
    by_cases same : k' = k
    case pos =>
      subst same
      have h' : st ∈ n.backlog k' ∨ st = n.streams := by simpa using h'
      exact h'.imp (fun h' => ⟨(h.waiting k' st h').left, h'⟩) fun eq => ⟨eq, rfl⟩
    case neg =>
      have h' : st ∈ n.backlog k' := by simpa [same] using h'
      exact .inl ⟨(h.waiting k' st h').left, h'⟩
  have dials {j : ThreadId} {st : StreamId} (hj : update g.dialing i (some n.streams) j = some st) :
      j = i ∧ st = n.streams ∨ st < n.streams ∧ g.dialing j = some st := by
    by_cases same : j = i
    case pos => exact .inl ⟨same, by simpa [same, eq_comm] using hj⟩
    case neg =>
      have hj : g.dialing j = some st := by simpa [same] using hj
      exact .inr ⟨h.dialing j st hj, hj⟩
  refine ⟨h.bound, h.inner, fun k' st h' => ?_, fun k' => ?_, fun k₁ k₂ st h₁ h₂ => ?_,
    fun j st hj => Nat.lt_succ_of_lt (h.serving j st hj), h.server, fun j st hj => ?_, fun j j' st hj hj' => ?_,
    fun st t ht => ?_⟩
  case refine_1 =>
    obtain ⟨lt, h'⟩ | ⟨rfl, rfl⟩ := queued h'
    case inl =>
      have ⟨_, dialled, free, nobody⟩ := h.waiting k' st h'
      have ne := Nat.ne_of_lt lt
      exact ⟨Nat.lt_succ_of_lt lt, by simpa [ne] using dialled, by simpa [ne] using free, nobody⟩
    case inr =>
      refine ⟨Nat.lt_succ_self _, by simpa using (h.bound p k' hp).right.symm, by simp, fun j hj => ?_⟩
      exact Nat.lt_irrefl _ (h.serving j _ hj)
  case refine_2 =>
    by_cases same : k' = k
    case neg => simpa [same] using h.once k'
    case pos =>
      subst same
      have new : n.streams ∉ n.backlog k' := fun h' => Nat.lt_irrefl _ (h.waiting k' _ h').left
      have nodup : (n.backlog k' ++ [n.streams]).Nodup :=
        List.nodup_append.mpr ⟨h.once k', by simp, fun x hx y hy => by
          obtain rfl := List.mem_singleton.mp hy
          exact fun eq => new (eq ▸ hx)⟩
      simpa using nodup
  case refine_3 =>
    obtain ⟨lt, h₁⟩ | ⟨rfl, rfl⟩ := queued h₁ <;> obtain ⟨lt', h₂⟩ | ⟨eq, rfl⟩ := queued h₂
    · exact h.apart _ _ st h₁ h₂
    · exact absurd eq (Nat.ne_of_lt lt)
    · exact absurd lt' (Nat.lt_irrefl _)
    · rfl
  case refine_4 =>
    obtain ⟨_, rfl⟩ | ⟨lt, _⟩ := dials hj
    case inl => exact Nat.lt_succ_self _
    case inr => exact Nat.lt_succ_of_lt lt
  case refine_5 =>
    obtain ⟨rfl, rfl⟩ | ⟨lt, hj⟩ := dials hj <;> obtain ⟨rfl, eq⟩ | ⟨lt', hj'⟩ := dials hj'
    · rfl
    · exact absurd lt' (Nat.lt_irrefl _)
    · exact absurd eq (Nat.ne_of_lt lt)
    · exact h.client _ _ st hj hj'
  case refine_6 =>
    by_cases same : st = n.streams
    case pos => simp [same] at ht
    case neg =>
      have ⟨lt, dialled⟩ := h.ticket st t (by simpa [same] using ht)
      exact ⟨Nat.lt_succ_of_lt lt, by simpa [same] using dialled⟩

-- The socket of a listener that appears, or changes nothing but its counter.
theorem Queues.holds {l : ListenerId} {x : Listener} (h : Queues n g) (lt : x.inner < n.sockets)
    (address : g.address x.inner = handshakePath x.name) :
    Queues { n with listener := update n.listener l (some x) } g :=
  { h with
    inner := fun k y hy => by
      by_cases same : k = l
      case pos =>
        obtain rfl : x = y := by simpa [same] using hy
        exact ⟨lt, address⟩
      case neg => exact h.inner k y (by simpa [same] using hy) }

theorem Queues.frees {l : ListenerId} (h : Queues n g) : Queues { n with listener := update n.listener l none } g :=
  { h with
    inner := fun k y hy => by
      by_cases same : k = l
      case pos => simp [same] at hy
      case neg => exact h.inner k y (by simpa [same] using hy) }

theorem Queues.names {st : StreamId} {t : Ticket} (h : Queues n g) (serving : g.serving i = some st)
    (dialled : g.dialled st = handshakePath t.name) : Queues n { g with ticket := update g.ticket st (some t) } :=
  { h with
    waiting := fun k st' hst => by
      have ⟨lt, address, free, nobody⟩ := h.waiting k st' hst
      have ne : st' ≠ st := fun eq => nobody i (eq ▸ serving)
      exact ⟨lt, address, by simpa [ne] using free, nobody⟩
    ticket := fun st' u hu => by
      by_cases same : st' = st
      case pos =>
        subst same
        obtain rfl : t = u := by simpa using hu
        exact ⟨h.serving i st' serving, dialled⟩
      case neg => exact h.ticket st' u (by simpa [same] using hu) }

theorem Track.stream_none {p : String} (h : ∀ t : Ticket, p ≠ shmPath t.text) : g.stream i p = none := by
  rw [stream, Option.filter_eq_none_iff]
  intro st _ ht
  cases ticket : g.ticket st
  case none   => simp [ticket] at ht
  case some t => exact h t (by simpa [ticket] using ht)

theorem Track.stream_some {st : StreamId} {t : Ticket} (serving : g.serving i = some st)
    (ticket : g.ticket st = some t) :
    g.stream i (shmPath t.text) = some st := by
  simp [stream, serving, ticket]

-- What has been created for a stream stays.
theorem served_stays {p : String} {st : StreamId} {f : FileId} (ok : MayCreate g i p) (hs : g.served st = some f)
    (f' : FileId) :
    (g.stream i p).elim g.served (fun st => update g.served st (some f')) st = some f := by
  obtain user | ⟨st', t, serving, ticket, unserved, rfl⟩ := ok
  case inl => rw [Track.stream_none user]; exact hs
  case inr =>
    have ne : st ≠ st' := by rintro rfl; exact nomatch unserved.symm.trans hs
    rw [Track.stream_some serving ticket]
    simpa [ne] using hs

theorem Files.keeps {x : Handle → FileId} (h : Files w n g) (files : w'.files = w.files)
    (path : ∀ p f, w'.path p = some f → w.path p = some f) : Files w' n { g with file := x } where
  path p f hf := by rw [files]; exact h.path p f (path p f hf)
  short       := by rw [files]; exact h.short
  made        := by rw [files]; exact h.made
  served      := by rw [files]; exact h.served
  sent        := h.sent

-- A file is created: for the stream of the creator, or under a name that is not that of a connection.
theorem Files.creates {p : String} (h : Files w n g) (free : (Utf8.encode p.toList).length ≤ PATH_MAX)
    (ok : MayCreate g i p) :
    Files (w.created p w.files) n
      { g with
        name   := update g.name w.files p
        served := (g.stream i p).elim g.served fun st => update g.served st (some w.files) } := by
  have old {f : FileId} (hf : f < w.files) : update g.name w.files p f = g.name f := update_of_ne (Nat.ne_of_lt hf) ..
  have new : update g.name w.files p w.files = p := update_self ..
  have stays {st : StreamId} {f : FileId} (hs : g.served st = some f) := served_stays ok hs w.files
  refine ⟨fun q f hq => ?_, fun f hf => ?_, fun f hf t ht => ?_, fun st f hs => ?_, fun st lt => ?_⟩
  case refine_1 =>
    by_cases same : q = p
    case pos =>
      obtain rfl : w.files = f := by simpa [World.created, same] using hq
      exact ⟨Nat.lt_succ_self _, by simpa only [new] using same.symm⟩
    case neg =>
      have ⟨lt, name⟩ := h.path q f (by simpa [World.created, same] using hq)
      exact ⟨Nat.lt_succ_of_lt lt, (old lt).trans name⟩
  case refine_2 =>
    obtain lt | rfl := Nat.lt_succ_iff_lt_or_eq.mp hf
    case inl => simpa only [old lt] using h.short f lt
    case inr => simpa only [new] using free
  case refine_3 =>
    obtain lt | rfl := Nat.lt_succ_iff_lt_or_eq.mp hf
    case inl =>
      have ⟨st, ticket, served⟩ := h.made f lt t (by simpa only [old lt] using ht)
      exact ⟨st, ticket, stays served⟩
    case inr =>
      have ht : p = shmPath t.text := by simpa only [new] using ht
      obtain user | ⟨st, u, serving, ticket, _, hu⟩ := ok
      case inl => exact absurd ht (user t)
      case inr =>
        obtain rfl : t = u := Ticket.text_inj (shmPath_inj (ht.symm.trans hu))
        have stream := Track.stream_some serving ticket
        rw [← hu] at stream
        exact ⟨st, ticket, by simp [stream]⟩
  case refine_4 =>
    have before {f : FileId} (hs : g.served st = some f) :
        f < w.files + 1 ∧ ∃ t, g.ticket st = some t ∧ update g.name w.files p f = shmPath t.text := by
      have ⟨lt, t, ticket, name⟩ := h.served st f hs
      exact ⟨Nat.lt_succ_of_lt lt, t, ticket, (old lt).trans name⟩
    obtain user | ⟨st', t, serving, ticket, _, rfl⟩ := ok
    case inl => exact before (by simpa only [Track.stream_none user, Option.elim_none] using hs)
    case inr =>
      simp only [Track.stream_some serving ticket, Option.elim_some] at hs
      by_cases same : st = st'
      case neg => exact before (by simpa [same] using hs)
      case pos =>
        subst same
        obtain rfl : w.files = f := by simpa using hs
        exact ⟨Nat.lt_succ_self _, t, ticket, new⟩
  case refine_5 =>
    exact (h.sent st lt).imp_right fun ⟨t, f, ticket, served, sent⟩ => ⟨t, f, ticket, stays served, sent⟩

theorem Files.connects {p : String} {d : ThreadId → Option StreamId} {b : SocketId → List StreamId} (h : Files w n g)
    (q : Queues n g) :
    Files w
      { n with
        backlog := b
        sent    := update n.sent n.streams []
        read    := update n.read n.streams 0
        streams := n.streams + 1 }
      { g with
        dialing := d
        dialled := update g.dialled n.streams p
        ticket  := update g.ticket n.streams none
        served  := update g.served n.streams none } := by
  have ne {st : StreamId} {t : Ticket} (ht : g.ticket st = some t) : st ≠ n.streams :=
    Nat.ne_of_lt (q.ticket st t ht).left
  have stays {st : StreamId} {t : Ticket} {f : FileId} (ht : g.ticket st = some t) (hs : g.served st = some f) :
      update g.ticket n.streams none st = some t ∧ update g.served n.streams none st = some f := by
    simpa [ne ht] using ⟨ht, hs⟩
  refine ⟨h.path, h.short, fun f lt t ht => ?_, fun st f hs => ?_, fun st lt => ?_⟩
  case refine_1 =>
    have ⟨st, ticket, served⟩ := h.made f lt t ht
    exact ⟨st, stays ticket served⟩
  case refine_2 =>
    by_cases same : st = n.streams
    case pos => simp [same] at hs
    case neg => simpa [same] using h.served st f (by simpa [same] using hs)
  case refine_3 =>
    obtain lt | rfl := Nat.lt_succ_iff_lt_or_eq.mp lt
    case inr => exact .inl (update_self ..)
    case inl =>
      have sent : update n.sent n.streams [] st = n.sent st := update_of_ne (Nat.ne_of_lt lt) ..
      obtain none | ⟨t, f, ticket, served, hs⟩ := h.sent st lt
      case inl => exact .inl (sent.trans none)
      case inr =>
        have ⟨ticket, served⟩ := stays ticket served
        exact .inr ⟨t, f, ticket, served, by simpa only [sent] using hs⟩

theorem Files.names {st : StreamId} {t : Ticket} (h : Files w n g) (free : g.ticket st = none) :
    Files w n { g with ticket := update g.ticket st (some t) } := by
  have stays {st' : StreamId} {u : Ticket} (hu : g.ticket st' = some u) : update g.ticket st (some t) st' = some u := by
    have ne : st' ≠ st := by rintro rfl; exact nomatch free.symm.trans hu
    simpa [ne] using hu
  refine ⟨h.path, h.short, fun f lt u hu => ?_, fun st' f hs => ?_, fun st' lt => ?_⟩
  case refine_1 =>
    have ⟨st', ticket, served⟩ := h.made f lt u hu
    exact ⟨st', stays ticket, served⟩
  case refine_2 =>
    have ⟨lt, u, ticket, name⟩ := h.served st' f hs
    exact ⟨lt, u, stays ticket, name⟩
  case refine_3 =>
    exact (h.sent st' lt).imp_right fun ⟨u, f, ticket, served, sent⟩ => ⟨u, f, stays ticket, served, sent⟩

theorem Files.writes {st : StreamId} {t : Ticket} {f : FileId} {b : Bytes} {k : Nat} (h : Files w n g)
    (ticket : g.ticket st = some t) (served : g.served st = some f) (sent : n.sent st ++ b <+: frame t.text) :
    Files w { n with sent := update n.sent st (n.sent st ++ b.take k) } g :=
  { h with
    sent := fun st' lt => by
      by_cases same : st' = st
      case neg => simpa [same] using h.sent st' lt
      case pos =>
        subst same
        have first : n.sent st' ++ b.take k <+: n.sent st' ++ b :=
          (List.prefix_append_right_inj _).mpr (List.take_prefix _ _)
        exact .inr ⟨t, f, ticket, served, by simpa using first.trans sent⟩ }

theorem Files.congr (h : Files w n g) (streams : n'.streams = n.streams) (sent : n'.sent = n.sent)
    (name : g'.name = g.name) (ticket : g'.ticket = g.ticket) (served : g'.served = g.served) : Files w n' g' where
  path   := by rw [name]; exact h.path
  short  := by rw [name]; exact h.short
  made   := by rw [name, ticket, served]; exact h.made
  served := by rw [name, ticket, served]; exact h.served
  sent   := by rw [streams, sent, ticket, served]; exact h.sent

-- A step at which nothing looks that is not the thread itself.
theorem Inv.congr {nonblocking : SocketId → Bool} {holder : ListenerId → ThreadId} {read : StreamId → Nat}
    (inv : Inv ((w, n), g)) :
    Inv ((w, { n with nonblocking := nonblocking, holder := holder, read := read }), g) :=
  ⟨inv.numbers.congr rfl rfl rfl rfl rfl rfl, inv.queues.congr rfl rfl rfl rfl rfl rfl rfl rfl rfl rfl,
    inv.files.congr rfl rfl rfl rfl rfl, inv.handles⟩

theorem Inv.accepts {k : SocketId} {st : StreamId} {rest : List StreamId} (inv : Inv ((w, n), g))
    (hk : n.backlog k = st :: rest) :
    Inv ((w, { n with backlog := update n.backlog k rest }), { g with serving := update g.serving i (some st) }) :=
  ⟨inv.numbers.congr rfl rfl rfl rfl rfl rfl, inv.queues.accepts hk, inv.files.congr rfl rfl rfl rfl rfl, inv.handles⟩

theorem Inv.preserves (inv : Inv s) (ok : Ok i a s) (e : (machine plat).exec i a s r s') : Inv s' := by
  obtain ⟨⟨w, n⟩, g⟩ := s
  obtain ⟨⟨w', n'⟩, g'⟩ := s'
  have ordinary := ordinary_exec e
  cases a
  case inl a =>
    obtain ⟨step, rfl, h⟩ := world_exec e
    by_cases creates : Creates a
    case neg =>
      have ⟨files, path⟩ := world_keeps step creates
      obtain rfl := h.trans (record_world creates)
      exact ⟨inv.numbers.congr rfl rfl rfl rfl rfl rfl, inv.queues.congr rfl rfl rfl rfl rfl rfl rfl rfl rfl rfl,
        inv.files.keeps files path, inv.handles.world creates step⟩
    case pos =>
      cases a
      case createNew p =>
        obtain ⟨free, rfl, created⟩ | ⟨⟨_⟩, created⟩ := step
        case inl =>
          obtain rfl : w' = w.created p w.files := created
          subst h
          exact ⟨inv.numbers.congr rfl rfl rfl rfl rfl rfl, inv.queues.congr rfl rfl rfl rfl rfl rfl rfl rfl rfl rfl,
            inv.files.creates ordinary ok, inv.handles⟩
        case inr =>
          obtain rfl : w' = w := created
          subst h
          exact inv
      all_goals exact creates.elim
  case inr a =>
    obtain ⟨step, rfl, h⟩ := net_exec e
    cases a
    case fetchNext =>
      obtain ⟨rfl, rfl⟩ := step
      subst h
      have small : n.next (w'.process i) + 1 < 2 ^ 64 := ordinary
      simp only [wrap64, Nat.mod_eq_of_lt small]
      exact ⟨inv.numbers.draws, inv.queues.congr rfl rfl rfl rfl rfl rfl rfl rfl rfl rfl,
        inv.files.congr rfl rfl rfl rfl rfl, inv.handles⟩
    case newListener x =>
      obtain ⟨rfl, rfl⟩ := step
      obtain ⟨lt, address, d, drawn, makes⟩ := ok
      simp only [Track.record, show g.drawn i = some d from drawn, Option.elim_some] at h
      subst h
      exact ⟨inv.numbers.listens drawn makes,
        (inv.queues.holds lt address).congr rfl rfl rfl rfl rfl rfl rfl rfl rfl rfl,
        inv.files.congr rfl rfl rfl rfl rfl, inv.handles⟩
    case bumpCounter l =>
      obtain ⟨x, hx, rfl⟩ := step
      obtain ⟨_, st, x', serving, free, hx', dialled⟩ := ok
      obtain rfl : x = x' := Option.some.inj (hx.symm.trans hx')
      have small : x.counter + 1 < 2 ^ 64 := ordinary x hx
      simp only [Track.record, show g.serving i = some st from serving, Option.elim_some] at h
      subst h
      simp only [wrap64, Nat.mod_eq_of_lt small]
      have makes := (inv.numbers.parts l x hx).right
      have ⟨lt, address⟩ := inv.queues.inner l x hx
      have holds := inv.queues.holds (l := l) (x := { x with counter := x.counter + 1 }) lt address
      have names := holds.names (t := g.upcoming l) serving (dialled.trans (congrArg _ makes.name))
      exact ⟨inv.numbers.bumps hx free, names.congr rfl rfl rfl rfl rfl rfl rfl rfl rfl rfl,
        (inv.files.names free).congr rfl rfl rfl rfl rfl, inv.handles⟩
    case freeListener l =>
      obtain rfl := step
      subst h
      exact ⟨inv.numbers.frees, inv.queues.frees, inv.files.congr rfl rfl rfl rfl rfl, inv.handles⟩
    case removeSocket p =>
      obtain ⟨_, rfl⟩ | ⟨_, rfl⟩ := step
      case inl =>
        subst h
        exact ⟨inv.numbers.congr rfl rfl rfl rfl rfl rfl, inv.queues.unbinds,
          inv.files.congr rfl rfl rfl rfl rfl, inv.handles⟩
      case inr => subst h; exact inv
    case bind p =>
      obtain ⟨_, rfl, rfl⟩ | ⟨⟨_⟩, rfl⟩ := step
      case inl =>
        subst h
        exact ⟨inv.numbers.congr rfl rfl rfl rfl rfl rfl, inv.queues.binds,
          inv.files.congr rfl rfl rfl rfl rfl, inv.handles⟩
      case inr => subst h; exact inv
    case accept k =>
      obtain ⟨st, rest, hk, rfl, rfl⟩ | ⟨_, _, rfl, rfl⟩ | ⟨_, rfl, rfl⟩ := step
      case inl => subst h; exact inv.accepts hk
      all_goals subst h; exact inv
    case acceptAsync k timed =>
      obtain ⟨st, rest, hk, rfl, rfl⟩ | ⟨_, rfl, rfl⟩ | ⟨_, rfl, rfl⟩ := step
      case inl => subst h; exact inv.accepts hk
      all_goals subst h; exact inv
    case connect p =>
      obtain ⟨k, hp, rfl, rfl⟩ | ⟨_, rfl, rfl⟩ := step
      case inr => subst h; exact inv
      case inl =>
        subst h
        exact ⟨inv.numbers.forgets.congr rfl rfl rfl rfl rfl rfl, inv.queues.connects hp,
          inv.files.connects inv.queues, inv.handles⟩
    case write st b =>
      obtain ⟨_, t, f, ticket, served, sent⟩ := ok
      obtain ⟨m, _, rfl, rfl⟩ | ⟨rfl, rfl⟩ | ⟨_, rfl, rfl⟩ := step
      case inl =>
        subst h
        exact ⟨inv.numbers.congr rfl rfl rfl rfl rfl rfl, inv.queues.congr rfl rfl rfl rfl rfl rfl rfl rfl rfl rfl,
          inv.files.writes ticket served sent, inv.handles⟩
      all_goals subst h; exact inv
    case read st m =>
      obtain ⟨m, _, rfl, rfl⟩ | ⟨rfl, rfl⟩ | ⟨_, rfl, rfl⟩ := step
      case inl => subst h; exact inv.congr
      all_goals subst h; exact inv
    case setNonblocking k b =>
      obtain ⟨_, rfl⟩ | ⟨_, rfl⟩ := step
      case inl => subst h; exact inv.congr
      case inr => subst h; exact inv
    case giveListener l j => obtain rfl := step; subst h; exact inv.congr
    case getListener => obtain ⟨_, rfl⟩ := step; subst h; exact inv
    case setBlocking | flush | sleep => obtain rfl := step; subst h; exact inv

end Preserves

-- What remains, whoever takes a step.
structure Grows (s s' : State) : Prop where
  file    : ∀ f < s.fst.fst.files, f < s'.fst.fst.files ∧ s'.snd.name f = s.snd.name f
  handle  : ∀ h < s.fst.fst.handles, h < s'.fst.fst.handles ∧ s'.snd.file h = s.snd.file h
  socket  : ∀ k < s.fst.snd.sockets, k < s'.fst.snd.sockets ∧ s'.snd.address k = s.snd.address k
  stream  : ∀ st < s.fst.snd.streams, st < s'.fst.snd.streams ∧ s'.snd.dialled st = s.snd.dialled st
  ticket  : ∀ st < s.fst.snd.streams, ∀ t, s.snd.ticket st = some t → s'.snd.ticket st = some t
  served  : ∀ st < s.fst.snd.streams, ∀ f, s.snd.served st = some f → s'.snd.served st = some f
  sent    : ∀ st < s.fst.snd.streams, s.fst.snd.sent st <+: s'.fst.snd.sent st
  process : s'.fst.fst.process = s.fst.fst.process

-- What a step of another thread leaves alone.
structure Leaves (i : ThreadId) (s s' : State) : Prop where
  drawn    : s'.snd.drawn i = s.snd.drawn i
  serving  : s'.snd.serving i = s.snd.serving i
  dialing  : s'.snd.dialing i = s.snd.dialing i
  listener : ∀ l < s.fst.snd.listeners, s.fst.snd.holder l = i →
    l < s'.fst.snd.listeners ∧ s'.fst.snd.holder l = i ∧ s'.fst.snd.listener l = s.fst.snd.listener l
  server   : ∀ st, s.snd.serving i = some st →
    s'.snd.ticket st = s.snd.ticket st ∧ s'.snd.served st = s.snd.served st ∧ s'.fst.snd.sent st = s.fst.snd.sent st
  client   : ∀ st, s.snd.dialing i = some st → s'.fst.snd.read st = s.fst.snd.read st

section Changes

variable {w w' : World} {n n' : Net} {g g' : Track} {a : SiteAct} {r : SiteRet a}

theorem Grows.refl : Grows s s where
  file _ h    := ⟨h, rfl⟩
  handle _ h  := ⟨h, rfl⟩
  socket _ h  := ⟨h, rfl⟩
  stream _ h  := ⟨h, rfl⟩
  ticket _ _  := fun _ h => h
  served _ _  := fun _ h => h
  sent _ _    := List.prefix_rfl
  process     := rfl

theorem Leaves.refl : Leaves i s s where
  drawn          := rfl
  serving        := rfl
  dialing        := rfl
  listener _ h e := ⟨h, e, rfl⟩
  server _ _     := ⟨rfl, rfl, rfl⟩
  client _ _     := rfl

theorem grows_world {a : Act} {r : a.Ret} (ok : Ok i (.inl a) ((w, n), g)) (e : World.exec plat i a w r w') :
    Grows ((w, n), g) ((w', n), Track.record i (.inl a) r (w, n) g) := by
  have process : w'.process = w.process := (World.frame e).process
  by_cases creates : Creates a
  case pos =>
    cases a
    case createNew p =>
      obtain ⟨_, rfl, created⟩ | ⟨⟨_⟩, created⟩ := e
      case inr => obtain rfl : w' = w := created; exact .refl
      case inl =>
        obtain rfl : w' = w.created p w.files := created
        exact { Grows.refl with
          file    := fun f hf => ⟨Nat.lt_succ_of_lt hf, update_of_ne (Nat.ne_of_lt hf) ..⟩
          handle  := fun _ hh => ⟨hh, rfl⟩
          served  := fun st _ f hs => served_stays ok hs w.files
          process := process }
    all_goals exact creates.elim
  case neg =>
    have files : w'.files = w.files := (world_keeps e creates).left
    have handle : ∀ h < w.handles, h < w'.handles ∧ (Track.record i (.inl a) r (w, n) g).file h = g.file h := by
      intro h hh
      by_cases new : ∃ x q, a = .newShared x q
      case pos =>
        obtain ⟨x, q, rfl⟩ := new
        obtain ⟨rfl, rfl⟩ := e
        exact ⟨Nat.lt_succ_of_lt hh, update_of_ne (Nat.ne_of_lt hh) ..⟩
      case neg =>
        have handles : w'.handles = w.handles := (World.frame e).handles fun hp => by
          cases a <;> simp [Act.parts] at hp new
        have file : (Track.record i (.inl a) r (w, n) g).file = g.file := by
          cases a
          case newShared x q => exact absurd ⟨x, q, rfl⟩ new
          case createNew     => exact creates.elim trivial
          all_goals rfl
        exact ⟨handles ▸ hh, congrFun file h⟩
    obtain ⟨x, same⟩ : ∃ x, Track.record i (.inl a) r (w, n) g = { g with file := x } := ⟨_, record_world creates⟩
    rw [same] at handle ⊢
    exact { Grows.refl with
      file    := fun _ hf => ⟨files ▸ hf, rfl⟩
      handle  := handle
      process := process }

theorem grows (ok : Ok i a s) (e : (machine plat).exec i a s r s') : Grows s s' := by
  obtain ⟨⟨w, n⟩, g⟩ := s
  obtain ⟨⟨w', n'⟩, g'⟩ := s'
  cases a
  case inl a =>
    obtain ⟨step, rfl, h⟩ := world_exec e
    exact h ▸ grows_world ok step
  case inr a =>
    obtain ⟨step, rfl, rfl⟩ := net_exec e
    cases a
    case bind p =>
      obtain ⟨_, rfl, rfl⟩ | ⟨⟨_⟩, rfl⟩ := step
      case inl =>
        exact { Grows.refl with socket := fun k hk => ⟨Nat.lt_succ_of_lt hk, update_of_ne (Nat.ne_of_lt hk) ..⟩ }
      case inr => exact .refl
    case bumpCounter l =>
      obtain ⟨x, _, rfl⟩ := step
      obtain ⟨_, st, _, serving, free, _, _⟩ := ok
      have serving : g.serving i = some st := serving
      have free : g.ticket st = none := free
      refine { Grows.refl with ticket := fun st' _ t ht => ?_ }
      have ne : st' ≠ st := by rintro rfl; exact nomatch free.symm.trans ht
      simpa [Track.record, serving, ne] using ht
    case connect p =>
      obtain ⟨k, _, rfl, rfl⟩ | ⟨_, rfl, rfl⟩ := step
      case inr => exact .refl
      case inl =>
        have ne {st : StreamId} (lt : st < n.streams) : st ≠ n.streams := Nat.ne_of_lt lt
        exact { Grows.refl with
          stream := fun st lt => ⟨Nat.lt_succ_of_lt lt, update_of_ne (ne lt) ..⟩
          ticket := fun st lt t ht => (update_of_ne (ne lt) ..).trans ht
          served := fun st lt f hf => (update_of_ne (ne lt) ..).trans hf
          sent   := fun st lt => by simp [ne lt] }
    case write st b =>
      obtain ⟨m, _, rfl, rfl⟩ | ⟨rfl, rfl⟩ | ⟨_, rfl, rfl⟩ := step
      case inl =>
        refine { Grows.refl with sent := fun st' _ => ?_ }
        by_cases same : st' = st
        case pos => subst same; simp
        case neg => simp [same]
      all_goals exact .refl
    case accept k      =>
      obtain ⟨_, _, _, rfl, rfl⟩ | ⟨_, _, rfl, rfl⟩ | ⟨_, rfl, rfl⟩ := step <;> exact { Grows.refl with }
    case acceptAsync k =>
      obtain ⟨_, _, _, rfl, rfl⟩ | ⟨_, rfl, rfl⟩ | ⟨_, rfl, rfl⟩ := step <;> exact { Grows.refl with }
    case read          => obtain ⟨_, _, rfl, rfl⟩ | ⟨rfl, rfl⟩ | ⟨_, rfl, rfl⟩ := step <;> exact { Grows.refl with }
    case setNonblocking | removeSocket => obtain ⟨_, rfl⟩ | ⟨_, rfl⟩ := step <;> exact { Grows.refl with }
    case fetchNext | newListener | getListener => obtain ⟨_, rfl⟩ := step; exact { Grows.refl with }
    case freeListener | giveListener | setBlocking | flush | sleep => obtain rfl := step; exact { Grows.refl with }

theorem leaves (inv : Inv s) (ne : j ≠ i) (ok : Ok j a s) (e : (machine plat).exec j a s r s') : Leaves i s s' := by
  obtain ⟨⟨w, n⟩, g⟩ := s
  obtain ⟨⟨w', n'⟩, g'⟩ := s'
  have ne' : i ≠ j := ne.symm
  have server {st st' : StreamId} (hi : g.serving i = some st) (hj : g.serving j = some st') : st ≠ st' := by
    rintro rfl
    exact ne (inv.queues.server _ _ st hj hi)
  cases a
  case inl a =>
    obtain ⟨step, rfl, h⟩ := world_exec e
    by_cases creates : Creates a
    case neg =>
      obtain rfl := h.trans (record_world creates)
      exact { Leaves.refl with }
    case pos =>
      cases a
      case createNew p =>
        obtain ⟨_, rfl, _⟩ | ⟨⟨_⟩, _⟩ := step
        case inr => subst h; exact { Leaves.refl with }
        case inl =>
          subst h
          refine { Leaves.refl with server := fun st hst => ⟨rfl, ?_, rfl⟩ }
          obtain user | ⟨st', t, serving, ticket, _, rfl⟩ := ok
          case inl => simp [Track.record, Track.stream_none user]
          case inr => simp [Track.record, Track.stream_some serving ticket, server hst serving]
      all_goals exact creates.elim
  case inr a =>
    obtain ⟨step, rfl, rfl⟩ := net_exec e
    cases a
    case fetchNext => obtain ⟨_, rfl⟩ := step; exact { Leaves.refl with drawn := update_of_ne ne' .. }
    case newListener x =>
      obtain ⟨rfl, rfl⟩ := step
      refine { Leaves.refl with drawn := update_of_ne ne' .., listener := fun l lt holder => ?_ }
      have old : l ≠ n.listeners := Nat.ne_of_lt lt
      exact ⟨Nat.lt_succ_of_lt lt, by simpa [old] using holder, by simp [old]⟩
    case bumpCounter l =>
      obtain ⟨x, _, rfl⟩ := step
      obtain ⟨held, st, _, serving, _⟩ := ok
      have serving : g.serving j = some st := serving
      have held : n.holder l = j := held
      refine { Leaves.refl with listener := fun l' lt holder => ?_, server := fun st' hst => ⟨?_, rfl, rfl⟩ }
      case refine_1 =>
        have other : l' ≠ l := by rintro rfl; exact ne (held.symm.trans holder)
        exact ⟨lt, holder, by simp [other]⟩
      case refine_2 => simp [Track.record, serving, server hst serving]
    case freeListener l =>
      obtain rfl := step
      have held : n.holder l = j := ok
      refine { Leaves.refl with listener := fun l' lt holder => ?_ }
      have other : l' ≠ l := by rintro rfl; exact ne (held.symm.trans holder)
      exact ⟨lt, holder, by simp [other]⟩
    case giveListener l k =>
      obtain rfl := step
      have held : n.holder l = j := ok
      refine { Leaves.refl with listener := fun l' lt holder => ?_ }
      have other : l' ≠ l := by rintro rfl; exact ne (held.symm.trans holder)
      exact ⟨lt, by simpa [other] using holder, rfl⟩
    case accept k =>
      obtain ⟨st, rest, hk, rfl, rfl⟩ | ⟨_, _, rfl, rfl⟩ | ⟨_, rfl, rfl⟩ := step
      case inl => exact { Leaves.refl with serving := update_of_ne ne' .., server := fun _ _ => ⟨rfl, rfl, rfl⟩ }
      all_goals exact { Leaves.refl with }
    case acceptAsync k =>
      obtain ⟨st, rest, hk, rfl, rfl⟩ | ⟨_, rfl, rfl⟩ | ⟨_, rfl, rfl⟩ := step
      case inl => exact { Leaves.refl with serving := update_of_ne ne' .., server := fun _ _ => ⟨rfl, rfl, rfl⟩ }
      all_goals exact { Leaves.refl with }
    case connect p =>
      obtain ⟨k, _, rfl, rfl⟩ | ⟨_, rfl, rfl⟩ := step
      case inr => exact { Leaves.refl with }
      case inl =>
        refine { Leaves.refl with
          dialing := update_of_ne ne' ..
          server  := fun st hst => ?_
          client  := fun st hst => ?_ }
        case refine_1 =>
          have old : st ≠ n.streams := Nat.ne_of_lt (inv.queues.serving i st hst)
          exact ⟨update_of_ne old .., update_of_ne old .., update_of_ne old ..⟩
        case refine_2 => exact update_of_ne (Nat.ne_of_lt (inv.queues.dialing i st hst)) ..
    case write st b =>
      have serving : g.serving j = some st := ok.left
      obtain ⟨m, _, rfl, rfl⟩ | ⟨rfl, rfl⟩ | ⟨_, rfl, rfl⟩ := step
      case inl => exact { Leaves.refl with server := fun st' hst => ⟨rfl, rfl, update_of_ne (server hst serving) ..⟩ }
      all_goals exact { Leaves.refl with }
    case read st m =>
      have dialing : g.dialing j = some st := ok
      obtain ⟨m, _, rfl, rfl⟩ | ⟨rfl, rfl⟩ | ⟨_, rfl, rfl⟩ := step
      case inl =>
        refine { Leaves.refl with client := fun st' hst => update_of_ne ?_ .. }
        rintro rfl
        exact ne (inv.queues.client _ _ st' dialing hst)
      all_goals exact { Leaves.refl with }
    case bind                          => obtain ⟨_, rfl, rfl⟩ | ⟨⟨_⟩, rfl⟩ := step <;> exact { Leaves.refl with }
    case setNonblocking | removeSocket => obtain ⟨_, rfl⟩ | ⟨_, rfl⟩ := step <;> exact { Leaves.refl with }
    case getListener                   => obtain ⟨_, rfl⟩ := step; exact { Leaves.refl with }
    case setBlocking | flush | sleep   => obtain rfl := step; exact { Leaves.refl with }

end Changes

end Handshake
