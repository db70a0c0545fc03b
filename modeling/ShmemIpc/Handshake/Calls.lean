import ShmemIpc.Handshake.Sessions

-- A stream is accepted by one call, and dialled by one call.

open Function Assertion Code

namespace Handshake

variable {plat : Platform} {i j : ThreadId} {s s' : State} {st : StreamId}

-- The streams of an earlier state are still there, and those that had been accepted do not wait again.
structure Past (s s' : State) : Prop where
  streams : s.fst.snd.streams ≤ s'.fst.snd.streams
  taken   : ∀ st < s.fst.snd.streams, (∀ k, st ∉ s.fst.snd.backlog k) → ∀ k, st ∉ s'.fst.snd.backlog k

theorem Past.refl : Past s s :=
  ⟨Nat.le_refl _, fun _ _ h => h⟩

theorem Past.trans {t : State} (h : Past s s') (h' : Past s' t) : Past s t where
  streams            := Nat.le_trans h.streams h'.streams
  taken st lt gone k := h'.taken st (Nat.lt_of_lt_of_le lt h.streams) (h.taken st lt gone) k

-- What a step of the thread `i` does to the streams.
structure Moves (i : ThreadId) (s s' : State) : Prop where
  past    : Past s s'
  serving : ∀ j, s'.snd.serving j = s.snd.serving j ∨
    j = i ∧ ∃ st k, st ∈ s.fst.snd.backlog k ∧ s'.snd.serving j = some st
  dialing : ∀ j, s'.snd.dialing j = s.snd.dialing j ∨ j = i ∧ s'.snd.dialing j = some s.fst.snd.streams

theorem Moves.still (streams : s'.fst.snd.streams = s.fst.snd.streams)
    (backlog : s'.fst.snd.backlog = s.fst.snd.backlog)
    (serving : s'.snd.serving = s.snd.serving) (dialing : s'.snd.dialing = s.snd.dialing) : Moves i s s' where
  past      := ⟨Nat.le_of_eq streams.symm, fun _ _ gone => backlog ▸ gone⟩
  serving _ := .inl (congrFun serving _)
  dialing _ := .inl (congrFun dialing _)

theorem Moves.accepts {w : World} {n : Net} {g : Track} {k : SocketId} {rest : List StreamId}
    (waits : n.backlog k = st :: rest) :
    Moves i ((w, n), g) ((w, { n with backlog := update n.backlog k rest }),
      { g with serving := update g.serving i (some st) }) where
  past      := by
    refine ⟨Nat.le_refl _, fun st' _ gone k' => ?_⟩
    by_cases same : k' = k
    case neg => simpa [same] using gone k'
    case pos =>
      have gone := gone k
      simp only [waits, List.mem_cons, not_or] at gone
      simpa [same] using gone.right
  serving j := by
    by_cases same : j = i
    case neg => exact .inl (update_of_ne same ..)
    case pos => exact .inr ⟨same, st, k, by simp [waits], by simp [same]⟩
  dialing _ := .inl rfl

theorem Past.binds {w : World} {n : Net} {g g' : Track} {p : String} : Past ((w, n), g)
    ((w, { n with
      bound       := update n.bound p (some n.sockets)
      nonblocking := update n.nonblocking n.sockets false
      backlog     := update n.backlog n.sockets []
      sockets     := n.sockets + 1 }), g') := by
  refine ⟨Nat.le_refl _, fun st _ gone k => ?_⟩
  by_cases new : k = n.sockets
  case pos => simp [new]
  case neg => simpa [new] using gone k

theorem Past.connects {w : World} {n : Net} {g g' : Track} {k : SocketId} : Past ((w, n), g)
    ((w, { n with
      backlog := update n.backlog k (n.backlog k ++ [n.streams])
      sent    := update n.sent n.streams []
      read    := update n.read n.streams 0
      streams := n.streams + 1 }), g') := by
  refine ⟨Nat.le_succ _, fun st lt gone k' => ?_⟩
  by_cases same : k' = k
  case neg => simpa [same] using gone k'
  case pos =>
    simp only [same, update_self, List.mem_append, List.mem_singleton, not_or]
    exact ⟨gone k, Nat.ne_of_lt lt⟩

theorem moves {a : SiteAct} {r : SiteRet a} (e : (machine plat).exec i a s r s') : Moves i s s' := by
  obtain ⟨⟨w, n⟩, g⟩ := s
  obtain ⟨⟨w', n'⟩, g'⟩ := s'
  cases a
  case inl a =>
    obtain ⟨_, rfl, rfl⟩ := world_exec e
    cases a
    case createNew => cases r <;> exact .still rfl rfl rfl rfl
    all_goals exact .still rfl rfl rfl rfl
  case inr a =>
    obtain ⟨step, rfl, rfl⟩ := net_exec e
    cases a
    case accept =>
      obtain ⟨_, _, waits, rfl, rfl⟩ | ⟨_, _, rfl, rfl⟩ | ⟨_, rfl, rfl⟩ := step
      · exact .accepts waits
      · exact .still rfl rfl rfl rfl
      · exact .still rfl rfl rfl rfl
    case acceptAsync =>
      obtain ⟨_, _, waits, rfl, rfl⟩ | ⟨_, rfl, rfl⟩ | ⟨_, rfl, rfl⟩ := step
      · exact .accepts waits
      · exact .still rfl rfl rfl rfl
      · exact .still rfl rfl rfl rfl
    case bind =>
      obtain ⟨_, rfl, rfl⟩ | ⟨⟨_⟩, rfl⟩ := step
      · exact ⟨.binds, fun _ => .inl rfl, fun _ => .inl rfl⟩
      · exact .still rfl rfl rfl rfl
    case connect =>
      obtain ⟨_, _, rfl, rfl⟩ | ⟨_, rfl, rfl⟩ := step
      · refine ⟨.connects, fun _ => .inl rfl, fun j => ?_⟩
        by_cases same : j = i
        case pos => exact .inr ⟨same, by simp [same, Track.record]⟩
        case neg => exact .inl (update_of_ne same ..)
      · exact .still rfl rfl rfl rfl
    -- the other actions leave the streams alone
    case fetchNext | newListener       => obtain ⟨rfl, rfl⟩ := step; exact .still rfl rfl rfl rfl
    case getListener                   => obtain ⟨_, rfl⟩ := step; exact .still rfl rfl rfl rfl
    case bumpCounter                   => obtain ⟨_, _, rfl⟩ := step; exact .still rfl rfl rfl rfl
    case freeListener | giveListener   => obtain rfl := step; exact .still rfl rfl rfl rfl
    case setBlocking | flush | sleep   => obtain rfl := step; exact .still rfl rfl rfl rfl
    case removeSocket | setNonblocking => obtain ⟨_, rfl⟩ | ⟨_, rfl⟩ := step <;> exact .still rfl rfl rfl rfl
    case write | read                  =>
      obtain ⟨_, _, _, rfl⟩ | ⟨_, rfl⟩ | ⟨_, _, rfl⟩ := step <;> exact .still rfl rfl rfl rfl

variable {a : SiteAct} {r : SiteRet a} {t : State}

-- Since the state `s`, the thread has accepted a stream that had not been accepted, and no other one later.
structure AcceptsAnew (i : ThreadId) (s s' : State) : Prop where
  past : Past s s'
  anew : ∀ st < s.fst.snd.streams, (∀ k, st ∉ s.fst.snd.backlog k) → s'.snd.serving i ≠ some st

-- As above, for a stream that had not been there, and that it has dialled.
structure DialsAnew (i : ThreadId) (s s' : State) : Prop where
  past : Past s s'
  anew : ∀ st < s.fst.snd.streams, s'.snd.dialing i ≠ some st

theorem Past.step (h : Past s s') (e : (machine plat).exec j a s' r t) : Past s t :=
  h.trans (moves e).past

theorem serving_ne (past : Past s s') (lt : st < s.fst.snd.streams) (gone : ∀ k, st ∉ s.fst.snd.backlog k)
    (e : (machine plat).exec j a s' r t) (other : s'.snd.serving i ≠ some st) : t.snd.serving i ≠ some st := by
  intro serving
  obtain same | ⟨_, st', k, waits, accepted⟩ := (moves e).serving i
  case inl => exact other (same.symm.trans serving)
  case inr =>
    obtain rfl := Option.some.inj (accepted.symm.trans serving)
    exact past.taken st' lt gone k waits

theorem dialing_ne (past : Past s s') (lt : st < s.fst.snd.streams) (e : (machine plat).exec j a s' r t)
    (other : s'.snd.dialing i ≠ some st) : t.snd.dialing i ≠ some st := by
  intro dialing
  obtain same | ⟨_, dialled⟩ := (moves e).dialing i
  case inl => exact other (same.symm.trans dialing)
  case inr =>
    obtain rfl := Option.some.inj (dialled.symm.trans dialing)
    exact absurd (Nat.lt_of_lt_of_le lt past.streams) (Nat.lt_irrefl _)

theorem AcceptsAnew.step (h : AcceptsAnew i s s') (e : (machine plat).exec j a s' r t) : AcceptsAnew i s t where
  past            := h.past.step e
  anew st lt gone := serving_ne h.past lt gone e (h.anew st lt gone)

theorem DialsAnew.step (h : DialsAnew i s s') (e : (machine plat).exec j a s' r t) : DialsAnew i s t where
  past       := h.past.step e
  anew st lt := dialing_ne h.past lt e (h.anew st lt)

-- What a call does to the streams, if all steps are permitted.

def unguarded (plat : Platform) : Protocol (machine plat) where
  inv _           := True
  ok _ _ _        := True
  preserves _ _ _ := trivial

-- The call began in the state `s`.
def since (s : State) : Assertion (unguarded plat) i :=
  .ofPersistent (Past s) fun _ _ e h => h.step e

def acceptsAnew (s : State) : Assertion (unguarded plat) i :=
  .ofPersistent (AcceptsAnew i s) fun _ _ e h => h.step e

def dialsAnew (s : State) : Assertion (unguarded plat) i :=
  .ofPersistent (DialsAnew i s) fun _ _ e h => h.step e

theorem since_persistent : (since s : Assertion (unguarded plat) i).Persistent :=
  ⟨fun _ _ e h => Past.step h e⟩

theorem acceptsAnew_persistent : (acceptsAnew s : Assertion (unguarded plat) i).Persistent :=
  ⟨fun _ _ e h => AcceptsAnew.step h e⟩

theorem dialsAnew_persistent : (dialsAnew s : Assertion (unguarded plat) i).Persistent :=
  ⟨fun _ _ e h => DialsAnew.step h e⟩

section

variable {α β : Type} {P : Assertion (unguarded plat) i} {N : β → Assertion (unguarded plat) i}
variable {l : ListenerId} {k : SocketId} {timed : Bool} {name path : String} {config : ChannelConfig}

-- The errors tell nothing.
abbrev Gives (P : Assertion (unguarded plat) i) (p : SiteRoutine β) (N : β → Assertion (unguarded plat) i) : Prop :=
  Spec P p N fun _ => ⊤

theorem lasts (hp : P.Persistent) {p : SiteRoutine β} : Gives P p fun _ => P := by
  have all : Code.Only (fun _ => True) (fun _ => True) p :=
    Program.Only.mono (fun _ h => h) (fun | .ok _, _ | .error _, _ => trivial) .all
  exact (Spec.only (hp.keeps fun _ _ _ => trivial) all).post (fun _ => le_rfl) fun _ _ _ _ => trivial

theorem after (hp : P.Persistent) {p : SiteRoutine α} {f : α → SiteRoutine β} (hf : ∀ x, Gives P (f x) N) :
    Gives P (p >>= f) N :=
  Spec.bind (lasts hp) hf

theorem fails {e : Error} : Gives P (Code.throw e) N :=
  Spec.throw fun _ _ _ => trivial

-- The answer of an accept.
def accepted (s : State) : Option (Except IoError StreamId) → Assertion (unguarded plat) i
  | some (.ok _) => acceptsAnew s
  | _            => since s

theorem AcceptsAnew.of_waits {u : State} (past : Past s s') (after : Past s u) (waits : st ∈ s'.fst.snd.backlog k)
    (serving : u.snd.serving i = some st) : AcceptsAnew i s u := by
  refine ⟨after, fun st' lt gone serving' => ?_⟩
  obtain rfl := Option.some.inj (serving.symm.trans serving')
  exact past.taken st lt gone k waits

theorem accept_act {f : Option (Except IoError StreamId) → SiteRoutine β} (hf : ∀ r, Gives (accepted s r) (f r) N) :
    Gives (since s) (net (.accept k) >>= f) N := by
  refine Spec.act (a := Sum.inr (Net.Act.accept k)) (accepted s) (fun _ _ _ => trivial) ?_ hf
  rintro ⟨⟨w, n⟩, g⟩ r ⟨⟨w', n'⟩, g'⟩ _ past e
  have after := Past.step past e
  obtain ⟨step, rfl, rfl⟩ := net_exec e
  obtain ⟨_, _, waits, rfl, rfl⟩ | ⟨_, _, rfl, rfl⟩ | ⟨_, rfl, rfl⟩ := step
  · exact .of_waits (k := k) past after (by simp [waits]) (update_self ..)
  · exact after
  · exact after

theorem acceptAsync_act {f : Option (Except IoError StreamId) → SiteRoutine β}
    (hf : ∀ r, Gives (accepted s r) (f r) N) :
    Gives (since s) (net (.acceptAsync k timed) >>= f) N := by
  refine Spec.act (a := Sum.inr (Net.Act.acceptAsync k timed)) (accepted s) (fun _ _ _ => trivial) ?_ hf
  rintro ⟨⟨w, n⟩, g⟩ r ⟨⟨w', n'⟩, g'⟩ _ past e
  have after := Past.step past e
  obtain ⟨step, rfl, rfl⟩ := net_exec e
  obtain ⟨_, _, waits, rfl, rfl⟩ | ⟨_, rfl, rfl⟩ | ⟨_, rfl, rfl⟩ := step
  · exact .of_waits (k := k) past after (by simp [waits]) (update_self ..)
  · exact after
  · exact after

-- The rest of an accept.
theorem serves_anew {r : Except IoError StreamId} {f : StreamId → SiteRoutine β} :
    Gives (accepted s (some r)) (succeed r >>= f) fun _ => (acceptsAnew s : Assertion (unguarded plat) i) := by
  cases r
  case error => exact Spec.bind (M := fun _ => acceptsAnew s) fails fun _ => lasts acceptsAnew_persistent
  case ok    => exact lasts acceptsAnew_persistent

theorem accept_anew : Gives (since s) (Listener.accept l) fun _ => (acceptsAnew s : Assertion (unguarded plat) i) := by
  refine after since_persistent fun x => accept_act fun r => ?_
  cases r
  case none => exact fails
  case some => exact serves_anew

theorem acceptWith_anew :
    Gives (since s) (Tokio.acceptWith l timed) fun _ => (acceptsAnew s : Assertion (unguarded plat) i) := by
  refine after since_persistent fun x => acceptAsync_act fun r => ?_
  cases r
  case none => exact fails
  case some => exact serves_anew

theorem awaitStream_anew {deadline : Nat} :
    Gives (since s) (Listener.awaitStream k deadline)
      (outcome (fun _ => acceptsAnew s) fun _ => (⊤ : Assertion (unguarded plat) i)) := by
  refine Spec.loop (fun _ => since s) le_rfl fun _ => accept_act fun r => ?_
  rcases r with _ | e | st
  · refine after since_persistent fun t => ?_
    split
    case isTrue  => exact Spec.pure fun _ _ _ => trivial
    case isFalse => exact after since_persistent fun _ => Spec.pure le_rfl
  · exact Spec.pure fun _ _ _ => trivial
  · exact after acceptsAnew_persistent fun _ => after acceptsAnew_persistent fun _ => Spec.pure le_rfl

theorem acceptTimeout_anew {timeout : Nat} :
    Gives (since s) (Listener.acceptTimeout l timeout) fun _ => (acceptsAnew s : Assertion (unguarded plat) i) := by
  refine after since_persistent fun x => after since_persistent fun _ => after since_persistent fun _ => ?_
  refine after since_persistent fun t => Spec.bind awaitStream_anew fun result => ?_
  cases result
  case error =>
    exact after .top fun _ => after .top fun _ => Spec.bind (M := fun _ => acceptsAnew s) fails fun _ =>
      lasts acceptsAnew_persistent
  case ok => exact lasts acceptsAnew_persistent

theorem dial_anew {deadline : Nat} {again : ConnectError → Bool} :
    Gives (since s) (dial path deadline again) fun _ => (dialsAnew s : Assertion (unguarded plat) i) := by
  refine Spec.loop (fun _ => since s) le_rfl fun _ => ?_
  refine Spec.act (a := Sum.inr (Net.Act.connect path)) (outcome (fun _ => dialsAnew s) fun _ => since s)
    (fun _ _ _ => trivial) ?_
    fun r => ?_
  case refine_1 =>
    rintro ⟨⟨w, n⟩, g⟩ r ⟨⟨w', n'⟩, g'⟩ _ past e
    have after := Past.step past e
    obtain ⟨step, rfl, rfl⟩ := net_exec e
    obtain ⟨_, _, rfl, rfl⟩ | ⟨_, rfl, rfl⟩ := step
    · refine ⟨after, fun st lt dialing => ?_⟩
      have dialled : update g.dialing i (some n.streams) i = some n.streams := update_self ..
      obtain rfl := Option.some.inj (dialled.symm.trans dialing)
      exact absurd (Nat.lt_of_lt_of_le lt past.streams) (Nat.lt_irrefl _)
    · exact after
  case refine_2 =>
    cases r
    case ok    => exact Spec.pure le_rfl
    case error =>
      refine after since_persistent fun t => ?_
      split
      case isTrue  => exact after since_persistent fun _ => Spec.pure le_rfl
      case isFalse => exact fails

theorem connect_anew :
    Gives (since s) (connect name config) fun _ => (dialsAnew s : Assertion (unguarded plat) i) :=
  after since_persistent fun _ => after since_persistent fun _ => Spec.bind dial_anew fun _ =>
    lasts dialsAnew_persistent

theorem connectAsync_anew :
    Gives (since s) (Tokio.connect name config) fun _ => (dialsAnew s : Assertion (unguarded plat) i) :=
  after since_persistent fun _ => after since_persistent fun _ => Spec.bind dial_anew fun _ =>
    lasts dialsAnew_persistent

end

-- What a call that succeeds has done to the streams, where it began in the state `s`.
def anew (s : State) : (o : Operation) → o.Answer → Assertion (unguarded plat) i
  | .accept _, _ | .acceptTimeout .., _ | .acceptAsync _, _ | .acceptTimeoutAsync _, _ => acceptsAnew s
  | .connect .., _ | .connectAsync .., _                                               => dialsAnew s
  | _, _                                                                               => ⊤

theorem anew_spec {o : Operation} : Gives (since s) o.code (anew s o : o.Answer → Assertion (unguarded plat) i) := by
  cases o
  case accept             => exact accept_anew
  case acceptTimeout      => exact acceptTimeout_anew
  case acceptAsync        => exact acceptWith_anew
  case acceptTimeoutAsync => exact acceptWith_anew
  case connect            => exact connect_anew
  case connectAsync       => exact connectAsync_anew
  all_goals exact (lasts since_persistent).post (fun _ _ _ _ => trivial) fun _ => le_rfl

def anewVerified (plat : Platform) : Verified handshakes (unguarded plat) where
  idle _       := ⊤
  post _ o s v := outcome (anew s o) (fun _ => ⊤) v
  init _       := ⟨trivial, fun _ => trivial⟩
  spec _ _ _   := ⟨since _, .refl, Program.Triple.post (fun _ _ _ hs => ⟨trivial, hs⟩) anew_spec⟩

-- The same where futures are dropped.
def anewDropping (plat : Platform) : Verified system (unguarded plat) :=
  (anewVerified plat).dropping Suspends Operation.Async (fun _ _ _ => ⊤) fun {i o s} _ _ _ _ => by
    refine ⟨since s, .refl, fun _ _ _ => ⟨trivial, trivial⟩, ?_⟩
    have spec : Gives (since s) o.code (anew s o : o.Answer → Assertion (unguarded plat) i) := anew_spec
    have pausing : o.code.Triple
        ((since s ⊓ since s).pausing :
          Assertion ((unguarded plat).pausing i Suspends (since s : Assertion (unguarded plat) i)) i) _ :=
      Program.Triple.pausing_keeps (S := fun _ => True) (fun _ _ _ e h => Past.step h e) Program.Only.all spec
    refine Program.Triple.pre ?_ (Program.Triple.post (fun v => ?_) pausing)
    · exact fun _ _ hs => ⟨hs, hs⟩
    · exact fun _ _ hs => ⟨trivial, hs.left.left⟩

variable {c d : system.Config}

theorem past_of_steps (reach : system.Reachable (machine plat) c) (e : system.Steps (machine plat) c d) :
    Past c.mem d.mem :=
  (anewDropping plat).persists Machine.le_rfl (fun _ _ e h => Past.step h e) reach e .refl

-- A thread that is not the one that has accepted a stream, or dialled it, is never that one.

theorem not_serving (reach : system.Reachable (machine plat) c) (e : system.Steps (machine plat) c d)
    (lt : st < c.mem.fst.snd.streams) (gone : ∀ k, st ∉ c.mem.fst.snd.backlog k)
    (other : c.mem.snd.serving i ≠ some st) :
    d.mem.snd.serving i ≠ some st :=
  have later : Past c.mem d.mem ∧ d.mem.snd.serving i ≠ some st :=
    (anewDropping plat).persists (P := fun s => Past c.mem s ∧ s.snd.serving i ≠ some st) Machine.le_rfl
      (fun _ _ e h => ⟨h.left.step e, serving_ne h.left lt gone e h.right⟩) reach e ⟨.refl, other⟩
  later.right

theorem not_dialing (reach : system.Reachable (machine plat) c) (e : system.Steps (machine plat) c d)
    (lt : st < c.mem.fst.snd.streams) (other : c.mem.snd.dialing i ≠ some st) : d.mem.snd.dialing i ≠ some st :=
  have later : Past c.mem d.mem ∧ d.mem.snd.dialing i ≠ some st :=
    (anewDropping plat).persists (P := fun s => Past c.mem s ∧ s.snd.dialing i ≠ some st) Machine.le_rfl
      (fun _ _ e h => ⟨h.left.step e, dialing_ne h.left lt e h.right⟩) reach e ⟨.refl, other⟩
  later.right

end Handshake
