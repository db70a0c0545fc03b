import ShmemIpc.Handshake.Calls
import ShmemIpc.Execution.Run

open Function

namespace Handshake

variable {plat : Platform} {c d : system.Config} {i j : ThreadId} {st st' : StreamId} {f f' : FileId} {s : State}

-- The thread `i` is about to return the answer `v` of `o`, which it may have dropped and called again.
inductive Returns (c : system.Config) (i : ThreadId) (o : Operation) (v : o.Answer) : Prop
  | called {s : State} (at_ : c.Returning i (.inl o) s (.ok v))
  | again {s : State} {ns : List Nat} (at_ : c.Returning i (.inr (o, ns)) s (some (.ok v)))

def serverEnd : (o : Operation) → o.Answer → Option Channel
  | .accept _, ch | .acceptTimeout .., ch | .acceptAsync _, ch | .acceptTimeoutAsync _, ch => some ch
  | _, _                                                                                   => none

def clientEnd : (o : Operation) → o.Answer → Option (String × Channel)
  | .connect name _, ch | .connectAsync name _, ch => some (name, ch)
  | _, _                                           => none

-- The channel is in the file.
def InFile (ch : Channel) (f : FileId) (s : State) : Prop :=
  ∃ x, s.fst.fst.shared ch.shared = some x ∧ x.base = f

-- The thread returns a channel in the file `f` to the caller of `accept`, for the stream that it has accepted last.
def Server (c : system.Config) (i : ThreadId) (st : StreamId) (f : FileId) : Prop :=
  ∃ o v ch, Returns c i o v ∧ serverEnd o v = some ch ∧ InFile ch f c.mem ∧ c.mem.snd.serving i = some st

-- As above, to the caller of `connect`, for the stream that it has dialled last.
def Client (c : system.Config) (i : ThreadId) (name : String) (st : StreamId) (f : FileId) : Prop :=
  ∃ o v ch, Returns c i o v ∧ clientEnd o v = some (name, ch) ∧ InFile ch f c.mem ∧ c.mem.snd.dialing i = some st

theorem told_of_returns {o : Operation} {v : o.Answer} (reach : system.Reachable (machine plat) c)
    (h : Returns c i o v) :
    (told o v : Assertion (protocol plat) i) c.mem := by
  cases h
  case called at_ => exact ((dropping plat).post_of_returning reach at_).right
  case again at_  => exact ((dropping plat).post_of_returning reach at_).right

-- The stream has got a name, and a file of that name has been created for it.
structure Session (s : State) (st : StreamId) (t : Ticket) (f : FileId) : Prop where
  lt     : st < s.fst.snd.streams
  ticket : s.snd.ticket st = some t
  served : s.snd.served st = some f

theorem InFile.file {ch : Channel} (inv : Inv s) (h : InFile ch f s)
    (hm : (mapped ch.shared f' : Assertion (protocol plat) i) s) : f' = f := by
  obtain ⟨x, found, rfl⟩ := h
  exact hm.right.symm.trans (inv.handles _ x found).right

theorem Server.session (reach : system.Reachable (machine plat) c) (h : Server c i st f) :
    ∃ t, Session c.mem st t f ∧ c.mem.fst.snd.sent st = frame t.text := by
  have inv := (dropping plat).inv_of_reachable reach
  obtain ⟨o, v, ch, returns, ends, at_, serving⟩ := h
  have told := told_of_returns reach returns
  have handed : (handed ch : Assertion (protocol plat) i) c.mem := by
    cases o
    case accept | acceptTimeout | acceptAsync | acceptTimeoutAsync =>
      obtain rfl := Option.some.inj ends
      exact told
    all_goals cases ends
  obtain ⟨st', t, f', ⟨serving', ticket, served, sent⟩, mapped⟩ := handed
  obtain rfl := Option.some.inj (serving.symm.trans serving')
  obtain rfl := at_.file inv mapped
  exact ⟨t, ⟨inv.queues.serving i st serving, ticket, served⟩, sent⟩

theorem Client.session {name : String} (reach : system.Reachable (machine plat) c) (h : Client c i name st f) :
    ∃ t, Session c.mem st t f ∧ t.name = name := by
  have inv := (dropping plat).inv_of_reachable reach
  obtain ⟨o, v, ch, returns, ends, at_, dialing⟩ := h
  have told := told_of_returns reach returns
  have joined : (joined name ch : Assertion (protocol plat) i) c.mem := by
    cases o
    case connect | connectAsync =>
      obtain ⟨rfl, rfl⟩ := Prod.mk.inj (Option.some.inj ends)
      exact told
    all_goals cases ends
  obtain ⟨st', t, f', ⟨⟨dialer, lt, ticket, served⟩, mapped⟩, same⟩ := joined
  obtain rfl := Option.some.inj (dialing.symm.trans dialer.left)
  obtain rfl := at_.file inv mapped
  exact ⟨t, ⟨lt, ticket, served⟩, same⟩

theorem Session.later {t : Ticket} (reach : system.Reachable (machine plat) c) (e : system.Steps (machine plat) c d)
    (h : Session c.mem st t f) : Session d.mem st t f := by
  refine (dropping plat).persists (P := fun s => Session s st t f) Machine.le_rfl (fun _ ok e h => ?_) reach e h
  have grown := grows ok e
  exact ⟨(grown.stream st h.lt).left, grown.ticket st h.lt t h.ticket, grown.served st h.lt f h.served⟩

-- A file is created for one stream.
theorem Session.same {t t' : Ticket} (inv : Inv s) (h : Session s st t f) (h' : Session s st' t' f') :
    f = f' ↔ st = st' := by
  constructor
  case mp =>
    rintro rfl
    obtain ⟨_, u, ticket, name⟩ := inv.files.served st f h.served
    obtain ⟨_, u', ticket', name'⟩ := inv.files.served st' f h'.served
    obtain rfl := Ticket.text_inj (shmPath_inj (name.symm.trans name'))
    exact inv.numbers.own _ _ _ ticket ticket'
  case mpr =>
    rintro rfl
    exact Option.some.inj (h.served.symm.trans h'.served)

-- An end of a connection, on either side.
def End (c : system.Config) (i : ThreadId) (st : StreamId) (f : FileId) : Prop :=
  Server c i st f ∨ ∃ name, Client c i name st f

theorem End.session (reach : system.Reachable (machine plat) c) : End c i st f → ∃ t, Session c.mem st t f
  | .inl h      => (h.session reach).imp fun _ h => h.left
  | .inr ⟨_, h⟩ => (h.session reach).imp fun _ h => h.left

theorem Returns.returning {o : Operation} {v : o.Answer} (h : Returns c i o v) :
    ∃ (o : system.Op) (s : State) (v : system.Ret o), c.Returning i o s v := by
  cases h
  case called at_ => exact ⟨_, _, _, at_⟩
  case again at_  => exact ⟨_, _, _, at_⟩

theorem anew_of_returns {o : Operation} {v : o.Answer} (reach : system.Reachable (machine plat) c)
    (h : Returns c i o v) :
    ∃ f, c.thr i = some f ∧ (anew f.start o v : Assertion (unguarded plat) i) c.mem := by
  cases h
  case called at_ => exact ⟨_, at_, ((anewDropping plat).post_of_returning reach at_).right⟩
  case again at_  => exact ⟨_, at_, ((anewDropping plat).post_of_returning reach at_).right⟩

-- Two calls of a thread that return something are the same, or the second one began when the first one had returned.
theorem Returns.later {o o' : Operation} {v : o.Answer} {v' : o'.Answer} (reach : system.Reachable (machine plat) c)
    (e : system.Steps (machine plat) c d) (h : Returns c i o v) (h' : Returns d i o' v') :
    d.thr i = c.thr i ∨ ∃ b, system.Steps (machine plat) c b ∧
    (anew b.mem o' v' : Assertion (unguarded plat) i) d.mem := by
  obtain ⟨_, _, _, at_⟩ := h.returning
  obtain ⟨f, at', anew⟩ := anew_of_returns (reach.steps e) h'
  obtain rfl | ⟨b, before, _, _, start⟩ := System.Steps.called at_ e f at'
  case inl => exact .inl (at'.trans at_.symm)
  case inr => exact .inr ⟨b, before, start ▸ anew⟩

theorem Server.once (reach : system.Reachable (machine plat) c) (e : system.Steps (machine plat) c d)
    (h : Server c i st f) (h' : Server d j st f') : i = j ∧ d.thr j = c.thr i := by
  have inv := (dropping plat).inv_of_reachable reach
  obtain ⟨o, v, ch, returns, _, _, serving⟩ := h
  obtain ⟨o', v', ch', returns', ends, _, serving'⟩ := h'
  have lt := inv.queues.serving i st serving
  have gone (k : SocketId) (waits : st ∈ c.mem.fst.snd.backlog k) : False :=
    (inv.queues.waiting k st waits).right.right.right i serving
  obtain rfl : i = j := by
    by_contra other
    exact not_serving reach e lt gone (fun at_ => other (inv.queues.server i j st serving at_)) serving'
  obtain same | ⟨b, before, anew⟩ := returns.later reach e returns'
  case inl => exact ⟨rfl, same⟩
  case inr =>
    have past := past_of_steps reach before
    have anew : AcceptsAnew i b.mem d.mem := by
      cases o'
      case accept | acceptTimeout | acceptAsync | acceptTimeoutAsync => exact anew
      all_goals cases ends
    exact absurd serving' (anew.anew st (Nat.lt_of_lt_of_le lt past.streams) (past.taken st lt gone))

theorem Client.once {x y : String} (reach : system.Reachable (machine plat) c) (e : system.Steps (machine plat) c d)
    (h : Client c i x st f) (h' : Client d j y st f') : i = j ∧ d.thr j = c.thr i := by
  have inv := (dropping plat).inv_of_reachable reach
  obtain ⟨o, v, ch, returns, _, _, dialing⟩ := h
  obtain ⟨o', v', ch', returns', ends, _, dialing'⟩ := h'
  have lt := inv.queues.dialing i st dialing
  obtain rfl : i = j := by
    by_contra other
    exact not_dialing reach e lt (fun at_ => other (inv.queues.client i j st dialing at_)) dialing'
  obtain same | ⟨b, before, anew⟩ := returns.later reach e returns'
  case inl => exact ⟨rfl, same⟩
  case inr =>
    have past := past_of_steps reach before
    have anew : DialsAnew i b.mem d.mem := by
      cases o'
      case connect | connectAsync => exact anew
      all_goals cases ends
    exact absurd dialing' (anew.anew st (Nat.lt_of_lt_of_le lt past.streams))

-- What is true of the channels that are returned in two states of a run, of which `d` is not the earlier one.
structure Pairs (c d : system.Config) : Prop where
  -- two channels are in one file if and only if they are those of one stream
  same    : ∀ {i j st st' f f'}, End c i st f → End d j st' f' → (f = f' ↔ st = st')
  -- a stream has at most one server and at most one client, which are those of a single call
  servers : ∀ {i j st f f'}, Server c i st f → Server d j st f' → i = j ∧ d.thr j = c.thr i
  clients : ∀ {i j x y st f f'}, Client c i x st f → Client d j y st f' → i = j ∧ d.thr j = c.thr i
  -- a client gets the file that has been created for its stream, under the name at which it was dialled
  named   : ∀ {i name st f}, Client c i name st f → ∃ t : Ticket, t.name = name ∧
    c.mem.snd.name f = shmPath t.text ∧ c.mem.snd.ticket st = some t ∧ c.mem.snd.dialled st = handshakePath name

theorem pairs (reach : system.Reachable (machine plat) c) (e : system.Steps (machine plat) c d) : Pairs c d where
  same h h' := by
    obtain ⟨t, session⟩ := h.session reach
    obtain ⟨t', session'⟩ := h'.session (reach.steps e)
    exact (session.later reach e).same ((dropping plat).inv_of_reachable (reach.steps e)) session'
  servers h h' := h.once reach e h'
  clients h h' := h.once reach e h'
  named h := by
    have inv := (dropping plat).inv_of_reachable reach
    obtain ⟨t, session, rfl⟩ := h.session reach
    obtain ⟨_, t', ticket, name⟩ := inv.files.served _ _ session.served
    obtain rfl : t = t' := Option.some.inj (session.ticket.symm.trans ticket)
    exact ⟨t, rfl, name, ticket, (inv.queues.ticket _ _ ticket).right⟩

-- One outcome of each action: nothing fails, and as much is written and read as can be.
def Net.pick (process : ThreadId → ProcessIdentity) (i : ThreadId) : (a : Act) → Net → Option (a.Ret × Net)
  | .fetchNext, s               =>
      some (s.next (process i), { s with next := update s.next (process i) (wrap64 (s.next (process i) + 1)) })
  | .newListener x, s           =>
      some (s.listeners,
        { s with
          listener  := update s.listener s.listeners (some x)
          holder    := update s.holder s.listeners i
          listeners := s.listeners + 1 })
  | .getListener l, s           => (s.listener l).map (·, s)
  | .bumpCounter l, s           =>
      (s.listener l).map fun x =>
        ((), { s with listener := update s.listener l (some { x with counter := wrap64 (x.counter + 1) }) })
  | .freeListener l, s          => some ((), { s with listener := update s.listener l none })
  | .giveListener l j, s        => some ((), { s with holder := update s.holder l j })
  | .removeSocket p, s          => some (.ok (), { s with bound := update s.bound p none })
  | .bind p, s                  =>
      if s.bound p = none then
        some (.ok s.sockets,
          { s with
            bound       := update s.bound p (some s.sockets)
            nonblocking := update s.nonblocking s.sockets false
            backlog     := update s.backlog s.sockets []
            sockets     := s.sockets + 1 })
      else none
  | .setNonblocking k b, s      => some (.ok (), { s with nonblocking := update s.nonblocking k b })
  | .accept k, s | .acceptAsync k _, s =>
      match s.backlog k with
      | st :: rest => some (some (.ok st), { s with backlog := update s.backlog k rest })
      | []         => none
  | .setBlocking _, s | .flush _, s => some (.ok (), s)
  | .connect p, s               =>
      (s.bound p).map fun k =>
        (.ok s.streams,
          { s with
            backlog := update s.backlog k (s.backlog k ++ [s.streams])
            sent    := update s.sent s.streams []
            read    := update s.read s.streams 0
            streams := s.streams + 1 })
  | .write st b, s              =>
      some (some (.ok b.length), { s with sent := update s.sent st (s.sent st ++ b.take b.length) })
  | .read st n, s               =>
      some (some (.ok (((s.sent st).drop (s.read st)).take n)),
        { s with read := update s.read st (s.read st + (((s.sent st).drop (s.read st)).take n).length) })
  | .sleep, s                   => some ((), s)

theorem Net.pick_sound {process : ThreadId → ProcessIdentity} {i : ThreadId} {a : Act} {s s' : Net} {r : a.Ret}
    (h : pick process i a s = some (r, s')) : exec process i a s r s' := by
  cases a
  case getListener | bumpCounter =>
    obtain ⟨x, found, eq⟩ := Option.map_eq_some_iff.mp h
    cases eq
    first | exact ⟨found, rfl⟩ | exact ⟨x, found, rfl⟩
  case bind p =>
    simp only [pick] at h
    split at h
    case isTrue free => cases h; exact .inl ⟨free, rfl, rfl⟩
    case isFalse     => cases h
  case accept k =>
    simp only [pick] at h
    split at h
    case h_1 st rest waiting => cases h; exact .inl ⟨st, rest, waiting, rfl, rfl⟩
    case h_2                 => cases h
  case acceptAsync k timed =>
    simp only [pick] at h
    split at h
    case h_1 st rest waiting => cases h; exact .inl ⟨st, rest, waiting, rfl, rfl⟩
    case h_2                 => cases h
  case connect p =>
    obtain ⟨k, bound, eq⟩ := Option.map_eq_some_iff.mp h
    cases eq
    exact .inl ⟨k, bound, rfl, rfl⟩
  case write st b => cases h; exact .inl ⟨b.length, Nat.le_refl _, rfl, rfl⟩
  case read st n  => cases h; exact .inl ⟨n, Nat.le_refl _, rfl, rfl⟩
  case removeSocket | setNonblocking => cases h; exact .inl ⟨rfl, rfl⟩
  all_goals cases h; first | rfl | exact ⟨rfl, rfl⟩

-- Whether the outcome is an ordinary one.
def ordinary (i : ThreadId) (a : SiteAct) (s : Site) (r : SiteRet a) : Bool :=
  match a, r with
  | .inl (.createNew p), .ok _         => decide ((Utf8.encode p.toList).length ≤ PATH_MAX)
  | .inl (.readProcStat pid), .ok stat =>
      pid ≠ (s.fst.process i).pid || decide (∃ alive, parseProcessStat stat = .ok ((s.fst.process i).birth, alive))
  | .inr .fetchNext, _                 => decide (s.snd.next (s.fst.process i) + 1 < 2 ^ 64)
  | .inr (.bumpCounter l), _           => (s.snd.listener l).all fun x => decide (x.counter + 1 < 2 ^ 64)
  | _, _                               => true

theorem ordinary_sound {i : ThreadId} {a : SiteAct} {s : Site} {r : SiteRet a} (h : ordinary i a s r = true) :
    Ordinary i a s r := by
  rcases a with a | a
  case inl =>
    cases a
    case createNew p =>
      cases r
      case error => trivial
      case ok    =>
        have short : (Utf8.encode p.toList).length ≤ PATH_MAX := of_decide_eq_true h
        exact short
    case readProcStat pid =>
      cases r
      case error => trivial
      case ok    =>
        intro same
        have h := (Bool.or_eq_true _ _).mp h
        exact h.elim (fun h => absurd same (of_decide_eq_true h)) of_decide_eq_true
    all_goals trivial
  case inr =>
    cases a
    case fetchNext =>
      have small : s.snd.next (s.fst.process i) + 1 < 2 ^ 64 := of_decide_eq_true h
      exact small
    case bumpCounter l =>
      intro x found
      have h : (s.snd.listener l).all (fun x => decide (x.counter + 1 < 2 ^ 64)) = true := h
      rw [found] at h
      exact of_decide_eq_true h
    all_goals trivial

def siteOracle : Oracle (machine .linux) Choice :=
  (((oracle .linux 8).beside (fun s => Net.pick s.process) Net.pick_sound).filter ordinary
    ordinary_sound).ghost Track.record

def Net.start : Net where
  next _        := 0
  listener _    := none
  holder _      := 0
  listeners     := 0
  bound _       := none
  nonblocking _ := false
  backlog _     := []
  sockets       := 0
  sent _        := []
  read _        := 0
  streams       := 0

def Track.start : Track where
  drawn _    := none
  upcoming _ := ⟨"", ⟨0, 0⟩, 0, 0⟩
  serving _  := none
  dialing _  := none
  dialled _  := ""
  ticket _   := none
  served _   := none
  address _  := ""
  name _     := ""
  file _     := 0

def start : system.Config :=
  ⟨((World.start, Net.start), Track.start), fun _ => none⟩

theorem start_initial : system.Initial start where
  mem := {
    world   := ⟨fun _ => rfl, rfl, fun _ => rfl⟩
    memory  := ⟨fun _ => rfl, rfl⟩
    sockets := ⟨fun _ => rfl, fun _ => rfl⟩
    streams := rfl
    track _ := ⟨rfl, rfl, rfl⟩
    unnamed _ := ⟨rfl, rfl⟩ }
  idle _ := rfl

instance {i : ThreadId} {o : system.Op} {s : State} : Decidable (system.callable i o s) :=
  match o with
  | .inl o      => decidableCallable i o s
  | .inr (o, _) => @instDecidableAnd _ _ (Operation.instDecidablePredAsync o) (decidableCallable i o s)

def steps (i : ThreadId) (n : Nat) : List (Move ThreadId system.Op Choice) :=
  List.replicate n (.step i .normal)

-- The thread 0 accepts the thread 1.
def meeting : List (Move ThreadId system.Op Choice) :=
  .call 0 (.inl (.bind "a" ⟨64, ⟨1⟩, 1000⟩)) :: steps 0 7 ++
  .call 0 (.inl (.accept 0)) :: .call 1 (.inl (.connect "a" ⟨64, ⟨1⟩, 1000⟩)) :: steps 1 5 ++ steps 0 44 ++ steps 1 41

def inFirst (c : system.Config) (ch : Channel) : Bool :=
  (c.mem.fst.fst.shared ch.shared).any fun x => decide (x.base = 0)

def accepts (c : system.Config) : Bool :=
  c.returns 0 fun
    | .inl (.accept _), _, .ok ch => inFirst c ch && decide (c.mem.snd.serving 0 = some 0)
    | _, _, _                     => false

def connects (c : system.Config) : Bool :=
  c.returns 1 fun
    | .inl (.connect name _), _, .ok ch => inFirst c ch && decide (name = "a" ∧ c.mem.snd.dialing 1 = some 0)
    | _, _, _                           => false

theorem inFile_of_inFirst {ch : Channel} (h : inFirst c ch = true) : InFile ch 0 c.mem := by
  have ⟨x, found, base⟩ := (Option.any_eq_true _ _).mp h
  exact ⟨x, found, of_decide_eq_true base⟩

theorem server_of_accepts (h : accepts c = true) : Server c 0 0 0 := by
  have ⟨o, s, v, ret, test⟩ := System.Config.returning h
  split at test
  case h_2 => cases test
  case h_1 =>
    have ⟨at_, serving⟩ := (Bool.and_eq_true _ _).mp test
    exact ⟨.accept _, _, _, .called ret, rfl, inFile_of_inFirst at_, of_decide_eq_true serving⟩

theorem client_of_connects (h : connects c = true) : Client c 1 "a" 0 0 := by
  have ⟨o, s, v, ret, test⟩ := System.Config.returning h
  split at test
  case h_2 => cases test
  case h_1 =>
    have ⟨at_, dials⟩ := (Bool.and_eq_true _ _).mp test
    obtain ⟨rfl, dialing⟩ := of_decide_eq_true dials
    exact ⟨.connect _ _, _, _, .called ret, rfl, inFile_of_inFirst at_, dialing⟩

theorem pairs_meeting : ∃ c, Server c 0 0 0 ∧ Client c 1 "a" 0 0 ∧ Pairs c c := by
  have ⟨c, steps, _, hc⟩ := System.run_test (S := system) (O := siteOracle) (c := start)
    (l := meeting) (p := fun c => accepts c && connects c) (fun _ _ => rfl) (by decide +kernel)
  have ⟨server, client⟩ := (Bool.and_eq_true _ _).mp hc
  exact ⟨c, server_of_accepts server, client_of_connects client, pairs (.intro start_initial steps) .refl⟩

end Handshake
