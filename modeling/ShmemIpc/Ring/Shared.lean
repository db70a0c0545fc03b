import ShmemIpc.Ring.Protocol
import ShmemIpc.Header.Operations
import ShmemIpc.Execution.Waiting

-- What the two threads of a ring know, while they look at the state of the channel.
namespace Ring

open Assertion Code Effects Window

variable {L : Link} {plat : Platform} {i j : ThreadId} {a : Act} {v v' : RingState} {s s' : State}

-- The side of the ring that only the sender changes, and the one that only the receiver changes.

structure SameSent (v v' : RingState) : Prop where
  sent   : v'.sent = v.sent
  sender : v'.sender = v.sender
  cell   : v'.cell = v.cell
  wc     : v'.wc = v.wc

structure SameReceived (v v' : RingState) : Prop where
  received : v'.received = v.received
  receiver : v'.receiver = v.receiver
  buf      : v'.buf = v.buf
  out      : v'.out = v.out
  rc       : v'.rc = v.rc

theorem quiet_allowed (ha : a.Quiet) : L.Allowed i a v := by
  cases a <;> try trivial
  case store w n note =>
    rcases w with _ | ⟨b, hd, f⟩
    case global => exact ha.left.elim
    case ring   => cases f <;> first | trivial | exact ha.left.elim
  case compareExchange w cur new =>
    obtain ⟨⟨b, rfl⟩, hn⟩ := ha
    exact ⟨b, rfl, fun _ h => absurd h hn⟩
  case compareExchangeWeak w cur new =>
    obtain ⟨⟨b, rfl⟩, hn⟩ := ha
    exact ⟨b, rfl, fun _ h => absurd h hn⟩

theorem waits_quiet {w : Word} (hw : w.IsParked) {a : Act} (ha : Waiting.Waits w a) : a.Quiet := by
  cases a
  case store w' v note =>
    obtain ⟨rfl, rfl⟩ := ha
    exact ⟨hw, rfl⟩
  all_goals first | exact ha.elim | trivial

theorem same_sent (e : L.Change j a v v') (h : j ≠ L.tx ∨ a.Quiet) : SameSent v v' := by
  have quiet {b : Act} (act : a = b) (mine : j = L.tx) : b.Quiet := act ▸ h.resolve_left (absurd mine)
  cases e
  case publish act mine _ _ _ _ => exact nomatch (quiet act mine).right
  case write act mine _ _       => exact (quiet act mine).elim
  case sender act mine _ _ _    => exact (quiet act mine).elim
  all_goals exact ⟨rfl, rfl, rfl, rfl⟩

theorem same_received (e : L.Change j a v v') (h : j ≠ L.rx ∨ a.Quiet) : SameReceived v v' := by
  have quiet {b : Act} (act : a = b) (mine : j = L.rx) : b.Quiet := act ▸ h.resolve_left (absurd mine)
  cases e
  case commit act mine _ _ _ => exact nomatch (quiet act mine).right
  case receiver act mine     => exact (quiet act mine).elim
  case buf act mine          => exact (quiet act mine).elim
  case out act mine          => exact (quiet act mine).elim
  all_goals exact ⟨rfl, rfl, rfl, rfl, rfl⟩

-- The facts that no thread makes false once they hold.
def Stays (L : Link) (P : RingState → Prop) : Prop :=
  ∀ {j a v v'}, L.Inv v → L.Change j a v v' → P v → P v'

-- The channel has ended, after at most `n` messages.
structure Ended (n : Nat) (v : RingState) : Prop where
  state : 4 ≤ v.state
  last  : ∀ ps, v.sealed = some ps → ps.length ≤ n

theorem sent_stays {ps : List Bytes} : Stays L (fun v => ps <+: v.sent) := by
  intro j a v v' _ e h
  cases e
  case publish => exact h.trans (List.prefix_append _ _)
  all_goals exact h

theorem found_stays {k : Nat} {p : Bytes} : Stays L (fun v => v.sent[k]? = some p) := by
  intro j a v v' _ e h
  cases e
  case publish =>
    have hk := (List.getElem?_eq_some_iff.mp h).choose
    exact (List.getElem?_append_left hk).trans h
  all_goals exact h

theorem arrived_stays {n : Nat} : Stays L (fun v => n ≤ v.sent.length) := by
  intro j a v v' _ e h
  cases e
  case publish => simpa using Nat.le_succ_of_le h
  all_goals exact h

theorem grown_stays {n : Nat} : Stays L (fun v => n ≤ total v.sent) := by
  intro j a v v' _ e h
  cases e
  case publish => simpa using Nat.le_add_right_of_le h
  all_goals exact h

theorem Ended.stays {n : Nat} : Stays L (Ended n) := by
  intro j a v v' hi e h
  cases e
  case advance _ open_ _ => exact absurd h.state (by omega)
  all_goals exact ⟨h.state, h.last⟩

theorem sealed_stays {ps : List Bytes} : Stays L (fun v => 4 ≤ v.state ∧ v.sealed = some ps) := by
  intro j a v v' hi e h
  cases e
  case advance _ open_ _ => exact absurd h.left (by omega)
  all_goals exact h

theorem reached_stays {n : Nat} : Stays L (fun v => n ≤ v.state) := by
  intro j a v v' _ e h
  cases e
  case advance up _ _ => exact Nat.le_of_lt (Nat.lt_of_le_of_lt h up)
  all_goals exact h

theorem faulted_stays : Stays L (fun v => v.faulted = true) := by
  intro j a v v' _ e h
  cases e
  case fault => rfl
  all_goals exact h

theorem clientPid_stays : Stays L (fun v => v.clientPid ≠ 0) := by
  intro j a v v' _ e h
  cases e
  case identify named => exact named
  all_goals exact h

theorem taken_mono (hi : L.Inv v) (e : L.Change j a v v') : v.taken ≤ v'.taken := by
  cases e
  case publish p _ _ _ _ _ _ => exact Nat.le_of_eq (Link.taken_append (p := p) hi.order).symm
  case commit p r _ _ _ head _ =>
    exact Nat.le_trans (Nat.le_add_right _ _) (Nat.le_of_eq (Link.taken_succ head (r := r)).symm)
  all_goals exact Nat.le_refl _

theorem change_of_exec {r : a.Ret} (hi : (L.protocol plat).inv s) (ok : (L.protocol plat).ok i a s)
    (e : ((machine plat).under (headerProtocol plat)).exec i a s r s') :
    L.Change i a (L.ring s) (L.ring s') := by
  obtain ⟨s, g⟩ := s
  obtain ⟨s', g'⟩ := s'
  obtain ⟨⟨e, hg⟩, _, header⟩ := e
  obtain rfl : g' = _ := hg
  exact .of_step hi ok header e

theorem cleared_stays {c : Nat} : Stays L (fun v => c ≤ v.taken) :=
  fun hi e h => Nat.le_trans h (taken_mono hi e)

def fact (P : RingState → Prop) (h : Stays L P) : Assertion (L.protocol plat) i :=
  ofPersistent (fun s => P (L.ring s)) fun hi ho e => h hi (change_of_exec hi ho e)

theorem fact_persistent {P : RingState → Prop} {h : Stays L P} :
    (fact P h : Assertion (L.protocol plat) i).Persistent :=
  ⟨fun hi ho e => h hi (change_of_exec hi ho e)⟩

-- A property of the own side of the ring.
def Owned (L : Link) (i : ThreadId) (P : RingState → Prop) : Prop :=
  ∀ {j a v v'}, j ≠ i ∨ a.Quiet → L.Inv v → L.Change j a v v' → P v → P v'

def own (P : RingState → Prop) (h : Owned L i P) : Assertion (L.protocol plat) i where
  holds s           := P (L.ring s)
  stable hj hi ho e := h (.inl hj) hi (change_of_exec hi ho e)

theorem own_keeps {P : RingState → Prop} {h : Owned L i P} (hc : ∀ {v}, L.Inv v → P v → L.Calm i v) :
    (own P h : Assertion (L.protocol plat) i).Keeps Act.Quiet where
  ok ha hi hp     := ⟨.inr (hc hi hp), quiet_allowed ha⟩
  kept ha hi hp e := h (.inr ha) hi (change_of_exec hi ⟨.inr (hc hi hp), quiet_allowed ha⟩ e) hp

-- The channel has come as far as the state `n`.
def reached (n : Nat) : Assertion (L.protocol plat) i :=
  fact (fun v => n ≤ v.state) reached_stays

-- The halves of the channel `x`, whose handle is `h`.
def held (h : Handle) (x : SharedChannel) : Assertion (L.protocol plat) i :=
  (Header.owns h x).under

theorem held_persistent {h : Handle} {x : SharedChannel} :
    (held h x : Assertion (L.protocol plat) i).Persistent :=
  Header.owns_persistent.under

variable {α : Type} {P : Assertion (L.protocol plat) i} {M : α → Assertion (L.protocol plat) i}
variable {E : Error → Assertion (L.protocol plat) i} {h : Handle} {x : SharedChannel}

theorem calm_of_keeps (hp : P.Keeps Act.Quiet) (hi : L.Inv (L.ring s)) (hs : P s) : L.Calm i (L.ring s) :=
  (hp.ok (a := .fence) trivial hi hs).calm.resolve_left id

theorem exec_sub {a b r : Nat}
    (e : ((machine plat).under (headerProtocol plat)).exec i (.sub a b) s r s') :
    r = wrapSub64 a b ∧ s' = s := by
  obtain ⟨s, g⟩ := s
  obtain ⟨s', g'⟩ := s'
  obtain ⟨⟨⟨rfl, hs⟩, hg⟩, _⟩ := e
  have hs : s' = s := hs
  have hg : g' = g := hg.trans (by simp [History.record, Ledger.record, Registry.record, Wakes.record, Act.faulty])
  exact ⟨rfl, by rw [hs, hg]⟩

theorem exec_readByte {b : FileId} {addr : Nat} {r : UInt8}
    (e : ((machine plat).under (headerProtocol plat)).exec i (.readByte b addr) s r s') :
    r = s.fst.byte b addr ∧ s' = s := by
  obtain ⟨s, g⟩ := s
  obtain ⟨s', g'⟩ := s'
  obtain ⟨⟨⟨rfl, hs⟩, hg⟩, _⟩ := e
  have hs : s' = s := hs
  have hg : g' = g := hg.trans (by simp [History.record, Ledger.record, Registry.record, Wakes.record, Act.faulty])
  exact ⟨rfl, by rw [hs, hg]⟩

theorem sub_spec (hp : P.Keeps Act.Quiet) {a b : Nat}
    (ok : ∀ s, L.Inv (L.ring s) → P s → L.Allowed i (.sub a b) (L.ring s))
    {f : Nat → Routine α} (hf : Spec P (f (wrapSub64 a b)) M E) : Spec P (sub a b >>= f) M E := by
  refine .act (fun r => P ⊓ .const (r = wrapSub64 a b)) ?_ ?_ fun r => .assume ?_
  · exact fun s hi hs => ⟨.inr (calm_of_keeps hp hi hs), ok s hi hs⟩
  · intro s r s' _ hs e
    obtain ⟨rfl, rfl⟩ := exec_sub e
    exact ⟨hs, rfl⟩
  · rintro rfl
    exact hf

-- The client has published its identity.
def identified : Assertion (L.protocol plat) i :=
  fact (fun v => v.clientPid ≠ 0) clientPid_stays

theorem getShared_held (hp : P.Keeps Act.Quiet) (hk : P ≤ held h x) {f : SharedChannel → Routine α}
    (hf : Spec P (f x) M E) : Spec P (getShared h >>= f) M E := by
  refine .learn hp (a := .getShared h) trivial (fun _ => ⊤) (· = x) ?_ ?_
  · exact fun s y _ hi hs e => ⟨trivial, (hk s hi hs).right.left.same y e.left.left.left⟩
  · rintro y rfl
    exact hf.pre fun _ _ hs => hs.left

-- The state word of a channel that has been connected.
theorem loadState_reached (hp : P.Keeps Act.Quiet) (hk : P ≤ held h x) (hr : P ≤ reached 3) (hx : x.base = L.base)
    {f : Nat → Routine α} (hf : ∀ n, n = 3 ∨ n = 4 ∨ n = 5 → Spec (P ⊓ given (n = 3) identified) (f n) M E) :
    Spec P (load x.stateWord >>= f) M E := by
  refine .learn hp (a := .load x.stateWord) trivial (fun n => given (n = 3) identified)
    (fun n => n = 3 ∨ n = 4 ∨ n = 5) ?_ hf
  intro s n s' hi hs e
  obtain ⟨rfl, same⟩ := Link.exec_load (L := L) e.left
  have word : s.fst.word x.stateWord = (L.ring s).state := by simp [SharedChannel.stateWord, hx, Link.ring]
  have lo : 3 ≤ (L.ring s).state := hr s hi hs
  have hi5 : (channels s).state L.base ≤ 5 := (hk s hi hs).left.valid _
  have state : (channels s).state L.base = (L.ring s).state := rfl
  refine ⟨fun h3 => ?_, ?_⟩
  · show (L.ring s').clientPid ≠ 0
    rw [same]
    exact hi.client (word.symm.trans h3)
  · have among : (L.ring s).state = 3 ∨ (L.ring s).state = 4 ∨ (L.ring s).state = 5 := by omega
    exact word ▸ among

-- `check_ready` leaves the ring alone, and tells whether the channel has been connected.
theorem checkReady_spec (hp : P.Keeps Act.Quiet) (hx : x.base = L.base) :
    Spec (P ⊓ held h x) (SharedChannel.checkReady h)
      (fun ready => P ⊓ held h x ⊓ given (ready = true) (reached 3))
      (fun e => P ⊓ held h x ⊓ given e.Terminal (reached 4)) := by
  have header : Spec (Header.owns h x : Assertion (headerProtocol plat) i) _ _ _ :=
    Header.checkReady_spec Header.owns_persistent fun _ _ hs => hs.left
  have both := header.under (Spec.only hp checkReady_quiet)
  refine (both.pre (Q := P ⊓ held h x) fun _ _ hs => ⟨hs.right, hs.left⟩).post ?_ ?_
  · rintro ready s _ ⟨⟨hi, known, connected⟩, hs⟩
    refine ⟨⟨hs, hi, known⟩, fun hr => ?_⟩
    have bound := (connected hr).bound
    rw [hx] at bound
    exact Nat.le_trans bound (Nat.min_le_left _ _)
  · rintro e s _ ⟨⟨hi, known, blames⟩, hs⟩
    refine ⟨⟨hs.left, hi, known⟩, fun he => ?_⟩
    have final : ∃ n, Channels.Final x.base n (channels s) := by
      cases e
      case channelClosed    => exact ⟨_, blames⟩
      case peerDisconnected => exact ⟨_, blames⟩
      all_goals exact he.elim
    obtain ⟨n, final⟩ := final
    rw [hx] at final
    show 4 ≤ (channels s).state L.base
    exact final.at_ ▸ final.terminal

theorem awaitConnected_reached (hp : P.Keeps Act.Quiet) (hk : P ≤ held h x) (hr : P ≤ reached 3)
    (hx : x.base = L.base) :
    Spec P (SharedChannel.awaitConnected h x) (fun ready => P ⊓ identified ⊓ const (ready = true))
      (fun e => P ⊓ const e.Terminal) := by
  refine .loop (fun _ => P) le_rfl fun _ => loadState_reached hp hk hr hx fun n hn => ?_
  rcases hn with rfl | rfl | rfl
  · exact .pure fun _ _ hs => ⟨⟨hs.left, hs.right rfl⟩, rfl⟩
  · exact .throw fun _ _ hs => ⟨hs.left, trivial⟩
  · exact .throw fun _ _ hs => ⟨hs.left, trivial⟩

-- A channel that has been connected is ready, unless it has ended.
theorem checkReady_reached (hp : P.Keeps Act.Quiet) (hk : P ≤ held h x) (hr : P ≤ reached 3) (hx : x.base = L.base) :
    Spec P (SharedChannel.checkReady h) (fun ready => P ⊓ const (ready = true)) (fun _ => P) := by
  have last : Spec P (do SharedChannel.terminal h; Pure.pure true)
    (fun ready => P ⊓ const (ready = true)) (fun _ => P) :=
    .pass hp terminal_quiet (fun _ _ => le_rfl) fun _ => .pure fun _ _ hs => ⟨hs, rfl⟩
  refine getShared_held hp hk (.bind (M := fun ready => P ⊓ const (ready = true)) ?_ fun ready => .assume ?_)
  · exact (awaitConnected_reached hp hk hr hx).post (fun _ _ _ hs => ⟨hs.left.left, hs.right⟩) fun _ _ _ hs => hs.left
  rintro rfl
  refine .skip hp (a := .now) trivial fun t => .skip hp (a := .loadNextProbe h) trivial fun next => ?_
  split
  case isFalse => exact last
  refine .pass hp ((locked_ends probe_ends).weaken fun _ => Act.Ends.quiet) (fun _ _ => le_rfl) fun probed => ?_
  cases probed
  case true  => exact .pure fun _ _ hs => ⟨hs, rfl⟩
  case false => exact last

end Ring
