import ShmemIpc.Library.Verified
import ShmemIpc.Header.Operations

-- The processes that use the crate agree on how a channel ends.
namespace Header

open Assertion Channels Code

section
variable {plat : Platform} {i : ThreadId} {h : Handle} {x : SharedChannel}

-- What the answer of an operation on a channel says about it.
def verdict (b : FileId) : (o : Operation) → o.Ret → Assertion (headerProtocol plat) i
  | .close _, .ok _    => final b 4
  | .close _, .error e => final b 5 ⊓ .const (e = .peerDisconnected)
  | .drop _, .ok _     => atLeast b 4
  | .drop _, .error _  => .const False
  | _, .error e        => blames b e
  | _, .ok _           => ⊤

theorem verdict_of_reports {o : Operation} (hc : ∀ h, o ≠ .close h) (hd : ∀ h, o ≠ .drop h)
    (hr : Reports (owns h x : Assertion (headerProtocol plat) i) x.base o.code) :
    Spec (owns h x : Assertion (headerProtocol plat) i) o.code
      (fun v => verdict x.base o (.ok v)) (fun e => verdict x.base o (.error e)) := by
  refine hr.post (fun v => ?_) fun e => ?_
  · cases o
    case close h => exact absurd rfl (hc h)
    case drop h  => exact absurd rfl (hd h)
    all_goals exact fun _ _ _ => trivial
  · cases o
    case close h => exact absurd rfl (hc h)
    case drop h  => exact absurd rfl (hd h)
    all_goals exact fun _ _ hs => hs.right

theorem operation_spec {o : Operation} (ho : o.handle = some h) :
    Spec (owns h x : Assertion (headerProtocol plat) i) o.code
      (fun v => verdict x.base o (.ok v)) (fun e => verdict x.base o (.error e)) := by
  cases o <;> cases ho
  case close =>
    refine (close_spec owns_persistent fun _ _ hs => hs.left).post ?_ ?_
    · exact fun _ _ _ hs => hs.right
    · exact fun _ _ _ hs => ⟨hs.left.right, hs.right⟩
  case drop =>
    refine (drop_spec owns_persistent fun _ _ hs => hs.left).post ?_ ?_
    · exact fun _ _ _ hs => hs.right
    · exact fun _ _ _ hs => hs.elim
  case checkReady     => exact verdict_of_reports nofun nofun checkReady_reports
  case trySendOnce    => exact verdict_of_reports nofun nofun trySendOnce_reports
  case send           => exact verdict_of_reports nofun nofun send_reports
  case sendAsync      => exact verdict_of_reports nofun nofun sendAsync_reports
  case tryRecv        => exact verdict_of_reports nofun nofun tryRecv_reports
  case recv           => exact verdict_of_reports nofun nofun recv_reports
  case recvInto       => exact verdict_of_reports nofun nofun recvInto_reports
  case recvAsync      => exact verdict_of_reports nofun nofun recvAsync_reports
  case recvIntoAsync  => exact verdict_of_reports nofun nofun recvIntoAsync_reports
  case drainReady     => exact verdict_of_reports nofun nofun drainReadyWithSpin_reports
  case recvManyAsync  => exact verdict_of_reports nofun nofun recvManyAsync_reports

-- What the threads of a system must do, for the channels to follow the protocol of the header.
def Permitted (o : Operation) (s : State) : Prop :=
  (∀ h, o.handle = some h → ∃ x, Attached s.fst h x) ∧
  match o with
  | .waitLoop wait | .dropWait wait => Operation.RingWords wait
  | .env a                          => Plain a
  | _                               => True

-- The operations without a channel.
theorem other_spec {o : Operation} {s : State} (ho : o.handle = none) (hc : Permitted o s) :
    Spec (⊤ : Assertion (headerProtocol plat) i) o.code (fun _ => ⊤) (fun _ => ⊤) := by
  have top : (⊤ : Assertion (headerProtocol plat) i).Persistent := .top
  have quiet {β : Type} {p : Routine β} (hp : Code.Only Plain (fun _ => False) p) :
      Spec (⊤ : Assertion (headerProtocol plat) i) p (fun _ => ⊤) (fun _ => ⊤) :=
    (only_plain top hp).post (fun _ => le_rfl) fun _ _ _ _ => trivial
  cases o <;> cases ho
  case create   => exact createWithConfig_spec.post (fun _ _ _ _ => trivial) fun _ => le_rfl
  case tryOpen  => exact tryOpen_spec.post (fun _ _ _ _ => trivial) fun _ => le_rfl
  case «open»   => exact openWithConfig_spec.post (fun _ _ _ _ => trivial) fun _ => le_rfl
  case waitLoop => exact quiet (signals_plain (Effects.waitLoop_signals hc.right.right))
  case dropWait => exact quiet (signals_plain (Effects.drop_signals hc.right.left))
  case env      => exact quiet (.perform hc.right)

-- What the answer of an operation that was called in the state `s` says.
def answer (s : State) (o : Operation) (v : o.Ret) : Assertion (headerProtocol plat) i :=
  match o.handle.bind s.fst.shared with
  | some x => verdict x.base o v
  | none   => ⊤

theorem answer_other {s : State} {o : Operation} {v : o.Ret} (ho : o.handle = none) :
    (answer s o v : Assertion (headerProtocol plat) i) = ⊤ := by
  simp [answer, ho]

theorem answer_channel {s : State} {o : Operation} {v : o.Ret} (ho : o.handle = some h)
    (hx : s.fst.shared h = some x) :
    (answer s o v : Assertion (headerProtocol plat) i) = verdict x.base o v := by
  simp [answer, ho, hx]

theorem owns_of_attached {s : State} (hi : (channels s).Inv) (ha : Attached s.fst h x) :
    (owns h x : Assertion (headerProtocol plat) i) s := by
  have ⟨old, ready⟩ := hi.ready h x ha.shared
  refine ⟨⟨?_, fun y hy => ?_, old, ready⟩, ha.sender, ha.receiver⟩
  · by_contra hu
    exact absurd (hi.unused h (Nat.le_of_not_lt hu)) (by simp [channels, ha.shared])
  · simpa [channels, ha.shared, eq_comm] using hy

end

-- What the caller relies on holds until the operation returns.
theorem exists_spec {s : State} (hi : (channels s).Inv) (can : Permitted o s) :
    ∃ P : Assertion (headerProtocol plat) i, P.Persistent ∧ P s ∧ o.code.Triple P fun v => answer s o v := by
  cases ho : o.handle
  case none =>
    refine ⟨⊤, .top, trivial, Program.Triple.post (fun v => ?_) (other_spec ho can)⟩
    exact fun _ _ _ => by rw [answer_other ho]; trivial
  case some h =>
    obtain ⟨x, ha⟩ := can.left h ho
    refine ⟨owns h x, owns_persistent, owns_of_attached hi ha, Program.Triple.post (fun v => ?_) (operation_spec ho)⟩
    rw [answer_channel ho ha.shared]
    cases v <;> exact le_rfl

def verifiedFor (plat : Platform) {callable : ThreadId → Operation → State → Prop} {init : State → Prop}
    (hc : ∀ i o s, callable i o s → Permitted o s) (hi : ∀ s, init s → (channels s).Inv) :
    Verified (operations callable init) (headerProtocol plat) where
  idle _       := ⊤
  post _ o s v := answer s o v
  init hs      := ⟨hi _ hs, fun _ => trivial⟩
  spec hi _ can :=
    have ⟨P, _, hs, triple⟩ := exists_spec hi (hc _ _ _ can)
    ⟨P, hs, triple.post fun _ _ _ h => ⟨trivial, h⟩⟩

def verified (plat : Platform) : Verified crateSystem (headerProtocol plat) :=
  verifiedFor plat
    (fun i o s can => by
      refine ⟨can.left, ?_⟩
      cases o
      case waitLoop => exact can.right
      case dropWait => exact can.right
      case env =>
        obtain ⟨_, _, rfl⟩ := can.right
        exact fun _ _ => trivial
      all_goals trivial)
    (fun s hs => by
      obtain ⟨path, shared, states⟩ := hs
      refine ⟨fun p f hp => ?_, states, fun h _ => shared h, fun h x hx => ?_⟩
      · simp [channels, path] at hp
      · simp [channels, shared] at hx)

-- The state of the channel in the file `b`.
def InState (c : crateSystem.Config) (b : FileId) (t : ChannelState) : Prop :=
  c.mem.fst.word (.global b .state) = t.toU32

-- What an operation answers when the channel has ended in the state `t`: it reports no other cause.
def Agrees (t : ChannelState) : (o : Operation) → o.Ret → Prop
  | .close _, v  => v = if t = .peerDisconnected then .error .peerDisconnected else .ok ()
  | _, .error e  => e.Terminal → e = t.error
  | _, .ok _     => True

variable {plat : Platform} {c c' : crateSystem.Config}

theorem stays_along (h : crateSystem.Reachable (machine plat) c) (e : crateSystem.Steps (machine plat) c c')
    {P : Channels → Prop} (hP : Stays P) (hp : P (channels c.mem)) : P (channels c'.mem) :=
  (verified plat).persists Machine.le_rfl (P := fun s => P (channels s)) (fun hi ho e => hP hi (.of_exec ho e)) h e hp

theorem inv_of_reachable (h : crateSystem.Reachable (machine plat) c) : (channels c.mem).Inv :=
  (verified plat).inv_of_reachable h

theorem forward_along (h : crateSystem.Reachable (machine plat) c)
    (e : crateSystem.Steps (machine plat) c c') {b : FileId} (hb : b < c.mem.fst.files) :
    ∃ t t', InState c b t ∧ InState c' b t' ∧ (t' = t ∨ t.rank < t'.rank) := by
  obtain ⟨t, ht⟩ := ChannelState.exists_toU32 ((inv_of_reachable h).valid b)
  obtain ⟨t', ht'⟩ := ChannelState.exists_toU32 ((inv_of_reachable (h.steps e)).valid b)
  refine ⟨t, t', ht, ht', ?_⟩
  have reached : AtLeast b (min t.toU32 4) (channels c'.mem) :=
    stays_along h e AtLeast.stays ⟨hb, Nat.le_of_eq (by rw [ht])⟩
  have bound := reached.bound
  rw [ht'] at bound
  by_cases terminal : 4 ≤ t.toU32
  case pos =>
    have last := (stays_along h e Final.stays ⟨hb, terminal, ht⟩).at_
    exact .inl (ChannelState.toU32_inj (ht'.symm.trans last))
  case neg =>
    rw [t.rank_eq, t'.rank_eq]
    by_cases same : t'.toU32 = t.toU32
    case pos => exact .inl (ChannelState.toU32_inj same)
    case neg => exact .inr (by omega)

theorem verdict_of_returning (h : crateSystem.Reachable (machine plat) c) {i : ThreadId} {o : Operation}
    {s : State} {v : o.Ret} {hd : Handle} {x : SharedChannel} (hr : c.Returning i o s v)
    (ho : o.handle = some hd) (hx : s.fst.shared hd = some x) :
    (verdict x.base o v : Assertion (headerProtocol plat) i) c.mem := by
  have known : (answer s o v : Assertion (headerProtocol plat) i) c.mem :=
    ((verified plat).post_of_returning h hr).right
  rwa [answer_channel ho hx] at known

-- An operation reports a terminal state only if the channel has it.
theorem blames_of_returning (h : crateSystem.Reachable (machine plat) c) {i : ThreadId} {o : Operation}
    {s : State} {e : Error} {hd : Handle} {x : SharedChannel} (hr : c.Returning i o s (.error e))
    (ho : o.handle = some hd) (hx : s.fst.shared hd = some x) : Blames x.base e (channels c.mem) := by
  have known := verdict_of_returning h hr ho hx
  cases o <;> cases ho
  case close =>
    obtain ⟨at_, rfl⟩ := known
    exact at_
  case drop => exact known.elim
  all_goals exact known

theorem Blames.exists_state {b : FileId} {e : Error} (h : Blames b e (channels c.mem)) (he : e.Terminal) :
    ∃ t : ChannelState, t.Terminal ∧ e = t.error ∧ InState c b t := by
  cases e
  case channelClosed    => exact ⟨.closed, trivial, rfl, Final.at_ h⟩
  case peerDisconnected => exact ⟨.peerDisconnected, trivial, rfl, Final.at_ h⟩
  all_goals exact he.elim

theorem Agrees.of_known {i : ThreadId} {b : FileId} {o : Operation} {v : o.Ret} {t : ChannelState}
    (hs : (verdict b o v : Assertion (headerProtocol plat) i) c.mem) (ht : InState c b t) : Agrees t o v := by
  have unique (t' : ChannelState) (h : Final b t'.toU32 (channels c.mem)) : t = t' :=
    ChannelState.toU32_inj (ht.symm.trans h.at_)
  have blamed {e : Error} (h : Blames b e (channels c.mem)) (he : e.Terminal) : e = t.error := by
    obtain ⟨t', _, rfl, at_⟩ := h.exists_state he
    rw [ChannelState.toU32_inj (ht.symm.trans at_)]
  cases o <;> cases v
  case close.ok =>
    obtain rfl := unique .closed hs
    rfl
  case close.error =>
    obtain ⟨at_, rfl⟩ := hs
    obtain rfl := unique .peerDisconnected at_
    rfl
  case drop.error => exact hs.elim
  all_goals first | exact trivial | exact blamed hs

end Header
