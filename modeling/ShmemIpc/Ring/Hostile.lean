import ShmemIpc.Execution.Bounds
import ShmemIpc.Execution.Run
import ShmemIpc.Ring.Run

-- Endpoints whose peers write to shared memory whatever they like, and at any time.
namespace Bounds

open Assertion Code Discipline Effects

-- The actions that leave the private halves alone.
def Outside : Act → Prop
  | .setSender .. | .setReceiver .. => False
  | _                               => True

def Callable : Operation → Prop
  | .create .. | .tryOpen .. | .open .. => False
  | .waitLoop wait | .dropWait wait     => Operation.RingWords wait
  | .env a                              => Outside a
  | _                                   => True

-- The halves of the handle `h` are where a valid configuration has put them.
def Built (h : Handle) (s : World) : Prop :=
  ∃ (self : SharedChannel) (config : ChannelConfig), validateConfig config = .ok () ∧
    (s.sender h).area = (Channel.newSender h self config.ringSize).area ∧
    (s.receiver h).area = (Channel.newReceiver h self config.ringSize).area

abbrev hostileSystem : System ThreadId Act Act.Ret State :=
  operations (fun _ o _ => Callable o) fun s => ∀ h, Built h s.fst

-- What an answer says about the message.
def Answers : (o : Operation) → o.Ret → Events → Prop
  | .recv h .., .ok p, t | .recvAsync h _, .ok p, t         => Fits h p.length t
  | .tryRecv h, .ok (some p), t                             => Fits h p.length t
  | .recvInto h .., .ok n, t | .recvIntoAsync h _, .ok n, t => Filled h n t
  | _, _, _                                                 => True

-- Code of a thread that has no half of its own.
def outside : Discipline Act Act.Ret where
  may   := Stands
  ok _ a := Outside a

def rule (o : Operation) : Discipline Act Act.Ret :=
  match o.handle with
  | some h => bounded h
  | none   => outside

theorem rule_of_handle {o : Operation} {h : Handle} (ho : o.handle = some h) : rule o = bounded h := by
  simp [rule, ho]

theorem answers_of_spec {o : Operation} {h : Handle} {M : o.Answer → (bounded h).Knows}
    (hs : Spec (known Any) o.code M fun _ => (known Any : (bounded h).Knows))
    (hm : ∀ v t, M v t → Answers o (.ok v) t) :
    o.code.Triple (known Any : (bounded h).Knows) fun v => known (Answers o v) := by
  refine Program.Triple.post (fun v => ?_) hs
  cases v
  case ok v    => exact fun t _ ht => hm v t ht
  case error e => exact fun _ _ _ => by cases o <;> trivial

theorem recv_answers {h : Handle} {p : Routine PeekedMessage}
    (hp : Spec (known Any) p (fun m => peeked Any (some m)) fun _ => (known Any : (bounded h).Knows)) :
    Spec (known Any) (p >>= RingReceiver.takeMessage h) (fun bs => known (Fits h bs.length))
      fun _ => (known Any : (bounded h).Knows) :=
  .bind hp fun _ => (takeMessage_spec @Any.grows).post (fun _ _ _ ht => ht.right) fun _ => le_rfl

theorem recvInto_answers {h : Handle} {p : Routine PeekedMessage}
    (hp : Spec (known Any) p (fun m => peeked Any (some m)) fun _ => (known Any : (bounded h).Knows)) :
    Spec (known Any) (p >>= RingReceiver.takeMessageInto h) (fun n => known (Filled h n))
      fun _ => (known Any : (bounded h).Knows) :=
  .bind hp fun _ => takeMessageInto_spec

theorem channel_spec {o : Operation} {h : Handle} (ho : o.handle = some h) :
    o.code.Triple (known Any : (bounded h).Knows) fun v => known (Answers o v) := by
  have ends {α : Type} {p : Routine α} {F : Error → Prop} (hp : Code.Only Act.Ends F p) :
      Spec (known Any : (bounded h).Knows) p (fun _ => known Any) fun _ => known Any :=
    free_spec @Any.grows (hp.weaken fun _ => Free.of_ends)
  cases o <;> cases ho
  case checkReady     => exact answers_of_spec (ends checkReady_ends) fun _ _ _ => trivial
  case close          => exact answers_of_spec (ends close_ends) fun _ _ _ => trivial
  case drop           => exact answers_of_spec (ends (F := fun _ => False) drop_ends) fun _ _ _ => trivial
  case trySendOnce    => exact answers_of_spec trySendOnce_spec fun _ _ _ => trivial
  case send           => exact answers_of_spec send_spec fun _ _ _ => trivial
  case sendAsync      => exact answers_of_spec sendAsync_spec fun _ _ _ => trivial
  case recv           => exact answers_of_spec (recv_answers (waitForMessage_spec @Any.grows)) fun _ _ ht => ht
  case recvAsync      => exact answers_of_spec (recv_answers (peekAsync_spec @Any.grows)) fun _ _ ht => ht
  case recvInto       => exact answers_of_spec (recvInto_answers (waitForMessage_spec @Any.grows)) fun _ _ ht => ht
  case recvIntoAsync  => exact answers_of_spec (recvInto_answers (peekAsync_spec @Any.grows)) fun _ _ ht => ht
  case drainReady     => exact answers_of_spec drainReadyWithSpin_spec fun _ _ _ => trivial
  case recvManyAsync  => exact answers_of_spec recvManyAsync_spec fun _ _ _ => trivial
  case tryRecv =>
    refine answers_of_spec (M := fun v => known (Answers (.tryRecv h) (.ok v)))
      (.bind (tryPeekOrClosed_spec @Any.grows) fun v => ?_)
      fun _ _ ht => ht
    cases v
    case none   => exact .pure fun _ _ _ => trivial
    case some m => exact .bind (takeMessage_spec @Any.grows) fun bs => .pure fun _ _ ht => ht.right

theorem other_spec {o : Operation} (ho : o.handle = none) (can : Callable o) :
    o.code.Triple (known Any : outside.Knows) fun v => known (Answers o v) := by
  have keeps : (known Any : outside.Knows).Keeps Outside := keeps_of_snoc (fun ha _ => ha) fun _ _ => trivial
  have only {α : Type} {p : Program Act Act.Ret α} {V : α → Prop} (hp : p.Only Outside V) :
      p.Triple (known Any : outside.Knows) fun _ => known Any :=
    (Program.Triple.only keeps hp).post fun _ _ _ hs => And.left hs
  have signals {a : Act} (h : a.Signals) : Outside a := by cases a <;> trivial
  have answered (v : o.Ret) : (known Any : outside.Knows) ≤ known (Answers o v) :=
    fun _ _ _ => by cases o <;> trivial
  refine Program.Triple.post answered ?_
  cases o <;> cases ho
  case create | tryOpen | «open» => exact can.elim
  case waitLoop => exact only ((waitLoop_signals (F := fun _ => False) can.right).weaken fun _ => signals)
  case dropWait => exact only ((Effects.drop_signals (F := fun _ => False) can.left).weaken fun _ => signals)
  case env      => exact only (Code.Only.perform (F := fun _ => False) can)

-- The halves that a call has seen are where they were.
def Stood (t : Events) (s : World) : Prop :=
  ∀ h, (∀ x, ⟨.getSender h, x⟩ ∈ t → (s.sender h).area = x.area) ∧
    ∀ x, ⟨.getReceiver h, x⟩ ∈ t → (s.receiver h).area = x.area

-- No step moves a half.
structure Fixed (s s' : World) : Prop where
  sender   : ∀ h, (s'.sender h).area = (s.sender h).area
  receiver : ∀ h, (s'.receiver h).area = (s.receiver h).area

theorem Built.areas {h : Handle} {s : World} (hb : Built h s) :
    (s.sender h).area.Valid ∧ (s.receiver h).area.Valid := by
  obtain ⟨self, config, valid, sender, receiver⟩ := hb
  obtain ⟨k, low, _, size⟩ := Ring.ringSize_eq valid
  have large : 64 ≤ config.ringSize := by
    rw [size]
    exact Nat.pow_le_pow_right (n := 2) (by decide) low
  rw [sender, receiver]
  unfold Channel.newSender Channel.newReceiver
  constructor <;> split <;> exact ⟨large, rfl⟩

theorem Built.stays {h : Handle} {s s' : World} (hb : Built h s) (fixed : Fixed s s') : Built h s' := by
  obtain ⟨self, config, valid, sender, receiver⟩ := hb
  exact ⟨self, config, valid, (fixed.sender h).trans sender, (fixed.receiver h).trans receiver⟩

section
variable {plat : Platform} {i : ThreadId} {a : Act} {r : a.Ret} {s s' : World} {t : Events} {o : Operation}

theorem fixed_of_exec (ho : (rule o).ok t a) (stood : Stood t s) (e : World.exec plat i a s r s') : Fixed s s' := by
  have frame := World.frame e
  have sender {k x y} (hx : ⟨.getSender k, x⟩ ∈ t) (same : y.area = x.area)
    (hs : s' = { s with sender := Function.update s.sender k y }) :
      Fixed s s' := by
    subst hs
    refine ⟨fun h => ?_, fun _ => rfl⟩
    by_cases hk : h = k
    case pos => subst hk; simp [same, (stood h).left x hx]
    case neg => simp [Function.update_of_ne hk]
  have receiver {k x y} (hx : ⟨.getReceiver k, x⟩ ∈ t) (same : y.area = x.area)
      (hs : s' = { s with receiver := Function.update s.receiver k y }) : Fixed s s' := by
    subst hs
    refine ⟨fun _ => rfl, fun h => ?_⟩
    by_cases hk : h = k
    case pos => subst hk; simp [same, (stood h).right x hx]
    case neg => simp [Function.update_of_ne hk]
  cases hh : o.handle
  case none =>
    rw [show rule o = outside by simp [rule, hh]] at ho
    cases a
    case setSender | setReceiver => exact ho.elim
    all_goals
      exact ⟨fun h => by rw [frame.sender (by simp [Act.parts])], fun h => by rw [frame.receiver (by simp [Act.parts])]⟩
  case some h =>
    rw [rule_of_handle hh] at ho
    cases a
    case setSender   => obtain ⟨rfl, x, hx, same⟩ := ho; exact sender hx same e
    case setReceiver => obtain ⟨rfl, x, hx, same⟩ := ho; exact receiver hx same e
    all_goals
      exact ⟨fun h => by rw [frame.sender (by simp [Act.parts])], fun h => by rw [frame.receiver (by simp [Act.parts])]⟩

theorem Stood.stays (stood : Stood t s) (fixed : Fixed s s') : Stood t s' :=
  fun h => ⟨fun x hx => (fixed.sender h).trans ((stood h).left x hx), fun x hx =>
    (fixed.receiver h).trans ((stood h).right x hx)⟩

theorem Stood.snoc (stood : Stood t s') (e : World.exec plat i a s r s') : Stood (t ++ [⟨a, r⟩]) s' := by
  intro h
  refine ⟨fun x hx => ?_, fun x hx => ?_⟩
  · rcases List.mem_append.mp hx with hx | hx
    case inl => exact (stood h).left x hx
    case inr =>
      cases List.mem_singleton.mp hx
      obtain ⟨rfl, rfl⟩ := e
      rfl
  · rcases List.mem_append.mp hx with hx | hx
    case inl => exact (stood h).right x hx
    case inr =>
      cases List.mem_singleton.mp hx
      obtain ⟨rfl, rfl⟩ := e
      rfl

theorem stands_of_exec (built : ∀ h, Built h s) (stood : Stood t s) (e : World.exec plat i a s r s') :
    Stands t a r := by
  cases a
  case getSender h   => obtain ⟨rfl, rfl⟩ := e; exact ⟨(built h).areas.left, (stood h).left⟩
  case getReceiver h => obtain ⟨rfl, rfl⟩ := e; exact ⟨(built h).areas.right, (stood h).right⟩
  all_goals trivial

end

def disciplined {plat : Platform} : Disciplined (machine plat) hostileSystem where
  rule    := rule
  inv s   := ∀ h, Built h s.fst
  own _ t s := Stood t s.fst
  post    := Answers
  init hs := hs
  start _ := fun _ => ⟨nofun, nofun⟩
  may     := fun {o i t a s r s'} hb stood e => by
    have stands : Stands t a r := stands_of_exec hb stood e.left
    show (rule o).may t a r
    cases ho : o.handle
    case none   => rwa [show rule o = outside by simp [rule, ho]]
    case some h => rwa [rule_of_handle ho]
  step hb stood ok e :=
    have fixed := fixed_of_exec ok stood e.left
    ⟨fun h => (hb h).stays fixed, (stood.stays fixed).snoc e.left⟩
  other _ _ stood stood' ok e := stood.stays (fixed_of_exec ok stood' e.left)
  spec := fun {i o s} _ can => by
    refine Program.Triple.pre (P := known Any) (fun _ _ _ => trivial) ?_
    show o.code.Triple (known Any : (rule o).Knows) fun v => known (Answers o v)
    cases ho : o.handle
    case none   => rw [show rule o = outside by simp [rule, ho]]; exact other_spec ho can
    case some h => rw [rule_of_handle ho]; exact channel_spec ho

def Within (r : Area) (base : FileId) (addr : Nat) : Prop :=
  base = r.base ∧ r.data ≤ addr ∧ addr < r.data + r.size

theorem Copies.within {r : Area} {cursor len : Nat} {t : Events} {a : Act} (h : Copies r cursor len t a) {base : FileId}
    {addr : Nat} (touches : ∀ b p, a.Touches b p → b = base ∧ p = addr) : Within r base addr := by
  obtain ⟨⟨k, ⟨_, left⟩, touch⟩, holds⟩ := h
  obtain ⟨rfl, rfl⟩ := touches _ _ touch
  exact ⟨rfl, holds.bounds left⟩

-- What every call does with its halves.
structure Safe (c : hostileSystem.logged.Config) : Prop where
  built  : ∀ h, Built h c.mem.fst.fst
  stood  : ∀ {i f}, c.thr i = some f → Stood (Log.since i f.start.snd c.mem.snd) c.mem.fst.fst
  next   : ∀ {i o s a k h}, c.thr i = some ⟨o, s, .act a k⟩ → o.handle = some h →
    InBounds h (Log.since i s.snd c.mem.snd) a
  into   : ∀ {i o s b p v k h}, c.thr i = some ⟨o, s, .act (.writeByte b p v) k⟩ → o.handle = some h →
    Within (c.mem.fst.fst.sender h).area b p
  outOf  : ∀ {i o s b p k h}, c.thr i = some ⟨o, s, .act (.readByte b p) k⟩ → o.handle = some h →
    Within (c.mem.fst.fst.receiver h).area b p
  answer : ∀ {i o s v}, c.Returning i o s v → Answers o v (Log.since i s.snd c.mem.snd)

theorem copies_in_bounds {plat : Platform} {c : hostileSystem.logged.Config}
    (h : hostileSystem.logged.Reachable (machine plat).logged c) : Safe c := by
  have stood {i f} (at_ : c.thr i = some f) : Stood (Log.since i f.start.snd c.mem.snd) c.mem.fst.fst :=
    disciplined.own_of_frame h at_
  have next {i o s a k hd} (at_ : c.thr i = some ⟨o, s, .act a k⟩) (ho : o.handle = some hd) :
      InBounds hd (Log.since i s.snd c.mem.snd) a := by
    have ok : (rule o).ok (Log.since i s.snd c.mem.snd) a := disciplined.ok_of_next h at_
    rwa [rule_of_handle ho] at ok
  constructor
  case built  => exact disciplined.inv_of_reachable h
  case stood  => exact stood
  case next   => exact next
  case into   =>
    intro i o s b p v k hd at_ ho
    obtain ⟨x, cursor, len, hx, copies⟩ := next at_ ho
    rw [(stood at_ hd).left x hx]
    exact copies.within fun _ _ h => ⟨h.left.symm, h.right.symm⟩
  case outOf  =>
    intro i o s b p k hd at_ ho
    obtain ⟨x, cursor, len, hx, copies, _⟩ := next at_ ho
    rw [(stood at_ hd).right x hx]
    exact copies.within fun _ _ h => ⟨h.left.symm, h.right.symm⟩
  case answer => exact fun hr => disciplined.post_of_returning h hr

-- The peer of a server moves its cursor far away, and the server looks for a message.

def outside? : Act → Bool
  | .setSender .. | .setReceiver .. => false
  | _                               => true

theorem outside?_iff {a : Act} : outside? a = true ↔ Outside a := by
  cases a <;> first | exact ⟨fun _ => trivial, fun _ => rfl⟩ | exact ⟨nofun, False.elim⟩

instance : DecidablePred Outside :=
  fun _ => decidable_of_iff _ outside?_iff

instance {i : ThreadId} {o : Operation} {s : State} : Decidable (hostileSystem.callable i o s) :=
  match o with
  | .create .. | .tryOpen .. | .open .. => isFalse id
  | .waitLoop wait | .dropWait wait     => inferInstanceAs (Decidable (Operation.RingWords wait))
  | .env a                              => inferInstanceAs (Decidable (Outside a))
  | .checkReady _ | .close _ | .drop _ | .trySendOnce .. | .send .. | .sendAsync .. | .tryRecv _ | .recv ..
  | .recvInto .. | .recvAsync .. | .recvIntoAsync .. | .drainReady .. | .recvManyAsync .. => isTrue trivial

def server : SharedChannel :=
  ⟨.server, 0, "a", 0, 1000⟩

def endpoints : World :=
  { World.start with
    shared   := fun _ => some server
    sender   := fun h => Channel.newSender h server 64
    receiver := fun h => Channel.newReceiver h server 64 }

def far : List CrateMove :=
  .call 1 (.env (.store (endpoints.receiver 0).writeCursor (2 ^ 64 - 1) .none)) :: CrateMove.steps 1 1 ++
  .call 0 (.tryRecv 0) :: CrateMove.steps 0 3

def reading (c : hostileSystem.Config) : Bool :=
  match c.thr 0 with
  | some ⟨.tryRecv h, _, .act (.readByte _ _) _⟩ => h = 0
  | _                                            => false

theorem copies_in_bounds_far :
    ∃ (c : hostileSystem.logged.Config) (s : State × Log ThreadId Act Act.Ret) (b p : Nat) (k : UInt8 → _),
      c.thr 0 = some ⟨.tryRecv 0, s, .act (.readByte b p) k⟩ ∧ Safe c := by
  have ⟨c, steps, _, hc⟩ := System.run_test (S := hostileSystem) (O := crateOracle .linux)
    (c := ⟨(endpoints, History.start), fun _ => none⟩) (l := far) (p := reading) (fun _ _ => rfl) (by decide +kernel)
  have built (h : Handle) : Built h endpoints := ⟨server, ⟨64, ⟨1⟩, 1000⟩, rfl, rfl, rfl⟩
  have ⟨c', reach, same⟩ := System.Reachable.lift (.intro ⟨built, fun _ => rfl⟩ steps)
  subst same
  unfold reading at hc
  split at hc
  case h_2 => cases hc
  case h_1 at_ =>
    obtain rfl := of_decide_eq_true hc
    have ⟨l, at_⟩ := System.Config.exists_frame at_
    exact ⟨c', _, _, _, _, at_, copies_in_bounds reach⟩

end Bounds
