import Mathlib.Data.Nat.Init
import ShmemIpc.Library.Unroll
import ShmemIpc.Header.Connect
import ShmemIpc.Execution.Run

-- Connecting and the connect timeout exclude each other.

namespace SharedChannel

-- One turn of the loop of `check_ready`, and what follows the loop.

def awaitTurn (h : Handle) (self : SharedChannel) (_ : Unit) : Routine (Unit ⊕ Bool) := do
  let state ← load self.stateWord
  match ChannelState.fromU32 state with
  | some .connected        => pure (.inr true)
  | some .peerDisconnected => fail .peerDisconnected
  | some .closed           => fail .channelClosed
  | some .init | none      => fail .invalidHeader
  | _                      => retire h self state

def readyRest (h : Handle) (self : SharedChannel) (ready : Bool) : Routine Bool := do
  if ready then do
    let t ← now
    let elapsedMs := min ((t - self.started) / 1000000) U64_MAX
    let nextProbe ← loadNextProbe h
    if nextProbe ≤ elapsedMs then do
      if ← locked h (probe h self elapsedMs) then
        pure true
      else do
        terminal h
        pure true
    else do
      terminal h
      pure true
  else
    pure false

-- `check_ready` up to the end of its loop, if that takes no more than three turns.
def awaitThrice (h : Handle) : Routine (SharedChannel × (Unit ⊕ Bool)) := do
  let self ← getShared h
  let v ← Code.turns (awaitTurn h self) 3 ()
  pure (self, v)

def readyAfter (h : Handle) : SharedChannel × (Unit ⊕ Bool) → Routine Bool
  | (self, v) => do
    let ready ← Sum.elim (Code.loop (awaitTurn h self)) pure v
    readyRest h self ready

theorem checkReady_unrolls {h : Handle} : (checkReady h).Unrolls (awaitThrice h >>= readyAfter h) := by
  have eq : checkReady h = getShared h >>= fun self => Code.loop (awaitTurn h self) () >>= readyRest h self := rfl
  rw [eq, awaitThrice, Code.bind_assoc]
  refine .bind fun self => ?_
  have turns : (Code.loop (awaitTurn h self) ()).Unrolls _ := .turns 3 ()
  refine cast (congrArg (Code.Unrolls _) ?_) (turns.left (f := readyRest h self))
  rw [Code.bind_assoc, Code.bind_assoc]
  rfl

end SharedChannel

namespace Header

open Assertion Channels Code

section
variable {plat : Platform} {i : ThreadId} {P : Assertion (headerProtocol plat) i} {h : Handle}
    {x : SharedChannel} {b : FileId}

-- A half loses the exchange only if the channel has gone on since the state was read.
theorem exchange_passes (hp : P.Persistent) {n new : Nat} (fwd : Forward (.global b .state) n new) {α : Type}
    {f : Except Nat Nat → Routine α} {M : α → Assertion (headerProtocol plat) i}
    {E : Error → Assertion (headerProtocol plat) i}
    (ok : ∀ m, Spec (P ⊓ observed b n) (f (.ok m)) M E) (error : ∀ m, Spec (P ⊓ atLeast b (n + 1)) (f (.error m)) M E) :
    Spec (P ⊓ observed b n) (compareExchange (.global b .state) n new >>= f) M E := by
  let N : Except Nat Nat → Assertion (headerProtocol plat) i :=
    either (P ⊓ observed b n) (P ⊓ atLeast b (n + 1))
  have keeps := (hp.inf (observed_persistent (b := b) (n := n))).keeps
    (S := (· = .compareExchange (.global b .state) n new))
    (by rintro _ _ rfl _ _; exact fwd)
  refine .act N (fun s hi hs => keeps.ok rfl hi hs) (fun s r s' hi hs e => ?_) fun r => ?_
  · obtain ⟨stays, seen⟩ := keeps.kept rfl hi hs e
    cases r
    case ok => exact ⟨stays, seen⟩
    case error m =>
      rcases e.left with ⟨_, hr, _⟩ | ⟨moved, _, hs'⟩
      · cases hr
      · have passed : Observed b n (channels s') := seen
        have bound := passed.atLeast.bound
        have small := fwd.right.left
        have moved : (channels s').state b ≠ n := fun at_ => moved (by rw [← hs']; exact at_)
        refine ⟨stays, passed.atLeast.old, ?_⟩
        omega
  · cases r
    case ok m    => exact ok m
    case error m => exact error m

theorem awaitTurn_spec (hp : P.Persistent) (hk : P ≤ knows h x) {k : Nat} (hr : P ≤ atLeast x.base k) :
    Spec P (SharedChannel.awaitTurn h x ())
      (Sum.elim (fun _ => P ⊓ atLeast x.base (k + 1) ⊓ .const (k < 3)) fun _ => ⊤) (fun _ => ⊤) := by
  have tells : Tells P x.base fun n => n ≠ 0 ∧ k ≤ min n 4 := fun s hi hs =>
    ⟨(hk s hi hs).old, (hk s hi hs).ready, (hr s hi hs).bound⟩
  refine loadState_spec hp tells fun n h5 hn => ?_
  have waiting (h3 : n < 3) : Spec (P ⊓ observed x.base n) (SharedChannel.retire h x n)
      (Sum.elim (fun _ => P ⊓ atLeast x.base (k + 1) ⊓ .const (k < 3)) fun _ => ⊤) (fun _ => ⊤) := by
    refine plain (hp.inf observed_persistent) (a := .now) (fun _ _ => trivial) fun t => ?_
    split
    case isTrue  => exact .pure fun _ _ _ => trivial
    case isFalse =>
      refine exchange_passes hp ⟨hn.left, by omega, by simp only [ChannelState.toU32]; omega, by decide⟩
        (fun _ => ?_) fun m => ?_
      · exact pass_plain (hp.inf observed_persistent) (signals_plain Effects.wakeAll_signals) fun _ =>
          .throw fun _ _ _ => trivial
      · refine .pure fun _ _ hs => ⟨⟨hs.left, hs.right.old, ?_⟩, by show k < 3; omega⟩
        have bound := hs.right.bound
        omega
  rcases cases_state hn.left h5 with rfl | rfl | rfl | rfl | rfl
  · exact waiting (by decide)
  · exact waiting (by decide)
  · exact .pure fun _ _ _ => trivial
  · exact .throw fun _ _ _ => trivial
  · exact .throw fun _ _ _ => trivial

-- Every turn that goes round again has seen the channel go on, which it cannot do more than twice.
theorem turns_spec {n : Nat} {P : Assertion (headerProtocol plat) i} (hp : P.Persistent) (hk : P ≤ knows h x) {k : Nat}
    (hr : P ≤ atLeast x.base k) (h3 : 3 ≤ k + n) :
    Spec P (turns (SharedChannel.awaitTurn h x) (n + 1) ()) (Sum.elim (fun _ => .const False) fun _ => ⊤)
    (fun _ => ⊤) := by
  induction n generalizing k P
  case zero =>
    refine .bind (awaitTurn_spec hp hk hr) fun v => ?_
    cases v
    case inl => exact .pure fun _ _ hs => absurd hs.right (Nat.not_lt_of_le h3)
    case inr => exact .pure fun _ _ _ => trivial
  case succ n ih =>
    refine .bind (awaitTurn_spec hp hk hr) fun v => ?_
    cases v
    case inl =>
      refine .pre (P := P ⊓ atLeast x.base (k + 1)) ?_ fun _ _ hs => hs.left
      exact ih (hp.inf fact_persistent) (fun s hi hs => hk s hi hs.left) (fun _ _ hs => hs.right) (by omega)
    case inr => exact .pure fun _ _ _ => trivial

theorem awaitThrice_spec (hp : P.Persistent) (hk : P ≤ knows h x) :
    Spec P (SharedChannel.awaitThrice h) (fun v => .const (v.snd ≠ .inl ())) (fun _ => ⊤) := by
  have ready : P ≤ atLeast x.base 1 := fun s hi hs => by
    have known : Knows h x (channels s) := hk s hi hs
    exact ⟨known.old, by have := known.ready; omega⟩
  refine getShared_spec hp hk (.bind (turns_spec hp hk ready (by decide)) fun v => ?_)
  cases v
  case inl => exact .pure fun _ _ hs => hs.elim
  case inr => exact .pure fun _ _ _ => nofun

end

-- `check_ready` up to the end of its loop, as an operation on the channel of a handle.
abbrev awaiting : System ThreadId Act Act.Ret State :=
  crateSystem.also (T := fun _ : Handle => Except Error (SharedChannel × (Unit ⊕ Bool)))
    (fun _ h => SharedChannel.awaitThrice h) fun _ h s => ∃ x, Attached s.fst h x

def verifiedAwaiting (plat : Platform) : Verified awaiting (headerProtocol plat) :=
  (verified plat).also (fun _ _ _ v => .const (∀ r, v = .ok r → r.snd ≠ .inl ())) (by
    rintro i h s hi - ⟨x, ha⟩
    refine ⟨owns h x, owns_of_attached hi ha, Program.Triple.post (fun v => ?_)
      (awaitThrice_spec owns_persistent fun _ _ hs => hs.left)⟩
    cases v
    case ok r => exact fun _ _ hs => ⟨trivial, fun | _, rfl => hs⟩
    case error => exact fun _ _ _ => ⟨trivial, nofun⟩)

-- The answers by which a client gets a channel.
def Hands (ch : Channel) : (o : Operation) → o.Ret → Prop
  | .tryOpen .., v => v = .ok (some ch)
  | .open .., v    => v = .ok ch
  | _, _           => False

-- A client has connected to the channel in the file `b`.
def Joins (c : crateSystem.logged.Config) (i : ThreadId) (s : State × Log ThreadId Act Act.Ret) (b : FileId) : Prop :=
  ∃ o v ch x, c.Returning i o s v ∧ Hands ch o v ∧ Maps ch x (Log.since i s.snd c.mem.snd) ∧ x.base = b

-- `check_ready` has timed out on the channel in the file `b`.
def TimesOut (c : crateSystem.logged.Config) (i : ThreadId) (h : Handle) (s : State × Log ThreadId Act Act.Ret)
    (b : FileId) : Prop :=
  c.Returning i (.checkReady h) s (.error .timedOut) ∧ ∃ x, s.fst.fst.shared h = some x ∧ x.base = b

-- Two moments of a run, one after the other.
structure Exclusive (c c' : crateSystem.logged.Config) (b : FileId) : Prop where
  late   : ∀ {i j h s s'}, Joins c i s b → ¬ TimesOut c' j h s' b
  early  : ∀ {i j h s s'}, TimesOut c i h s b → ¬ Joins c' j s' b
  closed : ∀ {i h s}, TimesOut c i h s b → InState c'.forget b .closed
  woken  : ∀ {i h s}, TimesOut c i h s b → ∃ n, Retires b n (Log.since i s.snd c.mem.snd)
  once   : ∀ {i j h h' s s'}, TimesOut c i h s b → TimesOut c' j h' s' b → i = j ∧ h = h' ∧ s = s'
  -- a client that has found the channel
  fails  : ∀ {i j h s s' name config identity v n}, TimesOut c i h s b →
    c'.Returning j (.tryOpen name config identity) s' v → n ≠ 0 →
    ⟨.load (.global b .state), n⟩ ∈ Log.since j s'.snd c'.mem.snd → ∃ e, v = .error e
  failed : ∀ {i j h s s' name config identity v n}, TimesOut c' i h s b →
    c.Returning j (.tryOpen name config identity) s' v → n ≠ 0 →
    ⟨.load (.global b .state), n⟩ ∈ Log.since j s'.snd c.mem.snd → ∃ e, v = .error e

section
variable {plat : Platform} {c c' : crateSystem.logged.Config} {i j : ThreadId} {h h' : Handle} {b : FileId}
variable {s s' : State × Log ThreadId Act Act.Ret}

theorem decided_of_reachable (hc : crateSystem.logged.Reachable (machine plat).logged c) : Decided c.mem :=
  ((decisions plat).inv_of_reachable ((verified plat).logged.under hc)).right

theorem reveals_of_returning (hc : crateSystem.logged.Reachable (machine plat).logged c) {o : Operation} {v : o.Ret}
    (hr : c.Returning i o s v) : (reveals s o v : Assertion (decisionProtocol plat) i) c.mem :=
  ((decisions plat).post_of_returning ((verified plat).logged.under hc) hr).right

theorem DecidedAt.along (hc : crateSystem.logged.Reachable (machine plat).logged c)
    (e : crateSystem.logged.Steps (machine plat).logged c c') {x : Event Act Act.Ret} {k : Nat}
    (old : b < c.mem.fst.fst.files) (h : DecidedAt b k i x c.mem.snd) :
    b < c'.mem.fst.fst.files ∧ DecidedAt b k i x c'.mem.snd :=
  (verified plat).logged.persists Machine.le_rfl (P := fun s => b < s.fst.fst.files ∧ DecidedAt b k i x s.snd)
    (fun {j a s r s'} _ _ exec h => by
      have ⟨old, same⟩ := old_of_exec exec.left h.left
      have log : s'.snd = s.snd ++ [(j, ⟨a, r⟩)] := exec.right
      exact ⟨old, log ▸ h.right.snoc same⟩) hc e ⟨old, h⟩

theorem DecidedSince.along (hc : crateSystem.logged.Reachable (machine plat).logged c)
    (e : crateSystem.logged.Steps (machine plat).logged c c') {x : Event Act Act.Ret}
    (h : DecidedSince i s.snd b x c.mem) : DecidedSince i s.snd b x c'.mem :=
  have ⟨old, k, hk, at_⟩ := h
  have ⟨old', at'⟩ := at_.along hc e old
  ⟨old', k, hk, at'⟩

theorem joined_since {l₀ : Log ThreadId Act Act.Ret} {ch : Channel} {Z : FileId → Nat → Prop}
    {s : State × Log ThreadId Act Act.Ret}
    (h : (joined l₀ ch Z : Assertion (decisionProtocol plat) i) s) :
    ∃ x, (∀ b n, ⟨.load (.global b .state), n⟩ ∈ Log.since i l₀ s.snd → Z b n ∨ b = x.base) ∧
      Maps ch x (Log.since i l₀ s.snd) ∧ DecidedSince i l₀ x.base (connects x.base) s :=
  have ⟨x, trail, decided⟩ := h
  have known := Log.Since.holds (i := i) (P := fun t => Sees (fun c n => Z c n ∨ c = x.base) t ∧ Maps ch x t) trail
  ⟨x, known.left, known.right, decided⟩

theorem exists_joins (hc : crateSystem.logged.Reachable (machine plat).logged c) {o : Operation}
    {v : o.Ret} {ch : Channel}
    (hr : c.Returning i o s v) (hv : Hands ch o v) : ∃ b, Joins c i s b := by
  have known := reveals_of_returning hc hr
  cases o
  case tryOpen =>
    cases hv
    have ⟨x, _, maps, _⟩ := joined_since known
    exact ⟨x.base, _, _, ch, x, hr, rfl, maps, rfl⟩
  case «open» =>
    cases hv
    have ⟨x, _, maps, _⟩ := joined_since known
    exact ⟨x.base, _, _, ch, x, hr, rfl, maps, rfl⟩
  all_goals exact hv.elim

theorem Joins.decided (hc : crateSystem.logged.Reachable (machine plat).logged c) (h : Joins c i s b) :
    DecidedSince i s.snd b (connects b) c.mem := by
  obtain ⟨o, v, ch, x, hr, hv, maps, rfl⟩ := h
  have known := reveals_of_returning hc hr
  have same {Z : FileId → Nat → Prop} (known : (joined s.snd ch Z : Assertion (decisionProtocol plat) i) c.mem) :
      DecidedSince i s.snd x.base (connects x.base) c.mem := by
    have ⟨y, _, maps', decided⟩ := joined_since known
    have ⟨peer, hm⟩ := maps.mapped
    exact maps'.only x peer _ hm ▸ decided
  cases o
  case tryOpen => cases hv; exact same known
  case «open»  => cases hv; exact same known
  all_goals exact hv.elim

theorem TimesOut.decided (hc : crateSystem.logged.Reachable (machine plat).logged c) (h' : TimesOut c i h s b) :
    ∃ n, DecidedSince i s.snd b (retires b n) c.mem ∧ Retires b n (Log.since i s.snd c.mem.snd) := by
  obtain ⟨hr, x, hx, rfl⟩ := h'
  have known := reveals_of_returning hc hr
  simp only [reveals, hx] at known
  have ⟨n, trail, decided⟩ := known rfl
  exact ⟨n, decided, Log.Since.holds (i := i) (P := Retires x.base n) trail⟩

-- Both ends cannot be decided.
theorem DecidedSince.same (hc : crateSystem.logged.Reachable (machine plat).logged c) {x y : Event Act Act.Ret}
    (h : DecidedSince i s.snd b x c.mem) (h' : DecidedSince j s'.snd b y c.mem) :
    i = j ∧ x = y ∧ ∃ k, s.snd.length ≤ k ∧ s'.snd.length ≤ k ∧ DecidedAt b k i x c.mem.snd := by
  obtain ⟨_, k, hk, at_⟩ := h
  obtain ⟨_, k', hk', at'⟩ := h'
  obtain rfl := (decided_of_reachable hc).once at_ at'
  obtain ⟨rfl, rfl⟩ : i = j ∧ x = y := Prod.mk.inj (Option.some.inj (at_.at_.symm.trans at'.at_))
  exact ⟨rfl, rfl, k, hk, hk', at_⟩

theorem connects_ne_retires {n : Nat} : connects b ≠ retires b n := by
  intro h
  have := congrArg Sigma.fst h
  simp [connects, retires, ChannelState.toU32] at this

theorem tryOpen_fails (hc : crateSystem.logged.Reachable (machine plat).logged c) {name : String}
    {config : ChannelConfig}
    {identity : ProcessIdentity} {v : Except Error (Option Channel)} {n : Nat} (hj : ¬ Joins c i s b)
    (hr : c.Returning i (.tryOpen name config identity) s v) (hn : n ≠ 0)
    (hm : ⟨.load (.global b .state), n⟩ ∈ Log.since i s.snd c.mem.snd) : ∃ e, v = .error e := by
  have known := reveals_of_returning hc hr
  match v with
  | .error e   => exact ⟨e, rfl⟩
  | .ok none   =>
    have seen := Log.Since.holds (i := i) (P := Looks fun _ n => False ∨ n = 0) known
    exact absurd ((seen.left b n hm).resolve_left id) hn
  | .ok (some ch) =>
    have ⟨x, seen, maps, _⟩ := joined_since known
    have hb : b = x.base := (seen b n hm).resolve_left id
    exact absurd ⟨_, _, ch, x, hr, rfl, maps, hb.symm⟩ hj

theorem exclusive (hc : crateSystem.logged.Reachable (machine plat).logged c)
    (e : crateSystem.logged.Steps (machine plat).logged c c') : Exclusive c c' b := by
  have hc' := hc.steps e
  have late {i j h s s'} (joins : Joins c i s b) : ¬ TimesOut c' j h s' b := fun out => by
    have ⟨n, decided, _⟩ := out.decided hc'
    have ⟨_, same, _⟩ := ((joins.decided hc).along hc e).same hc' decided
    exact connects_ne_retires same
  have early {i j h s s'} (out : TimesOut c i h s b) : ¬ Joins c' j s' b := fun joins => by
    have ⟨n, decided, _⟩ := out.decided hc
    have ⟨_, same, _⟩ := (joins.decided hc').same hc' (decided.along hc e)
    exact connects_ne_retires same
  constructor
  case late   => exact late
  case early  => exact early
  case closed =>
    intro i h s out
    have ⟨n, decided, _⟩ := out.decided hc
    have ⟨_, k, _, at_⟩ := decided.along hc e
    exact (decided_of_reachable hc').retired at_
  case woken =>
    intro i h s out
    have ⟨n, _, woken⟩ := out.decided hc
    exact ⟨n, woken⟩
  case once =>
    intro i j h h' s s' out out'
    have ⟨n, decided, _⟩ := out.decided hc
    have ⟨n', decided', _⟩ := out'.decided hc'
    obtain ⟨rfl, _, k, _, bound', at_⟩ := (decided.along hc e).same hc' decided'
    rcases System.Steps.called out.left e _ out'.left with same | ⟨d, before, _, _, start⟩
    case inl => cases same; exact ⟨rfl, rfl, rfl⟩
    case inr =>
      -- The second call began after the first one had decided.
      have ⟨old, k₀, _, at₀⟩ := decided
      obtain rfl := (decided_of_reachable hc').once at_ (at₀.along hc e old).right
      have grown := (System.Steps.log_prefix before).length_le
      have lt := at₀.lt_length
      have start : s'.snd = d.mem.snd := congrArg Prod.snd start
      rw [start] at bound'
      omega
  case fails  => exact fun out hr => tryOpen_fails hc' (early out) hr
  case failed => exact fun out hr => tryOpen_fails hc (fun joins => late joins out) hr

-- A client that connects and a half of the server that times out exclude each other, and the half comes to an end.
theorem connect_excludes_timeout :
    (∀ {c c' : crateSystem.logged.Config}, crateSystem.logged.Reachable (machine plat).logged c →
      crateSystem.logged.Steps (machine plat).logged c c' →
      (∀ {i o s v ch}, c.Returning i o s v → Hands ch o v → ∃ b, Joins c i s b) ∧ ∀ b, Exclusive c c' b) ∧
    (∀ h, (SharedChannel.checkReady h).Unrolls (SharedChannel.awaitThrice h >>= SharedChannel.readyAfter h)) ∧
    ∀ {c : awaiting.Config}, awaiting.Reachable (machine plat) c →
      ∀ {i h s r}, c.Returning i (.inr h) s (.ok r) → r.snd ≠ .inl () :=
  ⟨fun hc e => ⟨exists_joins hc, fun _ => exclusive hc e⟩, fun _ => SharedChannel.checkReady_unrolls,
   fun {_} hc {_ _ _ _} hr => ((verifiedAwaiting plat).post_of_returning hc hr).right _ rfl⟩

end

instance {i : ThreadId} {o : awaiting.Op} {s : State} : Decidable (awaiting.callable i o s) :=
  match o with
  | .inl o => inferInstanceAs (Decidable (crateSystem.callable i o s))
  | .inr h => inferInstanceAs (Decidable (∃ x, Attached s.fst h x))

-- Whether an event shows that the channel in the file 0 has been closed.
def showsClosed : Event Act Act.Ret → Bool
  | ⟨.load (.global 0 .state), n⟩ => n = 4
  | _                             => false

theorem eq_of_showsClosed {e : Event Act Act.Ret} (h : showsClosed e = true) : e = ⟨.load (.global 0 .state), 4⟩ := by
  unfold showsClosed at h
  split at h
  case h_1 => rw [of_decide_eq_true h]
  case h_2 => cases h

-- The server has timed out.
def timedOut (c : crateSystem.logged.Config) : Bool :=
  c.returns 0 fun
    | .checkReady h, s, .error e => decide (h = 0 ∧ e = .timedOut) && (s.fst.fst.shared 0).any (·.base = 0)
    | _, _, _                    => false

-- The client has found that the channel has been closed.
def foundClosed (c : crateSystem.logged.Config) : Bool :=
  c.returns 1 fun
    | .tryOpen name config identity, s, _ =>
      decide (name = "a" ∧ config = ⟨64, ⟨1⟩, 1000⟩ ∧ identity = ⟨2, 100⟩) &&
        (Log.since 1 s.snd c.mem.snd).any showsClosed
    | _, _, _                             => false

-- The server has passed the wait for the connection.
def awaited (c : awaiting.Config) : Bool :=
  c.returns 0 fun
    | .inr h, _, .ok _ => decide (h = 0)
    | _, _, _          => false

theorem timesOut_of_timedOut {c : crateSystem.logged.Config} (h : timedOut c = true) : ∃ s, TimesOut c 0 0 s 0 := by
  have ⟨o, s, v, hr, hv⟩ := System.Config.returning h
  split at hv
  case h_2 => cases hv
  case h_1 =>
    have ⟨call, hx⟩ := (Bool.and_eq_true _ _).mp hv
    obtain ⟨rfl, rfl⟩ := of_decide_eq_true call
    have ⟨x, hx, base⟩ := (Option.any_eq_true _ _).mp hx
    exact ⟨s, hr, x, hx, of_decide_eq_true base⟩

theorem returning_of_foundClosed {c : crateSystem.logged.Config} (h : foundClosed c = true) :
    ∃ s v, c.Returning 1 (.tryOpen "a" ⟨64, ⟨1⟩, 1000⟩ ⟨2, 100⟩) s v ∧
      ⟨.load (.global 0 .state), 4⟩ ∈ Log.since 1 s.snd c.mem.snd := by
  have ⟨o, s, v, hr, hv⟩ := System.Config.returning h
  split at hv
  case h_2 => cases hv
  case h_1 =>
    have ⟨call, shows⟩ := (Bool.and_eq_true _ _).mp hv
    obtain ⟨rfl, rfl, rfl⟩ := of_decide_eq_true call
    have ⟨e, he, closed⟩ := List.any_eq_true.mp shows
    exact ⟨s, _, hr, eq_of_showsClosed closed ▸ he⟩

theorem returning_of_awaited {c : awaiting.Config} (h : awaited c = true) : ∃ s r,
    c.Returning 0 (.inr 0) s (.ok r) := by
  have ⟨o, s, v, hr, hv⟩ := System.Config.returning h
  split at hv
  case h_2 => cases hv
  case h_1 =>
    obtain rfl := of_decide_eq_true hv
    exact ⟨s, _, hr⟩

-- The server creates a channel, and one of its halves times out. Then a client finds the channel.
theorem connect_excludes_timeout_retired :
    (∃ (c c' : crateSystem.logged.Config) (s s' : State × Log ThreadId Act Act.Ret) (v : Except Error (Option Channel)),
      TimesOut c 0 0 s 0 ∧ InState c'.forget 0 .closed ∧
      c'.Returning 1 (.tryOpen "a" ⟨64, ⟨1⟩, 1000⟩ ⟨2, 100⟩) s' v ∧ ∃ e, v = .error e) ∧
    ∃ (c : awaiting.Config) (s : State) (r : SharedChannel × (Unit ⊕ Bool)),
      c.Returning 0 (.inr 0) s (.ok r) ∧ r.snd ≠ .inl () := by
  have ⟨runs, _, turns⟩ := @connect_excludes_timeout .linux
  constructor
  case left =>
    have ⟨c, steps, good, hc⟩ := System.run_test (S := crateSystem.logged) (O := (crateOracle .linux).logged)
      (c := ⟨((World.start, History.start), []), fun _ => none⟩)
      (l := .call 0 (.create "a" ⟨64, ⟨1⟩, 1000⟩) :: CrateMove.steps 0 34 ++
        .call 0 (.checkReady 0) :: CrateMove.steps 0 3 ++ .step 0 (.time 2000) :: CrateMove.steps 0 11)
      (p := fun c => timedOut c && (crateSystem.logged.run (crateOracle .linux).logged c
        (.call 1 (.tryOpen "a" ⟨64, ⟨1⟩, 1000⟩ ⟨2, 100⟩) :: CrateMove.steps 1 4)).any foundClosed)
      (@crateStart_good .linux) (by decide +kernel)
    have reach : crateSystem.logged.Reachable (machine .linux).logged c :=
      .intro ⟨⟨crateStart_initial.mem, rfl⟩, fun _ => rfl⟩ steps
    have ⟨timed, more⟩ := (Bool.and_eq_true _ _).mp hc
    have ⟨c', steps', _, hc'⟩ := System.run_test good more
    have ⟨s, out⟩ := timesOut_of_timedOut timed
    have ⟨s', v, hr, shown⟩ := returning_of_foundClosed hc'
    have exclusive := (runs reach steps').right 0
    exact ⟨c, c', s, s', v, out, exclusive.closed out, hr, exclusive.fails (n := 4) out hr (by simp) shown⟩
  case right =>
    have ⟨c, steps, _, hc⟩ := System.run_test (S := awaiting) (O := crateOracle .linux)
      (c := ⟨(World.start, History.start), fun _ => none⟩)
      (l := .call 0 (.inl (.create "a" ⟨64, ⟨1⟩, 1000⟩)) :: List.replicate 34 (.step 0 .normal) ++
        .call 0 (.inr 0) :: List.replicate 3 (.step 0 .normal))
      (p := awaited) crateStart_good (by decide +kernel)
    have start : awaiting.init crateStart.mem := crateStart_initial.mem
    have reach : awaiting.Reachable (machine .linux) c := .intro ⟨start, fun _ => rfl⟩ steps
    have ⟨s, r, hr⟩ := returning_of_awaited hc
    exact ⟨c, s, r, hr, turns reach hr⟩

end Header
