import ShmemIpc.Header.Protocol
import ShmemIpc.Execution.Effects

-- What `shared.rs` does to the channel state, and what its answers say about it.
namespace Header

open Assertion Channels Code Effects

-- The terminal state that an error reports.
def Blames (b : FileId) (e : Error) (v : Channels) : Prop :=
  match e with
  | .channelClosed    => Final b 4 v
  | .peerDisconnected => Final b 5 v
  | _                 => True

theorem Blames.stays {b : FileId} {e : Error} : Stays (Blames b e) := by
  intro _ _ _ _ hi c h
  cases e
  case channelClosed    => exact Final.stays hi c h
  case peerDisconnected => exact Final.stays hi c h
  all_goals trivial

-- What the value of a state word says, once it has been read.
structure Observed (b : FileId) (n : Nat) (v : Channels) : Prop where
  atLeast : AtLeast b (min n 4) v
  final   : 4 ≤ n → Final b n v

theorem Observed.stays {b : FileId} {n : Nat} : Stays (Observed b n) :=
  fun hi c h => ⟨AtLeast.stays hi c h.atLeast, fun hn => Final.stays hi c (h.final hn)⟩

theorem Observed.of_eq {b : FileId} {n : Nat} {v : Channels} (old : b < v.files) (h : v.state b = n) :
    Observed b n v :=
  ⟨⟨old, Nat.le_of_eq (by rw [h])⟩, fun hn => ⟨old, hn, h⟩⟩

-- The actions that are always permitted.
def Plain (a : Act) : Prop :=
  ∀ i v, HeaderOk i a v

theorem plain_of_signals {a : Act} (h : a.Signals) : Plain a := by
  intro i v
  cases a <;> try trivial
  case fetchAdd w =>
    cases w
    case global => exact h.elim
    case ring   => trivial
  case store w n note =>
    cases w
    case global => exact h.left.elim
    case ring   => trivial

variable {α : Type} {F : Error → Prop} {p : Routine α}

theorem signals_plain (h : Code.Only Act.Signals F p) : Code.Only Plain F p :=
  h.weaken fun _ => plain_of_signals

theorem reads_plain (h : Code.Only Act.Reads F p) : Code.Only Plain F p :=
  h.weaken fun _ ha => plain_of_signals ha.signals

theorem now_plain (h : Code.Only (· = Act.now) F p) : Code.Only Plain F p :=
  h.weaken (by rintro _ rfl; exact fun _ _ => trivial)

section
variable {plat : Platform} {i : ThreadId}

def knows (h : Handle) (x : SharedChannel) : Assertion (headerProtocol plat) i :=
  fact (Knows h x) Knows.stays

def blames (b : FileId) (e : Error) : Assertion (headerProtocol plat) i :=
  fact (Blames b e) Blames.stays

def observed (b : FileId) (n : Nat) : Assertion (headerProtocol plat) i :=
  fact (Observed b n) Observed.stays

def atLeast (b : FileId) (n : Nat) : Assertion (headerProtocol plat) i :=
  fact (AtLeast b n) AtLeast.stays

def final (b : FileId) (n : Nat) : Assertion (headerProtocol plat) i :=
  fact (Final b n) Final.stays

variable {β : Type} {P : Assertion (headerProtocol plat) i} {M : α → Assertion (headerProtocol plat) i}
variable {E : Error → Assertion (headerProtocol plat) i} {h : Handle} {x : SharedChannel}

theorem keeps_plain (hp : P.Persistent) : P.Keeps Plain :=
  hp.keeps fun ha _ _ => ha _ _

theorem plain (hp : P.Persistent) {a : Act} (ha : Plain a) {f : a.Ret → Routine α}
    (hf : ∀ r, Spec P (f r) M E) : Spec P (perform a >>= f) M E :=
  .skip (keeps_plain hp) ha hf

theorem perform_plain (hp : P.Persistent) {a : Act} (ha : Plain a) {E : Error → Assertion (headerProtocol plat) i} :
    Spec P (perform a) (fun _ => P) E :=
  .perform (fun _ _ _ => ha _ _) fun _ _ _ => (keeps_plain hp).kept ha

theorem only_plain (hp : P.Persistent) {p : Routine α} {F : Error → Prop} (h : Code.Only Plain F p) :
    Spec P p (fun _ => P) (fun e => P ⊓ .const (F e)) :=
  .only (keeps_plain hp) h

-- Code that cannot fail, before the rest.
theorem pass_plain (hp : P.Persistent) {p : Routine β} (h : Code.Only Plain (fun _ => False) p)
    {f : β → Routine α} (hf : ∀ y, Spec P (f y) M E) : Spec P (p >>= f) M E :=
  .pass (keeps_plain hp) h nofun hf

theorem getShared_spec (hp : P.Persistent) (hk : P ≤ knows h x) {f : SharedChannel → Routine α}
    (hf : Spec P (f x) M E) : Spec P (getShared h >>= f) M E := by
  refine .learn (a := .getShared h) (keeps_plain hp) (fun _ _ => trivial) (fun _ => ⊤) (· = x) ?_ ?_
  · exact fun s y _ hi h e => ⟨trivial, (hk s hi h).same y e.left.left⟩
  · rintro y rfl
    exact hf.pre fun _ _ h => h.left

-- A state word of which `q` is known.
def Tells (P : Assertion (headerProtocol plat) i) (b : FileId) (q : Nat → Prop) : Prop :=
  ∀ s, (channels s).Inv → P s → b < (channels s).files ∧ q ((channels s).state b)

theorem tells_of_knows (hk : P ≤ knows h x) : Tells P x.base (· ≠ 0) :=
  fun s hi hs => ⟨(hk s hi hs).old, (hk s hi hs).ready⟩

theorem loadState_spec (hp : P.Persistent) {b : FileId} {q : Nat → Prop} (hq : Tells P b q)
    {f : Nat → Routine α} (hf : ∀ n, n ≤ 5 → q n → Spec (P ⊓ observed b n) (f n) M E) :
    Spec P (load (.global b .state) >>= f) M E := by
  refine .learn (a := .load (.global b .state)) (keeps_plain hp) (fun _ _ => trivial)
    (fun n => observed b n) (fun n => n ≤ 5 ∧ q n) ?_ fun n hn => hf n hn.left hn.right
  rintro s n s' hi h ⟨⟨rfl, hs⟩, hg⟩
  have ⟨old, known⟩ := hq s hi h
  have same : channels s' = channels s :=
    eq_of_frame (.same hs) (by rw [hg]; rfl) (by simp)
  refine ⟨?_, hi.valid _, known⟩
  show Observed _ _ (channels s')
  exact same ▸ Observed.of_eq old rfl

-- An exchange of the state word shows its value, whether it succeeds or not.
def after (new : Nat) : Except Nat Nat → Nat
  | .ok _    => new
  | .error n => n

theorem exchange_word {s s' : State} {w : Word} {cur new : Nat} {r : Except Nat Nat}
    (e : (machine plat).exec i (.compareExchange w cur new) s r s') : s'.fst.word w = after new r := by
  rcases e.left with ⟨_, rfl, h⟩ | ⟨_, rfl, h⟩ <;> rw [h]
  · simp [after, World.stored]
  · rfl

theorem exchangeWeak_word {s s' : State} {w : Word} {cur new : Nat} {r : Except Nat Nat}
    (e : (machine plat).exec i (.compareExchangeWeak w cur new) s r s') :
    s'.fst.word w = after new r := by
  rcases e.left with ⟨_, rfl, h⟩ | ⟨rfl, h⟩ <;> rw [h]
  · simp [after, World.stored]
  · rfl

theorem knows_persistent : (knows h x : Assertion (headerProtocol plat) i).Persistent :=
  fact_persistent

theorem observed_persistent {b : FileId} {n : Nat} :
    (observed b n : Assertion (headerProtocol plat) i).Persistent :=
  fact_persistent

theorem observed_after (hp : P.Persistent) {b : FileId} {q : Nat → Prop} (hq : Tells P b q)
    {s s' : State} {a : Act} {r : a.Ret} (hi : (channels s).Inv) (hs : P s)
    (ok : HeaderOk i a (channels s)) (e : (machine plat).exec i a s r s') {n : Nat}
    (hn : s'.fst.word (.global b .state) = n) : Observed b n (channels s') ∧ n ≤ 5 ∧ q n := by
  have hi' := hi.change (.of_exec ok e)
  have ⟨old, known⟩ := hq s' hi' (hp.stays hi ok e hs)
  exact ⟨.of_eq old hn, hn ▸ hi'.valid _, hn ▸ known⟩

theorem exchange_spec (hp : P.Persistent) {b : FileId} {q : Nat → Prop} (hq : Tells P b q) {cur new : Nat}
    {p : Routine (Except Nat Nat)}
    (he : p = compareExchange (.global b .state) cur new ∨ p = compareExchangeWeak (.global b .state) cur new)
    (fwd : Forward (.global b .state) cur new) {f : Except Nat Nat → Routine α}
    (hf : ∀ r, after new r ≤ 5 → q (after new r) → Spec (P ⊓ observed b (after new r)) (f r) M E) :
    Spec P (p >>= f) M E := by
  refine .bind (M := fun r => P ⊓ observed b (after new r) ⊓ .const (after new r ≤ 5 ∧ q (after new r))) ?_ fun r =>
    .assume fun hr => hf r hr.left hr.right
  have learnt {a : Act} {r : a.Ret} {s s' : State} {n : Nat} (e : (machine plat).exec i a s r s')
      (hn : s'.fst.word (.global b .state) = n) (hi : (channels s).Inv) (hs : P s) (ok : HeaderOk i a (channels s)) :
      (P ⊓ observed b n ⊓ .const (n ≤ 5 ∧ q n)) s' :=
    have ⟨known, rest⟩ := observed_after hp hq hi hs ok e hn
    ⟨⟨hp.stays hi ok e hs, known⟩, rest⟩
  rcases he with rfl | rfl
  case inl => exact .perform (fun _ _ _ => fwd) fun s r s' hi hs e => learnt e (exchange_word e) hi hs fwd
  case inr => exact .perform (fun _ _ _ => fwd) fun s r s' hi hs e => learnt e (exchangeWeak_word e) hi hs fwd

theorem cases_state {n : Nat} (hn : n ≠ 0) (h5 : n ≤ 5) : n = 1 ∨ n = 2 ∨ n = 3 ∨ n = 4 ∨ n = 5 := by
  omega

-- The state word is known to have passed `k`.
theorem terminal_spec (hp : P.Persistent) (hk : P ≤ knows h x) {k : Nat} (ht : P ≤ atLeast x.base k) :
    Spec P (SharedChannel.terminal h) (fun _ => P ⊓ .const (k < 4))
      (fun e => P ⊓ blames x.base e ⊓ .const e.Terminal) := by
  have hq : Tells P x.base fun n => n ≠ 0 ∧ k ≤ min n 4 := fun s hi h =>
    ⟨(hk s hi h).old, (hk s hi h).ready, (ht s hi h).bound⟩
  refine getShared_spec hp hk (loadState_spec hp hq fun n h5 hn => ?_)
  · have bound : k ≤ min n 4 := hn.right
    rcases cases_state hn.left h5 with rfl | rfl | rfl | rfl | rfl
    case inr.inr.inr.inl => exact .throw fun _ _ h => ⟨⟨h.left, h.right.final (by decide)⟩, trivial⟩
    case inr.inr.inr.inr => exact .throw fun _ _ h => ⟨⟨h.left, h.right.final (by decide)⟩, trivial⟩
    all_goals exact .pure fun _ _ h => ⟨h.left, by show k < 4; omega⟩

theorem tryFinish_spec {t : ChannelState} (ht : t = .closed ∨ t = .peerDisconnected) (hp : P.Persistent)
    (hk : P ≤ knows h x) {n : Nat} (hn : n ≠ 0 ∧ n < 4) :
    Spec P (SharedChannel.tryFinish h x t n)
      (Sum.elim (fun n => P ⊓ observed x.base n ⊓ .const (n ≠ 0 ∧ n ≤ 5)) fun _ => P ⊓ atLeast x.base 4)
      (fun _ => .const False) := by
  have up : 4 ≤ t.toU32 ∧ t.toU32 ≤ 5 := by rcases ht with rfl | rfl <;> decide
  refine exchange_spec hp (tells_of_knows hk) (.inr rfl) ⟨hn.left, hn.right, by omega, up.right⟩ fun r h5 h0 => ?_
  cases r
  case error n => exact .pure fun _ _ h => ⟨h, h0, h5⟩
  case ok =>
    refine pass_plain (hp.inf observed_persistent) (signals_plain wakeAll_signals) fun _ =>
      .pure fun _ _ h => ⟨h.left, ?_⟩
    have reached := h.right.atLeast
    exact ⟨reached.old, Nat.le_trans (Nat.le_min.mpr ⟨up.left, Nat.le_refl 4⟩) reached.bound⟩

theorem finish_spec {t : ChannelState} (ht : t = .closed ∨ t = .peerDisconnected) (hp : P.Persistent)
    (hk : P ≤ knows h x) :
    Spec P (SharedChannel.finish h t) (fun _ => P ⊓ atLeast x.base 4) (fun _ => .const False) := by
  refine getShared_spec hp hk (loadState_spec hp (tells_of_knows hk) fun n h5 h0 => ?_)
  refine .loop (fun n => P ⊓ observed x.base n ⊓ .const (n ≠ 0 ∧ n ≤ 5)) ?_ fun n => .assume fun hn => ?_
  · exact fun _ _ h => ⟨h, h0, h5⟩
  · have attempt (h4 : n < 4) := Spec.pre (Q := P ⊓ observed x.base n)
      (tryFinish_spec ht hp hk ⟨hn.left, h4⟩) fun _ _ h => h.left
    rcases cases_state hn.left hn.right with rfl | rfl | rfl | rfl | rfl
    · exact attempt (by decide)
    · exact attempt (by decide)
    · exact attempt (by decide)
    · exact .pure fun _ _ h => ⟨h.left, h.right.atLeast⟩
    · exact .pure fun _ _ h => ⟨h.left, h.right.atLeast⟩

-- `finish`, and then the rest.
theorem finish_then {t : ChannelState} (ht : t = .closed ∨ t = .peerDisconnected) (hp : P.Persistent)
    (hk : P ≤ knows h x) {f : Unit → Routine α} (hf : Spec (P ⊓ atLeast x.base 4) (f ()) M E) :
    Spec P (SharedChannel.finish h t >>= f) M E :=
  .bind ((finish_spec ht hp hk).post (fun _ => le_rfl) fun _ _ _ h => h.elim) fun _ => hf

theorem retire_spec (hp : P.Persistent) (hk : P ≤ knows h x) {n : Nat} (hn : n ≠ 0 ∧ n < 4) :
    Spec P (SharedChannel.retire h x n)
      (Sum.elim (fun _ => P) fun b => P ⊓ given (b = true) (atLeast x.base 3))
      (fun e => P ⊓ blames x.base e) := by
  refine plain hp (a := .now) (fun _ _ => trivial) fun t => ?_
  split
  case isTrue  => exact .pure fun _ _ h => ⟨h, nofun⟩
  case isFalse =>
    refine exchange_spec hp (tells_of_knows hk) (.inl rfl) ⟨hn.left, hn.right, hn.right, by decide⟩ fun r _ _ => ?_
    refine .pre (P := P) ?_ fun _ _ h => h.left
    cases r
    case error => exact .pure fun _ _ h => h
    case ok    => exact pass_plain hp (signals_plain wakeAll_signals) fun _ => .throw fun _ _ h => ⟨h, trivial⟩

theorem awaitConnected_spec (hp : P.Persistent) (hk : P ≤ knows h x) :
    Spec P (SharedChannel.awaitConnected h x)
      (fun b => P ⊓ given (b = true) (atLeast x.base 3)) (fun e => P ⊓ blames x.base e) := by
  refine .loop (fun _ => P) le_rfl fun _ => ?_
  refine loadState_spec hp (tells_of_knows hk) fun n h5 h0 => ?_
  have waiting (h4 : n ≠ 0 ∧ n < 4) := Spec.pre (Q := P ⊓ observed x.base n) (retire_spec hp hk h4)
    fun _ _ h => h.left
  rcases cases_state h0 h5 with rfl | rfl | rfl | rfl | rfl
  · exact waiting (by decide)
  · exact waiting (by decide)
  · exact .pure fun _ _ h => ⟨h.left, fun _ => h.right.atLeast⟩
  · exact .throw fun _ _ h => ⟨h.left, h.right.final (by decide)⟩
  · exact .throw fun _ _ h => ⟨h.left, h.right.final (by decide)⟩

-- The observer of processes.

theorem blames_of_not_terminal {b : FileId} {e : Error} (h : ¬ e.Terminal) {v : Channels} : Blames b e v := by
  cases e
  case channelClosed    => exact absurd trivial h
  case peerDisconnected => exact absurd trivial h
  all_goals trivial

theorem le_blames {e : Error} (he : ¬ e.Terminal) : P ≤ P ⊓ blames x.base e :=
  fun _ _ h => ⟨h, blames_of_not_terminal he⟩

theorem observe_spec (hp : P.Persistent) (hk : P ≤ knows h x) {peer : ProcessIdentity} {ms : Nat} :
    Spec P (SharedChannel.observe h peer ms) (fun _ => P) (fun e => P ⊓ blames x.base e) := by
  refine .pass (keeps_plain hp) (reads_plain isAlive_reads) (fun _ h => le_blames h.left) fun alive => ?_
  refine .bind (M := fun _ => P) ?_ fun _ => ?_
  · cases alive
    case true  => exact .pure le_rfl
    case false => exact (finish_spec (.inr rfl) hp hk).post (fun _ _ _ h => h.left) fun _ _ _ h => h.elim
  · exact perform_plain hp fun _ _ => by trivial

-- The section that holds the lock of the observer.
theorem probe_spec (hp : P.Persistent) (hk : P ≤ knows h x) {ms : Nat} :
    Spec P (SharedChannel.probe h x ms) (fun _ => P) (fun e => P ⊓ blames x.base e) := by
  refine plain hp (fun _ _ => by trivial) fun next => ?_
  split
  case isTrue => exact .pure le_rfl
  case isFalse =>
    have zero : P ≤ atLeast x.base 0 := fun s hi h => ⟨(hk s hi h).old, Nat.zero_le _⟩
    refine .bind ((terminal_spec hp hk zero).post (fun _ _ _ h => h.left) fun _ _ _ h => h.left) fun _ => ?_
    refine plain hp (fun _ _ => by trivial) fun peer => ?_
    cases peer
    case some peer => exact .bind (observe_spec hp hk) fun _ => .pure le_rfl
    case none =>
      refine pass_plain hp (reads_plain peerIdentity_reads) fun identity => ?_
      refine .handle (only_plain hp (reads_plain open_reads)) (fun _ => ?_) fun e => .assume fun he => ?_
      · exact plain hp (fun _ _ => by trivial) fun _ => .bind (observe_spec hp hk) fun _ => .pure le_rfl
      · cases e
        case channelClosed    => exact absurd rfl he.left
        case peerDisconnected =>
          refine finish_then (.inr rfl) hp hk (.bind (M := fun _ => P) ?_ fun _ => .pure le_rfl)
          refine (terminal_spec (hp.inf fact_persistent) (fun s hi h => hk s hi h.left) (k := 4) ?_).post ?_ ?_
          · exact fun _ _ h => h.right
          · exact fun _ _ _ h => h.left.left
          · exact fun _ _ _ h => ⟨h.left.left.left, h.left.right⟩
        all_goals exact .throw (le_blames id)

theorem locked_spec (hp : P.Persistent) {section_ : Routine Bool}
    (hs : Spec P section_ (fun _ => P) (fun e => P ⊓ blames x.base e)) :
    Spec P (SharedChannel.locked h section_) (fun _ => P) (fun e => P ⊓ blames x.base e) := by
  refine .learn (a := .lockPeer h) (keeps_plain hp) (fun _ _ => trivial) (fun _ => ⊤)
    (fun r => ∀ e, r = .error e → ¬ e.Terminal) ?_ fun r hr => ?_
  · rintro s r s' _ _ ⟨⟨_, e⟩, _⟩
    refine ⟨trivial, fun e' he => ?_⟩
    split at e
    all_goals obtain ⟨rfl, _⟩ := e; cases he
    exact id
  · refine .bind (M := fun _ => P) (.ofExcept ?_) fun _ => ?_
    · cases r
      case ok      => exact fun _ _ h => h.left
      case error e => exact fun _ _ h => ⟨h.left, blames_of_not_terminal (hr e rfl)⟩
    · refine .handle hs (fun r => plain hp (fun _ _ => by trivial) fun _ => ?_) fun e => ?_
      · exact .ofExcept le_rfl
      · exact plain (hp.inf fact_persistent) (fun _ _ => by trivial) fun _ => .ofExcept le_rfl

theorem checkReady_spec (hp : P.Persistent) (hk : P ≤ knows h x) :
    Spec P (SharedChannel.checkReady h) (fun b => P ⊓ given (b = true) (atLeast x.base 3))
      (fun e => P ⊓ blames x.base e) := by
  refine getShared_spec hp hk (.bind (awaitConnected_spec hp hk) fun ready => ?_)
  cases ready
  case false => exact .pure le_rfl
  case true =>
    have hp' : (P ⊓ atLeast x.base 3).Persistent := hp.inf fact_persistent
    have hk' : P ⊓ atLeast x.base 3 ≤ knows h x := fun s hi h => hk s hi h.left
    have last : Spec (P ⊓ atLeast x.base 3) (do SharedChannel.terminal h; Pure.pure true)
        (fun b => P ⊓ given (b = true) (atLeast x.base 3)) (fun e => P ⊓ blames x.base e) := by
      refine .bind (M := fun _ => P ⊓ atLeast x.base 3) ?_ fun _ => .pure fun _ _ h => ⟨h.left, fun _ => h.right⟩
      refine (terminal_spec hp' hk' fun _ _ h => h.right).post ?_ ?_
      · exact fun _ _ _ h => h.left
      · exact fun _ _ _ h => ⟨h.left.left.left, h.left.right⟩
    refine .pre (P := P ⊓ atLeast x.base 3) ?_ fun _ _ h => ⟨h.left, h.right rfl⟩
    refine plain hp' (fun _ _ => by trivial) fun t => plain hp' (fun _ _ => by trivial) fun next => ?_
    split
    case isFalse => exact last
    case isTrue =>
      refine .bind ((locked_spec hp' (probe_spec hp' hk')).post (fun _ => le_rfl) ?_) fun probed => ?_
      · exact fun _ _ _ h => ⟨h.left.left, h.right⟩
      · cases probed
        case true  => exact .pure fun _ _ h => ⟨h.left, fun _ => h.right⟩
        case false => exact last

theorem close_spec (hp : P.Persistent) (hk : P ≤ knows h x) :
    Spec P (SharedChannel.close h) (fun _ => P ⊓ final x.base 4)
      (fun e => P ⊓ final x.base 5 ⊓ .const (e = .peerDisconnected)) := by
  refine finish_then (.inl rfl) hp hk ?_
  have hp' : (P ⊓ atLeast x.base 4).Persistent := hp.inf fact_persistent
  refine .handle (terminal_spec hp' (fun s hi h => hk s hi h.left) fun _ _ h => h.right) ?_ ?_
  · exact fun _ => .assume fun h => absurd h (Nat.lt_irrefl 4)
  · refine fun e => .assume fun he => ?_
    cases e
    case channelClosed    => exact .pure fun _ _ h => ⟨h.left.left, h.right⟩
    case peerDisconnected => exact .throw fun _ _ h => ⟨⟨h.left.left, h.right⟩, rfl⟩
    all_goals exact he.elim

end
end Header
