import ShmemIpc.Library.Spec
import ShmemIpc.Execution.Frame
import ShmemIpc.Execution.History

open Function

-- The files, their channel states, and the handles of the channels in them.
structure Channels where
  path       : String → Option FileId
  state      : FileId → Nat
  files      : FileId
  shared     : Handle → Option SharedChannel
  handles    : Handle
  senderOf   : Handle → Handle
  receiverOf : Handle → Handle
  creator    : FileId → ThreadId

def channels (s : State) : Channels where
  path         := s.fst.path
  state f      := s.fst.word (.global f .state)
  files        := s.fst.files
  shared       := s.fst.shared
  handles      := s.fst.handles
  senderOf h   := (s.fst.sender h).shared
  receiverOf h := (s.fst.receiver h).shared
  creator      := s.snd.registry.creator

namespace Channels

structure Inv (v : Channels) : Prop where
  linked : ∀ p f, v.path p = some f → f < v.files
  valid  : ∀ f, v.state f ≤ 5
  unused : ∀ h, v.handles ≤ h → v.shared h = none
  ready  : ∀ h x, v.shared h = some x → x.base < v.files ∧ v.state x.base ≠ 0

-- All that an action can do to the channels.
inductive Change (i : ThreadId) (a : Act) (v : Channels) : Channels → Prop
  | keep : Change i a v v
  | publish {b note} (act : a = .store (.global b .state) 1 note) (mine : v.creator b = i)
      (old : b < v.files) (at_ : v.state b = 0) : Change i a v { v with state := update v.state b 1 }
  | advance {b n} (ready : v.state b ≠ 0) (open_ : v.state b < 4) (up : v.state b < n)
      (valid : n ≤ 5) : Change i a v { v with state := update v.state b n }
  | attach {x : SharedChannel} (old : x.base < v.files) (ready : v.state x.base ≠ 0) :
      Change i a v { v with shared := update v.shared v.handles (some x), handles := v.handles + 1 }
  | detach {h} : Change i a v { v with shared := update v.shared h none }
  | create {p} :
      Change i a v { v with
        path    := update v.path p (some v.files)
        state   := update v.state v.files 0
        files   := v.files + 1
        creator := update v.creator v.files i }
  | unlink {p} : Change i a v { v with path := update v.path p none }
  | send {h} : Change i a v { v with senderOf := update v.senderOf h h }
  | receive {h} : Change i a v { v with receiverOf := update v.receiverOf h h }

end Channels

-- A transition of a channel state goes forward, from a state that is not terminal.
def Forward (w : Word) (cur new : Nat) : Prop :=
  match w with
  | .global _ .state => cur ≠ 0 ∧ cur < 4 ∧ cur < new ∧ new ≤ 5
  | _                => True

-- What an action needs, for it to change the channels in one of these ways.
def HeaderOk (i : ThreadId) (a : Act) (v : Channels) : Prop :=
  match a with
  | .store (.global b .state) n _       => n = 1 ∧ v.creator b = i ∧ b < v.files ∧ v.state b = 0
  | .fetchAdd (.global _ .state)        => False
  | .compareExchange w cur new          => Forward w cur new
  | .compareExchangeWeak w cur new      => Forward w cur new
  | .newShared x _                      => x.base < v.files ∧ v.state x.base ≠ 0
  | .setSender h x                      => x.shared = h
  | .setReceiver h x                    => x.shared = h
  | _                                   => True

namespace Channels

-- An access to a word other than the state words.
theorem stored_eq {s : World} {w : Word} {n : Nat} {g : History} (h : ∀ b, w ≠ .global b .state) :
    channels (s.stored w n, g) = channels (s, g) := by
  simp only [channels, World.stored, mk.injEq, and_true, true_and]
  funext f
  exact update_of_ne (h f).symm _ _

theorem stored_state {s : World} {b : FileId} {n : Nat} {g : History} :
    channels (s.stored (.global b .state) n, g) =
      { channels (s, g) with state := update (channels (s, g)).state b n } := by
  simp only [channels, World.stored, mk.injEq, and_true, true_and]
  funext f
  by_cases h : f = b
  case pos => simp [h]
  case neg => simp [h]

theorem eq_of_frame {parts : List Piece} {s s' : World} {g g' : History} (h : s.Frame parts s')
    (hg : g'.registry.creator = g.registry.creator)
    (hp : ∀ p ∈ [Piece.path, .word, .files, .shared, .handles, .sender, .receiver], p ∉ parts) :
    channels (s', g') = channels (s, g) := by
  simp only [List.forall_mem_cons] at hp
  obtain ⟨hp, hw, hf, hs, hh, ht, hr, -⟩ := hp
  simp only [channels, h.path hp, h.word hw, h.files hf, h.shared hs, h.handles hh, h.sender ht, h.receiver hr, hg]

theorem sender_eq {s : World} {g : History} {h : Handle} {x : RingSender} (hx : x.shared = h) :
    channels ({ s with sender := update s.sender h x }, g) =
      { channels (s, g) with senderOf := update (channels (s, g)).senderOf h h } := by
  simp only [channels, mk.injEq, and_true, true_and]
  funext k
  by_cases hk : k = h
  case pos => simp [hk, hx]
  case neg => simp [hk]

theorem receiver_eq {s : World} {g : History} {h : Handle} {x : RingReceiver} (hx : x.shared = h) :
    channels ({ s with receiver := update s.receiver h x }, g) =
      { channels (s, g) with receiverOf := update (channels (s, g)).receiverOf h h } := by
  simp only [channels, mk.injEq, and_true, true_and]
  funext k
  by_cases hk : k = h
  case pos => simp [hk, hx]
  case neg => simp [hk]

theorem created_eq {i : ThreadId} {s : World} {g : History} {p : String} :
    channels (s.created p s.files, g.record i (.createNew p) (.ok s.files) s) =
      { channels (s, g) with
        path    := update (channels (s, g)).path p (some s.files)
        state   := update (channels (s, g)).state s.files 0
        files   := s.files + 1
        creator := update (channels (s, g)).creator s.files i } := by
  simp only [channels, World.created, History.record, Registry.record, mk.injEq, and_true, true_and]
  funext f
  by_cases hf : f = s.files
  case pos => simp [hf]
  case neg => simp [hf]

-- What a successful exchange does.
theorem Change.of_exchange {i : ThreadId} {a : Act} {s : World} {g g' : History} {w : Word} {cur new : Nat}
    (ok : Forward w cur new) (h : s.word w = cur)
    (hg : g'.registry.creator = g.registry.creator) :
    Change i a (channels (s, g)) (channels (s.stored w new, g')) := by
  have hc : channels (s.stored w new, g') = channels (s.stored w new, g) := by simp [channels, hg]
  rw [hc]
  by_cases hw : ∃ b, w = .global b .state
  case pos =>
    obtain ⟨b, rfl⟩ := hw
    obtain ⟨ready, open_, up, valid⟩ := ok
    subst h
    exact stored_state ▸ .advance ready open_ up valid
  case neg => exact stored_eq (fun b hb => hw ⟨b, hb⟩) ▸ .keep

theorem Change.of_exec {plat : Platform} {i : ThreadId} {a : Act} {s s' : State} {r : a.Ret}
    (ok : HeaderOk i a (channels s)) (e : (machine plat).exec i a s r s') :
    Change i a (channels s) (channels s') := by
  obtain ⟨s, g⟩ := s
  obtain ⟨s', g'⟩ := s'
  obtain ⟨e, hg⟩ := e
  simp only at hg
  have hc : (∀ p, a ≠ .createNew p) → g'.registry.creator = g.registry.creator :=
    hg ▸ Registry.record_creator
  have frame := World.frame e
  cases a
  case store w n note =>
    cases e
    subst hg
    by_cases hw : ∃ b, w = .global b .state
    case pos =>
      obtain ⟨b, rfl⟩ := hw
      obtain ⟨rfl, mine, old, at_⟩ := ok
      exact stored_state ▸ .publish rfl mine old at_
    case neg => exact stored_eq (fun b hb => hw ⟨b, hb⟩) ▸ .keep
  case fetchAdd w =>
    obtain ⟨_, rfl⟩ := e
    subst hg
    have hw : ∀ b, w ≠ .global b .state := fun b hb => by subst hb; exact ok
    exact stored_eq hw ▸ .keep
  case compareExchange w cur new =>
    rcases e with ⟨h, _, rfl⟩ | ⟨_, _, rfl⟩
    case inl => exact .of_exchange ok h (hc (by simp))
    case inr => exact eq_of_frame (.same rfl) (hc (by simp)) (by simp) ▸ .keep
  case compareExchangeWeak w cur new =>
    rcases e with ⟨h, _, rfl⟩ | ⟨_, rfl⟩
    case inl => exact .of_exchange ok h (hc (by simp))
    case inr => exact eq_of_frame (.same rfl) (hc (by simp)) (by simp) ▸ .keep
  case newShared x p =>
    obtain ⟨rfl, rfl⟩ := e
    subst hg
    exact .attach ok.left ok.right
  case freeShared h =>
    cases e
    subst hg
    exact .detach
  case setSender h x =>
    cases e
    subst hg
    exact sender_eq ok ▸ .send
  case setReceiver h x =>
    cases e
    subst hg
    exact receiver_eq ok ▸ .receive
  case createNew p =>
    rcases e with ⟨_, rfl, rfl⟩ | ⟨⟨_⟩, rfl⟩
    case inl => subst hg; exact created_eq ▸ .create
    case inr => exact eq_of_frame (.same rfl) (congrArg (·.registry.creator) hg) (by simp) ▸ .keep
  case removeFile p =>
    rcases e with ⟨_, _, rfl⟩ | ⟨_, rfl⟩
    case inl => subst hg; exact .unlink
    case inr => exact eq_of_frame (.same rfl) (hc (by simp)) (by simp) ▸ .keep
  all_goals exact eq_of_frame frame (hc (by simp)) (by simp [Act.parts]) ▸ .keep

theorem Inv.change {i : ThreadId} {a : Act} {v v' : Channels} (h : v.Inv) : Change i a v v' → v'.Inv
  | .keep => h
  | .publish (b := b) _ _ _ _ => {
      linked := h.linked
      valid f := by by_cases hf : f = b <;> simp [hf, h.valid f]
      unused := h.unused
      ready k x hk := by
        have ⟨old, ready⟩ := h.ready k x hk
        refine ⟨old, ?_⟩
        by_cases hb : x.base = b
        case pos => simp [hb]
        case neg => simpa [hb] using ready
    }
  | .advance (b := b) (n := n) ready open_ up valid => {
      linked := h.linked
      valid f := by by_cases hf : f = b <;> simp [hf, h.valid f, valid]
      unused := h.unused
      ready k x hk := by
        have ⟨old, ready⟩ := h.ready k x hk
        refine ⟨old, ?_⟩
        by_cases hb : x.base = b
        case pos => simp only [hb, update_self]; omega
        case neg => simpa [hb] using ready
    }
  | .attach (x := x) old ready => {
      linked := h.linked
      valid := h.valid
      unused k hk := by
        have hne : k ≠ v.handles := Nat.ne_of_gt hk
        simpa [hne] using h.unused k (Nat.le_of_lt hk)
      ready k y hk := by
        by_cases hne : k = v.handles
        case pos => simp only [hne, update_self, Option.some.injEq] at hk; exact hk ▸ ⟨old, ready⟩
        case neg => simp only [update_of_ne hne] at hk; exact h.ready k y hk
    }
  | .detach (h := k₀) => {
      linked := h.linked
      valid := h.valid
      unused k hk := by by_cases hne : k = k₀ <;> simp [hne, h.unused k hk]
      ready k y hk := by
        by_cases hne : k = k₀
        case pos => simp [hne] at hk
        case neg => simp only [update_of_ne hne] at hk; exact h.ready k y hk
    }
  | .create (p := p) => {
      linked q f hq := by
        by_cases hp : q = p
        case pos =>
          simp only [hp, update_self, Option.some.injEq] at hq
          exact hq ▸ Nat.lt_succ_self _
        case neg => exact Nat.lt_succ_of_lt (h.linked q f (by simpa [hp] using hq))
      valid f := by by_cases hf : f = v.files <;> simp [hf, h.valid f]
      unused := h.unused
      ready k x hk := by
        have ⟨old, ready⟩ := h.ready k x hk
        have hne : x.base ≠ v.files := Nat.ne_of_lt old
        simp [hne, ready, Nat.lt_succ_of_lt old]
    }
  | .unlink (p := p) => {
      linked q f hq := by
        by_cases hp : q = p
        case pos => simp [hp] at hq
        case neg => exact h.linked q f (by simpa [hp] using hq)
      valid  := h.valid
      unused := h.unused
      ready  := h.ready
    }
  | .send    => ⟨h.linked, h.valid, h.unused, h.ready⟩
  | .receive => ⟨h.linked, h.valid, h.unused, h.ready⟩

-- The facts that no thread makes false once they hold.
def Stays (P : Channels → Prop) : Prop :=
  ∀ {i a v v'}, v.Inv → Change i a v v' → P v → P v'

-- The handle `h` belongs to the channel `x`, or did before it was dropped.
structure Knows (h : Handle) (x : SharedChannel) (v : Channels) : Prop where
  used  : h < v.handles
  same  : ∀ y, v.shared h = some y → y = x
  old   : x.base < v.files
  ready : v.state x.base ≠ 0

structure Built (h : Handle) (v : Channels) : Prop where
  sender   : v.senderOf h = h
  receiver : v.receiverOf h = h

-- The progress of a channel. All terminal states count as 4.
structure AtLeast (b : FileId) (n : Nat) (v : Channels) : Prop where
  old   : b < v.files
  bound : n ≤ min (v.state b) 4

-- The terminal state of a channel.
structure Final (b : FileId) (n : Nat) (v : Channels) : Prop where
  old      : b < v.files
  terminal : 4 ≤ n
  at_      : v.state b = n

theorem Change.mono {i : ThreadId} {a : Act} {v v' : Channels} (e : Change i a v v') {b : FileId} (hb : b < v.files) :
    b < v'.files ∧ min (v.state b) 4 ≤ min (v'.state b) 4 := by
  cases e
  case publish c _ _ _ _ at_ =>
    refine ⟨hb, ?_⟩
    by_cases hc : b = c
    case pos => subst hc; simp [at_]
    case neg => simp [hc]
  case advance c new _ _ up _ =>
    refine ⟨hb, ?_⟩
    by_cases hc : b = c
    case pos => subst hc; simp only [update_self]; omega
    case neg => simp [hc]
  case create =>
    have hne : b ≠ v.files := Nat.ne_of_lt hb
    exact ⟨Nat.lt_succ_of_lt hb, by simp [hne]⟩
  all_goals exact ⟨hb, Nat.le_refl _⟩

theorem Change.terminal {i : ThreadId} {a : Act} {v v' : Channels} (e : Change i a v v') {b : FileId}
    (hb : b < v.files) (ht : 4 ≤ v.state b) : v'.state b = v.state b := by
  cases e
  case publish c _ _ _ _ at_ =>
    have hc : b ≠ c := fun h => by subst h; omega
    simp [hc]
  case advance c new _ open_ _ _ =>
    have hc : b ≠ c := fun h => by subst h; omega
    simp [hc]
  case create =>
    have hne : b ≠ v.files := Nat.ne_of_lt hb
    simp [hne]
  all_goals rfl

theorem AtLeast.stays {b : FileId} {n : Nat} : Stays (AtLeast b n) :=
  fun _ e h => ⟨(e.mono h.old).left, Nat.le_trans h.bound (e.mono h.old).right⟩

theorem Final.stays {b : FileId} {n : Nat} : Stays (Final b n) :=
  fun _ e h => ⟨(e.mono h.old).left, h.terminal,
    (e.terminal h.old (h.at_.symm ▸ h.terminal)).trans h.at_⟩

theorem Knows.stays {h : Handle} {x : SharedChannel} : Stays (Knows h x) := by
  intro i a v v' _ e k
  have ⟨old, up⟩ := e.mono k.old
  have ready : v'.state x.base ≠ 0 := by have := k.ready; omega
  cases e
  case attach =>
    have hne : h ≠ v.handles := Nat.ne_of_lt k.used
    exact ⟨Nat.lt_succ_of_lt k.used, fun y hy => k.same y (by simpa [hne] using hy), old, ready⟩
  case detach h' =>
    refine ⟨k.used, fun y hy => ?_, old, ready⟩
    by_cases hne : h = h'
    case pos => simp [hne] at hy
    case neg => exact k.same y (by simpa [hne] using hy)
  all_goals exact ⟨k.used, k.same, old, ready⟩

theorem senderOf_stays {h : Handle} : Stays fun v => v.senderOf h = h := by
  intro _ _ v _ _ e k
  cases e
  case send h' =>
    by_cases hne : h = h'
    case pos => simp [hne]
    case neg => simpa [hne] using k
  all_goals exact k

theorem receiverOf_stays {h : Handle} : Stays fun v => v.receiverOf h = h := by
  intro _ _ v _ _ e k
  cases e
  case receive h' =>
    by_cases hne : h = h'
    case pos => simp [hne]
    case neg => simpa [hne] using k
  all_goals exact k

theorem Built.stays {h : Handle} : Stays (Built h) :=
  fun hi e k => ⟨senderOf_stays hi e k.sender, receiverOf_stays hi e k.receiver⟩

end Channels

def headerProtocol (plat : Platform) : Protocol (machine plat) where
  inv s             := (channels s).Inv
  ok i a s          := HeaderOk i a (channels s)
  preserves hi ho e := hi.change (.of_exec ho e)

namespace Header

open Assertion Channels

variable {plat : Platform} {i : ThreadId}

-- A fact about the channels that stays, as an assertion.
def fact (P : Channels → Prop) (h : Stays P) : Assertion (headerProtocol plat) i :=
  .ofPersistent (fun s => P (channels s)) fun hi ho e => h hi (.of_exec ho e)

theorem fact_persistent {P : Channels → Prop} {h : Stays P} :
    (fact P h : Assertion (headerProtocol plat) i).Persistent :=
  ⟨fun hi ho e => h hi (.of_exec ho e)⟩

@[simp]
theorem fact_holds {P : Channels → Prop} {h : Stays P} {s : State} :
    (fact P h : Assertion (headerProtocol plat) i) s ↔ P (channels s) :=
  .rfl

end Header
