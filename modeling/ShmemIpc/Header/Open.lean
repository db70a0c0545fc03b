import ShmemIpc.Header.Shared
import ShmemIpc.Code.Channel

-- Creating, claiming and opening a channel.
namespace Header

open Assertion Channels Code Channel Effects

-- Nobody but the creator touches the state word before it is published.
structure Creating (i : ThreadId) (b : FileId) (v : Channels) : Prop where
  old  : b < v.files
  mine : v.creator b = i
  at_  : v.state b = 0

theorem Creating.change {i j : ThreadId} {a : Act} {b : FileId} {v v' : Channels} (h : Creating i b v)
    (e : Change j a v v') (hj : j ≠ i ∨ Plain a) : Creating i b v' := by
  cases e
  case publish c note act mine _ _ =>
    have hc : b ≠ c := by
      rintro rfl
      rcases hj with hj | hj
      · exact hj (mine.symm.trans h.mine)
      · subst act
        have ⟨_, _, _, at_⟩ := hj j { v with state := fun _ => 1 }
        exact absurd at_ Nat.one_ne_zero
    exact ⟨h.old, h.mine, by simpa [hc] using h.at_⟩
  case advance c _ ready _ _ _ =>
    have hc : b ≠ c := fun hc => ready (hc ▸ h.at_)
    exact ⟨h.old, h.mine, by simpa [hc] using h.at_⟩
  case create =>
    have hne : b ≠ v.files := Nat.ne_of_lt h.old
    exact ⟨Nat.lt_succ_of_lt h.old, by simpa [hne] using h.mine, by simpa [hne] using h.at_⟩
  all_goals exact ⟨h.old, h.mine, h.at_⟩

-- What a call of `create` or `open` answers with.
def Opened (ch : Channel) (v : Channels) : Prop :=
  Built ch.shared v ∧ ∃ x, Knows ch.shared x v

theorem Opened.stays {ch : Channel} : Stays (Opened ch) :=
  fun hi c h => ⟨Built.stays hi c h.left, h.right.imp fun _ k => Knows.stays hi c k⟩

section
variable {plat : Platform} {i : ThreadId}

def creating (b : FileId) : Assertion (headerProtocol plat) i where
  holds s          := Creating i b (channels s)
  stable hj _ ho e := fun h => h.change (.of_exec ho e) (.inl hj)

def built (h : Handle) : Assertion (headerProtocol plat) i :=
  fact (Built h) Built.stays

def opened (ch : Channel) : Assertion (headerProtocol plat) i :=
  fact (Opened ch) Opened.stays

theorem creating_keeps {b : FileId} : (creating b : Assertion (headerProtocol plat) i).Keeps Plain where
  ok ha _ _       := ha _ _
  kept ha _ h e := h.change (.of_exec (ha _ _) e) (.inr ha)

variable {α : Type} {P : Assertion (headerProtocol plat) i} {M : α → Assertion (headerProtocol plat) i}
variable {E : Error → Assertion (headerProtocol plat) i} {h : Handle} {x : SharedChannel}

theorem orFail_plain {r : Except IoError α} : Code.Only Plain (¬ Error.Terminal ·) (orFail r) := by
  cases r
  case ok    => exact .pure
  case error => exact .throw id

theorem initRingHeader_plain {b : FileId} {hdr : Nat} {F : Error → Prop} :
    Code.Only Plain F (initRingHeader b hdr) :=
  .act (fun _ _ => trivial) fun _ => .act (fun _ _ => trivial) fun _ =>
  .act (fun _ _ => trivial) fun _ => .act (fun _ _ => trivial) fun _ =>
  .act (fun _ _ => trivial) fun _ => .perform (fun _ _ => trivial)

theorem initHeader_plain {b : FileId} {config : ChannelConfig} {identity : ProcessIdentity} {key : Nat}
    {F : Error → Prop} : Code.Only Plain F (initHeader b config identity key) :=
  .act (fun _ _ => trivial) fun _ => .act (fun _ _ => trivial) fun _ =>
  .act (fun _ _ => trivial) fun _ => .act (fun _ _ => trivial) fun _ =>
  .act (fun _ _ => trivial) fun _ => .act (fun _ _ => trivial) fun _ =>
  .act (fun _ _ => trivial) fun _ => .act (fun _ _ => trivial) fun _ =>
  .bind initRingHeader_plain fun _ => initRingHeader_plain

-- After `newShared` the handle is known, and the halves of its channel have not been built.
theorem newShared_spec (hp : P.Persistent) {peer : Option ProcessIdentity} (ho : P ≤ atLeast x.base 1)
    {f : Handle → Routine α} (hf : ∀ h, Spec (P ⊓ knows h x) (f h) M E) :
    Spec P (newShared x peer >>= f) M E := by
  have ok : ∀ s, (channels s).Inv → P s → HeaderOk i (.newShared x peer) (channels s) := by
    intro s hi hs
    have reached := ho s hi hs
    have bound := reached.bound
    exact ⟨reached.old, by omega⟩
  refine .act (fun h => P ⊓ knows h x) (fun s => ok s) ?_ hf
  rintro s h s' hi hs e
  refine ⟨hp.stays (a := .newShared x peer) hi (ok s hi hs) e hs, ?_⟩
  have ⟨old, ready⟩ := ok s hi hs
  obtain ⟨⟨rfl, hs'⟩, hg⟩ := e
  refine ⟨?_, fun y hy => ?_, ?_, ?_⟩
  · simp [channels, hs']
  · simpa [channels, hs', eq_comm] using hy
  · simpa [channels, hs'] using old
  · simpa [channels, hs'] using ready

theorem fromShared_spec (hp : P.Persistent) {config : ChannelConfig} :
    Spec P (fromShared h config) (fun ch => P ⊓ built h ⊓ .const (ch.shared = h)) E := by
  refine plain hp (fun _ _ => by trivial) fun self => ?_
  refine .keep (a := .setSender h _) (keeps_plain hp) (fun _ _ => newSender_shared)
    (fun _ => fact (fun v => v.senderOf h = h) senderOf_stays) ?_ fun _ => ?_
  · rintro s _ s' _ _ ⟨e, _⟩
    have hs : s'.fst = { s.fst with sender := Function.update s.fst.sender h (newSender h self config.ringSize) } := e
    simp [channels, hs]
  refine .keep (a := .setReceiver h _) (keeps_plain (hp.inf fact_persistent)) (fun _ _ => newReceiver_shared)
    (fun _ => fact (fun v => v.receiverOf h = h) receiverOf_stays) ?_ fun _ => ?_
  · rintro s _ s' _ _ ⟨e, _⟩
    have hs : s'.fst =
        { s.fst with receiver := Function.update s.fst.receiver h (newReceiver h self config.ringSize) } := e
    simp [channels, hs]
  exact .pure fun _ _ hs => ⟨⟨hs.left.left, hs.left.right, hs.right⟩, rfl⟩

theorem claim_spec (hp : P.Persistent) {b : FileId} (ho : P ≤ atLeast b 0) {identity : ProcessIdentity} :
    Spec P (claim b identity) (fun _ => P ⊓ atLeast b 3) (fun _ => ⊤) := by
  have tells : Tells P b fun _ => True := fun s hi hs => ⟨(ho s hi hs).old, trivial⟩
  refine exchange_spec hp tells (.inl rfl) ⟨by decide, by decide, by decide, by decide⟩ fun r _ _ => ?_
  refine .pre (P := P) ?_ fun _ _ hs => hs.left
  cases r
  case error => exact .throw fun _ _ _ => trivial
  case ok =>
    refine plain hp (fun _ _ => by trivial) fun _ => plain hp (fun _ _ => by trivial) fun _ => ?_
    refine exchange_spec hp tells (.inl rfl) ⟨by decide, by decide, by decide, by decide⟩ fun r _ _ => ?_
    cases r
    case error => exact .throw fun _ _ _ => trivial
    case ok    => exact .pure fun _ _ hs => ⟨hs.left, hs.right.atLeast⟩

theorem validateHeader_plain {b : FileId} {n : Nat} {config : ChannelConfig} :
    Code.Only Plain (fun _ => True) (validateHeader b n config) := by
  refine .act (fun _ _ => trivial) fun magic => ?_
  split
  case isTrue => exact .throw trivial
  refine .act (fun _ _ => trivial) fun version => ?_
  split
  case isTrue => exact .throw trivial
  refine .act (fun _ _ => trivial) fun size => ?_
  split
  case isTrue => exact .throw trivial
  exact .act (fun _ _ => trivial) fun _ => .act (fun _ _ => trivial) fun _ => .pure

-- Code that may fail with an error of which nothing is said.
theorem try_plain {β : Type} (hp : P.Persistent) {p : Routine β} {F : Error → Prop}
    (h : Code.Only Plain F p) {f : β → Routine α} (hf : ∀ y, Spec P (f y) M (fun _ => ⊤)) :
    Spec P (p >>= f) M (fun _ => ⊤) :=
  .pass (keeps_plain hp) h (fun _ _ _ _ _ => trivial) hf

theorem openFile_spec (hp : P.Persistent) {p : String} {f : Except IoError FileId → Routine α}
    (ok : ∀ b, Spec (P ⊓ atLeast b 0) (f (.ok b)) M E) (error : ∀ e, Spec P (f (.error e)) M E) :
    Spec P (openFile p >>= f) M E := by
  refine .act (fun r => match r with | .ok b => P ⊓ atLeast b 0 | .error _ => P) (fun _ _ _ => trivial) ?_ ?_
  · rintro s r s' hi hs e
    have stays : P s' := hp.stays (a := .openFile p) hi trivial e hs
    cases r
    case error => exact stays
    case ok b =>
      obtain ⟨⟨hs', hb⟩, hg⟩ := e
      refine ⟨stays, ?_, Nat.zero_le _⟩
      cases hpath : s.fst.path p <;> simp only [hpath] at hb
      case some => simpa [channels, hs', hb] using hi.linked p _ hpath
  · rintro (_ | b)
    · exact error _
    · exact ok b

-- The rest of `try_open`, when the channel waits for its client.
theorem tryOpen_spec {name : String} {config : ChannelConfig} {identity : ProcessIdentity} :
    Spec (⊤ : Assertion (headerProtocol plat) i) (tryOpen name config identity)
      (fun o => match o with | some ch => opened ch | none => ⊤) (fun _ => ⊤) := by
  have top : (⊤ : Assertion (headerProtocol plat) i).Persistent := .top
  refine openFile_spec top (fun file => ?_) fun e => ?_
  case refine_2 =>
    simp only
    split
    case isTrue  => exact .pure fun _ _ _ => trivial
    case isFalse => exact .throw fun _ _ _ => trivial
  case refine_1 =>
    refine .pre (P := atLeast file 0) ?_ fun _ _ hs => hs.right
    have hp : (atLeast file 0 : Assertion (headerProtocol plat) i).Persistent := fact_persistent
    refine plain hp (fun _ _ => by trivial) fun len => try_plain hp orFail_plain fun len => ?_
    split
    case isTrue  => exact .pure fun _ _ _ => trivial
    refine plain hp (fun _ _ => by trivial) fun _ => try_plain hp orFail_plain fun mapLen => ?_
    have tells : Tells (atLeast file 0 : Assertion (headerProtocol plat) i) file fun _ => True :=
      fun _ _ hs => ⟨hs.old, trivial⟩
    refine loadState_spec hp tells fun n h5 _ => .pre (P := atLeast file 0) ?_ fun _ _ hs => hs.left
    have h5 : n = 0 ∨ n = 1 ∨ n = 2 ∨ n = 3 ∨ n = 4 ∨ n = 5 := by omega
    rcases h5 with rfl | rfl | rfl | rfl | rfl | rfl
    case inl => exact .pure fun _ _ _ => trivial
    case inr.inl =>
      refine try_plain hp validateHeader_plain fun server => ?_
      refine try_plain hp (reads_plain open_reads) fun _ => plain hp (fun _ _ => by trivial) fun _ => ?_
      refine plain hp (fun _ _ => by trivial) fun _ => try_plain hp orFail_plain fun _ => ?_
      refine .bind (claim_spec hp le_rfl) fun _ => ?_
      have hp' : (atLeast file 0 ⊓ atLeast file 3 : Assertion (headerProtocol plat) i).Persistent :=
        fact_persistent.inf fact_persistent
      refine plain hp' (fun _ _ => by trivial) fun started => ?_
      have ready : atLeast file 0 ⊓ atLeast file 3 ≤ (atLeast file 1 : Assertion (headerProtocol plat) i) :=
        fun _ _ hs => ⟨hs.right.old, Nat.le_trans (by decide) hs.right.bound⟩
      refine newShared_spec hp' ready fun h => ?_
      have hp'' := hp'.inf (knows_persistent (h := h) (x := ⟨.client, file, name, started, config.connectTimeout⟩))
      refine pass_plain hp'' (signals_plain wakeAll_signals) fun _ => .bind (fromShared_spec hp'') fun ch => .pure ?_
      rintro _ _ ⟨⟨⟨_, known⟩, halves⟩, rfl⟩
      exact ⟨halves, _, known⟩
    all_goals exact .throw fun _ _ _ => trivial

-- A new file, on which nobody else acts yet.
theorem createNew_spec {p : String} {f : Except IoError FileId → Routine α}
    (ok : ∀ b, Spec (creating b) (f (.ok b)) M E) (error : ∀ e, Spec ⊤ (f (.error e)) M E) :
    Spec (⊤ : Assertion (headerProtocol plat) i) (createNew p >>= f) M E := by
  refine .act (fun r => match r with | .ok b => creating b | .error _ => ⊤) (fun _ _ _ => trivial) ?_ ?_
  · rintro s r s' hi hs ⟨e, hg⟩
    rcases e with ⟨_, rfl, hs'⟩ | ⟨⟨_⟩, _⟩
    case inr => trivial
    case inl =>
      refine ⟨?_, ?_, ?_⟩ <;> simp [channels, hs', hg, World.created, History.record, Registry.record]
  · rintro (_ | b)
    · exact error _
    · exact ok b

-- The publication of a new channel.
theorem publish_spec {b : FileId} {f : Unit → Routine α} (hf : Spec (atLeast b 1) (f ()) M E) :
    Spec (creating b : Assertion (headerProtocol plat) i)
      (store (.global b .state) ChannelState.serverReady.toU32 >>= f) M E := by
  refine .act (fun _ => atLeast b 1) (fun _ _ hs => ⟨rfl, hs.mine, hs.old, hs.at_⟩) ?_ fun _ => hf
  rintro s _ s' _ hs ⟨e, _⟩
  have hs' : s'.fst = s.fst.stored (.global b .state) 1 := e
  refine ⟨?_, ?_⟩
  · simpa [channels, hs', World.stored] using hs.old
  · simp [channels, hs', World.stored]

theorem createWithConfig_spec {name : String} {config : ChannelConfig} :
    Spec (⊤ : Assertion (headerProtocol plat) i) (createWithConfig name config) opened (fun _ => ⊤) := by
  have top : (⊤ : Assertion (headerProtocol plat) i).Persistent := .top
  have fails {β : Type} {p : Routine β} {F : Error → Prop} {b : FileId} (hp : Code.Only Plain F p)
      {f : β → Routine Channel} (hf : ∀ y, Spec (creating b) (f y) opened (fun _ => ⊤)) :
      Spec (creating b : Assertion (headerProtocol plat) i) (p >>= f) opened (fun _ => ⊤) :=
    .pass creating_keeps hp (fun _ _ _ _ _ => trivial) hf
  refine .bind (.ofExcept (M := fun _ => ⊤) ?_) fun _ => ?_
  · cases validateConfig config <;> exact fun _ _ _ => trivial
  refine try_plain top (reads_plain currentIdentity_reads) fun identity =>
    plain top (fun _ _ => by trivial) fun key => ?_
  refine plain top (fun _ _ => by trivial) fun _ => try_plain top orFail_plain fun _ => ?_
  refine createNew_spec (fun file => ?_) fun e => ?_
  case refine_2 => exact .bind (M := fun _ => .const False) (.throw fun _ _ _ => trivial) fun _ => .absurd
  case refine_1 =>
    refine .bind (M := fun b => creating b ⊓ .const (b = file)) (.pure fun _ _ hs => ⟨hs, rfl⟩) fun b => .assume ?_
    rintro rfl
    refine .skip creating_keeps (fun _ _ => by trivial) fun _ => fails orFail_plain fun _ => ?_
    refine .skip creating_keeps (fun _ _ => by trivial) fun _ => fails orFail_plain fun _ => ?_
    refine fails (F := fun _ => False) initHeader_plain fun _ => publish_spec ?_
    have hp : (atLeast b 1 : Assertion (headerProtocol plat) i).Persistent := fact_persistent
    refine plain hp (fun _ _ => by trivial) fun started => newShared_spec hp Assertion.le_rfl fun h => ?_
    refine (fromShared_spec (hp.inf knows_persistent)).post ?_ fun _ => le_rfl
    rintro ch _ _ ⟨⟨⟨_, known⟩, halves⟩, rfl⟩
    exact ⟨halves, _, known⟩

theorem openWithConfig_spec {name : String} {config : ChannelConfig} :
    Spec (⊤ : Assertion (headerProtocol plat) i) (openWithConfig name config) opened (fun _ => ⊤) := by
  have top : (⊤ : Assertion (headerProtocol plat) i).Persistent := .top
  refine .bind (.ofExcept (M := fun _ => ⊤) ?_) fun _ => ?_
  · cases validateConfig config <;> exact fun _ _ _ => trivial
  refine try_plain top (reads_plain currentIdentity_reads) fun identity => plain top (fun _ _ => by trivial) fun t => ?_
  refine .loop (fun _ => ⊤) le_rfl fun _ => .bind tryOpen_spec fun o => ?_
  cases o
  case some ch => exact .pure le_rfl
  case none =>
    refine plain top (fun _ _ => by trivial) fun now => ?_
    split
    case isTrue  => exact .throw fun _ _ _ => trivial
    case isFalse => exact .pure fun _ _ _ => trivial

end
end Header
