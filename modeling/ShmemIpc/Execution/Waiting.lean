import ShmemIpc.Library.Spec
import ShmemIpc.Execution.Effects

-- What a wait does, given what its condition does: the rules of `wait.rs` for any protocol.
namespace Waiting

open Assertion Code

-- The actions of a waiting thread, other than those of its condition.
def Waits (parked : Word) : Act → Prop
  | .store w _ note => w = parked ∧ note = .none
  | .load _ | .fence | .now | .waitOn .. | .resume => True
  | _ => False

variable {parked : Word} {F : Error → Prop}

theorem waitOnHandle_waits {h : WaitHandle} {w : Word} {e t : Nat} :
    Code.Only (Waits parked) F (waitOnHandle h w e t) :=
  .act trivial fun _ => .perform trivial

theorem waits_of_now {α : Type} {p : Routine α} (h : Code.Only (· = Act.now) F p) :
    Code.Only (Waits parked) F p :=
  h.weaken (by rintro _ rfl; trivial)

variable {ι σ : Type} {m : Machine ι Act Act.Ret σ} {π : Protocol m} {i : ι} {α : Type}
variable {P : Assertion π i} {Q : Option α → Assertion π i} {E : Error → Assertion π i}
variable {condition : Routine (Option α)} {handle : WaitHandle} {notify : Word} {deadline : Option Nat}

-- The condition is evaluated where `P` is known, and while its answer is `none`, `P` remains known.
structure Conditional (P : Assertion π i) (condition : Routine (Option α)) (Q : Option α → Assertion π i)
    (E : Error → Assertion π i) : Prop where
  spec  : Spec P condition Q E
  again : Q none ≤ P
  late  : Q none ≤ E .timedOut

theorem spin_spec (hc : Conditional P condition Q E) :
    (n : Nat) → Spec P (spin condition n) (fun | some v => Q (some v) | none => P) E
  | 0     => .pure le_rfl
  | n + 1 => by
    refine .bind hc.spec fun v => ?_
    cases v
    case some v => exact .pure le_rfl
    case none   => exact (spin_spec hc n).pre hc.again

theorem park_spec (hp : P.Keeps (Waits parked)) (hq : ∀ v, (Q v).Keeps (Waits parked))
    (he : ∀ e, (E e).Keeps (Waits parked)) (hc : Conditional P condition Q E) :
    Spec P (SpinThenWait.park handle notify parked deadline condition)
      (Sum.elim (fun _ => P) fun v => Q (some v)) E := by
  refine .skip hp (by trivial) fun snapshot => .bind hc.spec fun v => ?_
  cases v
  case some v => exact .pure le_rfl
  case none =>
    refine .pass (hq none) (waits_of_now Effects.remainingQuantum_now) (fun e h => h ▸ hc.late) fun remaining => ?_
    refine .pre ?_ hc.again
    refine .skip hp (by exact ⟨rfl, rfl⟩) fun _ => .skip hp (by trivial) fun _ =>
      .handle hc.spec (fun v => ?_) fun e => ?_
    · cases v
      case some v => exact .skip (hq _) (by exact ⟨rfl, rfl⟩) fun _ => .pure le_rfl
      case none =>
        refine .pre ?_ hc.again
        refine .pass (F := fun _ => False) hp waitOnHandle_waits nofun fun _ => ?_
        exact .skip hp (by exact ⟨rfl, rfl⟩) fun _ => .pure le_rfl
    · exact .skip (he e) (by exact ⟨rfl, rfl⟩) fun _ => .throw le_rfl

theorem turn_spec (hq : (Q none).Keeps (Waits parked)) (hc : Conditional P condition Q E) (n : Nat) :
    Spec P (SpinOnly.turn deadline condition n) (Sum.elim (fun _ => P) fun v => Q (some v)) E := by
  refine .bind hc.spec fun v => ?_
  cases v
  case some v => exact .pure le_rfl
  case none =>
    cases deadline
    case none => exact .pure hc.again
    case some d =>
      simp only
      split
      case isFalse => exact .pure hc.again
      case isTrue =>
        refine .skip hq (by trivial) fun t => ?_
        split
        case isTrue  => exact .throw hc.late
        case isFalse => exact .pure hc.again

theorem waitUntil_spec {wait : WaitStrategy} {timeout : Option Nat} (hp : P.Keeps (Waits parked))
    (hq : ∀ v, (Q v).Keeps (Waits parked)) (he : ∀ e, (E e).Keeps (Waits parked))
    (hc : Conditional P condition Q E) :
    Spec P (wait.waitUntil handle notify parked timeout condition) (fun v => Q (some v)) E := by
  cases wait
  case spinThenWait self =>
    refine .pass (F := fun _ => False) hp (waits_of_now Effects.deadlineOf_now) nofun fun deadline => ?_
    refine .bind (spin_spec hc _) fun v => ?_
    cases v
    case some v => exact .pure le_rfl
    case none   => exact .loop (fun _ => P) le_rfl fun _ => park_spec hp hq he hc
  case spinOnly =>
    refine .pass (F := fun _ => False) hp (waits_of_now Effects.deadlineOf_now) nofun fun deadline => ?_
    exact .loop (fun _ => P) le_rfl (turn_spec (hq none) hc)

end Waiting
