import Conduit.Proofs.Pipeline.Stages
import Mathlib.Logic.Function.Basic

/-!
Who holds the ends of a pipeline while its stages run and are closed one after another, and what
that says of the sides of its conduits: an end of a link is held by its one stage as long as that
stage has not given it up, and an end of the template is held throughout.
-/

namespace Conduit.Pipeline

variable {s₀ s s' t : System} {template : Context} {n j k : Nat} {e d : PortEnd}
  {left leftT : Nat → List PortEnd} {rest : List PortEnd}

theorem count_endsOf (ports : List Port) : (endsOf ports).count e = holdsOf e ports := by
  induction ports with
  | nil => rfl
  | cons p ports ih =>
    rw [holdsOf, ← ih, endsOf, List.flatMap_cons, List.count_append]
    simp only [Port.ends, Port.holds, List.count_cons, List.count_nil, beq_iff_eq, endsOf,
      eq_comm (a := e)]
    omega

def heldBy (left : Nat → List PortEnd) : Nat → PortEnd → Nat
  | 0, _ => 0
  | n + 1, e => heldBy left n e + (left n).count e

theorem heldBy_congr {left' : Nat → List PortEnd} (same : ∀ k < n, left' k = left k) :
    heldBy left' n e = heldBy left n e := by
  induction n with
  | zero => rfl
  | succ n ih =>
    rw [heldBy, heldBy, ih fun k lt => same k (by omega), same n (by omega)]

theorem heldBy_update (left : Nat → List PortEnd) (rest : List PortEnd) (e : PortEnd) (lt : k < n) :
    heldBy (Function.update left k rest) n e + (left k).count e =
    heldBy left n e + rest.count e := by
  induction n with
  | zero => exact absurd lt (Nat.not_lt_zero k)
  | succ n ih =>
    rw [heldBy, heldBy]
    by_cases last : k = n
    · subst last
      have others : heldBy (Function.update left k rest) k e = heldBy left k e :=
        heldBy_congr fun j lt => Function.update_of_ne (Nat.ne_of_lt lt) ..
      rw [others, Function.update_self]
      omega
    · rw [Function.update_of_ne (Ne.symm last)]
      have := ih (by omega)
      omega

theorem heldBy_eq_zero (none : ∀ k < n, (left k).count e = 0) : heldBy left n e = 0 := by
  induction n with
  | zero => rfl
  | succ n ih => rw [heldBy, ih fun k lt => none k (by omega), none n (by omega)]

theorem heldBy_single (lt : k < n) (others : ∀ j < n, j ≠ k → (left j).count e = 0) :
    heldBy left n e = (left k).count e := by
  have all := heldBy_update left [] e lt
  have none : heldBy (Function.update left k []) n e = 0 := by
    refine heldBy_eq_zero fun j ltj => ?_
    by_cases same : j = k
    · rw [same, Function.update_self]; rfl
    · rw [Function.update_of_ne same, others j ltj same]
  rw [none] at all
  simpa using all.symm

theorem count_le_heldBy (left : Nat → List PortEnd) (e : PortEnd) (lt : k < n) :
    (left k).count e ≤ heldBy left n e := by
  have all := heldBy_update left [] e lt
  rw [List.count_nil] at all
  omega

def stageEnds (s₀ : System) (template : Context) (n k : Nat) : List PortEnd :=
  endsOf (stageContext s₀ template n k).ports

theorem heldBy_stageEnds (s₀ : System) (template : Context) (n count : Nat) (e : PortEnd) :
    heldBy (stageEnds s₀ template n) count e =
      holdsOf e ((stageContexts s₀ template n 0 count).flatMap (·.ports)) := by
  induction count with
  | zero => rfl
  | succ count ih =>
    rw [heldBy, ih, stageEnds, count_endsOf, stageContexts, stageContexts, List.range'_1_concat,
      List.map_append, List.flatMap_append, holdsOf_append]
    simp

structure Accounts (s₀ : System) (template : Context) (n : Nat) (s : System)
    (left : Nat → List PortEnd) : Prop where
  kept : Kept s₀ s (n - 1) (heldBy left n)
  part : ∀ k < n, left k <:+ stageEnds s₀ template n k

theorem accounts_of_ready {scopes : Nat} (ready : Ready s₀ s scopes (n - 1) fun e =>
    holdsOf e ((stageContexts s₀ template n 0 n).flatMap (·.ports))) :
    Accounts s₀ template n s (stageEnds s₀ template n) where
  kept := { ready.kept with
    holders := fun e isOpen => by rw [heldBy_stageEnds]; exact ready.kept.holders e isOpen }
  part _ _ := List.suffix_rfl

namespace Accounts

theorem sameShape (accounts : Accounts s₀ template n s left) (same : s.SameShape s') :
    Accounts s₀ template n s' left :=
  { accounts with kept := accounts.kept.sameShape same }

section

variable (accounts : Accounts s₀ template n s left)
include accounts

theorem count_le (lt : k < n) : (left k).count e ≤ (stageEnds s₀ template n k).count e :=
  (accounts.part k lt).sublist.count_le e

variable (sound : template.Sound s₀)
include sound

theorem count_new (lt : k < n) (isOpen : e.isOpen) (new : s₀.holders e = 0) :
    (left k).count e ≤ (if 0 < k then (readingPort s₀ (k - 1)).holds e else 0) +
      if k + 1 < n then (writingPort s₀ k).holds e else 0 := by
  rw [← holdsOf_stageContext_new sound isOpen new, ← count_endsOf]
  exact accounts.count_le lt

theorem isLinkEnd (lt : k < n) (mem : e ∈ left k) (isOpen : e.isOpen) (new : s₀.holders e = 0) :
    IsLinkEnd s₀ (n - 1) e := by
  have some := List.count_pos_iff.2 mem
  have all := accounts.count_new sound lt isOpen new
  by_cases reading : 0 < k ∧ 0 < (readingPort s₀ (k - 1)).holds e
  · exact ⟨k - 1, by omega, .inr (holds_pos_iff.1 reading.2)⟩
  · refine ⟨k, ?_, .inl (holds_pos_iff.1 ?_)⟩ <;> grind

theorem release (lt : k < n) (first : left k = d :: rest) :
    Accounts s₀ template n (s.release d) (Function.update left k rest) where
  kept := by
    refine accounts.kept.release (fun e _ => ?_) fun isOpen new => ?_
    · have all := heldBy_update left rest e lt
      rw [first, List.count_cons] at all
      simp only [beq_iff_eq, eq_comm (a := d)] at all
      omega
    · exact accounts.isLinkEnd sound lt (first ▸ List.mem_cons_self) isOpen new
  part j ltj := by
    by_cases same : j = k
    · subst same
      rw [Function.update_self]
      exact (List.suffix_cons d rest).trans (first ▸ accounts.part j ltj)
    · rw [Function.update_of_ne same]
      exact accounts.part j ltj

/-! ### Ends of links -/

theorem holders_writing (lt : k + 1 < n) (mem : e ∈ (writingPort s₀ k).ends) :
    s.holders e = (left k).count e := by
  have isOpen : e.isOpen := by
    simp only [Port.ends, writingPort, List.mem_cons, List.not_mem_nil, or_false] at mem
    rcases mem with rfl | rfl <;> rfl
  have new : s₀.holders e = 0 := by
    simp only [Port.ends, writingPort, List.mem_cons, List.not_mem_nil, or_false] at mem
    rcases mem with rfl | rfl <;> simp [System.holders, linkChannel, linkWriter]
  rw [accounts.kept.holders e isOpen, new, Nat.zero_add]
  refine heldBy_single (by omega) fun j ltj differ => Nat.eq_zero_of_le_zero ?_
  refine Nat.le_trans (accounts.count_new sound ltj isOpen new) ?_
  simp only [Port.ends, writingPort, List.mem_cons, List.not_mem_nil, or_false] at mem
  rcases mem with rfl | rfl <;>
    simp [Port.holds, writingPort, readingPort, linkChannel, linkWriter, Ne.symm differ]

theorem holders_reading (lt : k + 1 < n) (mem : e ∈ (readingPort s₀ k).ends) :
    s.holders e = (left (k + 1)).count e := by
  have isOpen : e.isOpen := by
    simp only [Port.ends, readingPort, List.mem_cons, List.not_mem_nil, or_false] at mem
    rcases mem with rfl | rfl <;> rfl
  have new : s₀.holders e = 0 := by
    simp only [Port.ends, readingPort, List.mem_cons, List.not_mem_nil, or_false] at mem
    rcases mem with rfl | rfl <;> simp [System.holders, linkChannel, linkReader]
  rw [accounts.kept.holders e isOpen, new, Nat.zero_add]
  refine heldBy_single lt fun j ltj differ => Nat.eq_zero_of_le_zero ?_
  refine Nat.le_trans (accounts.count_new sound ltj isOpen new) ?_
  simp only [Port.ends, readingPort, List.mem_cons, List.not_mem_nil, or_false] at mem
  rcases mem with rfl | rfl <;>
    simp [Port.holds, writingPort, readingPort, linkChannel, linkReader] <;> omega

/-! ### Ends of the template -/

theorem holders_old (isOpen : e.isOpen) (old : ¬ IsLinkEnd s₀ (n - 1) e) :
    s.holders e = 0 ↔ s₀.holders e = 0 := by
  rw [accounts.kept.holders e isOpen]
  refine ⟨fun none => by omega, fun new => ?_⟩
  rw [new, heldBy_eq_zero fun k lt => ?_]
  refine List.count_eq_zero.2 fun mem => old ?_
  exact accounts.isLinkEnd sound lt mem isOpen new

end

theorem held_of_whole (accounts : Accounts s₀ template n s left) (lt : k < n)
    (whole : left k = stageEnds s₀ template n k) (isOpen : e.isOpen)
    (mem : e ∈ stageEnds s₀ template n k) : 0 < s.holders e := by
  have some : 0 < (left k).count e := by
    rw [whole]
    exact List.count_pos_iff.2 mem
  have all := count_le_heldBy left e lt
  rw [accounts.kept.holders e isOpen]
  omega

theorem holders_of_done (accounts : Accounts s₀ template n s left) (done : ∀ k < n, left k = [])
    (e : PortEnd) : s.holders e = s₀.holders e := by
  by_cases isOpen : e.isOpen
  · rw [accounts.kept.holders e isOpen, heldBy_eq_zero fun k lt => by rw [done k lt]; rfl]
    rfl
  · rcases e with (_ | _ | _) | (_ | _ | _) <;> first | rfl | exact absurd rfl isOpen

end Accounts

end Conduit.Pipeline
