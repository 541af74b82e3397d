import Conduit.Proofs.Context.Family
import Conduit.Proofs.Context.Serving

/-!
What giving up some ports leaves to those who hold others.  What waits in the conduits is left as it
is, an end that others hold stays open, and at it everything goes on as before, but that a writer
whose last reader is gone is refused and a reader whose last writer is gone comes to the end.
-/

namespace Conduit

open Proc

variable {h : Host} {s s' : System} {given kept : List Port} {e d : PortEnd} {p : PipeId}

namespace PortEnd

def isReading : PortEnd → Bool
  | channel (.reading _) | stream (.reading _) => true
  | _ => false

end PortEnd

namespace System

inductive Faces (s : System) : PortEnd → PortEnd → Prop
  | takes {c : ChannelId} : Faces s (.channel (.reading c)) (.channel (.writing c))
  | puts {c : ChannelId} : Faces s (.channel (.writing c)) (.channel (.reading c))
  | reads {q : ReaderId} {w : WriterId} {p : PipeId} (source : s.readingPipe? q = some p)
      (target : s.writingPipe? w = some p) : Faces s (.stream (.reading q)) (.stream (.writing w))
  | writes {q : ReaderId} {w : WriterId} {p : PipeId} (source : s.readingPipe? q = some p)
      (target : s.writingPipe? w = some p) : Faces s (.stream (.writing w)) (.stream (.reading q))

/-- Every end is held at least as often as these ports hold it, and no pipe has two readers or two
writers. -/
structure Supports (s : System) (held : List Port) : Prop where
  enough : ∀ e, e.isOpen → holdsOf e held ≤ s.holders e
  reader : ∀ q r p, s.readingPipe? q = some p → s.readingPipe? r = some p → q = r
  writer : ∀ w u p, s.writingPipe? w = some p → s.writingPipe? u = some p → w = u

def Faced (s s' : System) (given : List Port) (e : PortEnd) : Prop :=
  (∀ d ∈ endsOf given, ¬ s.Faces d e) ∨ ∃ d, s.Faces d e ∧ 0 < s'.holders d

structure Spares (h : Host) (given kept : List Port) (s s' : System) : Prop where
  held : ∀ e, e.isOpen → holdsOf e kept ≤ s'.holders e
  contents : s.Grown s' []
  goesOn : ∀ {α : Type} {p q : Proc α} {es : List Event} {s₁ : System}, Steps h p s es q s₁ →
    (∀ ev ∈ es, ev.Uses fun e => e ∈ endsOf kept ∧ (e.isReading ∨ s.Faced s' given e)) →
      ∃ t₁, Steps h p s' es q t₁
  nothingElse : ∀ {α : Type} {p q : Proc α} {es : List Event} {t₁ : System}, Steps h p s' es q t₁ →
    (∀ ev ∈ es, ev.Uses fun e => e ∈ endsOf kept ∧ s.Faced s' given e) → ∃ s₁, Steps h p s es q s₁

/-! ### Giving up ports -/

theorem after_releaseEvents {ports : List Port} (after : s.After (releaseEvents ports) s') :
    s' = (endsOf ports).foldl System.release s := by
  induction ports generalizing s with
  | nil => cases after; rfl
  | cons p ports ih =>
    obtain - | ⟨first, - | ⟨second, rest⟩⟩ := after
    cases first
    cases second
    exact ih rest

theorem grown_releaseAll (s : System) (ends : List PortEnd) :
    s.Grown (ends.foldl System.release s) [] := by
  induction ends generalizing s with
  | nil => exact .refl s
  | cons e ends ih => exact (s.grown_release e).trans (ih (s.release e))

theorem side_release_le (s : System) (d e : PortEnd) (p : PipeId) :
    (((s.release d).pipes[p.index]?).map e.side).getD 0 ≤
      ((s.pipes[p.index]?).map e.side).getD 0 := by
  rcases s.release_cases d with same | ⟨q, -, -, same⟩
  · exact Nat.le_of_eq (by rw [same, pipes_recount])
  · rw [same, onPipe, pipes_recount, Array.getElem?_modify]
    split
    · next here =>
      rw [← here]
      cases s.pipes[q.index]? with
      | none => exact Nat.le_refl 0
      | some ch =>
        rcases d with (_ | _ | _) | (_ | _ | _) <;> rcases e with (_ | _ | _) | (_ | _ | _) <;>
          simp [PortEnd.side, PortEnd.dropSide, Channel.dropReader, Channel.dropWriter]
    · exact Nat.le_refl _

theorem side_releaseAll_le (s : System) (ends : List PortEnd) (e : PortEnd) (p : PipeId) :
    (((ends.foldl System.release s).pipes[p.index]?).map e.side).getD 0 ≤
      ((s.pipes[p.index]?).map e.side).getD 0 := by
  induction ends generalizing s with
  | nil => exact Nat.le_refl _
  | cons d ends ih => exact Nat.le_trans (ih (s.release d)) (side_release_le s d e p)

/-! ### Both sides of a conduit -/

theorem content_of_grown {α : Type} {x y : Option (Channel α)}
    (grown : y.map Channel.content = x.map (·.contentWith [])) :
    y.map Channel.content = x.map Channel.content :=
  grown.trans (congrArg (Option.map · x) (funext Channel.contentWith_nil))

theorem rel_of_content {α : Type} {R : Channel α → Channel α → Prop} {x y : Option (Channel α)}
    (content : y.map Channel.content = x.map Channel.content)
    (rel : ∀ a b, x = some a → y = some b → b.content = a.content → R a b) : Option.Rel R x y := by
  cases x with
  | none =>
    rw [Option.map_eq_none_iff.1 content]
    exact .none
  | some a =>
    obtain ⟨b, rfl, same⟩ := Option.map_eq_some_iff.1 content
    exact .some (rel a b rfl rfl same)

theorem writesAs_of {α : Type} {x y : Option (Channel α)}
    (content : y.map Channel.content = x.map Channel.content)
    (readers : (y.map Channel.readers).getD 0 = 0 ↔ (x.map Channel.readers).getD 0 = 0)
    (writers : (y.map Channel.writers).getD 0 = 0 ↔ (x.map Channel.writers).getD 0 = 0) :
    Option.Rel Channel.WritesAs x y := by
  refine rel_of_content content fun a b first second same => ?_
  subst first second
  exact ⟨same, readers, writers⟩

theorem readsAs_of {α : Type} {x y : Option (Channel α)}
    (content : y.map Channel.content = x.map Channel.content)
    (ended : (x.map Channel.writers).getD 0 = 0 → (y.map Channel.writers).getD 0 = 0) :
    Option.Rel Channel.ReadsAs x y := by
  refine rel_of_content content fun a b first second same => ?_
  subst first second
  exact ⟨same, ended⟩

/-! ### Ends that are still held -/

theorem After.readers_kept {es : List Event} (after : s.After es s') (adds : Adds es)
    (kept : ∀ q, s.readingPipe? q = some p → 0 < s.holders (.stream (.reading q)) →
      0 < s'.holders (.stream (.reading q))) :
    (s'.pipes[p.index]?).map Channel.readers = (s.pipes[p.index]?).map Channel.readers := by
  refine after.side (e := .stream (.reading ⟨0⟩)) adds fun d leads side held => ?_
  match d with
  | .stream (.reading q) => exact kept q leads held
  | .stream (.writing _) => exact absurd (congrFun side ⟨[], 0, none, 0, 1⟩) Nat.zero_ne_one
  | .channel _ | .stream .closed => cases leads

theorem After.writers_kept {es : List Event} (after : s.After es s') (adds : Adds es)
    (kept : ∀ w, s.writingPipe? w = some p → 0 < s.holders (.stream (.writing w)) →
      0 < s'.holders (.stream (.writing w))) :
    (s'.pipes[p.index]?).map Channel.writers = (s.pipes[p.index]?).map Channel.writers := by
  refine after.side (e := .stream (.writing ⟨0⟩)) adds fun d leads side held => ?_
  match d with
  | .stream (.writing w) => exact kept w leads held
  | .stream (.reading _) => exact absurd (congrFun side ⟨[], 0, none, 0, 1⟩) Nat.one_ne_zero
  | .channel _ | .stream .closed => cases leads

section Releasing

variable (after : s.After (releaseEvents given) s')

include after

theorem grown_given : s.Grown s' [] := after_releaseEvents after ▸ grown_releaseAll s (endsOf given)

theorem holders_le (e : PortEnd) : s'.holders e ≤ s.holders e := by
  rw [holders_releaseEvents after]
  exact Nat.sub_le ..

theorem reads_on (reading : e.isReading) : s.ServesAt s' e := by
  have grown := grown_given after
  match e with
  | .channel (.reading c) =>
    exact readsAs_of (content_of_grown (grown.channels c)) fun none =>
      Nat.le_zero.1 (Nat.le_trans (holders_le after (.channel (.writing c))) (Nat.le_of_eq none))
  | .stream (.reading q) =>
    have writers (p : PipeId) := side_releaseAll_le s (endsOf given) (.stream (.writing ⟨0⟩)) p
    rw [← after_releaseEvents after] at writers
    exact ⟨grown.readers q, fun p _ => readsAs_of (content_of_grown (grown.pipes p)) fun none =>
      Nat.le_zero.1 (Nat.le_trans (writers p) (Nat.le_of_eq none))⟩

end Releasing

namespace Supports

variable {held : List Port}

theorem mono (supports : s.Supports held) {fewer : List Port}
    (le : ∀ e, e.isOpen → holdsOf e fewer ≤ holdsOf e held) : s.Supports fewer :=
  { supports with enough := fun e isOpen => Nat.le_trans (le e isOpen) (supports.enough e isOpen) }

theorem after {es : List Event} (supports : s.Supports held) (grown : s.Grown s' es)
    {held' : List Port} (enough : ∀ e, e.isOpen → holdsOf e held' ≤ s'.holders e) :
    s'.Supports held' where
  enough := enough
  reader q r p first second := by
    have behind (q : ReaderId) := grown.behind? (.stream (.reading q))
    exact supports.reader q r p ((behind q).symm.trans first) ((behind r).symm.trans second)
  writer w u p first second := by
    have behind := grown.writingPipe?
    exact supports.writer w u p ((behind w).symm.trans first) ((behind u).symm.trans second)

theorem faces_unique (supports : s.Supports held) {d' : PortEnd} (faces : s.Faces d e)
    (faces' : s.Faces d' e) : d = d' := by
  cases faces with
  | takes => cases faces'; rfl
  | puts => cases faces'; rfl
  | reads source target =>
    obtain - | - | ⟨source', target'⟩ := faces'
    rw [target] at target'
    cases target'
    rw [supports.reader _ _ _ source source']
  | writes source target =>
    obtain - | - | - | ⟨source', target'⟩ := faces'
    rw [source] at source'
    cases source'
    rw [supports.writer _ _ _ target target']

variable (supports : s.Supports (given ++ kept)) (after : s.After (releaseEvents given) s')

include supports after

theorem others : s'.Supports kept := by
  refine supports.after (grown_given after) fun e isOpen => ?_
  have enough := supports.enough e isOpen
  rw [holdsOf_append] at enough
  rw [holders_releaseEvents after]
  omega

theorem own (isOpen : e.isOpen) (mem : e ∈ endsOf kept) : 0 < s'.holders e :=
  Nat.lt_of_lt_of_le (holdsOf_pos_iff.2 mem) ((supports.others after).enough e isOpen)

theorem facing (faced : s.Faced s' given e) (faces : s.Faces d e) (was : 0 < s.holders d) :
    0 < s'.holders d := by
  rcases faced with none | ⟨d', faces', still⟩
  · have outside : holdsOf d given = 0 :=
      Nat.eq_zero_of_not_pos fun some => none d (holdsOf_pos_iff.1 some) faces
    rw [holders_releaseEvents after, outside]
    exact was
  · rw [supports.faces_unique faces faces']
    exact still

/-! ### What goes on there -/

theorem pipe_sides (faced : s.Faced s' given e) (mem : e ∈ endsOf kept)
    (behind : s.behind? e = some p) :
    (s'.pipes[p.index]?).map Channel.readers = (s.pipes[p.index]?).map Channel.readers ∧
      (s'.pipes[p.index]?).map Channel.writers = (s.pipes[p.index]?).map Channel.writers := by
  have adds := Family.adds_releaseEvents given
  have still := own supports after (isOpen_of_behind? behind) mem
  match e with
  | .stream (.reading q) =>
    refine ⟨after.readers_kept adds fun r other _ => ?_, after.writers_kept adds fun w target => ?_⟩
    · rw [supports.reader _ _ _ other behind]
      exact still
    · exact facing supports after faced (.writes behind target)
  | .stream (.writing w) =>
    refine ⟨after.readers_kept adds fun q source => ?_, after.writers_kept adds fun u other _ => ?_⟩
    · exact facing supports after faced (.reads source behind)
    · rw [supports.writer _ _ _ other behind]
      exact still
  | .channel _ | .stream .closed => cases behind

theorem goes_on (faced : s.Faced s' given e) (mem : e ∈ endsOf kept) :
    s.ServesAt s' e ∧ s'.ServesAt s e := by
  have grown := grown_given after
  have zero {d : PortEnd} (still : 0 < s.holders d → 0 < s'.holders d) :
      s'.holders d = 0 ↔ s.holders d = 0 := by
    have le := holders_le after d
    omega
  match e with
  | .channel .closed | .stream .closed => exact ⟨trivial, trivial⟩
  | .channel (.reading c) =>
    have content := content_of_grown (grown.channels c)
    have writers := zero (facing supports after faced .puts)
    exact ⟨readsAs_of content writers.2, readsAs_of content.symm writers.1⟩
  | .channel (.writing c) =>
    have content := content_of_grown (grown.channels c)
    have readers := zero (facing supports after faced .takes)
    have writers := zero fun _ => own supports after rfl mem
    exact ⟨writesAs_of content readers writers,
      writesAs_of content.symm readers.symm writers.symm⟩
  | .stream (.reading q) =>
    have same := grown.behind? (.stream (.reading q))
    refine ⟨⟨grown.readers q, fun p behind => ?_⟩, (grown.readers q).symm, fun p behind => ?_⟩
    · obtain ⟨-, writers⟩ := pipe_sides supports after faced mem behind
      exact readsAs_of (content_of_grown (grown.pipes p)) (by rw [writers]; exact id)
    · obtain ⟨-, writers⟩ := pipe_sides supports after faced mem (same.symm.trans behind)
      exact readsAs_of (content_of_grown (grown.pipes p)).symm (by rw [writers]; exact id)
  | .stream (.writing w) =>
    have same := grown.writingPipe? w
    have target : s'.target? w = s.target? w := by
      rw [grown.targets w]
      cases s.target? w with
      | none => rfl
      | some t => exact congrArg some t.written_nil
    refine ⟨⟨target, fun p behind => ?_⟩, target.symm, fun p behind => ?_⟩
    · obtain ⟨readers, writers⟩ := pipe_sides supports after faced mem behind
      exact writesAs_of (content_of_grown (grown.pipes p)) (by rw [readers]) (by rw [writers])
    · obtain ⟨readers, writers⟩ := pipe_sides supports after faced mem (same.symm.trans behind)
      exact writesAs_of (content_of_grown (grown.pipes p)).symm (by rw [readers]) (by rw [writers])

theorem spares : s.Spares h given kept s' where
  held := (others supports after).enough
  contents := grown_given after
  goesOn steps uses := by
    obtain ⟨t₁, steps', -⟩ := steps.serves uses fun e ⟨mem, on⟩ => on.elim
      (fun reading => reads_on after reading) fun faced => (goes_on supports after faced mem).1
    exact ⟨t₁, steps'⟩
  nothingElse steps uses := by
    obtain ⟨s₁, steps', -⟩ := steps.serves uses fun e ⟨mem, faced⟩ =>
      (goes_on supports after faced mem).2
    exact ⟨s₁, steps'⟩

end Supports

end System

end Conduit
