import Conduit.Proofs.System.Holds

/-!
What the events of a run tell about the system that it leaves behind: which values were taken from
a channel, and which variables were set.
-/

namespace Conduit

namespace Event

def takenFrom? (c : ChannelId) : Event → Option Value
  | asked (.take d) (some v) => if d = c then some v else none
  | _ => none

end Event

namespace System

inductive After : System → List Event → System → Prop
  | nil {s : System} : After s [] s
  | asked {r : Request} {x : r.Reply} {s s' s'' : System} {es : List Event}
      (reply : r.perform? s = some (x, s')) (rest : After s' es s'') :
      After s (.asked r x :: es) s''
  | called {call : HostCall} {s s' : System} {es : List Event} (rest : After s es s') :
      After s (.called call :: es) s'

end System

variable {s s' s'' : System} {es es' : List Event}

namespace System.After

theorem append (first : After s es s') (rest : After s' es' s'') : After s (es ++ es') s'' := by
  induction first with
  | nil => exact rest
  | asked reply _ ih => exact .asked reply (ih rest)
  | called _ ih => exact .called (ih rest)

theorem split (after : s.After (es ++ es') s'') :
    ∃ s', s.After es s' ∧ s'.After es' s'' := by
  induction es generalizing s with
  | nil => exact ⟨s, .nil, after⟩
  | cons e es ih =>
    cases after with
    | asked reply rest =>
      obtain ⟨s', first, last⟩ := ih rest
      exact ⟨s', .asked reply first, last⟩
    | called rest =>
      obtain ⟨s', first, last⟩ := ih rest
      exact ⟨s', .called first, last⟩

end System.After

namespace Proc

variable {h : Host} {α : Type} {p p' : Proc α}

theorem Step.after (step : Step h p s es p' s') : s.After es s' := by
  induction step with
  | request reply => exact .asked reply .nil
  | loop => exact .nil
  | host => exact .called .nil
  | left _ ih => exact ih
  | right _ ih => exact ih
  | join => exact .nil

theorem Steps.after (steps : Steps h p s es p' s') : s.After es s' := by
  induction steps with
  | refl => exact .nil
  | head step _ ih => exact step.after.append ih

theorem Runs.after {o : Outcome α} (run : Runs h p s es o s') : s.After es s' := by
  obtain ⟨q, steps, -⟩ := run
  exact steps.after

end Proc

/-! ### Values taken -/

def taken (c : ChannelId) (es : List Event) : List Value := es.filterMap (Event.takenFrom? c)

@[simp] theorem taken_append (c : ChannelId) :
    taken c (es ++ es') = taken c es ++ taken c es' := List.filterMap_append

/-- The values that are left to read at a channel end that nobody writes to any more. -/
def System.LeftToRead (s : System) : ChannelEnd → List Value → Prop
  | .reading c, vs => ∃ ch, s.channels[c.index]? = some ch ∧ ch.queue = vs ∧ ch.writers = 0
  | _, vs => vs = []

theorem leftToRead_onChannel {c d : ChannelId} {vs : List Value}
    {f : Channel Value → Channel Value} (left : s.LeftToRead (.reading c) vs)
    (queue : ∀ x, (f x).queue = x.queue) (writers : ∀ x, x.writers = 0 → (f x).writers = 0) :
    (s.onChannel d f).LeftToRead (.reading c) vs := by
  obtain ⟨ch, hc, rfl, hw⟩ := left
  by_cases hd : d.index = c.index
  · exact ⟨f ch, by simp [System.onChannel, Array.getElem?_modify, hd, hc], queue ch, writers ch hw⟩
  · exact ⟨ch, by simp [System.onChannel, Array.getElem?_modify, hd, hc], rfl, hw⟩

theorem exists_takeValue? {c : ChannelId} {vs : List Value} (left : s.LeftToRead (.reading c) vs) :
    ∃ s', s.takeValue? c = some (vs.head?, s') ∧ s'.LeftToRead (.reading c) vs.tail := by
  obtain ⟨ch, hc, rfl, hw⟩ := left
  rw [System.takeValue?, hc]
  cases hq : ch.queue with
  | nil =>
    simp only [Channel.take?, hq, hw, ↓reduceIte, Option.map_some]
    exact ⟨_, rfl, ch, by simp [System.onChannel, Array.getElem?_modify, hc], hq, hw⟩
  | cons v rest =>
    simp only [Channel.take?, hq, Option.map_some]
    refine ⟨_, rfl, { ch with queue := rest, taken := ch.taken + 1 }, ?_, rfl, hw⟩
    simp [System.onChannel, Array.getElem?_modify, hc]

theorem leftToRead_takeValue? {c d : ChannelId} {vs : List Value} {x : Option Value}
    (left : s.LeftToRead (.reading c) vs) (take : s.takeValue? d = some (x, s')) :
    ∃ vs', s'.LeftToRead (.reading c) vs' ∧ vs = taken c [.asked (.take d) x] ++ vs' := by
  by_cases hd : d = c
  · subst hd
    obtain ⟨s₁, took, left₁⟩ := exists_takeValue? left
    rw [took] at take
    cases take
    refine ⟨vs.tail, left₁, ?_⟩
    cases vs <;> simp [taken, Event.takenFrom?]
  · have none : taken c [.asked (.take d) x] = [] := by
      cases x <;> simp [taken, Event.takenFrom?, hd]
    obtain ⟨ch, hc, rfl, hw⟩ := left
    simp only [System.takeValue?] at take
    refine ⟨ch.queue, ⟨ch, ?_, rfl, hw⟩, by rw [none]; rfl⟩
    split at take
    · cases take
      exact hc
    · obtain ⟨y, -, hs⟩ := Option.map_eq_some_iff.1 take
      cases hs
      have hi : d.index ≠ c.index := fun h => hd (by cases d; cases c; cases h; rfl)
      simp [System.onChannel, Array.getElem?_modify, hi, hc]

theorem leftToRead_offerValue {c d : ChannelId} {vs : List Value} (v : Value)
    (left : s.LeftToRead (.reading c) vs) : (s.offerValue d v).2.LeftToRead (.reading c) vs := by
  obtain ⟨ch, hc, rfl, hw⟩ := left
  simp only [System.offerValue]
  split
  · exact ⟨ch, hc, rfl, hw⟩
  · next ch' offered =>
    have hi : d.index ≠ c.index := by
      intro hi
      simp [hi, hc, Channel.offer?, hw] at offered
    exact ⟨ch, by simp [System.onChannel, Array.getElem?_modify, hi, hc], rfl, hw⟩

theorem leftToRead_perform {r : Request} {x : r.Reply} {c : ChannelId} {vs : List Value}
    (left : s.LeftToRead (.reading c) vs) (reply : r.perform? s = some (x, s')) :
    ∃ vs', s'.LeftToRead (.reading c) vs' ∧ vs = taken c [.asked r x] ++ vs' := by
  cases r with
  | take d => exact leftToRead_takeValue? left reply
  | newChannel d =>
    obtain ⟨ch, hc, hq, hw⟩ := left
    have hlt := (Array.getElem?_eq_some_iff.1 hc).1
    cases reply
    refine ⟨vs, ⟨ch, ?_, hq, hw⟩, rfl⟩
    rw [Array.getElem?_push, if_neg (by omega), hc]
  | holdChannel e =>
    cases reply
    refine ⟨vs, ?_, rfl⟩
    cases e with
    | closed => exact left
    | reading d => exact leftToRead_onChannel left (fun _ => rfl) fun _ => id
    | writing d =>
      exact leftToRead_onChannel left (fun _ => rfl)
        fun ch hw => by simp [Channel.addWriter, oneMore, hw]
  | releaseChannel e =>
    cases reply
    refine ⟨vs, ?_, rfl⟩
    cases e with
    | closed => exact left
    | reading d => exact leftToRead_onChannel left (fun _ => rfl) fun _ => id
    | writing d =>
      exact leftToRead_onChannel left (fun _ => rfl)
        fun ch hw => by simp [Channel.dropWriter, hw]
  | offer d v =>
    have left' := leftToRead_offerValue (d := d) v left
    rw [Option.some.inj reply] at left'
    exact ⟨vs, left', rfl⟩
  | _ =>
    have same := Request.channels_perform rfl reply
    exact ⟨vs, by simpa [System.LeftToRead, same] using left, rfl⟩

theorem System.After.leftToRead {c : ChannelId} {vs : List Value} (after : s.After es s')
    (left : s.LeftToRead (.reading c) vs) :
    ∃ vs', s'.LeftToRead (.reading c) vs' ∧ vs = taken c es ++ vs' := by
  induction after generalizing vs with
  | nil => exact ⟨vs, left, rfl⟩
  | @asked r x _ _ _ es reply _ ih =>
    obtain ⟨vs₁, left₁, rfl⟩ := leftToRead_perform left reply
    obtain ⟨vs₂, left₂, rfl⟩ := ih left₁
    refine ⟨vs₂, left₂, ?_⟩
    rw [← List.append_assoc, ← taken_append]
    rfl
  | called _ ih => exact ih left

/-! ### Variables set -/

def SetsFrom (n : Nat) (es : List Event) : Prop :=
  ∀ scope name v x, Event.asked (.setVar scope name v) x ∈ es → n ≤ scope.index

theorem setsFrom_append {n : Nat} (first : SetsFrom n es) (rest : SetsFrom n es') :
    SetsFrom n (es ++ es') := by
  intro scope name v x hm
  rcases List.mem_append.1 hm with hm | hm
  · exact first scope name v x hm
  · exact rest scope name v x hm

theorem SetsFrom.mono {n m : Nat} (sets : SetsFrom n es) (hm : m ≤ n) : SetsFrom m es :=
  fun scope name v x h => Nat.le_trans hm (sets scope name v x h)

theorem System.After.rows {n : Nat} (after : s.After es s') (sets : SetsFrom n es)
    (hn : n ≤ s.scopes.size) :
    n ≤ s'.scopes.size ∧ ∀ i < n, s'.scopes.rows[i]? = s.scopes.rows[i]? := by
  induction after with
  | nil => exact ⟨hn, fun _ _ => rfl⟩
  | called _ ih => exact ih (fun scope name v x hm => sets scope name v x (.tail _ hm)) hn
  | @asked r x s s₁ _ es reply _ ih =>
    have step : n ≤ s₁.scopes.size ∧ ∀ i < n, s₁.scopes.rows[i]? = s.scopes.rows[i]? := by
      cases r with
      | newScope parent =>
        cases reply
        refine ⟨by simpa [ScopeTable.grow, ScopeTable.size] using Nat.le_succ_of_le hn, ?_⟩
        intro i hi
        have older : i ≠ s.scopes.rows.size := Nat.ne_of_lt (Nat.lt_of_lt_of_le hi hn)
        rw [Array.getElem?_push, if_neg older]
      | setVar scope name v =>
        cases reply
        refine ⟨by simpa [ScopeTable.set, ScopeTable.size] using hn, ?_⟩
        intro i hi
        have := sets scope name v () (.head _)
        simp only [ScopeTable.set]
        rw [Array.getElem?_modify, if_neg (by omega)]
      | _ =>
        have same := Request.scopes_perform rfl reply
        rw [same]
        exact ⟨hn, fun _ _ => rfl⟩
    obtain ⟨hn₂, rows⟩ := ih (fun scope name v x hm => sets scope name v x (.tail _ hm)) step.1
    exact ⟨hn₂, fun i hi => (rows i hi).trans (step.2 i hi)⟩

theorem ScopeTable.get?_congr {t t' : ScopeTable} {n : Nat}
    (rows : ∀ i < n, t'.rows[i]? = t.rows[i]?) (name : String) :
    ∀ scope : ScopeId, scope.index < n → t'.get? scope name = t.get? scope name := by
  intro scope
  induction hi : scope.index using Nat.strongRecOn generalizing scope with
  | _ i ih =>
    subst hi
    intro hs
    rw [ScopeTable.get?, ScopeTable.get?, rows _ hs]
    split
    · rfl
    · split
      · rfl
      · rfl
      · split
        · next older => exact ih _ older _ rfl (Nat.lt_trans older hs)
        · rfl

end Conduit
