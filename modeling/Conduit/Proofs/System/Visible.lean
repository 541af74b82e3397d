import Conduit.Proofs.System.Confined

/-!
What confined events depend on: the scopes of their contexts, and those that the closures they come
by were made in.  Two systems that agree on these scopes answer such events alike.
-/

namespace Conduit

variable {s s' t : System} {es : List Event} {own known visible : Set ScopeId}
  {channels : Set ChannelId}

/-! ### What is within reach -/

/-- The way up from the scopes stays in them, and so do the closures found there. -/
structure ScopeTable.Within (t : ScopeTable) (visible : Set ScopeId) : Prop where
  parents : ∀ scope ∈ visible, ∀ row, t.rows[scope.index]? = some row →
    ∀ parent ∈ row.parent, parent ∈ visible
  values : ∀ scope ∈ visible, ∀ row, t.rows[scope.index]? = some row →
    ∀ b ∈ row.vars, b.2.MadeIn visible

def System.Queued (s : System) (channels : Set ChannelId) (visible : Set ScopeId) : Prop :=
  ∀ c ∈ channels, ∀ ch, s.channels[c.index]? = some ch → ∀ v ∈ ch.queue, v.MadeIn visible

/-- Nothing leads out of the scopes, neither from one of them nor from the channels. -/
structure System.Within (s : System) (channels : Set ChannelId) (visible : Set ScopeId) : Prop where
  scopes : s.scopes.Within visible
  queued : s.Queued channels visible

structure ScopeTable.AgreesOn (visible : Set ScopeId) (t t' : ScopeTable) : Prop where
  size : t'.size = t.size
  rows : ∀ scope ∈ visible, t'.rows[scope.index]? = t.rows[scope.index]?

def System.withScopes (s : System) (t : ScopeTable) : System := { s with scopes := t }

structure System.AgreesOn (visible : Set ScopeId) (s t : System) : Prop where
  scopes : s.scopes.AgreesOn visible t.scopes
  others : t = s.withScopes t.scopes

namespace ScopeTable

variable {t t' : ScopeTable}

theorem AgreesOn.get?_eq (agrees : t.AgreesOn visible t') (within : t.Within visible)
    (name : String) {scope : ScopeId} (mem : scope ∈ visible) :
    t'.get? scope name = t.get? scope name := by
  -- on the way up the indices get smaller, for a parent is older than its child
  induction index : scope.index using Nat.strongRecOn generalizing scope with
  | _ i ih =>
    subst index
    rw [get?, get?, agrees.rows scope mem]
    split
    · rfl
    · next row found =>
      split
      · rfl
      · rfl
      · next p none parent =>
        split
        · next older => exact ih _ older (within.parents scope mem row found p parent) rfl
        · rfl

theorem Within.madeIn (within : t.Within visible) {name : String} {v : Value} {scope : ScopeId}
    (mem : scope ∈ visible) (found : t.get? scope name = some v) : v.MadeIn visible := by
  induction index : scope.index using Nat.strongRecOn generalizing scope with
  | _ i ih =>
    subst index
    rw [get?] at found
    split at found
    · cases found
    · next row here =>
      split at found
      · next value =>
        cases found
        obtain ⟨before, after, vars, -⟩ := List.lookup_eq_some_iff.1 value
        exact within.values scope mem row here (name, v) (by simp [vars])
      · cases found
      · next p none parent =>
        split at found
        · next older => exact ih _ older (within.parents scope mem row here p parent) found rfl
        · cases found

end ScopeTable

/-! ### Requests that have to do with no variables -/

namespace System

theorem readSource?_withScopes (s : System) (table : ScopeTable) (r : ReaderId) (n : Nat) :
    (s.withScopes table).readSource? r n =
      (s.readSource? r n).map fun y => (y.1, y.2.withScopes table) := by
  unfold readSource?
  rw [show (s.withScopes table).source? r = s.source? r from rfl,
    show (s.withScopes table).pipes = s.pipes from rfl]
  split
  · rfl
  · rfl
  · rfl
  · split
    · rfl
    · split
      · rfl
      · split
        · rfl
        · next c _ =>
          rw [Option.map_map]
          refine congrArg (Option.map · c.take?) (funext fun y => ?_)
          obtain ⟨_ | chunk, c⟩ := y <;> rfl

theorem fillBuffer?_withScopes (s : System) (table : ScopeTable) (r : ReaderId) :
    (s.withScopes table).fillBuffer? r =
      (s.fillBuffer? r).map fun y => (y.1, y.2.withScopes table) := by
  unfold fillBuffer?
  rw [show (s.withScopes table).readers = s.readers from rfl]
  split
  · rfl
  · split
    · rfl
    · rw [readSource?_withScopes, Option.map_map, Option.map_map]
      refine congrArg (Option.map · _) (funext fun y => ?_)
      obtain ⟨_ | bytes, s'⟩ := y <;> rfl

theorem readSome?_withScopes (s : System) (table : ScopeTable) (r : ReaderId) (n : Nat) :
    (s.withScopes table).readSome? r n =
      (s.readSome? r n).map fun y => (y.1, y.2.withScopes table) := by
  unfold readSome?
  rw [show (s.withScopes table).readers = s.readers from rfl]
  split
  · rfl
  · split
    · exact readSource?_withScopes s table r n
    · rw [fillBuffer?_withScopes, Option.map_map, Option.map_map]
      refine congrArg (Option.map · _) (funext fun y => ?_)
      obtain ⟨_ | bytes, s'⟩ := y <;> rfl

theorem takeValue?_withScopes (s : System) (table : ScopeTable) (c : ChannelId) :
    (s.withScopes table).takeValue? c =
      (s.takeValue? c).map fun y => (y.1, y.2.withScopes table) := by
  unfold takeValue?
  rw [show (s.withScopes table).channels = s.channels from rfl]
  split
  · rfl
  · rw [Option.map_map]
    rfl

theorem offerValue_withScopes (s : System) (table : ScopeTable) (c : ChannelId) (v : Value) :
    (s.withScopes table).offerValue c v =
      ((s.offerValue c v).1, (s.offerValue c v).2.withScopes table) := by
  unfold offerValue
  rw [show (s.withScopes table).channels = s.channels from rfl]
  split <;> rfl

theorem offerBytes_withScopes (s : System) (table : ScopeTable) (w : WriterId) (bytes : Bytes) :
    (s.withScopes table).offerBytes w bytes =
      ((s.offerBytes w bytes).1, (s.offerBytes w bytes).2.withScopes table) := by
  unfold offerBytes
  rw [show (s.withScopes table).target? w = s.target? w from rfl,
    show (s.withScopes table).pipes = s.pipes from rfl]
  split
  · rfl
  · rfl
  · rfl
  · split <;> rfl

theorem releaseStream_withScopes (s : System) (table : ScopeTable) (e : StreamEnd) :
    (s.withScopes table).releaseStream e = (s.releaseStream e).withScopes table := by
  cases e with
  | closed => rfl
  | reading r =>
    simp only [releaseStream, show (s.withScopes table).readers = s.readers from rfl]
    split <;> rfl
  | writing w =>
    simp only [releaseStream, show (s.withScopes table).writers = s.writers from rfl]
    split <;> rfl

end System

namespace Request

def isOnVariables : Request → Bool
  | newScope _ | getVar _ _ | setVar _ _ _ => true
  | _ => false

theorem perform?_withScopes {r : Request} (other : r.isOnVariables = false) (s : System)
    (table : ScopeTable) : r.perform? (s.withScopes table) =
      (r.perform? s).map fun y => (y.1, y.2.withScopes table) := by
  cases r with
  | newScope => cases other
  | getVar => cases other
  | setVar => cases other
  | holdChannel e => cases e <;> rfl
  | releaseChannel e => cases e <;> rfl
  | holdStream e => cases e <;> rfl
  | releaseStream e =>
    exact congrArg (fun s' => some ((), s')) (System.releaseStream_withScopes s table e)
  | take c => exact System.takeValue?_withScopes s table c
  | offer c v => exact congrArg some (System.offerValue_withScopes s table c v)
  | settle c ticket =>
    simp only [perform?, Option.map_map]
    rfl
  | fill r => exact System.fillBuffer?_withScopes s table r
  | read r n => exact System.readSome?_withScopes s table r n
  | offerBytes w bytes => exact congrArg some (System.offerBytes_withScopes s table w bytes)
  | settleBytes w ticket =>
    simp only [perform?, Option.map_map]
    rfl
  | enterDirectory path =>
    simp only [perform?, show (s.withScopes table).files = s.files from rfl]
    split <;> rfl
  | addVisit store path =>
    simp only [perform?, show (s.withScopes table).stores = s.stores from rfl]
    split <;> rfl
  | askEditor editor q =>
    simp only [perform?, show (s.withScopes table).editors = s.editors from rfl]
    split <;> rfl
  | _ => rfl

end Request

/-! ### Scopes that agree -/

namespace ScopeTable

variable {t t' : ScopeTable} {parent : Option ScopeId} {scope : ScopeId} {name : String} {v : Value}

theorem getElem?_grow {i : Nat} {row : Scope} (found : (t.grow parent).2.rows[i]? = some row) :
    (i < t.size ∧ t.rows[i]? = some row) ∨ row = { parent } := by
  rw [grow, Array.getElem?_push] at found
  split at found
  · exact .inr (Option.some.inj found).symm
  · exact .inl ⟨(Array.getElem?_eq_some_iff.1 found).1, found⟩

theorem getElem?_set {i : Nat} {row : Scope} (found : (t.set scope name v).rows[i]? = some row) :
    ∃ row', t.rows[i]? = some row' ∧ (row = row' ∨ row = row'.set name v) := by
  rw [set, Array.getElem?_modify] at found
  split at found
  · obtain ⟨row', here, rfl⟩ := Option.map_eq_some_iff.1 found
    exact ⟨row', here, .inr rfl⟩
  · exact ⟨row, found, .inl rfl⟩

theorem Within.grow (within : t.Within visible) (inside : ∀ p ∈ parent, p ∈ visible) :
    (t.grow parent).2.Within (visible ∪ {⟨t.size⟩}) := by
  have rows {scope row} (mem : scope ∈ visible ∪ {⟨t.size⟩})
      (found : (t.grow parent).2.rows[scope.index]? = some row) :
      (scope ∈ visible ∧ t.rows[scope.index]? = some row) ∨ row = { parent } := by
    rcases getElem?_grow found with ⟨older, here⟩ | new
    · rcases mem with mem | rfl
      · exact .inl ⟨mem, here⟩
      · exact absurd older (Nat.lt_irrefl _)
    · exact .inr new
  constructor
  · intro scope mem row found p parent
    rcases rows mem found with ⟨mem, here⟩ | rfl
    · exact .inl (within.parents scope mem row here p parent)
    · exact .inl (inside p parent)
  · intro scope mem row found b bound
    rcases rows mem found with ⟨mem, here⟩ | rfl
    · exact (within.values scope mem row here b bound).mono Set.subset_union_left
    · cases bound

theorem AgreesOn.grow (agrees : t.AgreesOn visible t') (parent : Option ScopeId) :
    (t.grow parent).2.AgreesOn (visible ∪ {⟨t.size⟩}) (t'.grow parent).2 := by
  have size : t'.rows.size = t.rows.size := agrees.size
  constructor
  · simp [ScopeTable.grow, ScopeTable.size, size]
  · intro scope mem
    rw [ScopeTable.grow, ScopeTable.grow, Array.getElem?_push, Array.getElem?_push, size]
    split
    · rfl
    · next older =>
      rcases mem with mem | rfl
      · exact agrees.rows scope mem
      · exact absurd rfl older

theorem Within.set (within : t.Within visible) (made : v.MadeIn visible) :
    (t.set scope name v).Within visible := by
  constructor
  · intro other mem row found p parent
    obtain ⟨row', here, rfl | rfl⟩ := getElem?_set found
    · exact within.parents other mem row here p parent
    · exact within.parents other mem row' here p parent
  · intro other mem row found b bound
    obtain ⟨row', here, rfl | rfl⟩ := getElem?_set found
    · exact within.values other mem row here b bound
    · rcases List.mem_cons.1 bound with rfl | bound
      · exact made
      · exact within.values other mem row' here b (List.mem_filter.1 bound).1

theorem AgreesOn.set (agrees : t.AgreesOn visible t') (scope : ScopeId) (name : String)
    (v : Value) : (t.set scope name v).AgreesOn visible (t'.set scope name v) := by
  constructor
  · simpa [ScopeTable.set, ScopeTable.size] using agrees.size
  · intro other mem
    rw [ScopeTable.set, ScopeTable.set, Array.getElem?_modify, Array.getElem?_modify,
      agrees.rows other mem]

end ScopeTable

/-! ### Systems that agree -/

namespace System

theorem queued_onChannel {c : ChannelId} {f : Channel Value → Channel Value}
    (queued : s.Queued channels visible) (made : c ∈ channels →
      ∀ ch, s.channels[c.index]? = some ch → ∀ v ∈ (f ch).queue, v.MadeIn visible) :
    (s.onChannel c f).Queued channels visible := by
  intro d mem ch found
  rw [onChannel, Array.getElem?_modify] at found
  split at found
  · next same =>
    obtain ⟨ch', here, rfl⟩ := Option.map_eq_some_iff.1 found
    obtain rfl : c = d := congrArg ChannelId.mk same
    exact made mem ch' here
  · exact queued d mem ch found

theorem queued_takeValue? {c : ChannelId} {x : Option Value} (queued : s.Queued channels visible)
    (take : s.takeValue? c = some (x, s')) :
    s'.Queued channels visible ∧ (c ∈ channels → ∀ v ∈ x, v.MadeIn visible) := by
  rw [takeValue?] at take
  split at take
  · cases take
    refine ⟨queued, ?_⟩
    rintro - v ⟨⟩
  · next ch here =>
    obtain ⟨⟨y, ch'⟩, took, pair⟩ := Option.map_eq_some_iff.1 take
    cases pair
    have old (mem : c ∈ channels) := queued c mem ch here
    rw [Channel.take?] at took
    split at took
    · next v rest queue =>
      cases took
      rw [queue] at old
      refine ⟨queued_onChannel queued fun mem _ _ w inside => old mem w (.tail v inside), ?_⟩
      rintro mem w ⟨⟩
      exact old mem v (.head rest)
    · split at took
      · cases took
        refine ⟨queued_onChannel queued fun mem _ _ => old mem, ?_⟩
        rintro - v ⟨⟩
      · cases took

theorem queued_offerValue {v : Value} (queued : s.Queued channels visible)
    (made : v.MadeIn visible) (c : ChannelId) :
    (s.offerValue c v).2.Queued channels visible := by
  rw [offerValue]
  split
  · exact queued
  · next ch' offered =>
    obtain ⟨ch, here, offer⟩ := Option.bind_eq_some_iff.1 offered
    rw [Channel.offer?] at offer
    split at offer
    · cases offer
    · cases offer
      refine queued_onChannel queued fun mem _ _ w inside => ?_
      rcases List.mem_append.1 inside with inside | inside
      · exact queued c mem ch here w inside
      · rwa [List.mem_singleton.1 inside]

theorem queued_addChannel {c : Channel Value} (queued : s.Queued channels visible)
    (made : ∀ v ∈ c.queue, v.MadeIn visible) : (s.addChannel c).2.Queued channels visible := by
  intro d mem ch found
  rw [addChannel, Array.getElem?_push] at found
  split at found
  · obtain rfl := Option.some.inj found
    exact made
  · exact queued d mem ch found

end System

theorem queued_perform {r : Request} {x : r.Reply} (reply : r.perform? s = some (x, s'))
    (allowed : (Event.asked r x).Allowed own known) (reach : own ∪ known ⊆ visible)
    (queued : s.Queued channels visible) : s'.Queued channels visible := by
  have kept (c : ChannelId) {f : Channel Value → Channel Value}
      (same : ∀ ch, (f ch).queue = ch.queue) : (s.onChannel c f).Queued channels visible :=
    System.queued_onChannel queued fun mem ch here => same ch ▸ queued c mem ch here
  cases r with
  | newChannel c =>
    cases reply
    exact System.queued_addChannel queued fun v mem => Value.MadeIn.mono (allowed v mem) reach
  | holdChannel e =>
    cases reply
    cases e with
    | closed => exact queued
    | reading c => exact kept c fun _ => rfl
    | writing c => exact kept c fun _ => rfl
  | releaseChannel e =>
    cases reply
    cases e with
    | closed => exact queued
    | reading c => exact kept c fun _ => rfl
    | writing c => exact kept c fun _ => rfl
  | take c => exact (System.queued_takeValue? queued reply).1
  | offer c v =>
    have step := System.queued_offerValue queued (Value.MadeIn.mono allowed reach) c
    rwa [Option.some.inj reply] at step
  | _ =>
    have same := Request.channels_perform rfl reply
    simpa [System.Queued, same] using queued

theorem learnt_subset {r : Request} {x : r.Reply} (reply : r.perform? s = some (x, s'))
    (allowed : (Event.asked r x).Allowed own known) (reach : own ∪ known ⊆ visible)
    (takes : ∀ c ∈ (Event.asked r x).source?, c ∈ channels) (within : s.Within channels visible) :
    (Event.asked r x).learnt ⊆ visible := by
  cases r with
  | getVar scope name =>
    cases x with
    | none => exact Set.empty_subset _
    | some v =>
      have found : s.scopes.get? scope name = some v := congrArg Prod.fst (Option.some.inj reply)
      exact within.scopes.madeIn (reach (.inl allowed)) found
  | take c =>
    cases x with
    | none => exact Set.empty_subset _
    | some v => exact (System.queued_takeValue? within.queued reply).2 (takes c rfl) v rfl
  | _ => exact Set.empty_subset _

theorem agrees_perform_other {r : Request} {x : r.Reply} {table : ScopeTable}
    (reply : r.perform? s = some (x, s')) (other : r.isOnVariables = false)
    (same : s'.scopes = s.scopes) (agrees : s.scopes.AgreesOn visible table) :
    ∃ t', r.perform? (s.withScopes table) = some (x, t') ∧ s'.AgreesOn visible t' := by
  refine ⟨s'.withScopes table, ?_, same ▸ agrees, rfl⟩
  rw [Request.perform?_withScopes other, reply]
  rfl

theorem agrees_perform {r : Request} {x : r.Reply} (reply : r.perform? s = some (x, s'))
    (allowed : (Event.asked r x).Allowed own known) (reach : own ∪ known ⊆ visible)
    (within : s.Within channels visible) (agrees : s.AgreesOn visible t) :
    s'.Within channels (visible ∪ (Event.asked r x).opened) ∧ ∃ t', r.perform? t = some (x, t') ∧
      s'.AgreesOn (visible ∪ (Event.asked r x).opened) t' := by
  have queued := queued_perform reply allowed reach within.queued
  obtain ⟨scopes, others⟩ := agrees
  generalize t.scopes = table at scopes others
  subst others
  cases r with
  | newScope parent =>
    cases reply
    have inside : ∀ p ∈ parent, p ∈ visible := fun p mem => reach (allowed p mem)
    refine ⟨⟨within.scopes.grow inside, fun c mem ch found v inside => ?_⟩,
      s.withScopes (table.grow parent).2, ?_, scopes.grow parent, rfl⟩
    · exact (queued c mem ch found v inside).mono Set.subset_union_left
    · have id : (⟨table.size⟩ : ScopeId) = ⟨s.scopes.size⟩ := congrArg ScopeId.mk scopes.size
      exact congrArg (fun id => some (id, s.withScopes (table.grow parent).2)) id
  | getVar scope name =>
    cases reply
    have same := scopes.get?_eq within.scopes name (reach (.inl allowed))
    simp only [Event.opened, Set.union_empty]
    exact ⟨within, _, congrArg (fun v => some (v, _)) same, scopes, rfl⟩
  | setVar scope name v =>
    cases reply
    have made := Value.MadeIn.mono allowed.2 reach
    simp only [Event.opened, Set.union_empty]
    exact ⟨⟨within.scopes.set made, queued⟩, _, rfl, scopes.set scope name v, rfl⟩
  | _ =>
    have same := Request.scopes_perform rfl reply
    simp only [Event.opened, Set.union_empty]
    exact ⟨⟨same ▸ within.scopes, queued⟩, agrees_perform_other reply rfl same scopes⟩

theorem Confined.agrees (confined : Confined own known es) (after : s.After es s')
    (reach : own ∪ known ⊆ visible) (takes : sources es ⊆ channels)
    (within : s.Within channels visible) (agrees : s.AgreesOn visible t) :
    ∃ t', t.After es t' ∧ s'.AgreesOn visible t' := by
  induction confined generalizing s t visible with
  | nil =>
    cases after
    exact ⟨t, .nil, agrees⟩
  | @cons own known e es allowed _ ih =>
    have first : ∀ c ∈ e.source?, c ∈ channels := fun c mem => takes ⟨e, .head es, mem⟩
    have others : sources es ⊆ channels := fun c ⟨e', mem, source⟩ =>
      takes ⟨e', .tail e mem, source⟩
    cases after with
    | called rest =>
      obtain ⟨t', after, agrees'⟩ := ih rest (by simpa [Event.opened, Event.learnt] using reach)
        others within agrees
      exact ⟨t', .called after, agrees'⟩
    | @asked r x _ s₁ _ _ reply rest =>
      have learnt := learnt_subset reply allowed reach first within
      obtain ⟨within', t₁, reply', agrees'⟩ := agrees_perform reply allowed reach within agrees
      -- what is begun comes within reach, and what is learnt has been there
      have reach' : own ∪ (Event.asked r x).opened ∪ (known ∪ (Event.asked r x).learnt) ⊆
          visible ∪ (Event.asked r x).opened := by
        rintro scope ((mem | mem) | (mem | mem))
        · exact .inl (reach (.inl mem))
        · exact .inr mem
        · exact .inl (reach (.inr mem))
        · exact .inl (learnt mem)
      obtain ⟨t', after, scopes, same⟩ := ih rest reach' others within' agrees'
      refine ⟨t', .asked reply' after, ⟨scopes.size, fun scope mem => ?_⟩, same⟩
      exact scopes.rows scope (.inl mem)

end Conduit
