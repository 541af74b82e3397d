import Conduit.Proofs.Context.Holds

/-!
Requests that take nothing out of a conduit.  They leave behind what was there, with what has been
written put after it, and an end that nobody holds any more stays given up.
-/

namespace Conduit

variable {α : Type} {s s' s'' : System} {es es' : List Event} {r : Request} {x : r.Reply}
  {e : PortEnd} {p : PipeId}

namespace Request

def isWriting : Request → Bool
  | offer _ _ | settle _ _ | offerBytes _ _ | settleBytes _ _ | flush _ => true
  | _ => false

def isAddition (r : Request) : Bool :=
  match r with
  | newScope _ | setVar _ _ _ | holdChannel _ | releaseChannel _ | holdStream _
  | releaseStream _ => true
  | r => r.isWriting

theorem isTransfer_of_isWriting (writing : r.isWriting) : r.isTransfer := by
  cases r <;> first | rfl | cases writing

end Request

def Channel.content (ch : Channel α) : List α × Nat × Option Nat := (ch.queue, ch.taken, ch.capacity)

def Channel.contentWith (ch : Channel α) (new : List α) : List α × Nat × Option Nat :=
  (ch.queue ++ new, ch.taken, ch.capacity)

def ByteReader.content (x : ByteReader) : Source × Nat × Bytes := (x.source, x.bufferSize, x.buffer)

theorem Channel.contentWith_nil (ch : Channel α) : ch.contentWith [] = ch.content :=
  congrArg (·, ch.taken, ch.capacity) (List.append_nil _)

theorem Channel.Moved.content {ch ch' : Channel α} {new : List α} (moved : ch.Moved ch' [] new) :
    ch'.content = ch.contentWith new := by
  rw [Channel.content, contentWith, moved.queue, moved.taken, moved.capacity]
  rfl

theorem content_append {a b c : Option (Channel α)} {first rest : List α}
    (left : b.map Channel.content = a.map (·.contentWith first))
    (right : c.map Channel.content = b.map (·.contentWith rest)) :
    c.map Channel.content = a.map (·.contentWith (first ++ rest)) := by
  cases a <;> cases b <;> cases c <;> simp_all [Channel.content, Channel.contentWith]

@[simp] theorem Target.written_nil (t : Target) : t.written [] = t := by
  match t with
  | .sink _ none _ => simp [written]
  | .sink _ (some _) _ | .pipe _ => rfl

theorem Target.written_append (t : Target) (first rest : Bytes) :
    t.written (first ++ rest) = (t.written first).written rest := by
  match t with
  | .sink _ none _ => simp [written, sink_append]
  | .sink _ (some _) _ | .pipe _ => rfl

theorem Target.pipe?_written (t : Target) (bytes : Bytes) : (t.written bytes).pipe? = t.pipe? := by
  match t with
  | .sink _ none _ | .sink _ (some _) _ | .pipe _ => rfl

namespace System

structure Grown (s s' : System) (es : List Event) : Prop where
  channels : ∀ c : ChannelId, (s'.channels[c.index]?).map Channel.content =
    (s.channels[c.index]?).map (·.contentWith (valuesTo (.writing c) es))
  pipes : ∀ p : PipeId, (s'.pipes[p.index]?).map Channel.content =
    (s.pipes[p.index]?).map (·.contentWith (s.chunksInto p es))
  readers : ∀ q : ReaderId, (s'.readers[q.index]?).map ByteReader.content =
    (s.readers[q.index]?).map ByteReader.content
  targets : ∀ w, s'.target? w = (s.target? w).map (·.written (bytesTo (.writing w) es))
  stores : s'.stores = s.stores
  editors : s'.editors = s.editors
  files : s'.files = s.files

theorem Grown.refl (s : System) : s.Grown s [] where
  channels c := congrArg (Option.map · _) (funext fun ch => ch.contentWith_nil.symm)
  pipes p := congrArg (Option.map · _) (funext fun ch => ch.contentWith_nil.symm)
  readers _ := rfl
  targets w := by simp [bytesTo, chunksTo]
  stores := rfl
  editors := rfl
  files := rfl

theorem Grown.writingPipe? (grown : s.Grown s' es) (w : WriterId) :
    s'.writingPipe? w = s.writingPipe? w := by
  rw [System.writingPipe?, grown.targets, System.writingPipe?]
  cases s.target? w <;> simp [Target.pipe?_written]

theorem chunksInto_congr (same : ∀ w, s'.writingPipe? w = s.writingPipe? w) :
    s'.chunksInto p es = s.chunksInto p es := by
  refine congrArg (List.filterMap · es) (funext fun ev => ?_)
  rcases ev with ⟨r, x⟩ | call
  · cases r with
    | offerBytes w bytes =>
      cases x with
      | ok ticket => rw [Event.chunkInto?, Event.chunkInto?, same]
      | error => rfl
    | _ => rfl
  · rfl

theorem Grown.trans (first : s.Grown s' es) (rest : s'.Grown s'' es') :
    s.Grown s'' (es ++ es') where
  channels c := by
    rw [valuesTo_append]
    exact content_append (first.channels c) (rest.channels c)
  pipes p := by
    have into : s.chunksInto p (es ++ es') = s.chunksInto p es ++ s'.chunksInto p es' := by
      rw [chunksInto_congr first.writingPipe?]
      exact List.filterMap_append
    rw [into]
    exact content_append (first.pipes p) (rest.pipes p)
  readers q := (rest.readers q).trans (first.readers q)
  targets w := by
    rw [rest.targets, first.targets, Option.map_map, bytesTo_append]
    exact congrArg (Option.map · _) (funext fun t => (t.written_append ..).symm)
  stores := rest.stores.trans first.stores
  editors := rest.editors.trans first.editors
  files := rest.files.trans first.files

theorem target?_offerBytes_eq {w : WriterId} {bytes : Bytes} {y : Except String Nat}
    (offer : s.offerBytes w bytes = (y, s')) : s'.target? w =
      (s.target? w).map (·.written (bytesTo (.writing w) [.asked (.offerBytes w bytes) y])) := by
  cases sent_of_offerBytes offer with
  | @sunk written flushError target =>
    rw [target?_offerBytes_own target offer, target, bytesTo_offerBytes]
    rfl
  | piped target =>
    rw [target?_offerBytes_own target offer, target]
    rfl
  | refused | gone =>
    cases s.target? w with
    | none => rfl
    | some t => exact congrArg some t.written_nil.symm

theorem grown_writing (writing : r.isWriting) (reply : r.perform? s = some (x, s')) :
    s.Grown s' [.asked r x] := by
  have transfer := Request.isTransfer_of_isWriting writing
  have shape := Request.sameShape_perform transfer reply
  have surroundings := sameSurroundings_perform transfer reply
  refine ⟨fun c => ?_, fun p => ?_, fun q => ?_, fun w => ?_, surroundings.stores,
    surroundings.editors, surroundings.files⟩
  · cases here : s.channels[c.index]? with
    | none =>
      have sides := shape.channels c.index
      rw [here, Option.map_none, Option.map_eq_none_iff] at sides
      rw [sides]
      rfl
    | some ch =>
      obtain ⟨ch', there, moved⟩ := moved_channel transfer reply here
      have none : taken c [.asked r x] = [] := by cases r <;> first | rfl | cases writing
      rw [none] at moved
      rw [there]
      exact congrArg some moved.content
  · cases here : s.pipes[p.index]? with
    | none =>
      have sides := shape.pipes p.index
      rw [here, Option.map_none, Option.map_eq_none_iff] at sides
      rw [sides]
      rfl
    | some ch =>
      obtain ⟨ch', out, there, moved, own⟩ := moved_pipe transfer reply here
      obtain rfl : out = [] := own.resolve_right fun ⟨q, same, _⟩ => by subst same; cases writing
      rw [there]
      exact congrArg some moved.content
  · rw [readers_perform transfer (by rintro rfl; cases writing) (by rintro n rfl; cases writing)
      reply]
  · by_cases own : ∃ bytes, r = .offerBytes w bytes
    · obtain ⟨bytes, rfl⟩ := own
      exact target?_offerBytes_eq (Option.some.inj reply)
    · have apart (bytes : Bytes) : r ≠ .offerBytes w bytes := fun same => own ⟨bytes, same⟩
      have none : bytesTo (.writing w) [.asked r x] = [] := by
        cases r with
        | offerBytes u bytes =>
          exact bytesTo_offerBytes_other (fun same => apart bytes (by rw [same])) bytes x
        | _ => rfl
      rw [none, target?, target?, writers_perform transfer apart reply]
      simp [Function.comp_def]

/-! ### Holding and giving up -/

theorem content_recount {u : Nat → Nat} (d : PortEnd) (q : ReaderId) :
    ((s.recount u d).readers[q.index]?).map ByteReader.content =
      (s.readers[q.index]?).map ByteReader.content := by
  match d with
  | .stream (.reading r) =>
    exact map_getElem?_modify s.readers r.index q.index _ ByteReader.content fun _ => rfl
  | .channel .closed | .channel (.reading _) | .channel (.writing _) | .stream .closed
  | .stream (.writing _) => rfl

theorem channels_recount {u : Nat → Nat} (d : PortEnd) (c : ChannelId) :
    ((s.recount u d).channels[c.index]?).map Channel.content =
      (s.channels[c.index]?).map Channel.content := by
  match d with
  | .channel (.reading b) =>
    exact map_getElem?_modify s.channels b.index c.index _ Channel.content fun _ => rfl
  | .channel (.writing b) =>
    exact map_getElem?_modify s.channels b.index c.index _ Channel.content fun _ => rfl
  | .channel .closed | .stream .closed | .stream (.reading _) | .stream (.writing _) => rfl

theorem content_dropSide (d : PortEnd) (ch : Channel Bytes) :
    (d.dropSide ch).content = ch.content := by
  rcases d with (_ | _ | _) | (_ | _ | _) <;> rfl

theorem release_cases (s : System) (e : PortEnd) : s.release e = s.recount (· - 1) e ∨
    ∃ p, s.holders e = 1 ∧ s.behind? e = some p ∧
      s.release e = (s.recount (· - 1) e).onPipe p e.dropSide := by
  by_cases last : s.holders e = 1
  · cases behind : s.behind? e with
    | none => exact .inl (release_of_more fun _ => behind)
    | some p => exact .inr ⟨p, last, rfl, release_of_last last behind⟩
  · exact .inl (release_of_more fun one => absurd one last)

theorem Grown.quiet (grown : s.Grown s' []) (values : ∀ e, valuesTo e es = [])
    (bytes : ∀ e, chunksTo e es = []) (chunks : ∀ p, s.chunksInto p es = []) : s.Grown s' es :=
  { grown with
    channels := fun c => by rw [values]; exact grown.channels c
    pipes := fun p => by rw [chunks]; exact grown.pipes p
    targets := fun w => by rw [bytesTo, bytes]; exact grown.targets w }

theorem grown_recount {u : Nat → Nat} (d : PortEnd) : s.Grown (s.recount u d) [] where
  channels c := (channels_recount d c).trans ((Grown.refl s).channels c)
  pipes p := by rw [pipes_recount]; exact (Grown.refl s).pipes p
  readers := content_recount d
  targets w := (target?_recount w).trans ((Grown.refl s).targets w)
  stores := by rcases d with (_ | _ | _) | (_ | _ | _) <;> rfl
  editors := by rcases d with (_ | _ | _) | (_ | _ | _) <;> rfl
  files := by rcases d with (_ | _ | _) | (_ | _ | _) <;> rfl

theorem grown_onPipe (p : PipeId) (f : Channel Bytes → Channel Bytes)
    (same : ∀ ch, (f ch).content = ch.content) : s.Grown (s.onPipe p f) [] :=
  { Grown.refl s with
    pipes := fun q => (map_getElem?_modify s.pipes p.index q.index f _ same).trans
      ((Grown.refl s).pipes q) }

theorem grown_release (s : System) (e : PortEnd) : s.Grown (s.release e) [] := by
  rcases s.release_cases e with same | ⟨p, -, -, same⟩
  · rw [same]
    exact grown_recount e
  · rw [same]
    exact (grown_recount e).trans (grown_onPipe p _ (content_dropSide e))

theorem grown_perform (addition : r.isAddition) (reply : r.perform? s = some (x, s')) :
    s.Grown s' [.asked r x] := by
  cases r with
  | newScope | setVar =>
    cases reply
    exact Grown.quiet { Grown.refl s with } (fun _ => rfl) (fun _ => rfl) fun _ => rfl
  | holdChannel d =>
    cases reply
    rw [holdChannel_eq]
    exact (grown_recount _).quiet (fun _ => rfl) (fun _ => rfl) fun _ => rfl
  | holdStream d =>
    cases reply
    rw [holdStream_eq]
    exact (grown_recount _).quiet (fun _ => rfl) (fun _ => rfl) fun _ => rfl
  | releaseChannel d =>
    cases reply
    exact (grown_release s (.channel d)).quiet (fun _ => rfl) (fun _ => rfl) fun _ => rfl
  | releaseStream d =>
    cases reply
    exact (grown_release s (.stream d)).quiet (fun _ => rfl) (fun _ => rfl) fun _ => rfl
  | offer | settle | offerBytes | settleBytes | flush => exact grown_writing rfl reply
  | _ => cases addition

end System

def Adds (es : List Event) : Prop := ∀ r x, .asked r x ∈ es → r.isAddition

theorem adds_append (first : Adds es) (rest : Adds es') : Adds (es ++ es') :=
  fun r x mem => (List.mem_append.1 mem).elim (first r x) (rest r x)

namespace System

theorem After.grown (after : s.After es s') (adds : Adds es) : s.Grown s' es := by
  induction after with
  | nil => exact .refl _
  | @called call s _ _ _ ih =>
    have first : s.Grown s [.called call] :=
      (Grown.refl s).quiet (fun _ => rfl) (fun _ => rfl) fun _ => rfl
    exact first.trans (ih fun r x mem => adds r x (.tail _ mem))
  | asked reply _ ih =>
    exact (grown_perform (adds _ _ (.head _)) reply).trans (ih fun r x mem => adds r x (.tail _ mem))

/-! ### Holders -/

theorem holders_addition (addition : r.isAddition) (reply : r.perform? s = some (x, s'))
    (e : PortEnd) : s'.holders e = s.holders e ∨ s'.holders e = oneMore (s.holders e) ∨
      s'.holders e = s.holders e - 1 := by
  have recount (u : Nat → Nat) (zero : u 0 = 0) (d : PortEnd) :
      (s.recount u d).holders e = s.holders e ∨ (s.recount u d).holders e = u (s.holders e) := by
    rw [holders_recount zero]
    split
    · exact .inr rfl
    · exact .inl rfl
  cases r with
  | newScope | setVar => cases reply; exact .inl rfl
  | holdChannel d =>
    cases reply
    rw [holdChannel_eq]
    exact (recount oneMore rfl _).imp_right .inl
  | holdStream d =>
    cases reply
    rw [holdStream_eq]
    exact (recount oneMore rfl _).imp_right .inl
  | releaseChannel d =>
    cases reply
    rw [releaseChannel_eq]
    exact (recount (· - 1) rfl _).imp_right .inr
  | releaseStream d =>
    cases reply
    rw [holders_releaseStream]
    exact (recount (· - 1) rfl _).imp_right .inr
  | offer | settle | offerBytes | settleBytes | flush =>
    exact .inl ((Request.sameShape_perform rfl reply).holders e)
  | _ => cases addition

theorem After.holders_pos (after : s.After es s') (adds : Adds es) (held : 0 < s'.holders e) :
    0 < s.holders e := by
  induction after with
  | nil => exact held
  | called _ ih => exact ih (fun r x mem => adds r x (.tail _ mem)) held
  | asked reply _ ih =>
    have rest := ih (fun r x mem => adds r x (.tail _ mem)) held
    have first := holders_addition (adds _ _ (.head _)) reply e
    rw [oneMore] at first
    split at first <;> omega

theorem holders_hold (s : System) (d e : PortEnd) : (s.recount oneMore d).holders e =
    if s.holders e = 0 then 0 else s.holders e + if e = d then 1 else 0 := by
  rw [holders_recount rfl, oneMore]
  split
  · rfl
  · split <;> simp_all

theorem holders_holdEvents {ports : List Port} (after : s.After (holdEvents ports) s')
    (e : PortEnd) :
    s'.holders e = if s.holders e = 0 then 0 else s.holders e + holdsOf e ports := by
  induction ports generalizing s with
  | nil =>
    cases after
    simp [holdsOf]
  | cons p ports ih =>
    obtain - | ⟨first, - | ⟨second, rest⟩⟩ := after
    cases first
    cases second
    rw [ih rest, holdsOf, Port.holds, holdStream_eq, holders_hold, holdChannel_eq, holders_hold]
    by_cases none : s.holders e = 0
    · simp [none]
    · simp only [none, ↓reduceIte, Nat.add_eq_zero_iff, false_and]
      omega

theorem holders_releaseEvents {ports : List Port} (after : s.After (releaseEvents ports) s')
    (e : PortEnd) : s'.holders e = s.holders e - holdsOf e ports := by
  induction ports generalizing s with
  | nil =>
    cases after
    rfl
  | cons p ports ih =>
    obtain - | ⟨first, - | ⟨second, rest⟩⟩ := after
    cases first
    cases second
    rw [ih rest, holdsOf, Port.holds, holders_releaseStream, holders_recount rfl,
      releaseChannel_eq, holders_recount rfl]
    split <;> split <;> omega

theorem holders_holdEvents_of_le {ports : List Port} {e : PortEnd}
    (after : s.After (holdEvents ports) s') (enough : holdsOf e ports ≤ s.holders e) :
    s'.holders e = s.holders e + holdsOf e ports := by
  rw [holders_holdEvents after]
  split <;> omega

theorem holders_releaseEvents_of_le {ports : List Port} {e : PortEnd}
    (after : s.After (releaseEvents ports) s') (enough : holdsOf e ports ≤ s.holders e) :
    s'.holders e + holdsOf e ports = s.holders e := by
  rw [holders_releaseEvents after]
  omega

end System

/-! ### Sides of pipes -/

def PortEnd.side : PortEnd → Channel Bytes → Nat
  | stream (.reading _) => Channel.readers
  | stream (.writing _) => Channel.writers
  | _ => fun _ => 0

namespace System

theorem Grown.behind? (grown : s.Grown s' es) (e : PortEnd) : s'.behind? e = s.behind? e := by
  match e with
  | .channel _ | .stream .closed => rfl
  | .stream (.writing w) => exact grown.writingPipe? w
  | .stream (.reading q) =>
    have sources := congrArg (Option.map Prod.fst) (grown.readers q)
    simp only [Option.map_map] at sources
    exact congrArg (Option.bind · Source.pipe?) sources

theorem side_dropSide {d : PortEnd} (other : d.side ≠ e.side) (ch : Channel Bytes) :
    e.side (d.dropSide ch) = e.side ch := by
  match d, e with
  | .stream (.reading _), .stream (.reading _) | .stream (.writing _), .stream (.writing _) =>
    exact absurd rfl other
  | .channel _, _ | .stream .closed, _ => rfl
  | .stream (.reading _), .channel _ | .stream (.reading _), .stream .closed
  | .stream (.reading _), .stream (.writing _) | .stream (.writing _), .channel _
  | .stream (.writing _), .stream .closed | .stream (.writing _), .stream (.reading _) => rfl

theorem side_release {d : PortEnd}
    (kept : s.behind? d = some p → d.side = e.side → s.holders d ≠ 1) :
    ((s.release d).pipes[p.index]?).map e.side = (s.pipes[p.index]?).map e.side := by
  rcases s.release_cases d with same | ⟨q, last, behind, same⟩
  · rw [same, pipes_recount]
  · rw [same, onPipe, pipes_recount]
    by_cases here : q = p
    · subst here
      have other : d.side ≠ e.side := fun same => kept behind same last
      exact map_getElem?_modify s.pipes q.index q.index _ _ (side_dropSide other)
    · rw [pipes_modify_other here]

theorem side_perform (addition : r.isAddition) (reply : r.perform? s = some (x, s'))
    (kept : ∀ d, s.behind? d = some p → d.side = e.side → 0 < s.holders d → 0 < s'.holders d) :
    (s'.pipes[p.index]?).map e.side = (s.pipes[p.index]?).map e.side := by
  have release {d : PortEnd} (same : s' = s.release d) :
      (s'.pipes[p.index]?).map e.side = (s.pipes[p.index]?).map e.side := by
    subst same
    refine side_release fun behind side one => ?_
    have still := kept d behind side (by omega)
    rw [holders_release, if_pos rfl] at still
    omega
  cases r with
  | newScope | setVar => cases reply; rfl
  | holdChannel d => cases reply; rw [holdChannel_eq, pipes_recount]
  | holdStream d => cases reply; rw [holdStream_eq, pipes_recount]
  | releaseChannel d => cases reply; exact release (d := .channel d) rfl
  | releaseStream d => cases reply; exact release (d := .stream d) rfl
  | offer | settle | offerBytes | settleBytes | flush =>
    have sides := (Request.sameShape_perform rfl reply).pipes p.index
    have readers := congrArg (Option.map Prod.fst) sides
    have writers := congrArg (Option.map Prod.snd) sides
    simp only [Option.map_map] at readers writers
    match e with
    | .stream (.reading _) => exact readers
    | .stream (.writing _) => exact writers
    | .channel _ | .stream .closed =>
      simpa [Function.comp_def, PortEnd.side] using congrArg (Option.map fun _ => 0) sides
  | _ => cases addition

theorem After.side (after : s.After es s') (adds : Adds es)
    (kept : ∀ d, s.behind? d = some p → d.side = e.side → 0 < s.holders d → 0 < s'.holders d) :
    (s'.pipes[p.index]?).map e.side = (s.pipes[p.index]?).map e.side := by
  induction after with
  | nil => rfl
  | called _ ih => exact ih (fun r x mem => adds r x (.tail _ mem)) kept
  | @asked r x s s₁ _ _ reply rest ih =>
    have addition := adds r x (.head _)
    have others : Adds _ := fun r x mem => adds r x (.tail _ mem)
    have behind := (grown_perform addition reply).behind?
    refine (ih others fun d leads side held => ?_).trans (side_perform addition reply ?_)
    · rw [behind] at leads
      have before := After.holders_pos (.asked reply .nil)
        (fun r x mem => by cases List.mem_singleton.1 mem; exact addition) held
      exact kept d leads side before
    · intro d leads side held
      exact rest.holders_pos others (kept d leads side held)

end System

end Conduit
