import Conduit.Proofs.Port.Feeds
import Conduit.Proofs.System.Deposits

/-!
The output that a system makes of a port by itself, without anybody else at work: what is written is
answered by the requests of the write, each performed where all earlier items have been handed over.
-/

namespace Conduit

variable {s t : System} {out : Port} {item : Item} {items : List Item} {c : ChannelId}
  {w : WriterId} {p : PipeId} {v : Value} {b : Bytes}

namespace System

/-! ### What is handed over -/

def deposit (s : System) (out : Port) : Item → Deposit
  | .value v =>
    match out.channel with
    | .writing c => s.valueDeposit c v
    | _ => .nothing
  | .bytes b =>
    match out.stream with
    | .writing w => s.bytesDeposit w b
    | _ => .nothing

def handed (s : System) (out : Port) (item : Item) : System := (s.deposit out item).into s

def handedAll (s : System) (out : Port) (items : List Item) : System :=
  items.foldl (·.handed out ·) s

theorem handedAll_append (s : System) (out : Port) (items items' : List Item) :
    s.handedAll out (items ++ items') = (s.handedAll out items).handedAll out items' :=
  List.foldl_append

theorem handedAll_singleton (s : System) (out : Port) (item : Item) :
    s.handedAll out [item] = s.handed out item := rfl

/-! ### How it is answered -/

def answerValue (s : System) (c : ChannelId) (v : Value) :
    Option (Except PortError Unit) × WriteStep × ℕ :=
  match s.offerValue c v with
  | (.error e, _) => (some (.error e), .offer, 0)
  | (.ok ticket, t) => (t.settleValue? c ticket, .settle, ticket)

def answerOffered (s : System) (w : WriterId) (ticket : ℕ) :
    Option (Except PortError Unit) × WriteStep :=
  match s.settleBytes? w ticket with
  | none => (none, .settle)
  | some (.error message) => (some (.error (.io message)), .settle)
  | some (.ok ()) => (some ((s.flush w).mapError .io), .flush)

def answerBytes (s : System) (w : WriterId) (b : Bytes) :
    Option (Except PortError Unit) × WriteStep × ℕ :=
  match s.offerBytes w b with
  | (.error message, _) => (some (.error (.io message)), .offer, 0)
  | (.ok ticket, t) => ((t.answerOffered w ticket).1, (t.answerOffered w ticket).2, ticket)

def answerItem (s : System) (out : Port) : Item → Option (Except PortError Unit) × WriteStep × ℕ
  | .value v =>
    match out.channel with
    | .writing c => s.answerValue c v
    | _ => (some (.error .closed), .offer, 0)
  | .bytes b =>
    match out.stream with
    | .writing w => s.answerBytes w b
    | _ => (some (.error .closed), .offer, 0)

def output (s : System) (out : Port) : Output where
  answer got item := ((s.handedAll out got).answerItem out item).1
  step got item := ((s.handedAll out got).answerItem out item).2.1
  ticket got item := ((s.handedAll out got).answerItem out item).2.2

end System

def Scene.whole (σ : Scene) (out : Port) : System :=
  σ.system.handedAll out (σ.got ++ σ.begun.toList)

theorem handed_value (s : System) (v : Value) (writing : out.channel = .writing c) :
    s.handed out (.value v) = (s.offerValue c v).2 := by
  rw [System.handed, System.deposit, writing, System.offerValue_snd]

theorem handed_bytes (s : System) (b : Bytes) (writing : out.stream = .writing w) :
    s.handed out (.bytes b) = (s.offerBytes w b).2 := by
  rw [System.handed, System.deposit, writing, System.offerBytes_snd]

theorem whole_some (s : System) (got : List Item) (item : Item) :
    Scene.whole ⟨s, got, some item⟩ out = (s.handedAll out got).handed out item := by
  rw [Scene.whole, System.handedAll_append]
  rfl

theorem whole_none (s : System) (got : List Item) :
    Scene.whole ⟨s, got, none⟩ out = s.handedAll out got := by
  rw [Scene.whole, Option.toList_none, List.append_nil]

/-! ### Whole writes -/

section Sends

variable {o : Output} {got : List Item} {Match Ends : Scene → System → Prop}

theorem early_of_step {step : WriteStep} (here : o.step got item = step) :
    o.early step got item = o.answer got item := if_pos here

theorem early_of_other {step : WriteStep} (other : o.step got item ≠ step) :
    o.early step got item = some (.ok ()) := if_neg other

theorem sentAlike_value (writing : out.channel = .writing c)
    (answers : t.answerValue c v =
      (o.answer got (.value v), o.step got (.value v), o.ticket got (.value v)))
    (landed : Match ⟨s, got ++ [.value v], none⟩ (t.offerValue c v).2)
    (begun : Ends ⟨s, got, some (.value v)⟩ (t.offerValue c v).2) (unchanged : Ends ⟨s, got, none⟩ t) :
    SentAlike (o.behind out) .system Match Ends (out.send (.value v)).run ⟨s, got, none⟩ t := by
  rw [Port.send, writing]
  rcases offer : t.offerValue c v with ⟨e | ticket, t'⟩
  · obtain ⟨_, _, _, _, impossible, _⟩ | ⟨-, rfl, -⟩ := System.offerValue_cases offer
    · cases impossible
    · rw [System.answerValue, offer] at answers
      obtain ⟨answer, step, -⟩ : _ ∧ _ ∧ _ := by simpa only [Prod.mk.injEq] using answers
      have first := Port.offer_eq o s got none v writing
      rw [early_of_step step.symm, ← answer] at first
      exact .request first (congrArg some offer) (.refused .refl .refl unchanged)
  · rw [System.answerValue, offer] at answers
    obtain ⟨answer, step, number⟩ : _ ∧ _ ∧ _ := by simpa only [Prod.mk.injEq] using answers
    have first : o.behind out ⟨s, got, none⟩ (.offer c v) =
        some (.ok ticket, ⟨s, got, some (.value v)⟩) := by
      rw [Port.offer_eq o s got none v writing, early_of_other (by rw [← step]; decide), number]
      rfl
    have last := Port.settle_eq o s got v writing
    rw [offer] at landed begun
    rw [← number, ← answer] at last
    have settle : Replies.system t' (.settle c ticket) = (t'.settleValue? c ticket).map (·, t') := rfl
    refine .request first (congrArg some offer) ?_
    rcases reply : t'.settleValue? c ticket with _ | ⟨e | _⟩ <;> rw [reply] at last settle
    · exact .waiting .refl .refl last settle begun
    · exact .request last settle (.refused .refl .refl begun)
    · exact .taken (.request last .refl) (.request settle .refl) landed

theorem offerBytes_error {message : String} (offer : t.offerBytes w b = (.error message, s)) :
    s = t := by
  cases System.sent_of_offerBytes offer <;> rfl

theorem answerOffered_snd (s : System) (w : WriterId) (ticket : ℕ) :
    (s.answerOffered w ticket).2 ≠ .offer := by
  intro same
  rw [System.answerOffered] at same
  split at same <;> cases same

theorem sentAlike_bytes (writing : out.stream = .writing w) (solid : b ≠ [])
    (answers : t.answerBytes w b =
      (o.answer got (.bytes b), o.step got (.bytes b), o.ticket got (.bytes b)))
    (landed : Match ⟨s, got ++ [.bytes b], none⟩ (t.offerBytes w b).2)
    (begun : Ends ⟨s, got, some (.bytes b)⟩ (t.offerBytes w b).2) (unchanged : Ends ⟨s, got, none⟩ t) :
    SentAlike (o.behind out) .system Match Ends (out.send (.bytes b)).run ⟨s, got, none⟩ t := by
  obtain ⟨x, b, rfl⟩ := List.exists_cons_of_ne_nil solid
  rw [Port.send, writing]
  rcases offer : t.offerBytes w (x :: b) with ⟨message | ticket, t'⟩
  · obtain rfl := offerBytes_error offer
    rw [System.answerBytes, offer] at answers
    obtain ⟨answer, step, -⟩ : _ ∧ _ ∧ _ := by simpa only [Prod.mk.injEq] using answers
    have first := Port.offerBytes_eq o s got none (x :: b) writing
    rw [early_of_step step.symm, ← answer] at first
    exact .request first (congrArg some offer) (.refused .refl .refl unchanged)
  · rw [System.answerBytes, offer] at answers
    obtain ⟨answer, step, number⟩ : _ ∧ _ ∧ _ := by simpa only [Prod.mk.injEq] using answers
    have first : o.behind out ⟨s, got, none⟩ (.offerBytes w (x :: b)) =
        some (.ok ticket, ⟨s, got, some (.bytes (x :: b))⟩) := by
      rw [Port.offerBytes_eq o s got none (x :: b) writing,
        early_of_other (by rw [← step]; exact answerOffered_snd t' w ticket), number]
      rfl
    have settled := Port.settleBytes_eq o s got (x :: b) writing
    have last := Port.flush_eq o s got (x :: b) writing
    rw [offer] at landed begun
    rw [← number] at settled
    rw [← answer] at last
    have settle : Replies.system t' (.settleBytes w ticket) =
      (t'.settleBytes? w ticket).map (·, t') := rfl
    have flush : Replies.system t' (.flush w) = some (t'.flush w, t') := rfl
    refine .request first (congrArg some offer) ?_
    rcases reply : t'.settleBytes? w ticket with _ | ⟨message | _⟩ <;> rw [reply] at settle
    · rw [System.answerOffered, reply] at answer step
      rw [early_of_step step.symm, ← answer] at settled
      exact .waiting .refl .refl settled settle begun
    · rw [System.answerOffered, reply] at answer step
      rw [early_of_step step.symm, ← answer] at settled
      exact .request settled settle (.refused .refl .refl begun)
    · rw [System.answerOffered, reply] at step last
      have flushes : o.step got (.bytes (x :: b)) = .flush := step.symm
      rw [early_of_other (by rw [flushes]; decide)] at settled
      refine .request settled settle ?_
      rcases flushed : t'.flush w with message | _ <;> rw [flushed] at last flush
      · exact .request last flush (.refused .refl .refl begun)
      · exact .taken (.request last .refl) (.request flush .refl) landed

theorem sentAlike_handedAll (solid : item.Solid)
    (landed : Match ⟨s, got ++ [item], none⟩ (s.handedAll out (got ++ [item])))
    (ends : ∀ begun, Ends ⟨s, got, begun⟩ (Scene.whole ⟨s, got, begun⟩ out)) :
    SentAlike ((s.output out).behind out) .system Match Ends (out.send item).run ⟨s, got, none⟩
      (s.handedAll out got) := by
  have begun := ends (some item)
  have unchanged := ends none
  rw [whole_some] at begun
  rw [whole_none] at unchanged
  rw [System.handedAll_append, System.handedAll_singleton] at landed
  by_cases opened : out.canWrite item.view
  · cases item with
    | value v =>
      obtain ⟨c, writing⟩ := Port.exists_channel opened
      rw [handed_value _ v writing] at landed begun
      refine sentAlike_value writing ?_ landed begun unchanged
      simp only [System.output, System.answerItem, writing]
    | bytes b =>
      obtain ⟨w, writing⟩ := Port.exists_stream opened
      rw [handed_bytes _ b writing] at landed begun
      refine sentAlike_bytes writing solid ?_ landed begun unchanged
      simp only [System.output, System.answerItem, writing]
  · rw [Port.send_shut opened]
    exact .refused .refl .refl unchanged

end Sends

/-! ### What the answers depend on -/

namespace System

structure SameBehind (out : Port) (s t : System) : Prop where
  channel : ∀ c, out.channel = .writing c → t.channels[c.index]? = s.channels[c.index]?
  writer : ∀ w, out.stream = .writing w → t.writers[w.index]? = s.writers[w.index]?
  pipe : ∀ w p, out.stream = .writing w → s.writingPipe? w = some p →
    t.pipes[p.index]? = s.pipes[p.index]?

theorem deposit_congr (same : SameBehind out s t) (item : Item) :
    t.deposit out item = s.deposit out item := by
  cases item with
  | value v =>
    rw [deposit, deposit]
    split
    · next c writing => rw [valueDeposit, valueDeposit, same.channel c writing]
    · rfl
  | bytes b =>
    rw [deposit, deposit]
    split
    · next w writing =>
      have target : t.target? w = s.target? w := by rw [target?, target?, same.writer w writing]
      rw [bytesDeposit, bytesDeposit, target]
      split
      · rfl
      · next p here => rw [same.pipe w p writing (by rw [writingPipe?, here]; rfl)]
      · rfl
    · rfl

theorem deposit_cases (s : System) (out : Port) (item : Item) : s.deposit out item = .nothing ∨
    (∃ c ch, out.channel = .writing c ∧ s.deposit out item = .channel c ch) ∨
    (∃ w target, s.deposit out item = .sink w target) ∨
    ∃ w p ch, out.stream = .writing w ∧ s.writingPipe? w = some p ∧
      s.deposit out item = .pipe p ch := by
  cases item with
  | value v =>
    rw [deposit]
    split
    · next c writing =>
      rcases valueDeposit_cases s c v with none | ⟨ch, some⟩
      · exact .inl none
      · exact .inr (.inl ⟨c, ch, writing, some⟩)
    · exact .inl rfl
  | bytes b =>
    rw [deposit]
    split
    · next w writing =>
      rcases bytesDeposit_cases s w b with none | ⟨target, sunk⟩ | ⟨p, ch, behind, piped⟩
      · exact .inl none
      · exact .inr (.inr (.inl ⟨w, target, sunk⟩))
      · exact .inr (.inr (.inr ⟨w, p, ch, writing, behind, piped⟩))
    · exact .inl rfl

theorem writing_of_deposit {ch : Channel Value} (here : s.deposit out item = .channel c ch) :
    out.channel = .writing c := by
  rcases s.deposit_cases out item with some | ⟨_, _, writing, some⟩ | ⟨_, _, some⟩ |
    ⟨_, _, _, _, _, some⟩ <;> rw [some] at here <;> cases here
  exact writing

theorem writingPipe?_of_deposit {ch : Channel Bytes} (here : s.deposit out item = .pipe p ch) :
    ∃ w, out.stream = .writing w ∧ s.writingPipe? w = some p := by
  rcases s.deposit_cases out item with some | ⟨_, _, _, some⟩ | ⟨_, _, some⟩ |
    ⟨w, _, _, writing, behind, some⟩ <;> rw [some] at here <;> cases here
  exact ⟨w, writing, behind⟩

theorem sameShape_handed (s : System) (out : Port) (item : Item) :
    s.SameShape (s.handed out item) := by
  cases item with
  | value v =>
    cases writing : out.channel with
    | writing c => rw [handed_value s v writing]; exact sameShape_offerValue rfl
    | _ => simp only [handed, deposit, writing]; exact .refl s
  | bytes b =>
    cases writing : out.stream with
    | writing w => rw [handed_bytes s b writing]; exact sameShape_offerBytes rfl
    | _ => simp only [handed, deposit, writing]; exact .refl s

theorem SameBehind.handed (same : SameBehind out s t) (item : Item) :
    SameBehind out (s.handed out item) (t.handed out item) := by
  have shape := sameShape_handed s out item
  have into : t.handed out item = (s.deposit out item).into t := by
    rw [System.handed, deposit_congr same]
  rw [into]
  exact ⟨fun c writing => Deposit.channels_into_congr _ (same.channel c writing),
    fun w writing => Deposit.writers_into_congr _ (same.writer w writing),
    fun w p writing behind => Deposit.pipes_into_congr _
      (same.pipe w p writing ((shape.writingPipe? w).symm.trans behind))⟩

theorem SameBehind.handedAll (same : SameBehind out s t) (items : List Item) :
    SameBehind out (s.handedAll out items) (t.handedAll out items) := by
  induction items generalizing s t with
  | nil => exact same
  | cons item items ih => exact ih (same.handed item)

theorem answerValue_congr (same : SameBehind out s t) (writing : out.channel = .writing c)
    (v : Value) : t.answerValue c v = s.answerValue c v := by
  have channel := (same.handed (.value v)).channel c writing
  have first : (t.offerValue c v).1 = (s.offerValue c v).1 := by
    rw [offerValue, offerValue, same.channel c writing]
    split <;> rfl
  rw [handed_value s v writing, handed_value t v writing] at channel
  rw [answerValue, answerValue]
  generalize s.offerValue c v = x at first channel ⊢
  generalize t.offerValue c v = y at first channel ⊢
  obtain ⟨a, s'⟩ := x
  obtain ⟨_, t'⟩ := y
  cases first
  cases a with
  | error e => rfl
  | ok ticket => simp only [settleValue?, channel]

theorem answerBytes_congr (same : SameBehind out s t) (writing : out.stream = .writing w)
    (b : Bytes) : t.answerBytes w b = s.answerBytes w b := by
  have after := same.handed (.bytes b)
  have target : t.target? w = s.target? w := by rw [target?, target?, same.writer w writing]
  have first : (t.offerBytes w b).1 = (s.offerBytes w b).1 := by
    rw [offerBytes, offerBytes, target]
    split
    · rfl
    · rfl
    · rfl
    · next p here =>
      rw [same.pipe w p writing (by rw [writingPipe?, here]; rfl)]
      split <;> rfl
  rw [handed_bytes s b writing, handed_bytes t b writing] at after
  rw [answerBytes, answerBytes]
  generalize s.offerBytes w b = x at first after ⊢
  generalize t.offerBytes w b = y at first after ⊢
  obtain ⟨a, s'⟩ := x
  obtain ⟨_, t'⟩ := y
  cases first
  cases a with
  | error message => rfl
  | ok ticket =>
    have target' : t'.target? w = s'.target? w := by
      rw [target?, target?, after.writer w writing]
    have settle : t'.settleBytes? w ticket = s'.settleBytes? w ticket := by
      rw [settleBytes?, settleBytes?, target']
      split
      · next p here => rw [after.pipe w p writing (by rw [writingPipe?, here]; rfl)]
      · rfl
    have flush : t'.flush w = s'.flush w := by rw [System.flush, System.flush, target']
    simp only [answerOffered, settle, flush]

theorem output_congr (same : SameBehind out s t) : t.output out = s.output out := by
  have answers (got : List Item) (item : Item) :
      (t.handedAll out got).answerItem out item = (s.handedAll out got).answerItem out item := by
    have same := same.handedAll got
    cases item with
    | value v =>
      rw [answerItem, answerItem]
      split
      · next c writing => exact answerValue_congr same writing v
      · rfl
    | bytes b =>
      rw [answerItem, answerItem]
      split
      · next w writing => exact answerBytes_congr same writing b
      · rfl
  simp only [output, answers]

end System

/-! ### A channel without a limit -/

/-- Whoever writes to the channel is never kept waiting, and is not refused anything. -/
def System.Endless (s : System) (c : ChannelId) : Prop :=
  ∃ ch, s.channels[c.index]? = some ch ∧ ch.capacity = none ∧ ch.readers ≠ 0 ∧ ch.writers ≠ 0

theorem channels_handed_bytes (s : System) (out : Port) (b : Bytes) :
    (s.handed out (.bytes b)).channels = s.channels := by
  rw [System.handed, System.deposit]
  split
  · next w _ =>
    rcases s.bytesDeposit_cases w b with some | ⟨_, some⟩ | ⟨_, _, -, some⟩ <;> rw [some] <;> rfl
  · rfl

theorem offerValue_of_held {ch : Channel Value} (here : s.channels[c.index]? = some ch)
    (readers : ch.readers ≠ 0) (writers : ch.writers ≠ 0) (v : Value) :
    s.offerValue c v = (.ok (ch.offered + 1), s.onChannel c fun _ => { ch with
      queue := ch.queue ++ [v] }) := by
  rcases System.offerValue_cases (Prod.mk.eta (p := s.offerValue c v)).symm with
    ⟨ch', here', -, -, ticket, after⟩ | ⟨-, -, gone⟩
  · rw [here] at here'
    cases here'
    exact Prod.ext ticket after
  · rcases gone ch here with none | none
    · exact absurd none readers
    · exact absurd none writers

theorem System.Endless.handed (endless : s.Endless c) (writing : out.channel = .writing c)
    (item : Item) : (s.handed out item).Endless c := by
  cases item with
  | value v =>
    obtain ⟨ch, here, capacity, readers, writers⟩ := endless
    rw [handed_value s v writing, offerValue_of_held here readers writers]
    refine ⟨{ ch with queue := ch.queue ++ [v] }, ?_, capacity, readers, writers⟩
    simp [System.onChannel, Array.getElem?_modify, here]
  | bytes b =>
    rw [Endless, channels_handed_bytes]
    exact endless

theorem System.Endless.handedAll (endless : s.Endless c) (writing : out.channel = .writing c)
    (items : List Item) : (s.handedAll out items).Endless c := by
  induction items generalizing s with
  | nil => exact endless
  | cons item items ih => exact ih (endless.handed writing item)

theorem unlimited_output (writing : out.channel = .writing c) (endless : s.Endless c) :
    Unlimited out (s.output out) .values := by
  intro got item kind
  obtain ⟨ch, here, capacity, readers, writers⟩ := endless.handedAll writing got
  cases item with
  | bytes b => cases kind
  | value v =>
    have writable : out.canWrite .values := by rw [Port.canWrite, writing]; rfl
    have settled : Channel.settled? { ch with queue := ch.queue ++ [v] } (ch.offered + 1) =
        some true := by
      simp [Channel.settled?, Channel.hasRoomFor, capacity]
    rw [Port.answer?, kind, if_pos writable]
    simp [System.output, System.answerItem, System.answerValue, writing,
      offerValue_of_held here readers writers, System.settleValue?, System.onChannel,
      Array.getElem?_modify, here, settled]

/-! ### What is read beside a port -/

def Request.Beside (r : Request) (s : System) (out : Port) : Prop :=
  ∀ item, (s.deposit out item).Apart s r

theorem perform?_handed {r : Request} (beside : r.Beside s out)
    (kept : ∀ x t, r.perform? s = some (x, t) → System.SameBehind out s t) (item : Item) :
    r.perform? (s.handed out item) = (r.perform? s).map fun (x, t) => (x, t.handed out item) := by
  rw [System.handed, Deposit.perform?_into (beside item)]
  cases reply : r.perform? s with
  | none => rfl
  | some y =>
    obtain ⟨x, t⟩ := y
    refine congrArg (fun d : Deposit => some (x, d.into t)) ?_
    exact (System.deposit_congr (kept x t reply) item).symm

end Conduit
