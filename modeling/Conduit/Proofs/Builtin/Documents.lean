import Conduit.Builtin.Documents
import Conduit.Proofs.Builtin.Effect
import Conduit.Proofs.Builtin.Lines
import Conduit.Proofs.Json.Numerals
import Conduit.Proofs.Json.Values

/-!
The documents of the input bytes are decoded one after the other, however the bytes come in: each
gives the value that stands for it, up to the end of the input or to what is no document.
-/

namespace Conduit

open Proc (Meets ask meets_done meets_ask meets_iterate iterate)
open Json (Blanks Cursor Ending Extends Image Integer Number Result Spells Stream)
open Json.Decoder (Leads depthLimit document steady_document)

variable {h : Host} {ctx : Context} {s s' : System} {vs : List Value} {r : ReaderId}
  {bytes rest : Bytes} {count : Nat}

namespace Builtin

open Effect

/-! ### Up to the end of a document -/

def DocumentStart.outcome (start : DocumentStart) (bytes : Bytes) : Result (Option Json) :=
  document (start.cursor (start.read ++ bytes) .finished)

def DocumentStart.Pending (start : DocumentStart) : Prop :=
  start.read = [] ∨ document (start.cursor start.read .open) = .starved

theorem afterDocument_extend (ctx : Context) {found found' : Result (Option Json)} {ending : Ending}
    {more : Bytes} (extends_ : Extends more ending found found') (some : found ≠ .starved) :
    afterDocument ctx found' = afterDocument ctx found ∧ unread found' = unread found ++ more := by
  cases extends_ with
  | ok a c => cases a <;> exact ⟨rfl, rfl⟩
  | failed e c => exact ⟨rfl, rfl⟩
  | starved => exact absurd rfl some

theorem cursor_extend (start : DocumentStart) (bytes more : Bytes) (ending : Ending) :
    start.cursor (bytes ++ more) ending = (start.cursor bytes .open).extend more ending := rfl

theorem unread_of_extends {found : Result (Option Json)} {ending : Ending} {more : Bytes}
    (extends_ : Extends more ending .starved found) : unread found <:+ more := by
  cases found with
  | ok a c => exact extends_.rest_suffix rfl
  | failed e c => exact extends_.rest_suffix rfl
  | starved => exact List.nil_suffix

theorem unread_suffix (c : Cursor) : unread (document c) <:+ c.rest := by
  have reaches := steady_document.reaches c
  cases found : document c with
  | ok a c' =>
    rw [found] at reaches
    exact (reaches c' rfl).rest
  | failed e c' =>
    rw [found] at reaches
    exact (reaches c' rfl).rest
  | starved => exact List.nil_suffix

theorem consume_suffix {chunk left : Bytes} (suffix : left <:+ chunk) :
    chunk.drop (chunk.length - left.length) = left := by
  obtain ⟨front, rfl⟩ := suffix
  simp

def withChunk (ctx : Context) (r : ReaderId) (start : DocumentStart) (chunk : Bytes)
    (found : Result (Option Json)) : Proc (DocumentStart ⊕ Except BuiltinError Unit) :=
  match found with
  | .starved => do
    ask (.consume r chunk.length)
    pure (.inl { start with read := start.read ++ chunk })
  | result => do
    ask (.consume r (chunk.length - (unread result).length))
    afterDocument ctx result

theorem nextDocument_of_starved {start : DocumentStart}
    (starved : document (start.cursor start.read .open) = .starved) :
    nextDocument ctx r start = (ask (.fill r)).bind fun x => withChunk ctx r start (atHand x).1
      (document (start.cursor (start.read ++ (atHand x).1) (atHand x).2)) := by
  rw [nextDocument, starved]
  rfl

theorem nextDocument_of_found {start : DocumentStart}
    (some : document (start.cursor start.read .open) ≠ .starved) :
    nextDocument ctx r start = afterDocument ctx (document (start.cursor start.read .open)) := by
  rw [nextDocument]
  cases found : document (start.cursor start.read .open) with
  | ok a c => rfl
  | failed e c => rfl
  | starved => exact absurd found some

theorem withChunk_of_found {start : DocumentStart} {chunk : Bytes} {found : Result (Option Json)}
    (some : found ≠ .starved) : withChunk ctx r start chunk found =
      (ask (.consume r (chunk.length - (unread found).length))).bind
        fun _ => afterDocument ctx found := by
  cases found with
  | ok a c => rfl
  | failed e c => rfl
  | starved => exact absurd rfl some

theorem meets_consume (s : System) (r : ReaderId) (n : Nat) :
    Meets h (ask (.consume r n)) s fun _ s' => s' = s.consume r n := meets_ask rfl rfl

theorem unread_chunk_suffix {start : DocumentStart}
    (starved : document (start.cursor start.read .open) = .starved) (chunk : Bytes)
    (ending : Ending) :
    unread (document (start.cursor (start.read ++ chunk) ending)) <:+ chunk := by
  have step := steady_document.extends_ (start.cursor start.read .open) chunk ending rfl
  rw [starved, ← cursor_extend] at step
  exact unread_of_extends step

theorem meets_withChunk_ended {start : DocumentStart}
    (starved : document (start.cursor start.read .open) = .starved)
    {post : DocumentStart ⊕ Except BuiltinError Unit → System → Prop}
    (left : s.BytesLeft (.reading r) [] none)
    (answered : ∀ s', s'.BytesLeft (.reading r) (unread (start.outcome [])) none →
      s'.channels = s.channels → Meets h (afterDocument ctx (start.outcome [])) s' post) :
    Meets h (withChunk ctx r start [] (start.outcome [])) s post := by
  have settled : start.outcome [] ≠ .starved := steady_document.settles _ nofun
  have none : unread (start.outcome []) = [] :=
    List.suffix_nil.1 (unread_chunk_suffix starved [] .finished)
  obtain ⟨chunk, ahead, buffered, split⟩ := left
  obtain ⟨rfl, rfl⟩ := List.append_eq_nil_iff.1 split.symm
  rw [withChunk_of_found settled]
  refine (meets_consume s r _).bind ?_
  rintro _ _ rfl
  refine answered _ ?_ rfl
  rw [none]
  exact ⟨_, _, buffered.consume, rfl⟩

theorem meets_withChunk {start : DocumentStart} {chunk : Bytes}
    (starved : document (start.cursor start.read .open) = .starved)
    {post : DocumentStart ⊕ Except BuiltinError Unit → System → Prop}
    (buffered : s.Buffered r chunk rest none)
    (again : ∀ s', s'.BytesLeft (.reading r) rest none → s'.channels = s.channels →
      DocumentStart.Pending { start with read := start.read ++ chunk } →
      post (.inl { start with read := start.read ++ chunk }) s')
    (answered : ∀ s', s'.BytesLeft (.reading r) (unread (start.outcome (chunk ++ rest))) none →
      s'.channels = s.channels →
      Meets h (afterDocument ctx (start.outcome (chunk ++ rest))) s' post) :
    Meets h (withChunk ctx r start chunk
      (document (start.cursor (start.read ++ chunk) .open))) s post := by
  by_cases still : document (start.cursor (start.read ++ chunk) .open) = .starved
  · rw [still]
    refine (meets_consume s r _).bind ?_
    rintro _ _ rfl
    refine meets_done (again _ ?_ rfl (.inr still))
    exact ⟨_, _, buffered.consume, by simp⟩
  · have step := steady_document.extends_ (start.cursor (start.read ++ chunk) .open) rest
      .finished rfl
    rw [← cursor_extend, List.append_assoc] at step
    obtain ⟨after, more⟩ := afterDocument_extend ctx step still
    rw [withChunk_of_found still]
    refine (meets_consume s r _).bind ?_
    rintro _ _ rfl
    rw [← after]
    refine answered _ ?_ rfl
    rw [DocumentStart.outcome, more]
    refine ⟨_, _, buffered.consume, ?_⟩
    rw [consume_suffix (unread_chunk_suffix starved chunk .open)]

theorem meets_nextDocument {start : DocumentStart} (pending : start.Pending)
    {post : DocumentStart ⊕ Except BuiltinError Unit → System → Prop}
    (left : s.BytesLeft (.reading r) bytes none)
    (again : ∀ chunk rest s', chunk ≠ [] → bytes = chunk ++ rest →
      s'.BytesLeft (.reading r) rest none → s'.channels = s.channels →
      DocumentStart.Pending { start with read := start.read ++ chunk } →
      post (.inl { start with read := start.read ++ chunk }) s')
    (answered : ∀ s', s'.BytesLeft (.reading r) (unread (start.outcome bytes)) none →
      s'.channels = s.channels → Meets h (afterDocument ctx (start.outcome bytes)) s' post) :
    Meets h (nextDocument ctx r start) s post := by
  by_cases starved : document (start.cursor start.read .open) = .starved
  · obtain ⟨x, s₁, fill, gives⟩ := System.exists_fillBuffer? left
    have same : s₁.channels = s.channels := (System.reads_fillBuffer? fill).sameHolds.channels
    have filled : Meets h (ask (.fill r)) s fun y s' => y = x ∧ s' = s₁ :=
      meets_ask fill ⟨rfl, rfl⟩
    rw [nextDocument_of_starved starved]
    refine filled.bind ?_
    rintro x s₁ ⟨rfl, rfl⟩
    cases gives with
    | ended left' =>
      exact meets_withChunk_ended starved left' fun s' left'' same' =>
        answered s' left'' (same'.trans same)
    | @chunk chunk rest nonempty buffered =>
      have hand : atHand (.ok chunk) = (chunk, .open) := by
        obtain ⟨b, chunk, rfl⟩ := List.exists_cons_of_ne_nil nonempty
        rfl
      rw [hand]
      exact meets_withChunk starved buffered
        (fun s' left' same' => again chunk rest s' nonempty rfl left' (same'.trans same))
        fun s' left' same' => answered s' left' (same'.trans same)
  · have empty : start.read = [] := pending.resolve_right starved
    have step := steady_document.extends_ (start.cursor start.read .open) bytes .finished rfl
    obtain ⟨same, more⟩ := afterDocument_extend ctx step starved
    have none : unread (document (start.cursor start.read .open)) = [] := by
      have suffix := unread_suffix (start.cursor start.read .open)
      exact List.suffix_nil.1 (empty ▸ suffix)
    rw [nextDocument_of_found starved, ← same]
    refine answered s ?_ rfl
    rw [DocumentStart.outcome, cursor_extend, more, none]
    exact left

theorem meets_untilDocument {start : DocumentStart} (pending : start.Pending)
    {post : Except BuiltinError Unit → System → Prop}
    (left : s.BytesLeft (.reading r) bytes none)
    (answered : ∀ s', s'.BytesLeft (.reading r) (unread (start.outcome bytes)) none →
      s'.channels = s.channels →
      Meets h (afterDocument ctx (start.outcome bytes)) s' fun
        | .inl next, s'' => Meets h (iterate next (nextDocument ctx r)) s'' post
        | .inr result, s'' => post result s'') :
    Meets h (iterate start (nextDocument ctx r)) s post := by
  -- a turn that does not answer takes a chunk off the bytes that are left
  induction hn : bytes.length using Nat.strongRecOn generalizing bytes s start with
  | _ n ih =>
  refine meets_iterate (meets_nextDocument pending left ?_ answered) (fun _ _ holds => holds)
    fun _ _ holds => holds
  rintro chunk rest s' nonempty rfl left' same pending'
  have shorter : rest.length < n := by
    have := List.length_pos_iff.2 nonempty
    rw [List.length_append] at hn
    omega
  have outcome : start.outcome (chunk ++ rest) =
      DocumentStart.outcome { start with read := start.read ++ chunk } rest := by
    rw [DocumentStart.outcome, ← List.append_assoc]
    rfl
  rw [outcome] at answered
  exact ih rest.length shorter pending' left' (fun s'' left'' same' =>
    answered s'' left'' (same'.trans same)) rfl

/-! ### Documents one after the other -/

inductive Leading : Bytes → List Json → Bytes → Prop
  | nil (tail : Bytes) : Leading tail [] tail
  | cons {bytes rest tail : Bytes} {j : Json} {js : List Json} (first : Leads bytes j rest)
    (others : Leading rest js tail) : Leading bytes (j :: js) tail

def EndsAt (tail : Bytes) (result : Except BuiltinError Unit) : Prop :=
  (Blanks tail → result = .ok ()) ∧ (¬ Blanks tail → ∃ message, result = .error (.external message))

theorem holds_cursor {start : DocumentStart} {whole : Bytes}
    (ahead : start.peeked.toList ++ (start.read ++ bytes) = whole) :
    (start.cursor (start.read ++ bytes) .finished).Holds whole := ⟨rfl, ahead⟩

theorem meets_lastDocument {start : DocumentStart} {tail : Bytes}
    (ahead : start.peeked.toList ++ (start.read ++ bytes) = tail)
    (last : ∀ j rest, ¬ Leads tail j rest) (s : System) :
    Meets h (afterDocument ctx (start.outcome bytes)) s fun y s' =>
      s' = s ∧ ∃ result, y = .inr result ∧ EndsAt tail result := by
  have holds := holds_cursor ahead
  cases found : start.outcome bytes with
  | ok x c' =>
    rcases Json.Decoder.of_document found with ⟨rfl, blank⟩ | ⟨j, rfl, leads⟩
    · rw [holds.ahead] at blank
      exact meets_done ⟨rfl, _, rfl, fun _ => rfl, fun other => absurd blank other⟩
    · rw [holds.ahead] at leads
      exact absurd leads (last j _)
  | failed e c' =>
    have notBlank : ¬ Blanks tail := fun blank => by
      obtain ⟨c, other⟩ := Json.Decoder.exists_document_none blank holds
      rw [DocumentStart.outcome, other] at found
      cases found
    exact meets_done ⟨rfl, _, rfl, fun blank => absurd blank notBlank, fun _ => ⟨_, rfl⟩⟩
  | starved => exact absurd found (steady_document.settles _ nofun)

theorem meets_document {c : Cursor} {j : Json}
    (room : s.ValuesWritten ctx.output.channel vs (count + 1)) :
    Meets h (afterDocument ctx (.ok (some j) c)) s fun y s' =>
      y = .inl { peeked := c.peeked, position := c.position } ∧
        s'.ValuesWritten ctx.output.channel (vs ++ [j.toValue]) count ∧
        s'.readers = s.readers ∧ s'.pipes = s.pipes := by
  refine (meets_emit room j.toValue).bind ?_
  rintro _ s' ⟨rfl, room', same⟩
  exact meets_done ⟨rfl, room', same⟩

theorem meets_documents {whole tail : Bytes} {js : List Json} (documents : Leading whole js tail)
    (last : ∀ j rest, ¬ Leads tail j rest) {start : DocumentStart} (pending : start.Pending)
    (left : s.BytesLeft (.reading r) bytes none)
    (ahead : start.peeked.toList ++ (start.read ++ bytes) = whole)
    (room : s.ValuesWritten ctx.output.channel vs (js.length + count)) :
    Meets h (iterate start (nextDocument ctx r)) s fun result s' => EndsAt tail result ∧
      s'.ValuesWritten ctx.output.channel (vs ++ js.map Json.toValue) count := by
  induction documents generalizing start s vs bytes with
  | nil tail =>
    refine meets_untilDocument pending left fun s₁ left' same => ?_
    refine (meets_lastDocument ahead last s₁).mono ?_
    rintro _ s₂ ⟨rfl, result, rfl, ends⟩
    refine ⟨ends, ?_⟩
    simpa using room.congr same
  | @cons whole rest tail j js first others ih =>
    obtain ⟨c, found, holds⟩ := Json.Decoder.exists_document first (holds_cursor ahead)
    have outcome : start.outcome bytes = .ok (some j) c := found
    rw [List.length_cons, Nat.add_right_comm] at room
    refine meets_untilDocument pending left fun s₁ left' same => ?_
    rw [outcome] at left' ⊢
    refine (meets_document (room.congr same)).mono ?_
    rintro _ s₂ ⟨rfl, room', readers, pipes⟩
    have fresh : DocumentStart.Pending { peeked := c.peeked, position := c.position } := .inl rfl
    have rest := ih last fresh (left'.congr readers pipes) holds.ahead room'
    simpa using rest

theorem leading_of_blanks {tail : Bytes} {js : List Json} (all : Blanks bytes)
    (documents : Leading bytes js tail) : js = [] ∧ tail = bytes := by
  cases documents with
  | nil => exact ⟨rfl, rfl⟩
  | cons first others => exact absurd first (Json.Decoder.not_leads_of_blanks all)

theorem meets_fromJson {tail : Bytes} {js : List Json} (documents : Leading bytes js tail)
    (last : ∀ j rest, ¬ Leads tail j rest) (left : s.BytesLeft ctx.input.stream bytes none)
    (room : s.ValuesWritten ctx.output.channel vs (js.length + count)) :
    Meets h (fromJson ctx) s fun result s' => (Blanks tail → result = .ok) ∧
      (¬ Blanks tail → ∃ message, result = .failure message) ∧
        s'.ValuesWritten ctx.output.channel (vs ++ js.map Json.toValue) count := by
  have closed (none : bytes = []) : Meets h (pure .ok : Proc Signal) s fun result s' =>
      (Blanks tail → result = .ok) ∧ (¬ Blanks tail → ∃ message, result = .failure message) ∧
        s'.ValuesWritten ctx.output.channel (vs ++ js.map Json.toValue) count := by
    subst none
    obtain ⟨rfl, rfl⟩ := leading_of_blanks Json.blanks_nil documents
    refine meets_done ⟨fun _ => rfl, fun other => absurd Json.blanks_nil other, ?_⟩
    simpa using room
  rw [fromJson]
  split
  · next r stream =>
    rw [stream] at left
    have fresh : DocumentStart.Pending {} := .inl rfl
    refine meets_signal ((meets_documents documents last fresh left rfl room).mono ?_)
    rintro result s' ⟨⟨ok, failure⟩, room'⟩
    refine ⟨fun blank => by rw [ok blank]; rfl, fun other => ?_, room'⟩
    obtain ⟨message, rfl⟩ := failure other
    exact ⟨_, rfl⟩
  · next other =>
    cases stream : ctx.input.stream with
    | reading r => exact absurd stream (other r)
    | closed => exact closed (stream ▸ left).1
    | writing w => exact closed (stream ▸ left).1

theorem leading_of_stream {tail : Bytes} {js : List Json}
    (stream : Stream (Spells Number depthLimit) tail js bytes) : Leading bytes js tail := by
  induction stream with
  | nil => exact .nil tail
  | cons all first separated _ ih =>
    refine .cons ⟨all, first, .inr fun b hb => ?_⟩ ih
    rw [Json.Decoder.mayFollow, separated b hb]
    rfl

theorem meets_stream {number : Binary64 → Bytes → Prop} {tail : Bytes} {js : List Json}
    (reads : ∀ x text, number x text → Number x text)
    (stream : Stream (Spells number depthLimit) tail js bytes)
    (last : Blanks tail ∨ ∀ j rest, ¬ Leads tail j rest)
    (left : s.BytesLeft ctx.input.stream bytes none)
    (room : s.ValuesWritten ctx.output.channel vs (js.length + count)) :
    Meets h (fromJson ctx) s fun result s' => (Blanks tail → result = .ok) ∧
      (¬ Blanks tail → ∃ message, result = .failure message) ∧
      ∃ images, List.Forall₂ Image js images ∧
        s'.ValuesWritten ctx.output.channel (vs ++ images) count := by
  have documents : Leading bytes js tail :=
    leading_of_stream (stream.mono fun j text => Spells.mono reads)
  have last : ∀ j rest, ¬ Leads tail j rest :=
    last.elim (fun all j rest => Json.Decoder.not_leads_of_blanks all) id
  refine (meets_fromJson documents last left room).mono ?_
  rintro result s' ⟨ok, failure, room'⟩
  refine ⟨ok, failure, js.map Json.toValue, ?_, room'⟩
  exact List.forall₂_map_right_iff.2 (List.forall₂_same.2 fun j _ => Json.image_toValue j)

/-- Whatever trees are spelled on the input, however they are spelled, `from-json` emits the values
that stand for them, in order.  It fails if more follows than white space of which no further
document can be made, and then has emitted the same values before. -/
theorem documents_decoded {tail : Bytes} {js : List Json}
    (stream : Stream (Spells Integer depthLimit) tail js bytes)
    (last : Blanks tail ∨ ∀ j rest, ¬ Leads tail j rest)
    (left : s.BytesLeft ctx.input.stream bytes none)
    (room : s.ValuesWritten ctx.output.channel vs (js.length + count)) :
    Meets h (fromJson ctx) s fun result s' => (Blanks tail → result = .ok) ∧
      (¬ Blanks tail → ∃ message, result = .failure message) ∧
      ∃ images, List.Forall₂ Image js images ∧
        s'.ValuesWritten ctx.output.channel (vs ++ images) count :=
  meets_stream (fun _ _ => Integer.number) stream last left room

end Builtin

namespace DocumentsOfBytes

open Builtin LinesOfWords
open Json.Decoder (byte)

def first : Json := .object [("a", .number (.round 1 false)), ("a", .null)]

def second : Json := .array [.string "x"]

def written : Bytes := Json.word "\x7b\"a\": 1,\"a\":null\x7d\n[\"\\u0078\"] x"

def tail : Bytes := Json.word " x"

theorem plain_a : Json.StringText "a" (Json.word "\"a\"") :=
  ⟨_, .plain (show Json.Plain 'a' by decide) .nil, rfl⟩

theorem escaped_x : Json.StringText "x" (Json.word "\"\\u0078\"") :=
  have code : Json.Escape 'x' (byte 'u' :: Json.word "0078") :=
    .code ⟨rfl, [0, 0, 7, 8], rfl, rfl⟩
  ⟨_, .escaped code .nil, rfl⟩

theorem integer_one : Integer (.round 1 false) (Json.word "1") := ⟨1, by decide, by norm_num, rfl⟩

theorem blank : Blanks (Json.word " ") := by decide

theorem spells_first :
    Spells Integer depthLimit first (Json.word "\x7b\"a\": 1,\"a\":null\x7d") := by
  have one : Json.Field (Spells Integer 126) ("a", .number (.round 1 false))
      (Json.word "\"a\": 1") :=
    .mk plain_a Json.blanks_nil blank (.inl (.number integer_one))
  have none : Json.Field (Spells Integer 126) ("a", .null) (Json.word "\"a\":null") :=
    .mk plain_a Json.blanks_nil Json.blanks_nil
      (.inl (.literal (List.mem_cons_self : ("null", .null) ∈ Json.literals)))
  exact .inr (.object (.cons Json.blanks_nil one
    (.cons Json.blanks_nil Json.blanks_nil none (.nil Json.blanks_nil))))

theorem spells_second : Spells Integer depthLimit second (Json.word "[\"\\u0078\"]") :=
  have item : Spells Integer 126 (.string "x") (Json.word "\"\\u0078\"") :=
    .inl (.string escaped_x)
  .inr (.array (.cons Json.blanks_nil item (.nil Json.blanks_nil)))

theorem stream : Stream (Spells Integer depthLimit) tail [first, second] written := by
  refine .cons Json.blanks_nil spells_first ?_
    (.cons (show Blanks (Json.word "\n") by decide) spells_second ?_ .nil) <;>
  · rintro _ ⟨⟩
    rfl

theorem not_leads_tail (j : Json) (rest : Bytes) : ¬ Leads tail j rest := fun leads => by
  obtain ⟨c, found, -⟩ := Json.Decoder.exists_document leads
    (holds_cursor (rfl : ({} : DocumentStart).peeked.toList ++ ([] ++ tail) = tail))
  cases found

theorem images {vs : List Value} (images : List.Forall₂ Image [first, second] vs) :
    ∃ pairs, vs = [.map pairs, .list [.string "x"]] ∧
      Value.lookup pairs (.string "a") = some (.string "") := by
  obtain - | ⟨object, - | ⟨array, - | -⟩⟩ := images
  cases object with
  | @object _ pairs image keys images others =>
  cases array with
  | array items =>
  obtain - | ⟨string, - | -⟩ := items
  cases string
  refine ⟨pairs, rfl, ?_⟩
  rw [keys]
  have last := images "a" .null rfl
  generalize image "a" = v at last ⊢
  cases last
  rfl

theorem documents_before_stray_character :
    Meets Host.none (fromJson reader) (reading written) fun result s' =>
      (∃ message, result = .failure message) ∧ ∃ pairs,
        Value.lookup pairs (.string "a") = some (.string "") ∧
        s'.ValuesWritten reader.output.channel [.map pairs, .list [.string "x"]] 0 := by
  have room := valuesWritten written (2 + 0)
  refine (documents_decoded stream (.inr not_leads_tail) (bytesLeft _) room).mono ?_
  rintro result s' ⟨-, failure, vs, images', room⟩
  obtain ⟨pairs, rfl, found⟩ := images images'
  exact ⟨failure (by decide), pairs, found, room⟩

end DocumentsOfBytes

end Conduit
