import Conduit.Pipeline
import Conduit.Proofs.Context.Holds

/-!
The stages of a pipeline and the links between them: which ports the context of each stage has, and
who holds which end of a link.
-/

namespace Conduit

namespace Pipeline

section Links

variable (s : System) (template : Context) (count k : Nat)

def linkChannel : ChannelId := ⟨s.channels.size + k⟩

def linkPipe : PipeId := ⟨s.pipes.size + k⟩

def linkReader : ReaderId := ⟨s.readers.size + k⟩

def linkWriter : WriterId := ⟨s.writers.size + k⟩

def writingPort : Port := ⟨.writing (linkChannel s k), .writing (linkWriter s k)⟩

def readingPort : Port := ⟨.reading (linkChannel s k), .reading (linkReader s k)⟩

def stageFork : Context :=
  { template with name := stageName template k, scope := ⟨s.scopes.size + k⟩ }

def stageEntry : Context :=
  if 0 < k then (stageFork s template k).putPort 0 (readingPort s (k - 1))
  else stageFork s template k

def stageContext : Context :=
  if k + 1 < count then (stageEntry s template k).putPort 1 (writingPort s k)
  else stageEntry s template k

end Links

variable {template : Context} {count k : Nat}

theorem input_stageContext (s : System) (template : Context) (count k : Nat) :
    (stageContext s template count k).input =
    if 0 < k then readingPort s (k - 1) else template.input := by
  rw [stageContext, stageEntry]
  split <;> split <;> simp [Context.input, Context.port_putPort] <;> rfl

theorem input_stageContext_succ (s : System) (template : Context) (count k : Nat) :
    (stageContext s template count (k + 1)).input =
    readingPort s k := by
  rw [input_stageContext, if_pos k.succ_pos, Nat.add_sub_cancel]

theorem port_one_stageEntry : (stageEntry s template k).port 1 = template.output := by
  rw [stageEntry]
  split
  · rw [Context.port_putPort, if_neg Nat.one_ne_zero]
    rfl
  · rfl

theorem output_stageContext (s : System) (template : Context) (count k : Nat) :
    (stageContext s template count k).output =
    if k + 1 < count then writingPort s k else template.output := by
  rw [stageContext]
  split
  · simp [Context.output, Context.port_putPort]
  · exact port_one_stageEntry

theorem holdsOf_stageEntry (s : System) (template : Context) (k : Nat) (isOpen : e.isOpen) :
    holdsOf e (stageEntry s template k).ports + (if 0 < k then template.input.holds e else 0) =
      holdsOf e template.ports + if 0 < k then (readingPort s (k - 1)).holds e else 0 := by
  rw [stageEntry]
  split
  · exact Context.holdsOf_putPort isOpen (stageFork s template k) 0 _
  · rfl

theorem holdsOf_stageContext (s : System) (template : Context) (count k : Nat)
    (isOpen : e.isOpen) :
    holdsOf e (stageContext s template count k).ports +
        ((if 0 < k then template.input.holds e else 0) +
          if k + 1 < count then template.output.holds e else 0) =
      holdsOf e template.ports + ((if 0 < k then (readingPort s (k - 1)).holds e else 0) +
        if k + 1 < count then (writingPort s k).holds e else 0) := by
  have entry := holdsOf_stageEntry s template k isOpen
  rw [stageContext]
  split
  · have all := Context.holdsOf_putPort isOpen (stageEntry s template k) 1 (writingPort s k)
    rw [port_one_stageEntry] at all
    omega
  · omega

end Pipeline

/-- The open ends of the template are held by someone, and the pipes that it reads from and writes
to are there. -/
structure Context.Sound (template : Context) (s : System) : Prop where
  held : ∀ e ∈ endsOf template.ports, e.isOpen → 0 < s.holders e
  reader : ∀ r p rest, template.input.stream = .reading r → s.source? r = some (.pipe p rest) →
    p.index < s.pipes.size
  writer : ∀ w p, template.output.stream = .writing w → s.target? w = some (.pipe p) →
    p.index < s.pipes.size

namespace Pipeline

variable {template : Context} {count k : Nat}

theorem holdsOf_stageContext_new (sound : template.Sound s) (isOpen : e.isOpen)
    (new : s.holders e = 0) : holdsOf e (stageContext s template count k).ports =
      (if 0 < k then (readingPort s (k - 1)).holds e else 0) +
        if k + 1 < count then (writingPort s k).holds e else 0 := by
  have none : holdsOf e template.ports = 0 := by
    refine Nat.eq_zero_of_not_pos fun some => ?_
    have held := sound.held e (holdsOf_pos_iff.1 some) isOpen
    omega
  have all := holdsOf_stageContext s template count k isOpen
  have input : template.input.holds e = 0 := by
    refine Nat.eq_zero_of_not_pos fun some => ?_
    have mem := Context.mem_endsOf_port isOpen (holds_pos_iff.1 some)
    exact absurd none (Nat.ne_of_gt (holdsOf_pos_iff.2 mem))
  have output : template.output.holds e = 0 := by
    refine Nat.eq_zero_of_not_pos fun some => ?_
    have mem := Context.mem_endsOf_port isOpen (holds_pos_iff.1 some)
    exact absurd none (Nat.ne_of_gt (holdsOf_pos_iff.2 mem))
  rw [none, input, output] at all
  simpa using all

end Pipeline

end Conduit
