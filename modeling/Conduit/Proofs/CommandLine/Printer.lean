import Conduit.CommandLine.Call
import Conduit.Proofs.Builtin.Lines
import Conduit.Proofs.Context.Closing
import Conduit.Proofs.System.Channels
import Conduit.Proofs.System.Written

/-!
The printer of values beside a call: what it has in hand, and what each of its steps takes from the
channel and puts on a stream that accepts all writes.
-/

namespace Conduit.CommandLine

open Proc

variable {h : Host} {s s' : System} {es : List Event} {c : ChannelId} {w : WriterId}

section Printer

variable (c : ChannelId) (w : WriterId)

def donePrinting : Proc Unit := releasing () [.channel (.reading c), .stream (.writing w)]

def printTurn : Unit → Proc (Unit ⊕ Unit) := fun () => do
  match ← (ChannelEnd.reading c).take with
  | none => pure (.inr ())
  | some v =>
    match ← ((StreamEnd.writing w).writeText (Builtin.line v.text)).run with
    | .ok () => pure (.inl ())
    | .error _ => pure (.inr ())

def printer : Proc Unit := .loop () (printTurn c w) fun _ => donePrinting c w

theorem printValues_eq : printValues (.reading c) (.writing w) = printer c w := rfl

def flushing : Proc Unit := .request (.flush w) fun
  | .ok () => printer c w
  | .error _ => donePrinting c w

def settling (ticket : Nat) : Proc Unit := .request (.settleBytes w ticket) fun
  | .ok () => flushing c w
  | .error _ => donePrinting c w

def writing (v : Value) : Proc Unit :=
  .request (.offerBytes w (Utf8.encode (Builtin.line v.text))) fun
    | .ok ticket => settling c w ticket
    | .error _ => donePrinting c w

def taking : Proc Unit := .request (.take c) fun
  | none => donePrinting c w
  | some v => writing c w v

theorem unfold_printer :
    Proc.unfold () (printTurn c w) (fun _ => donePrinting c w) = taking c w := by
  refine congrArg (Proc.request (.take c)) (funext fun x => ?_)
  cases x with
  | none => rfl
  | some v =>
    have nonempty : Utf8.encode (Builtin.line v.text) ≠ [] := by simp [Builtin.encode_line]
    obtain ⟨b, bytes, line⟩ := List.exists_cons_of_ne_nil nonempty
    change (((StreamEnd.writing w).write _).run.bind _).bind _ = writing c w v
    rw [writing, line]
    refine congrArg (Proc.request (.offerBytes w _)) (funext fun x => ?_)
    cases x with
    | error message => rfl
    | ok ticket =>
      refine congrArg (Proc.request (.settleBytes w ticket)) (funext fun x => ?_)
      cases x with
      | error message => rfl
      | ok =>
        refine congrArg (Proc.request (.flush w)) (funext fun x => ?_)
        cases x <;> rfl

inductive Printing : List Value → Proc Unit → Prop
  | turn : Printing [] (printer c w)
  | taking : Printing [] (taking c w)
  | writing (v : Value) : Printing [v] (writing c w v)
  | settling (ticket : Nat) : Printing [] (settling c w ticket)
  | flushing : Printing [] (flushing c w)

inductive Prints (bytes : Array UInt8) (s : System) : List Value → Proc Unit → System → Prop
  | onward {pending : List Value} {q : Proc Unit} (printing : Printing c w pending q) :
      Prints bytes s pending q s
  | took {v : Value} {s' : System} (take : s.takeValue? c = some (some v, s')) :
      Prints bytes s [] (writing c w v) s'
  | ended {s' : System} (take : s.takeValue? c = some (none, s')) :
      Prints bytes s [] (donePrinting c w) s'
  | wrote (v : Value) (ticket : Nat) : Prints bytes s [v] (settling c w ticket)
      (s.onWriter w ({ · with
        target := .sink (bytes ++ Utf8.encode (Builtin.line v.text)) none none }))

end Printer

theorem Printing.step {bytes : Array UInt8} {pending : List Value} {q q' : Proc Unit}
    (printing : Printing c w pending q) (sink : s.target? w = some (.sink bytes none none))
    (step : Step h q s es q' s') : Prints c w bytes s pending q' s' := by
  cases printing with
  | turn =>
    cases step with
    | loop => rw [unfold_printer]; exact .onward .taking
  | taking =>
    cases step with
    | @request _ _ _ _ _ x take =>
      cases x with
      | none => exact .ended take
      | some v => exact .took take
  | writing v =>
    cases step with
    | @request _ _ _ _ _ x reply =>
      simp only [Request.perform?, System.offerBytes, sink] at reply
      cases reply
      exact .wrote v 0
  | settling ticket =>
    cases step with
    | @request _ _ _ _ _ x reply =>
      simp only [Request.perform?, System.settleBytes?, sink] at reply
      cases reply
      exact .onward .flushing
  | flushing =>
    cases step with
    | @request _ _ _ _ _ x reply =>
      simp only [Request.perform?, System.flush, sink] at reply
      cases reply
      exact .onward .turn

theorem Printing.outcome {pending : List Value} {q : Proc Unit} (printing : Printing c w pending q) :
    q.outcome? = none := by
  cases printing <;> rfl

end Conduit.CommandLine
