import Conduit.Builtin.Registry
import Conduit.Context.Call
import Conduit.Proc.Run
import Conduit.Script.Basic

/-!
Running statements.  A statement first evaluates its expressions, from left to right; one that
has no value ends the statement before it does anything.
-/

namespace Conduit.Script

open Proc (ask)

abbrev Eval := ExceptT Error Proc

structure Frame where
  registry : Registry
  ctx : Context
  args : List Value := []

namespace Expr

mutual

def eval (f : Frame) : Expr → Eval Value
  | value v => pure v
  | var name => do
    match ← liftM (f.ctx.get? name) with
    | some v => pure v
    | none => throw (.unboundVariable name)
  | arg i =>
    match f.args[i]? with
    | some v => pure v
    | none => throw (.noArgument i)
  | list items => Value.list <$> evalItems f items
  | map pairs => Value.map <$> evalPairs f pairs
termination_by structural e => e

def evalItems (f : Frame) : List Expr → Eval (List Value)
  | [] => pure []
  | e :: rest => do
    let v ← eval f e
    let vs ← evalItems f rest
    pure (v :: vs)
termination_by structural es => es

def evalPairs (f : Frame) : List (Expr × Expr) → Eval (List (Value × Value))
  | [] => pure []
  | (k, e) :: rest => do
    let key ← eval f k
    let v ← eval f e
    let ps ← evalPairs f rest
    pure ((key, v) :: ps)
termination_by structural ps => ps

end

end Expr

def Feed.open (feed : Feed) (values : Option (List Value)) : Proc Port := do
  let channel ← match values with
    | none => pure ChannelEnd.closed
    | some vs => ChannelEnd.reading <$> ask (.newChannel (.ofList vs))
  if feed.bytes.isNone && feed.failure.isNone then pure ⟨channel, .closed⟩
  else
    let source := Source.fixed (feed.bytes.getD []) feed.failure
    let r ← ask (.newReader { source, bufferSize := ByteReader.standardBuffer })
    pure ⟨channel, .reading r⟩

def Feed.eval (f : Frame) (feed : Feed) : Eval (Option (List Value)) :=
  match feed.values with
  | none => pure none
  | some es => some <$> Expr.evalItems f es

def callInSub (ctx : Context) (b : Builtin) (args : List Value) (input output : Option Port) :
    Proc Signal := do
  let sub ← ctx.fork "sub"
  let sub ← match input with
    | some p => sub.setPort 0 p
    | none => pure sub
  let sub ← match output with
    | some p => sub.setPort 1 p
    | none => pure sub
  sub.closing fun sub => return (← b.call sub args, sub)

def callCaptured (f : Frame) (b : Builtin) (args : List Value) (input : Option Port)
    (var : String) : Proc Signal := do
  let c ← ask (.newChannel { capacity := none })
  let s ← callInSub f.ctx b args input (some ⟨.writing c, .closed⟩)
  let vs ← (ChannelEnd.reading c).takeAll
  f.ctx.set var (.list vs)
  pure s

def callWith (f : Frame) (b : Builtin) (args : List Value) (input : Option Port) :
    Option String → Proc Signal
  | some var => callCaptured f b args input var
  | none => if input.isSome then callInSub f.ctx b args input none else b.call f.ctx args

def runCall (f : Frame) (name : String) (args : List Expr) (feed : Option Feed)
    (capture : Option String) : Eval Signal := do
  let vs ← Expr.evalItems f args
  let fed ← match feed with
    | none => pure none
    | some feed => (fun values => some (feed, values)) <$> feed.eval f
  match f.registry.get? name with
  | none => throw (.unknownBuiltin name)
  | some b =>
    let input ← match fed with
      | none => pure none
      | some (feed, values) => some <$> liftM (feed.open values)
    liftM (callWith f b vs input capture)

def runInvoke (f : Frame) (function : Expr) (args : List Expr) : Eval Signal := do
  match ← function.eval f with
  | .closure c => do
    let vs ← Expr.evalItems f args
    liftM (f.ctx.inFork "invoke" fun ctx => c.call ctx vs)
  | _ => throw .notFunction

def withStages {α : Type} (f : Frame) (next : List Stage → Eval α) :
    List (String × List Expr) → Eval α
  | [] => next []
  | (name, args) :: rest =>
    match f.registry.get? name with
    | none => throw (.unknownBuiltin name)
    | some builtin => do
      let args ← Expr.evalItems f args
      withStages f (fun stages => next ({ builtin, args } :: stages)) rest

def runPipeline (f : Frame) (stages : List (String × List Expr)) (capacities : Capacities) :
    Eval (List Signal) :=
  withStages f (fun stages => liftM (Pipeline.run f.ctx capacities stages)) stages

def settle (e : Eval Signal) : Proc Signal := do
  match ← e.run with
  | .ok s => pure s
  | .error e => pure e.signal

mutual

def Statement.run (f : Frame) : Statement → Proc Signal
  | .call name args feed capture => settle (runCall f name args feed capture)
  | .set var e => settle do
    let v ← e.eval f
    liftM (f.ctx.set var v)
    pure .ok
  | .name var => do
    f.ctx.set var (.string f.ctx.name)
    pure .ok
  | .branch left right whenEqual otherwise => do
    let test : Eval Bool := do
      let v ← left.eval f
      let w ← right.eval f
      pure (v == w)
    match ← test.run with
    | .ok true => runAll f whenEqual
    | .ok false => runAll f otherwise
    | .error e => pure e.signal
  | .invoke function args => settle (runInvoke f function args)
  | .pipeline stages capacities => settle do
    return Pipeline.firstSignal (← runPipeline f stages capacities)

def runAll (f : Frame) : List Statement → Proc Signal
  | [] => pure .ok
  | s :: rest => do
    match ← s.run f with
    | .ok => runAll f rest
    | signal => pure signal

end

def host (registry : Registry) (bodies : List (List Statement))
    (scripts : List (String × List Statement)) : Host where
  body c ctx args :=
    return (← runAll { registry, ctx, args } ((bodies[c.identity]?).getD []), ctx.ports)
  script _ ctx path :=
    match scripts.lookup path with
    | some body => runAll { registry, ctx } body
    | none => pure (Error.noScript path).signal

end Conduit.Script
