import Conduit.Proofs.Context.Holds
import Conduit.Proofs.Proc.Meets

/-!
The array of ports of a context.  A context that has just been made has the ports with a role, and a
port that is put into the array stands where it was put, with closed ports below it where there were
none.  A closed port is at its end in both views and refuses whatever is written to it.
-/

namespace Conduit

open Proc

variable {h : Host} {α : Type}

def Proc.Yields (h : Host) (p : Proc α) (a : α) : Prop :=
  ∀ s, Meets h p s fun b s' => b = a ∧ s' = s

theorem Proc.yields_done (a : α) : Yields h (done a) a := fun _ => meets_done ⟨rfl, rfl⟩

/-! ### Closed ports -/

/-- Nothing is left to be read at the port, neither values nor bytes, and nothing can be written. -/
structure Port.AtEnd (h : Host) (p : Port) : Prop where
  take : Yields h p.channel.take none
  takeAll : Yields h p.channel.takeAll []
  readLine : Yields h p.stream.readLine ([], none)
  readTextLine : Yields h p.stream.readTextLine ("", Except.ok 0)
  readSome : ∀ n, Yields h (p.stream.readSome n) (Except.ok [])
  put : ∀ v, Yields h (p.channel.put v).run (Except.error .closed)
  write : ∀ bytes, Yields h (p.stream.write bytes).run (Except.error .closed)
  writeText : ∀ text, Yields h (p.stream.writeText text).run (Except.error .closed)
  refusal : PortError.closed.message = "port closed"

theorem Port.atEnd_closed : Port.closed.AtEnd h where
  take := yields_done none
  takeAll s := by
    have turn := yields_done (h := h) (Sum.inr [] : List Value ⊕ List Value) s
    refine meets_iterate turn ?_ ?_
    · rintro y s' ⟨more, -⟩
      cases more
    · rintro b s' ⟨all, rfl⟩
      cases all
      exact ⟨rfl, rfl⟩
  readLine := yields_done ([], none)
  readTextLine s := by
    have decoded : Utf8.decode? [] = some "" := by simp [Utf8.decode?, Utf8.units]
    refine Meets.bind (yields_done ([], none) s) ?_
    rintro _ s' ⟨rfl, rfl⟩
    dsimp only [List.length_nil]
    rw [decoded]
    exact meets_done ⟨rfl, rfl⟩
  readSome _ := yields_done (Except.ok [])
  put _ := yields_done (Except.error PortError.closed)
  write _ := yields_done (Except.error PortError.closed)
  writeText _ := yields_done (Except.error PortError.closed)
  refusal := rfl

namespace Context

variable {ctx ctx' : Context} {ports : List Port} {p : Port} {i j : Nat}

/-! ### Ports with a role -/

structure HasRoles (ctx : Context) : Prop where
  enough : 3 ≤ ctx.ports.length
  input : ctx.port? 0 = some ctx.input
  output : ctx.port? 1 = some ctx.output
  aux : ctx.port? 2 = some ctx.aux

theorem hasRoles_of_length (enough : 3 ≤ ctx.ports.length) : ctx.HasRoles where
  enough := enough
  input := port?_of_lt (by omega)
  output := port?_of_lt (by omega)
  aux := port?_of_lt (by omega)

structure Begun (name : String) (ports : List Port) (ctx : Context) : Prop where
  name : ctx.name = name
  given : ∀ i, i < ports.length → ctx.port? i = ports[i]?
  missing : ∀ i, ports.length ≤ i → i < 3 → ctx.port? i = some .closed
  length : ctx.ports.length = max ports.length 3

theorem begun_ofPorts (name : String) (ports : List Port) (scope : ScopeId) :
    (ofPorts name ports scope).Begun name ports where
  name := rfl
  given i inside := (getElem?_padded ports roles i).trans (if_pos inside)
  missing i outside role := (getElem?_padded ports roles i).trans
    ((if_neg (Nat.not_lt.2 outside)).trans (if_pos role))
  length := length_padded ports roles

/-! ### Putting a port into the array -/

structure Rebound (ctx : Context) (i : Nat) (p : Port) (ctx' : Context) : Prop where
  here : ctx'.port? i = some p
  others : ∀ j, j ≠ i → j < ctx.ports.length → ctx'.port? j = ctx.port? j
  between : ∀ j, ctx.ports.length ≤ j → j < i → ctx'.port? j = some .closed
  length : ctx'.ports.length = max ctx.ports.length (i + 1)
  rest : ctx' = { ctx with ports := ctx'.ports }

theorem length_putPort (ctx : Context) (i : Nat) (p : Port) :
    (ctx.putPort i p).ports.length = max ctx.ports.length (i + 1) := by
  rw [putPort, List.length_set, length_padded]

theorem rebound_putPort (ctx : Context) (i : Nat) (p : Port) :
    ctx.Rebound i p (ctx.putPort i p) where
  here := (port?_putPort ctx i i p).trans (if_pos rfl)
  others j other inside := (port?_putPort ctx i j p).trans
    ((if_neg other).trans (if_pos inside))
  between j outside below := (port?_putPort ctx i j p).trans ((if_neg (Nat.ne_of_lt below)).trans
    ((if_neg (Nat.not_lt.2 outside)).trans (if_pos below)))
  length := length_putPort ctx i p
  rest := rfl

example : ((ofPorts "top" [] ⟨0⟩).putPort 5 .closed).ports.length = 6 := rfl

def ClosedAt (ctx : Context) (i : Nat) : Prop := ∀ p, ctx.port? i = some p → p = .closed

theorem Rebound.closedAt (rebound : ctx.Rebound i p ctx') (other : j ≠ i)
    (closed : ctx.ClosedAt j) : ctx'.ClosedAt j := by
  intro q there
  rcases Nat.lt_or_ge j ctx.ports.length with inside | outside
  · exact closed q ((rebound.others j other inside).symm.trans there)
  · have below : j < i := by
      have within := (List.getElem?_eq_some_iff.1 there).1
      rw [rebound.length] at within
      omega
    exact Option.some.inj (there.symm.trans (rebound.between j outside below))

theorem closedAt_withoutPorts (ctx : Context) (i : Nat) : ctx.withoutPorts.ClosedAt i := by
  intro p there
  rw [port?, withoutPorts, List.getElem?_map, Option.map_eq_some_iff] at there
  obtain ⟨_, -, closed⟩ := there
  exact closed.symm

theorem length_withoutPorts (ctx : Context) :
    ctx.withoutPorts.ports.length = ctx.ports.length := List.length_map _

end Context

end Conduit
