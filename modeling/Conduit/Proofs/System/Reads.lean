import Conduit.Proc.Run

/-!
What reading does to a system: it takes chunks out of pipes and moves bytes within one reader, and
nothing else.
-/

namespace Conduit

namespace System

inductive Reads (s : System) (r : ReaderId) : System → Prop
  | refl : Reads s r s
  | onReader {s' : System} (first : Reads s r s') {f : ByteReader → ByteReader}
      (kept : ∀ x, (f x).holders = x.holders) : Reads s r (s'.onReader r f)
  | onPipe {s' : System} {p : PipeId} {ch ch' : Channel Bytes} {chunk : Bytes}
      (first : Reads s r s') (here : s'.pipes[p.index]? = some ch)
      (took : ch.take? = some (some chunk, ch')) : Reads s r (s'.onPipe p fun _ => ch')

variable {s s' : System} {r : ReaderId} {n : Nat} {x : Except String Bytes}

theorem reads_readSource? (read : s.readSource? r n = some (x, s')) : s.Reads r s' := by
  simp only [readSource?] at read
  split at read
  · cases read; exact .refl
  · cases read; exact .refl
  · cases read; exact Reads.refl.onReader fun _ => rfl
  · split at read
    · cases read; exact .refl
    · split at read
      · cases read; exact Reads.refl.onReader fun _ => rfl
      · split at read
        · cases read; exact .refl
        · next here =>
          obtain ⟨⟨chunk, ch⟩, took, read⟩ := Option.map_eq_some_iff.1 read
          cases chunk <;> cases read
          · exact .refl
          · exact (Reads.refl.onPipe here took).onReader fun _ => rfl

theorem reads_fillBuffer? (fill : s.fillBuffer? r = some (x, s')) : s.Reads r s' := by
  simp only [fillBuffer?] at fill
  split at fill
  · cases fill; exact .refl
  · split at fill
    · cases fill; exact .refl
    · obtain ⟨⟨y, s₁⟩, read, fill⟩ := Option.map_eq_some_iff.1 fill
      have first := reads_readSource? read
      cases y <;> cases fill
      · exact first
      · exact first.onReader fun _ => rfl

theorem reads_readSome? (read : s.readSome? r n = some (x, s')) : s.Reads r s' := by
  simp only [readSome?] at read
  split at read
  · cases read; exact .refl
  · split at read
    · exact reads_readSource? read
    · obtain ⟨⟨y, s₁⟩, fill, read⟩ := Option.map_eq_some_iff.1 read
      have first := reads_fillBuffer? fill
      cases y <;> cases read
      · exact first
      · exact first.onReader fun _ => rfl

theorem Reads.others (reads : s.Reads r s') {i : Nat} (other : i ≠ r.index) :
    s'.readers[i]? = s.readers[i]? := by
  induction reads with
  | refl => rfl
  | onReader _ _ ih => simp [System.onReader, Array.getElem?_modify, Ne.symm other, ih]
  | onPipe _ _ _ ih => exact ih

theorem Reads.writers (reads : s.Reads r s') : s'.writers = s.writers := by
  induction reads with
  | refl => rfl
  | onReader _ _ ih => exact ih
  | onPipe _ _ _ ih => exact ih

end System

end Conduit
