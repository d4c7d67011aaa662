import Rendezvous.Random.Uuid

/-!
# Draws

A source of random blocks that can be told what to give: first the blocks of a script, in order,
and after them the numbers 1, 2, 3, ….
-/

namespace Rendezvous

/-- The low `width` bytes of `n`, most significant first. -/
def bigEndian : (width : Nat) → (n : Nat) → List UInt8
  | 0, _ => []
  | width + 1, n => bigEndian width (n / 256) ++ [UInt8.ofNat n]

theorem length_bigEndian (width n : Nat) : (bigEndian width n).length = width := by
  induction width generalizing n with
  | zero => rfl
  | succ width ih => simp [bigEndian, ih]

structure Draws where
  /-- What is still scripted. -/
  scripted : List Block := []
  /-- How many numbers were given after the script. -/
  numbered : Nat := 0
  /-- How many draws there were in all. -/
  taken : Nat := 0
  deriving DecidableEq

namespace Draws

def draw (d : Draws) : Uuid × Draws :=
  match d.scripted with
  | block :: rest => (.ofBlock block, { d with scripted := rest, taken := d.taken + 1 })
  | [] =>
    let n := d.numbered + 1
    let block : Block := ⟨bigEndian 16 n, length_bigEndian 16 n⟩
    (.ofBlock block, { d with numbered := n, taken := d.taken + 1 })

def extend (d : Draws) (blocks : List Block) : Draws := { d with scripted := d.scripted ++ blocks }

end Draws
end Rendezvous
