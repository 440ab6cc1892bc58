import CellNet.Model.MemoryMgr

/-! The pool behind the `operator new` of pooled classes. Its nodes lie in one block; the ones that
are free are linked. A result `none` is a failed assertion, undefined behaviour or a refused
allocation. -/

namespace CellNet

open Library

structure NodeHeader where
  pNext : Option ℕ
  nID : ℤ
  nRef : ℤ
  bPool : Bool
deriving Repr, DecidableEq

/-- A pointer, an `int`, two bytes and the two of `unuse`. -/
def sizeofNodeHeader : ℕ := 16

/-- What an `int` is as a `size_t`. -/
def toSize (n : ℤ) : ℕ := (n % 2 ^ 64).toNat

/-- What fits into a `char`. -/
def wrap8 (x : ℤ) : ℤ := (x + 128) % 256 - 128

/-- The pool with the headers that lie in memory, and the blocks that `new char[]` has given
out. -/
structure CellObjectPool where
  pHeader : Option ℕ
  pBuf : ℕ
  nodes : ℕ → Option NodeHeader
  regions : Regions

namespace CellObjectPool

/-- The loop variables: the headers that are written, and `pTemp1`. -/
abbrev Links := (ℕ → Option NodeHeader) × ℕ

/-- A header is written at `p`, which has to be inside the block at `pBuf`. -/
def write (pBuf nTotalSize : ℕ) (nodes : ℕ → Option NodeHeader) (p : ℕ) (h : NodeHeader) :
    Option (ℕ → Option NodeHeader) :=
  if pBuf ≤ p ∧ p + sizeofNodeHeader ≤ pBuf + nTotalSize then
    some (Function.update nodes p (some h))
  else none

/-- The body of the loop of `initPool`. -/
def linkNode (pBuf nRealSize nTotalSize : ℕ) (x : Links) (n : ℤ) : Option Links := do
  let pTemp2 := pBuf + toSize (n * nRealSize)
  let nodes ← write pBuf nTotalSize x.1 pTemp2 ⟨none, n, 0, true⟩
  let b ← nodes x.2
  let nodes ← write pBuf nTotalSize nodes x.2 { b with pNext := some pTemp2 }
  some (nodes, pTemp2)

/-- `for (int n = 1; n < nPoolSize; ++n)`, from `n` on. The `int` is compared as a `size_t`. -/
def linkNodes (pBuf nRealSize nTotalSize nPoolSize : ℕ) : ℕ → ℤ → Links → Option Links
  | 0, _, _ => none
  | fuel + 1, n, x =>
      if toSize n < nPoolSize then do
        let x ← linkNode pBuf nRealSize nTotalSize x n
        linkNodes pBuf nRealSize nTotalSize nPoolSize fuel (wrap32 (n + 1)) x
      else some x

def realSize (sizeofType : ℕ) : ℕ := size_t (sizeofType + sizeofNodeHeader)

def totalSize (sizeofType nPoolSize : ℕ) : ℕ := size_t (nPoolSize * realSize sizeofType)

/-- `initPool`, where `new` returns `pBuf`; it refuses what is larger than any object. An `int` has
2^32 values, so the loop has at most as many rounds. -/
def initPool (sizeofType nPoolSize pBuf : ℕ) : Option CellObjectPool := do
  let nRealSize := realSize sizeofType
  let nTotalSize := totalSize sizeofType nPoolSize
  if nTotalSize < 2 ^ 63 then do
    let nodes ← write pBuf nTotalSize (fun _ => none) pBuf ⟨none, 0, 0, true⟩
    let x ← linkNodes pBuf nRealSize nTotalSize nPoolSize (2 ^ 32) 1 (nodes, pBuf)
    some ⟨some pBuf, pBuf, x.1, Function.update (fun _ => none) pBuf (some nTotalSize)⟩
  else none

def store (c : CellObjectPool) (p : ℕ) (h : NodeHeader) : CellObjectPool :=
  { c with nodes := Function.update c.nodes p (some h) }

/-- The size asked for is not looked at; `new` is what `new char[]` returns if it is called, or
`none` if it throws. -/
def allocObjMemory (sizeofType : ℕ) (c : CellObjectPool) (_size : ℕ) (new : Option ℕ) :
    Option (CellObjectPool × ℕ) :=
  match c.pHeader with
  | none => new.map fun p => (store { c with
      regions := Function.update c.regions p (some (realSize sizeofType)) } p
        ⟨none, -1, 1, false⟩, p + sizeofNodeHeader)
  | some pReturn => do
      let b ← c.nodes pReturn
      if b.nRef = 0 then
        some (store { c with pHeader := b.pNext } pReturn { b with nRef := 1 },
          pReturn + sizeofNodeHeader)
      else none

/-- The header in front of `pMem`, with its address. -/
def header (c : CellObjectPool) (pMem : ℕ) : Option (ℕ × NodeHeader) :=
  if sizeofNodeHeader ≤ pMem then
    (c.nodes (pMem - sizeofNodeHeader)).map fun b => (pMem - sizeofNodeHeader, b)
  else none

/-- `delete[]`, which is defined for the start of a block only. -/
def deleteNode (c : CellObjectPool) (p : ℕ) : Option CellObjectPool :=
  if (c.regions p).isSome then
    some { c with
      regions := Function.update c.regions p none
      nodes := Function.update c.nodes p none }
  else none

def freeObjMemory (c : CellObjectPool) (pMem : ℕ) : Option CellObjectPool := do
  let x ← c.header pMem
  if x.2.nRef = 1 then
    let nRef := wrap8 (x.2.nRef - 1)
    if x.2.bPool then
      if nRef ≠ 0 then some (c.store x.1 { x.2 with nRef })
      else some (store { c with pHeader := some x.1 } x.1 { x.2 with nRef, pNext := c.pHeader })
    else
      if nRef ≠ 0 then some (c.store x.1 { x.2 with nRef }) else c.deleteNode x.1
  else none

end CellObjectPool

/-! ### Runs -/

/-- The pool, and the objects that are held. -/
structure ObjectRun where
  pool : CellObjectPool
  held : List ℕ

inductive ObjectEvent where
  | allocObjMemory (size : ℕ) (new : Option ℕ)
  | freeObjMemory (pMem : ℕ)
deriving Repr, DecidableEq

namespace ObjectRun

/-- `none` is a fault. -/
def next (sizeofType : ℕ) (s : ObjectRun) : ObjectEvent → Option ObjectRun
  | .allocObjMemory size new => (s.pool.allocObjMemory sizeofType size new).map fun r =>
      ⟨r.1, r.2 :: s.held⟩
  | .freeObjMemory pMem => (s.pool.freeObjMemory pMem).map fun pool => ⟨pool, s.held.erase pMem⟩

/-- `new char[]` returns a fresh block, and objects are freed that are held. -/
def Legal (sizeofType : ℕ) (s : ObjectRun) : ObjectEvent → Prop
  | .allocObjMemory _ new => s.pool.pHeader = none →
      ∃ p, new = some p ∧ s.pool.regions.Fresh p (CellObjectPool.realSize sizeofType)
  | .freeObjMemory pMem => pMem ∈ s.held

/-- The runs of a pool of `nPoolSize` nodes for objects of `sizeofType` bytes. -/
def system (sizeofType nPoolSize : ℕ) : System ObjectRun ObjectEvent where
  init s := ∃ pBuf c, CellObjectPool.initPool sizeofType nPoolSize pBuf = some c ∧ s = ⟨c, []⟩
  step s e s' := s.Legal sizeofType e ∧ s.next sizeofType e = some s'

end ObjectRun

end CellNet
