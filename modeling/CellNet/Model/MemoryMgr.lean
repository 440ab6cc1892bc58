import CellNet.Library.Memory
import CellNet.Library.Regions
import CellNet.Library.Transition

/-! The pool allocator behind `operator new`. A pool is one region of memory that is cut into
blocks; the headers of its free blocks are linked. A result `none` is a failed assertion or
undefined behaviour. -/

namespace CellNet

open Library

/-- The header in front of a piece of memory. A `MemoryAlloc` is known by its number. -/
structure MemoryBlock where
  nID : ℤ
  nRef : ℤ
  pAlloc : Option ℕ
  pNext : Option ℕ
  bPool : Bool
deriving Repr, DecidableEq

/-- On a machine with pointers of eight bytes. -/
def sizeofMemoryBlock : ℕ := 32

structure MemoryAlloc where
  pBuf : Option ℕ
  pHeader : Option ℕ
  nSize : ℕ
  nBlockSize : ℕ
deriving Repr, DecidableEq

/-- What an unsigned computation leaves in a `size_t`. -/
def size_t (n : ℕ) : ℕ := n % 2 ^ 64

/-- `nSize`, rounded up to a multiple of `sizeof(void*)`. -/
def aligned (nSize : ℕ) : ℕ :=
  nSize / 8 * 8 + if nSize % 8 ≠ 0 then 8 else 0

/-- The constructor of `MemoryAlloctor<nSize, nBlockSize>`. -/
def MemoryAlloctor (nSize nBlockSize : ℕ) : MemoryAlloc where
  pBuf := none
  pHeader := none
  nSize := size_t (aligned nSize)
  nBlockSize := nBlockSize

/-- The size of the memory for all blocks of a pool. -/
def MemoryAlloc.bufSize (a : MemoryAlloc) : ℕ :=
  size_t (size_t (a.nSize + sizeofMemoryBlock) * a.nBlockSize)

/-- The manager with its pools, the headers that lie in memory, and the regions that `malloc`
has given out. -/
structure MemoryMgr where
  allocs : List MemoryAlloc
  szAlloc : ℕ → Option ℕ
  maxMemorySize : ℕ
  blocks : ℕ → Option MemoryBlock
  regions : Regions

/-- The entries from `nBegin` to `nEnd` are set. -/
def init_szAlloc (szAlloc : ℕ → Option ℕ) (nBegin nEnd pMemA : ℕ) : ℕ → Option ℕ :=
  fun n => if nBegin ≤ n ∧ n ≤ nEnd then some pMemA else szAlloc n

/-- The calls of `init_szAlloc`: each pool from number `k` on serves the sizes up to its own that
the one before does not serve. -/
def init_szAllocs (k nBegin : ℕ) (szAlloc : ℕ → Option ℕ) : List (ℕ × ℕ) → ℕ → Option ℕ
  | [] => szAlloc
  | p :: pools => init_szAllocs (k + 1) (p.1 + 1) (init_szAlloc szAlloc nBegin p.1 k) pools

namespace MemoryMgr

/-- The constructor, for pools with these sizes and numbers of blocks. -/
def new (pools : List (ℕ × ℕ)) : MemoryMgr where
  allocs := pools.map fun p => MemoryAlloctor p.1 p.2
  szAlloc := init_szAllocs 0 0 (fun _ => none) pools
  maxMemorySize := (pools.getLast?.map Prod.fst).getD 0
  blocks := fun _ => none
  regions := fun _ => none

/-- The two pools of the program. -/
def pools : List (ℕ × ℕ) := [(64, 4000000), (128, 2000000)]

example : (new pools).maxMemorySize = 128 := rfl

example : [0, 64, 65, 128, 129].map (new pools).szAlloc =
    [some 0, some 0, some 1, some 1, none] := rfl

/-! ### Memory -/

def store (m : MemoryMgr) (pBlock : ℕ) (b : MemoryBlock) : MemoryMgr :=
  { m with blocks := Function.update m.blocks pBlock (some b) }

/-- The region of `size` bytes at `p` is given out. -/
def give (m : MemoryMgr) (p size : ℕ) : MemoryMgr :=
  { m with regions := Function.update m.regions p (some size) }

/-- `malloc`, which answers each size with an address or with `NULL`. The callers write a header
to the address at once, so `NULL` is a fault. -/
def malloc (m : MemoryMgr) (answer : ℕ → Option ℕ) (size : ℕ) : Option (MemoryMgr × ℕ) :=
  (answer size).map fun p => (m.give p size, p)

/-- `free`, which is defined for the start of a region only. -/
def free (m : MemoryMgr) (p : ℕ) : Option MemoryMgr :=
  if (m.regions p).isSome then
    some { m with
      regions := Function.update m.regions p none
      blocks := Function.update m.blocks p none }
  else none

/-- The header in front of `pMem`, with its address. -/
def header (m : MemoryMgr) (pMem : ℕ) : Option (ℕ × MemoryBlock) :=
  if sizeofMemoryBlock ≤ pMem then
    (m.blocks (pMem - sizeofMemoryBlock)).map fun b => (pMem - sizeofMemoryBlock, b)
  else none

/-! ### `MemoryAlloc` -/

/-- One iteration of the loop of `initMemory`: the block `n` is initialised, and `pTemp1` linked
to it. -/
def linkBlock (k pBuf realSize : ℕ) (x : (ℕ → Option MemoryBlock) × ℕ) (n : ℕ) :
    (ℕ → Option MemoryBlock) × ℕ :=
  let pTemp2 := pBuf + size_t (n * realSize)
  let blocks := Function.update x.1 pTemp2 (some ⟨wrap32 n, 0, some k, none, true⟩)
  (Function.update blocks x.2 ((blocks x.2).map fun b => { b with pNext := some pTemp2 }),
    pTemp2)

/-- What `initMemory` does with the memory at `pBuf`. -/
def initBlocks (m : MemoryMgr) (k : ℕ) (a : MemoryAlloc) (pBuf : ℕ) : MemoryMgr :=
  let realSize := size_t (a.nSize + sizeofMemoryBlock)
  let m := m.store pBuf ⟨0, 0, some k, none, true⟩
  let x := (List.range' 1 (a.nBlockSize - 1)).foldl (linkBlock k pBuf realSize) (m.blocks, pBuf)
  { m with
    blocks := x.1
    allocs := m.allocs.set k { a with pBuf := some pBuf, pHeader := some pBuf } }

/-- `initMemory` of the pool `k`. -/
def initMemory (m : MemoryMgr) (k : ℕ) (a : MemoryAlloc) (answer : ℕ → Option ℕ) :
    Option MemoryMgr :=
  (m.malloc answer a.bufSize).map fun r => r.1.initBlocks k a r.2

/-- A block of its own, which belongs to no pool. -/
def mallocBlock (m : MemoryMgr) (size : ℕ) (answer : ℕ → Option ℕ) : Option (MemoryMgr × ℕ) :=
  (m.malloc answer (size_t (size + sizeofMemoryBlock))).map fun r =>
    (r.1.store r.2 ⟨-1, 1, none, none, false⟩, r.2 + sizeofMemoryBlock)

/-- The pool is set up when it is used for the first time. -/
def allocMemory (m : MemoryMgr) (k size : ℕ) (answer : ℕ → Option ℕ) :
    Option (MemoryMgr × ℕ) := do
  let a ← m.allocs[k]?
  let m ← if a.pBuf = none then m.initMemory k a answer else some m
  let a ← m.allocs[k]?
  match a.pHeader with
  | none => m.mallocBlock size answer
  | some pReturn => do
      let b ← m.blocks pReturn
      if b.nRef = 0 then
        some (store { m with allocs := m.allocs.set k { a with pHeader := b.pNext } } pReturn
          { b with nRef := 1 }, pReturn + sizeofMemoryBlock)
      else none

def freeMemory (m : MemoryMgr) (k pMem : ℕ) : Option MemoryMgr := do
  let x ← m.header pMem
  if x.2.bPool then
    let a ← m.allocs[k]?
    let nRef := wrap32 (x.2.nRef - 1)
    if nRef ≠ 0 then some (m.store x.1 { x.2 with nRef })
    else some (store { m with allocs := m.allocs.set k { a with pHeader := some x.1 } } x.1
      { x.2 with nRef, pNext := a.pHeader })
  else m.free x.1

/-! ### `MemoryMgr` -/

def allocMem (m : MemoryMgr) (nSize : ℕ) (answer : ℕ → Option ℕ) : Option (MemoryMgr × ℕ) :=
  if nSize ≤ m.maxMemorySize then do
    let k ← m.szAlloc nSize
    m.allocMemory k nSize answer
  else m.mallocBlock nSize answer

def freeMem (m : MemoryMgr) (pMem : ℕ) : Option MemoryMgr := do
  let x ← m.header pMem
  if x.2.bPool then
    let k ← x.2.pAlloc
    m.freeMemory k pMem
  else
    let nRef := wrap32 (x.2.nRef - 1)
    let m := m.store x.1 { x.2 with nRef }
    if nRef ≠ 0 then some m else m.free x.1

def addRef (m : MemoryMgr) (pMem : ℕ) : Option MemoryMgr :=
  (m.header pMem).map fun x => m.store x.1 { x.2 with nRef := wrap32 (x.2.nRef + 1) }

end MemoryMgr

/-! ### Runs -/

/-- Memory that was handed out: its address, the size asked for, and one reference for
`allocMem` and for each `addRef` that no `freeMem` has taken back. -/
structure Held where
  pMem : ℕ
  nSize : ℕ
  refs : ℕ
deriving Repr, DecidableEq

/-- The manager, and what its callers hold. -/
structure MemoryRun where
  mgr : MemoryMgr
  held : List Held

inductive MemoryEvent where
  /-- `answer` tells what `malloc` returns for each size. -/
  | allocMem (nSize : ℕ) (answer : ℕ → Option ℕ)
  | addRef (pMem : ℕ)
  | freeMem (pMem : ℕ)

namespace MemoryRun

/-- `none` is a fault. -/
def next (s : MemoryRun) : MemoryEvent → Option MemoryRun
  | .allocMem nSize answer => (s.mgr.allocMem nSize answer).map fun r =>
      ⟨r.1, ⟨r.2, nSize, 1⟩ :: s.held⟩
  | .addRef pMem => (s.mgr.addRef pMem).map fun mgr =>
      ⟨mgr, s.held.map fun h => if h.pMem = pMem then { h with refs := h.refs + 1 } else h⟩
  | .freeMem pMem => (s.mgr.freeMem pMem).map fun mgr =>
      ⟨mgr, s.held.filterMap fun h =>
        if h.pMem = pMem then
          if h.refs = 1 then none else some { h with refs := h.refs - 1 }
        else some h⟩

/-- Sizes do not overflow and `malloc` returns fresh regions; references are given to and taken
from memory that is held. -/
def Legal (s : MemoryRun) : MemoryEvent → Prop
  | .allocMem nSize answer => nSize + sizeofMemoryBlock < 2 ^ 64 ∧
      ∀ n, ∃ p, answer n = some p ∧ s.mgr.regions.Fresh p n
  | .addRef pMem => ∃ h ∈ s.held, h.pMem = pMem
  | .freeMem pMem => ∃ h ∈ s.held, h.pMem = pMem

def system (pools : List (ℕ × ℕ)) : System MemoryRun MemoryEvent where
  init s := s = ⟨.new pools, []⟩
  step s e s' := s.Legal e ∧ s.next e = some s'

end MemoryRun

end CellNet
