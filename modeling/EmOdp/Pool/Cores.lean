import Mathlib.Data.Fintype.Defs
import EmOdp.Pool.Calls

/-! `pool_create` and `pool_delete` on any number of cores. The creation and the destruction of an
ODP pool and each write of the table that maps it back are steps of their own. -/
namespace EmOdp.Pool
open Lib

/-- Where a core is in a call. `i` is the number of the subpool at hand. -/
inductive Pc (π ι : Type) where
  | idle
  /-- in `create_subpools`, before the ODP pool is created -/
  | creating (p : π) (i : Nat)
  /-- before the `pool` of the entry is written -/
  | created (p : π) (i : Nat) (odpPool : ι)
  /-- before the `subpool` of the entry is written -/
  | poolSet (p : π) (i : Nat) (odpPool : ι)
  /-- in `pool_delete`, before the ODP pool is destroyed -/
  | deleting (p : π) (i : Nat)
  /-- before the entry is cleared, `index`: the index of the ODP pool is known -/
  | destroyed (p : π) (i : Nat) (odpPool : ι) (index : Bool)
  deriving DecidableEq

namespace Pc
variable {π ι : Type}

/-- The pool that the call is about -/
def pool : Pc π ι → Option π
  | .idle => none
  | .creating p _ | .created p _ _ | .poolSet p _ _ | .deleting p _ | .destroyed p _ _ _ => some p

/-- The ODP pool whose entry is about to be cleared -/
def clearing : Pc π ι → Option ι
  | .destroyed _ _ h _ => some h
  | .idle | .creating _ _ | .created _ _ _ | .poolSet _ _ _ | .deleting _ _ => none

/-- The ODP pool whose entry is about to be stored -/
def storing : Pc π ι → Option ι
  | .created _ _ h | .poolSet _ _ h => some h
  | .idle | .creating _ _ | .deleting _ _ | .destroyed _ _ _ _ => none

end Pc

/-- The tables that all cores share, and where each core is. -/
structure Cores (κ π ι : Type) where
  tbl : State π ι
  pc : κ → Pc π ι

inductive CoresLabel (κ π ι : Type) where
  | createBegin (c : κ) (name : Option (List UInt8)) (reqPool : Option (Option π)) (cfg : PoolCfg)
      (free : Option π)
  /-- `odp_pool_create` -/
  | odpPoolCreate (c : κ) (o : Made ι)
  | storePool (c : κ)
  | storeSubpool (c : κ)
  | deleteBegin (c : κ) (pool : Option π)
  /-- `odp_pool_destroy`, or the end of `pool_delete` -/
  | odpPoolDestroy (c : κ) (o : Unmade)
  | clear (c : κ)
  /-- another user of ODP creates or destroys a pool -/
  | otherCreate (odpPool : ι)
  | otherDestroy (odpPool : ι)

variable {κ π ι : Type} [DecidableEq κ] [DecidableEq π] [DecidableEq ι]

namespace Cores
variable (s : Cores κ π ι)

/-- A core goes on, with the tables as it leaves them. -/
def next (c : κ) (tbl : State π ι) (pc : Pc π ι) : Cores κ π ι := ⟨tbl,Function.update s.pc c pc⟩

/-- `pool_create` up to the loop of `create_subpools` -/
def createBegin (env : Env) (c : κ) (name : Option (List UInt8)) (reqPool : Option (Option π))
    (cfg : PoolCfg) (free : Option π) : Cores κ π ι :=
  match s.tbl.poolAlloc reqPool free with
  | none => s
  | some p =>
    let r := s.tbl.configure env p name cfg
    s.next c r.1 (if r.2 then .creating p 0 else .deleting p 0)

/-- A round of `create_subpools` up to the write of the entry; an error goes on in `pool_delete`. -/
def odpPoolCreate (c : κ) (p : π) (i : Nat) (o : Made ι) : Cores κ π ι :=
  let t := s.tbl.setSize p i
  match o.odpPool with
  | none => s.next c t (.deleting p 0)
  | some h => s.next c (t.addSubpool p i h) (if o.index then .created p i h else .deleting p 0)

def storePool (c : κ) (p : π) (i : Nat) (h : ι) : Cores κ π ι :=
  s.next c (s.tbl.setMap h { s.tbl.map h with pool := some p }) (.poolSet p i h)

def storeSubpool (c : κ) (p : π) (i : Nat) (h : ι) : Cores κ π ι :=
  s.next c (s.tbl.setMap h { s.tbl.map h with subpool := i })
    (if i + 1 < (s.tbl.elem p).poolCfg.length then .creating p (i+1) else .idle)

def deleteBegin (c : κ) (pool : Option π) : Cores κ π ι :=
  match pool with
  | none => s
  | some p => if (s.tbl.elem p).allocated then s.next c s.tbl (.deleting p 0) else s

/-- A round of `pool_delete` up to the write of the entry, or what follows its loop. -/
def odpPoolDestroy (c : κ) (p : π) (i : Nat) (o : Unmade) : Cores κ π ι :=
  if i < (s.tbl.elem p).numSubpools then
    match (s.tbl.elem p).odpPool i with
    | none => s.next c s.tbl .idle
    | some h =>
      if o.destroyed then s.next c (s.tbl.remSubpool p i h) (.destroyed p i h o.index)
      else s.next c s.tbl .idle
  else s.next c (s.tbl.finishDelete p) .idle

def clear (c : κ) (p : π) (i : Nat) (h : ι) (index : Bool) : Cores κ π ι :=
  if index then s.next c (s.tbl.setMap h {}) (.deleting p (i+1)) else s.next c s.tbl .idle

def step (env : Env) : CoresLabel κ π ι → Option (Cores κ π ι)
  | .createBegin c name reqPool cfg free =>
    if s.pc c = .idle ∧ ∀ p ∈ free, (s.tbl.elem p).allocated = false then
      some (s.createBegin env c name reqPool cfg free)
    else none
  | .odpPoolCreate c o =>
    match s.pc c with
    | .creating p i =>
      if ∀ h ∈ o.odpPool, s.tbl.odpPools.Free h then some (s.odpPoolCreate c p i o) else none
    | _ => none
  | .storePool c =>
    match s.pc c with
    | .created p i h => some (s.storePool c p i h)
    | _ => none
  | .storeSubpool c =>
    match s.pc c with
    | .poolSet p i h => some (s.storeSubpool c p i h)
    | _ => none
  | .deleteBegin c pool => if s.pc c = .idle then some (s.deleteBegin c pool) else none
  | .odpPoolDestroy c o =>
    match s.pc c with
    | .deleting p i => some (s.odpPoolDestroy c p i o)
    | _ => none
  | .clear c =>
    match s.pc c with
    | .destroyed p i h index => some (s.clear c p i h index)
    | _ => none
  | .otherCreate h =>
    if s.tbl.odpPools.Free h then some { s with tbl := s.tbl.odpPoolCreate h none } else none
  | .otherDestroy h =>
    if s.tbl.odpPools.live h = some none then some { s with tbl := s.tbl.odpPoolDestroy h none }
    else none

/-- The entry of an ODP pool is being stored by the create of its pool. -/
def Storing (p : π) (i : Nat) (h : ι) : Prop :=
  ∃ c, s.pc c = .created p i h ∨ s.pc c = .poolSet p i h

/-- The entry of an ODP pool that is destroyed has yet to be cleared. -/
def Clearing (h : ι) : Prop := ∃ c, (s.pc c).clearing = some h

/-- The table is exact. The entry of a subpool is stored right after its ODP pool is created; until
then it names no pool, or the pool without its subpool. -/
structure Exact : Prop where
  subpool : ∀ p i h, (s.tbl.elem p).allocated = true → i < (s.tbl.elem p).numSubpools →
    (s.tbl.elem p).odpPool i = some h → ¬s.Storing p i h →
      s.tbl.poolSubpoolOdp2em h = { pool := some p, subpool := i }
  owned : ∀ p i h, s.tbl.odpPools.live h = some (some (p,i)) → (s.tbl.elem p).allocated = true ∧
    (s.tbl.poolOdp2em h = some p ∨ s.tbl.poolOdp2em h = none ∧ s.Storing p i h)
  other : ∀ h, s.tbl.odpPools.live h = some none → s.tbl.poolSubpoolOdp2em h = {}

/-- ODP does not give out an index again while its entry has yet to be cleared, a pool is deleted
by one call at a time, not during its create, and ODP knows the index of a pool it has. -/
def Clean : CoresLabel κ π ι → Prop
  | .odpPoolCreate _ o => o.index = true ∧ ∀ h ∈ o.odpPool, ¬s.Clearing h
  | .otherCreate h => ¬s.Clearing h
  | .deleteBegin _ pool => ∀ p ∈ pool, ∀ c, (s.pc c).pool ≠ some p
  | .odpPoolDestroy _ o => o.index = true
  | .createBegin _ _ _ _ _ | .storePool _ | .storeSubpool _ | .clear _ | .otherDestroy _ => True

instance [Fintype κ] (h : ι) : Decidable (s.Clearing h) :=
  inferInstanceAs (Decidable (∃ c, (s.pc c).clearing = some h))

instance [Fintype κ] : ∀ l, Decidable (s.Clean l)
  | .odpPoolCreate _ o =>
    inferInstanceAs (Decidable (o.index = true ∧ ∀ h ∈ o.odpPool, ¬s.Clearing h))
  | .otherCreate h => inferInstanceAs (Decidable (¬s.Clearing h))
  | .deleteBegin _ pool => inferInstanceAs (Decidable (∀ p ∈ pool, ∀ c, (s.pc c).pool ≠ some p))
  | .odpPoolDestroy _ o => inferInstanceAs (Decidable (o.index = true))
  | .createBegin _ _ _ _ _ | .storePool _ | .storeSubpool _ | .clear _ | .otherDestroy _ => .isTrue trivial

/-- `pool_init` -/
structure Initial : Prop where
  tbl : s.tbl.Initial
  pc : ∀ c, s.pc c = .idle

end Cores

/-- Runs of creates and deletes on all cores -/
def cores (env : Env) : System (Cores κ π ι) (CoresLabel κ π ι) :=
  System.ofFn Cores.Initial fun s l => s.step env l

end EmOdp.Pool
