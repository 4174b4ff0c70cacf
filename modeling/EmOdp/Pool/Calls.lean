import EmOdp.Pool.Machine

/-! `pool_create` and `pool_delete` as whole calls, with every point at which ODP can fail. -/
namespace EmOdp.Pool
open Lib

/-- What ODP answers while a subpool is created: the result of `odp_pool_create`, and whether
`odp_pool_index` succeeds -/
structure Made (ι : Type) where
  odpPool : Option ι
  index : Bool := true

/-- What ODP answers while a subpool is deleted: whether `odp_pool_destroy` and `odp_pool_index`
succeed -/
structure Unmade where
  destroyed : Bool := true
  index : Bool := true

variable {π ι : Type} [DecidableEq π] [DecidableEq ι]

namespace State
variable (s : State π ι)

/-- `pool_alloc`: none is `EM_POOL_UNDEF`, and a handle that is outside of the table. `free` is
what the pool of free pools gives out. -/
def poolAlloc (reqPool : Option (Option π)) (free : Option π) : Option π :=
  match reqPool with
  | none => free
  | some none => none
  | some (some p) => if (s.elem p).allocated then none else some p

/-- One round of `create_subpools`, with its result -/
def createSubpool (p : π) (i : Nat) (o : Made ι) : State π ι × Int :=
  let s₁ := s.setSize p i
  match o.odpPool with
  | none => (s₁,-1)
  | some odpPool =>
    let s₂ := s₁.addSubpool p i odpPool
    if o.index then (s₂.setMap odpPool { pool := some p, subpool := i },0) else (s₂,-2)

/-- `create_subpools` -/
def createSubpools (p : π) (os : Nat → Made ι) : State π ι × Int :=
  forEach 0 (fun s i => s.createSubpool p i (os i)) (List.range (s.elem p).poolCfg.length) s

/-- One round of the loop in `pool_delete` -/
def deleteSubpool (p : π) (i : Nat) (o : Unmade) : State π ι × Status :=
  match (s.elem p).odpPool i with
  | none => (s,.notFound)
  | some odpPool =>
    if o.destroyed then
      let s₁ := s.remSubpool p i odpPool
      if o.index then (s₁.setMap odpPool {},.ok) else (s₁,.badId)
    else (s,.libFailed)

/-- The loop in `pool_delete` -/
def deleteSubpools (p : π) (os : Nat → Unmade) : State π ι × Status :=
  forEach .ok (fun s i => s.deleteSubpool p i (os i)) (List.range (s.elem p).numSubpools) s

/-- `pool_delete`, none is a handle outside of the table -/
def poolDelete (pool : Option π) (os : Nat → Unmade) : State π ι × Status :=
  match pool with
  | none => (s,.badArg)
  | some p =>
    if (s.elem p).allocated then
      let r := s.deleteSubpools p os
      if r.2 = .ok then (r.1.finishDelete p,.ok) else r
    else (s,.badArg)

/-- `pool_create`, `cleanup` are the answers to the `pool_delete` of its error path. -/
def poolCreate (env : Env) (name : Option (List UInt8)) (reqPool : Option (Option π)) (cfg : PoolCfg)
    (free : Option π) (os : Nat → Made ι) (cleanup : Nat → Unmade) : State π ι × Option π :=
  match s.poolAlloc reqPool free with
  | none => (s,none)
  | some p =>
    match s.configure env p name cfg with
    | (t,false) => ((t.poolDelete (some p) cleanup).1,none)
    | (t,true) =>
      let r := t.createSubpools p os
      if r.2 = 0 then (r.1,some p) else ((r.1.poolDelete (some p) cleanup).1,none)

end State

inductive Label (π ι : Type) where
  | create (name : Option (List UInt8)) (reqPool : Option (Option π)) (cfg : PoolCfg)
      (free : Option π) (os : Nat → Made ι) (cleanup : Nat → Unmade)
  | delete (pool : Option π) (os : Nat → Unmade)
  /-- another user of ODP creates or destroys a pool -/
  | otherCreate (odpPool : ι)
  | otherDestroy (odpPool : ι)

namespace State
variable (s : State π ι)

/-- The pool gives out free elements, and ODP indexes that are free. -/
def Possible (cfg : PoolCfg) (free : Option π) (os : Nat → Made ι) : Prop :=
  (∀ p ∈ free, (s.elem p).allocated = false) ∧ ∀ i < cfg.subpool.length, ∀ h ∈ (os i).odpPool,
    s.odpPools.Free h ∧ ∀ j < i, (os j).odpPool ≠ some h

instance (cfg : PoolCfg) (free : Option π) (os : Nat → Made ι) : Decidable (s.Possible cfg free os) :=
  inferInstanceAs (Decidable ((∀ p ∈ free, (s.elem p).allocated = false) ∧
    ∀ i < cfg.subpool.length, ∀ h ∈ (os i).odpPool,
      s.odpPools.Free h ∧ ∀ j < i, (os j).odpPool ≠ some h))

def step (env : Env) : Label π ι → Option (State π ι)
  | .create name reqPool cfg free os cleanup =>
    if s.Possible cfg free os then some (s.poolCreate env name reqPool cfg free os cleanup).1 else none
  | .delete pool os => some (s.poolDelete pool os).1
  | .otherCreate h => if s.odpPools.Free h then some (s.odpPoolCreate h none) else none
  | .otherDestroy h =>
    (s.odpPools.behind h).bind fun r =>
      if r.payload = none ∧ r.destroyedBy = [] then some (s.odpPoolDestroy h none) else none

/-- `pool_init`, before the first pool is created; ODP may have other pools. -/
structure Initial : Prop where
  elem : ∀ p, (s.elem p).allocated = false
  map : ∀ h, s.map h = {}
  ok : s.odpPools.Ok
  others : ∀ r ∈ s.odpPools, r.payload = none

end State

/-- Runs of creates and deletes, one call after the other. -/
def system (env : Env) : System (State π ι) (Label π ι) :=
  System.ofFn State.Initial fun s l => s.step env l

end EmOdp.Pool
