import Mathlib.Data.List.FinRange
import Mathlib.Logic.Function.Basic

/-! The API hooks and dispatch callbacks of one type: a ring of tables, of which each update
copies the active one into the next. -/
namespace EmOdp.Hooks

/-- `API_HOOKS_MAX_TBL_SIZE` -/
abbrev apiHooksMaxTblSize : Nat := 255

/-- `hook_tbl_t` of `EM_CALLBACKS_MAX = n` functions; `none` is NULL. -/
abbrev HookTbl (n : Nat) (F : Type) := Fin n → Option F

/-- The value of one store to an entry of a table. -/
abbrev Store (n : Nat) (F : Type) := Fin n × Option F

inductive Status where
  | ok
  | allocFailed
  | notFound
  | badPointer
  deriving DecidableEq, Repr

/-- What a call of `hook_register` or `hook_unregister` stores into `next_tbl`, one store
after the other, and what it returns. -/
structure Update (n : Nat) (F : Type) where
  stores : List (Store n F)
  status : Status

structure HookStorage (n : Nat) (F : Type) where
  hookTblStorage : Fin apiHooksMaxTblSize → HookTbl n F
  /-- index of the table that was activated last -/
  idx : Fin apiHooksMaxTblSize
  /-- `em_shm->..._hook_tbl` -/
  active : Fin apiHooksMaxTblSize

inductive Op (F : Type) where
  | register (hookFn : F)
  | unregister (hookFn : F)
  deriving DecidableEq, Repr

variable {n : Nat} {F : Type} [DecidableEq F]

namespace HookTbl
variable (t : HookTbl n F)

def store (t : HookTbl n F) (w : Store n F) : HookTbl n F := Function.update t w.1 w.2

/-- The first entry of the table with the property. -/
def find (p : Option F → Bool) : Option (Fin n) := (List.finRange n).find? fun i => p (t i)

/-- The stores of `memcpy(next_tbl->tbl, hook_tbl->tbl, ..)`. -/
def copy : List (Store n F) := (List.finRange n).map fun i => (i,t i)

/-- The loop of `pack_hook_tbl` from entry `i` on, at most `rounds` times. -/
def packFrom (t : HookTbl n F) (i : Nat) : Nat → List (Store n F)
  | 0 => []
  | rounds + 1 =>
    if h : i + 1 < n then
      match t ⟨i+1,h⟩ with
      | some fn =>
        let moved : Store n F := (⟨i,by omega⟩,some fn)
        let cleared : Store n F := (⟨i+1,h⟩,none)
        moved :: cleared :: packFrom ((t.store moved).store cleared) (i+1) rounds
      | none => []
    else []

/-- `pack_hook_tbl` -/
def packHookTbl (idx : Fin n) : Option (List (Store n F)) :=
  if (t idx).isSome then none else some (t.packFrom idx (n-1-idx))

/-- The functions that a dispatching core calls: those before the first NULL. -/
def callbacks : List F := (((List.finRange n).map t).takeWhile Option.isSome).reduceOption

/-- `hook_register`, given the active table; what it reads of `next_tbl` is what it copied. -/
def hookRegister (hookFn : F) : Update n F :=
  match t.find Option.isNone with
  | none => ⟨t.copy,.allocFailed⟩
  | some i => ⟨t.copy ++ [(i,some hookFn)],.ok⟩

/-- `hook_unregister` -/
def hookUnregister (hookFn : F) : Update n F :=
  match t.find (· = some hookFn) with
  | none => ⟨t.copy,.notFound⟩
  | some i =>
    match (t.store (i,none)).packHookTbl i with
    | none => ⟨t.copy ++ [(i,none)],.badPointer⟩
    | some packed => ⟨t.copy ++ (i,none) :: packed,.ok⟩

end HookTbl

def Op.update (t : HookTbl n F) : Op F → Update n F
  | .register hookFn => t.hookRegister hookFn
  | .unregister hookFn => t.hookUnregister hookFn

namespace HookStorage
variable (s : HookStorage n F)

/-- After `hooks_init` -/
def init : HookStorage n F := ⟨fun _ _ => none,0,0⟩

/-- `next_idx` -/
def nextIdx : Fin apiHooksMaxTblSize :=
  if h : s.idx.val + 1 < apiHooksMaxTblSize then ⟨s.idx+1,h⟩ else 0

/-- A whole call: all stores to `next_tbl`, which becomes active when the call succeeds. -/
def call (op : Op F) : Status × HookStorage n F :=
  let update := op.update (s.hookTblStorage s.idx)
  let nextTbl := update.stores.foldl HookTbl.store (s.hookTblStorage s.nextIdx)
  let hookTblStorage := Function.update s.hookTblStorage s.nextIdx nextTbl
  (update.status,
    if update.status = .ok then ⟨hookTblStorage,s.nextIdx,s.nextIdx⟩
    else { s with hookTblStorage })

/-- The calls one after the other. -/
def calls (s : HookStorage n F) (ops : List (Op F)) : HookStorage n F :=
  ops.foldl (fun s op => (s.call op).2) s

end HookStorage

/-- What the call does to a list of at most `n` functions; `none` when it fails. -/
def Op.onList (n : Nat) (l : List F) : Op F → Option (List F)
  | .register hookFn => if l.length < n then some (l ++ [hookFn]) else none
  | .unregister hookFn => if hookFn ∈ l then some (l.erase hookFn) else none

/-- The list after the calls, where those that fail leave it. -/
def listAfter (n : Nat) (ops : List (Op F)) : List F :=
  ops.foldl (fun l op => (op.onList n l).getD l) []

end EmOdp.Hooks
