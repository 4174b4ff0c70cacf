import EmOdp.Lib.TransitionSystem
import EmOdp.EventState.Verify

/-! Legal use of one event that never has references: who owns it, which handle the
user got last, and the calls that are made for each change of ownership. -/
namespace EmOdp.EventState
open Lib EvstateCnt

inductive Owner where
  | free | user | em
  deriving DecidableEq, Repr

namespace Owner

def sends : Owner → Int
  | free | user => 0
  | em => 1

def refs : Owner → Int
  | free => 0
  | user | em => 1

end Owner

structure State where
  hdr : EvHdr
  owner : Owner
  /-- the handle most recently returned to the user -/
  handle : EvHdl
  /-- the last step was a send or a free, that may be reverted -/
  undo : Bool
  /-- ghost: sends and frees that are not reverted -/
  transitions : Nat
  /-- ghost: the handles returned to the user, each with the transitions before it -/
  returned : List (EvHdl × Nat)
  deriving DecidableEq, Repr

inductive Label where
  | usr2em (v : Variant)
  | free (v : Variant)
  /-- the event is passed with any generation -/
  | em2usr (evgen : BitVec 16)
  | alloc (evgen : BitVec 16)
  | usr2emRevert (v : Variant)
  | freeRevert (v : Variant)
  deriving DecidableEq, Repr

namespace State
variable (s : State) (preallocPools : Bool)

def Legal : Label → Prop
  | .usr2em _ | .free _ => s.owner = .user
  | .em2usr _ => s.owner = .em
  | .alloc _ => s.owner = .free ∧ preallocPools = true
  | .usr2emRevert _ => s.owner = .em ∧ s.undo = true
  | .freeRevert _ => s.owner = .free ∧ s.undo = true

/-- The user gives the event away with the handle that it has. -/
def toEm (owner : Owner) (hdr : EvHdr) : State :=
  { s with hdr, owner, undo := true, transitions := s.transitions + 1 }

/-- The user has its handle back. -/
def revert (hdr : EvHdr) : State :=
  { s with hdr, owner := .user, undo := false, transitions := s.transitions - 1 }

def toUser (r : EvHdl × EvHdr) : State :=
  { s with
    hdr := r.2, owner := .user, handle := r.1, undo := false
    returned := (r.1,s.transitions) :: s.returned }

def call : Label → Except EvstateError State
  | .usr2em v => (evstateUsr2em v s.handle s.hdr).map (s.toEm .em)
  | .free v => (evstateFree v s.handle s.hdr).map (s.toEm .free)
  | .em2usr evgen => (evstateEm2usr { s.handle with evgen } s.hdr).map s.toUser
  | .alloc evgen => (evstateAlloc { s.handle with evgen } s.hdr preallocPools).map s.toUser
  | .usr2emRevert v => (evstateUsr2emRevert v s.handle s.hdr).map s.revert
  | .freeRevert v => (evstateFreeRevert v s.handle s.hdr).map s.revert

end State

/-- A new event, owned by the user or, for a received external event, by EM. -/
def State.new (owner : Owner) (r : EvHdl × EvHdr) : State := ⟨r.2,owner,r.1,false,0,[(r.1,0)]⟩

/-- How a run starts: from any contents of the header's counters. -/
inductive Start (preallocPools : Bool) : State → Prop where
  | prealloc (event : EvHdl) (hdr : EvHdr) :
      hdr.refsUsed = false → hdr.odpType = false →
      Start preallocPools (.new .user (evstatePrealloc event hdr))
  | alloc (event : EvHdl) (hdr : EvHdr) (r : EvHdl × EvHdr) :
      hdr.refsUsed = false → hdr.odpType = false → preallocPools = false →
      evstateAlloc event hdr preallocPools = .ok r → Start preallocPools (.new .user r)
  | init (event : EvHdl) (hdr : EvHdr) (v : Variant) (isExtev : Bool) :
      hdr.refsUsed = false → hdr.odpType = false →
      Start preallocPools (.new (if v = .multi ∧ isExtev then .em else .user)
        (evstateInit v event hdr isExtev))

def machine (preallocPools : Bool) : System State Label where
  init := Start preallocPools
  step s l t := s.Legal preallocPools l ∧ s.call preallocPools l = .ok t

end EmOdp.EventState
