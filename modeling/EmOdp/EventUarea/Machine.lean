import EmOdp.Alloc.Machine
import EmOdp.EventFree.Memory
import EmOdp.Lib.Lockstep

/-! The user areas of events: how large each is, and which id it has. EM writes the size when it allocates
an event, and looks it up at the first use for an event that came from outside. -/
namespace EmOdp.EventUarea
open Alloc (UserArea)
open EventFree (OdpType)

/-- `mpool_elem_t` -/
structure PoolElem where
  /-- `user_area.size` -/
  userArea : Nat
  alignOffset : Nat

structure Env where
  /-- `EM_CHECK_LEVEL` -/
  checkLevel : Nat
  /-- `pool_odp2em`, none is `EM_POOL_UNDEF` -/
  poolOdp2em : Nat → Option Nat
  /-- `pool_elem_get`, none is `NULL` -/
  poolElem : Nat → Option PoolElem
  poolElem_isSome : ∀ o p, poolOdp2em o = some p → (poolElem p).isSome = true

/-- The EM pool of an ODP pool -/
def Env.elemOf (env : Env) (odpPool : Nat) : Option PoolElem := (env.poolOdp2em odpPool).bind env.poolElem

/-- An ODP event with the metadata of its user area -/
structure Event where
  type : OdpType
  odpPool : Nat
  userArea : UserArea

inductive Status where
  | ok | badArg | badId | libFailed | tooSmall | operationFailed
  deriving DecidableEq

/-- `em_event_uarea_info_t` -/
structure UareaInfo where
  uarea : Bool
  size : Nat
  isset : Bool
  value : BitVec 16
  deriving DecidableEq

/-- What `odp_packet_reset`, `odp_packet_push_head` and `odp_packet_pull_tail` return -/
structure Odp where
  reset : Nat → Int
  pushHead : Nat → Bool
  pullTail : Nat → Bool

/-- Events of these types have a header with a user area. -/
def hasUarea (type : OdpType) : Bool :=
  type = .packet || type = .buffer || type = .vector || type = .packetVector

/-- `user_area.size = pool_elem->user_area.size` -/
def uareaSize (size : Nat) : BitVec 14 := .ofNat 14 size

/-- Whether the address of the user area is given, and the size -/
def uareaPtr (userArea : UserArea) : Bool × Nat :=
  if userArea.size = 0 then (false,0) else (true,userArea.size.toNat)

section Calls
variable (env : Env) (e : Event)

/-- `event_uarea_init` -/
def eventUareaInit : Int × Event :=
  if !hasUarea e.type then (-1,e)
  else if e.userArea.isinit then (0,e)
  else
    let userArea : UserArea := { isinit := true }
    match env.poolOdp2em e.odpPool with
    | none => (0,{ e with userArea })
    | some pool =>
      match env.poolElem pool with
      | none => (-2,{ e with userArea })
      | some poolElem => (0,{ e with userArea := { userArea with size := uareaSize poolElem.userArea } })

/-- A call that starts with `event_uarea_init`: `bad` if that fails and is checked, none if the header is `NULL` -/
def uareaCall {β : Type} (bad : β) (good : Event → β × Event) : Option (β × Event) :=
  let (err,e) := eventUareaInit env e
  if 0 < env.checkLevel ∧ err ≠ 0 then some (bad,e)
  else if err = -1 then none
  else some (good e)

/-- `em_event_uarea`: whether the address of the user area is returned, and the size -/
def emEventUarea : Option ((Bool × Nat) × Event) :=
  uareaCall env e (false,0) fun e => (uareaPtr e.userArea,e)

/-- `em_event_uarea_id_set` -/
def emEventUareaIdSet (id : BitVec 16) : Option (Status × Event) :=
  uareaCall env e .operationFailed fun e => (.ok,{ e with userArea := { e.userArea with id, issetId := true } })

/-- `em_event_uarea_id` with `isset` and `id` or one of them: the status, `*isset` and what is written
to `*id` -/
def emEventUareaId (isset id : Bool) : Option ((Status × Option Bool × Option (BitVec 16)) × Event) :=
  if 0 < env.checkLevel ∧ !(id || isset) then some ((.badArg,none,none),e)
  else
    uareaCall env e (.operationFailed,if isset then some false else none,none) fun e =>
      ((.ok,if isset then some e.userArea.issetId else none,
        if e.userArea.issetId && id then some e.userArea.id else none),e)

/-- `em_event_uarea_info` -/
def emEventUareaInfo : Option ((Status × UareaInfo) × Event) :=
  uareaCall env e (.operationFailed,⟨false,0,false,0⟩) fun e =>
    let (uarea,size) := uareaPtr e.userArea
    let (isset,value) := if e.userArea.issetId then (true,e.userArea.id) else (false,0)
    ((.ok,⟨uarea,size,isset,value⟩),e)

/-- The calls of ODP in `em_packet_reset`, the status if one of them fails -/
def resetFailure (odp : Odp) (poolElem : PoolElem) (size : Nat) : Option Status :=
  let pushHeadLen := poolElem.alignOffset
  let (resetLen,pullTailLen) :=
    if pushHeadLen < size then (size - pushHeadLen,0) else (1,pushHeadLen + 1 - size)
  if odp.reset resetLen ≠ 0 then some .libFailed
  else if 0 < pushHeadLen ∧ 3 ≤ env.checkLevel ∧ !odp.pushHead pushHeadLen then some .libFailed
  else if 0 < pullTailLen ∧ 3 ≤ env.checkLevel ∧ !odp.pullTail pullTailLen then some .libFailed
  else none

/-- `em_packet_reset`; none if a call of ODP is made on what is no packet -/
def emPacketReset (odp : Odp) (size : Nat) : Option (Status × Event) :=
  if e.type ≠ .packet then (if 3 ≤ env.checkLevel then some (.badArg,e) else none)
  else
    match env.elemOf e.odpPool with
    | none => some (.badId,e)
    | some poolElem =>
      match resetFailure env odp poolElem size with
      | some stat => some (stat,e)
      | none =>
        let uareaSave := e.userArea
        some (.ok,{ e with userArea := { size := uareaSave.size, isinit := true } })

/-- `event_clone_part` into the EM pool of `odpPool`, with events of `type`: the user area of the clone -/
def cloneUserArea (poolElem : PoolElem) (cloneUarea : Bool) : Except Status UserArea :=
  if 0 < env.checkLevel ∧ cloneUarea ∧ e.userArea.isinit ∧ poolElem.userArea < e.userArea.size.toNat then
    .error .tooSmall
  else .ok { e.userArea with size := uareaSize poolElem.userArea, isinit := true }

end Calls

/-- Calls on the events of type `α` -/
inductive Label (α : Type) where
  /-- an event is allocated from an EM pool -/
  | alloc (a : α) (type : OdpType) (odpPool : Nat)
  /-- `event_init_odp` of an event from outside that EM has not seen before -/
  | init (a : α) (type : OdpType) (odpPool : Nat)
  | free (a : α)
  | uarea (a : α)
  | idSet (a : α) (id : BitVec 16)
  | id (a : α) (isset id : Bool)
  | info (a : α)
  | reset (a : α) (odp : Odp) (size : Nat)
  /-- `event_clone_part` of `a` as `b` from an EM pool of events of `type` -/
  | clone (a b : α) (type : OdpType) (odpPool : Nat) (cloneUarea : Bool)
  /-- `pkt_clone_odp` of `a` as `b` -/
  | cloneOdp (a b : α)

inductive Output where
  | none
  | uarea (r : Bool × Nat)
  | status (stat : Status)
  | id (r : Status × Option Bool × Option (BitVec 16))
  | info (r : Status × UareaInfo)
  deriving DecidableEq

/-- The calls on an event, whatever is known of an event -/
structure Api (E : Type) where
  type : E → OdpType
  odpPool : E → Nat
  alloc : OdpType → Nat → PoolElem → E
  init : OdpType → Nat → E
  uarea : E → Option ((Bool × Nat) × E)
  idSet : E → BitVec 16 → Option (Status × E)
  id : E → Bool → Bool → Option ((Status × Option Bool × Option (BitVec 16)) × E)
  info : E → Option ((Status × UareaInfo) × E)
  reset : E → Odp → Nat → Option (Status × E)
  clone : E → OdpType → Nat → PoolElem → Bool → Except Status E

/-- The calls of the source -/
def events (env : Env) : Api Event where
  type := Event.type
  odpPool := Event.odpPool
  alloc type odpPool poolElem := ⟨type,odpPool,{ size := uareaSize poolElem.userArea, isinit := true }⟩
  init type odpPool := ⟨type,odpPool,{}⟩
  uarea := emEventUarea env
  idSet := emEventUareaIdSet env
  id := emEventUareaId env
  info := emEventUareaInfo env
  reset := emPacketReset env
  clone e type odpPool poolElem cloneUarea :=
    (cloneUserArea env e poolElem cloneUarea).map fun u => ⟨type,odpPool,u⟩

namespace Api
variable {α E : Type} [DecidableEq α] (env : Env) (api : Api E) (s : α → Option E)

/-- A call on one event -/
def onEvent {β : Type} (a : α) (call : E → Option (β × E)) (output : β → Output) :
    Option (Output × (α → Option E)) :=
  (s a).bind fun e => (call e).map fun r => (output r.1,Function.update s a (some r.2))

/-- A new event -/
def new (a : α) (e : E) : Option (Output × (α → Option E)) :=
  if (s a).isSome then none else some (.none,Function.update s a (some e))

/-- none if the call is not allowed -/
def step : Label α → Option (Output × (α → Option E))
  | .alloc a type odpPool =>
    (env.elemOf odpPool).bind fun poolElem =>
      if hasUarea type then new s a (api.alloc type odpPool poolElem) else none
  | .init a type odpPool => new s a (api.init type odpPool)
  | .free a => (s a).map fun _ => (.none,Function.update s a none)
  | .uarea a => onEvent s a api.uarea .uarea
  | .idSet a id => onEvent s a (api.idSet · id) .status
  | .id a isset id => onEvent s a (api.id · isset id) .id
  | .info a => onEvent s a api.info .info
  | .reset a odp size => onEvent s a (api.reset · odp size) .status
  | .clone a b type odpPool cloneUarea =>
    (s a).bind fun e => (env.elemOf odpPool).bind fun poolElem =>
      if (api.type e = .packet ∨ api.type e = .buffer) ∧ (type = .packet ∨ type = .buffer) then
        match api.clone e type odpPool poolElem cloneUarea with
        | .error stat => some (.status stat,s)
        | .ok e' => new s b e'
      else none
  | .cloneOdp a b =>
    (s a).bind fun e =>
      if api.type e = .packet ∧ env.poolOdp2em (api.odpPool e) = none then new s b e else none

end Api
end EmOdp.EventUarea
