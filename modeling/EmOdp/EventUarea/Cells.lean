import EmOdp.EventUarea.Machine

/-! What the user areas look like from outside: an area is as large as those of its pool, whenever EM looks the
size up. The exception is `em_packet_reset` of a packet whose size has not been looked up: its area is lost. -/
namespace EmOdp.EventUarea
open Alloc (UserArea)
open EventFree (OdpType)

/-- The size of the user areas of a pool, 0 if it is not one of EM's -/
def Env.poolSize (env : Env) (odpPool : Nat) : Nat :=
  ((env.elemOf odpPool).map fun poolElem => poolElem.userArea % 2 ^ 14).getD 0

/-- A user area that has been used -/
structure Area where
  lost : Bool := false
  id : Option (BitVec 16) := none

/-- An event, with its user area once it has been used or EM has allocated it -/
structure Cell where
  type : OdpType
  odpPool : Nat
  area : Option Area := none

def Area.size (env : Env) (odpPool : Nat) (a : Area) : Nat := if a.lost then 0 else env.poolSize odpPool

namespace Cell
variable (env : Env) (c : Cell)

/-- A call that uses the area: `bad` without a header for it -/
def use {β : Type} (bad : β) (f : Area → β × Area) : Option (β × Cell) :=
  if hasUarea c.type then
    let r := f (c.area.getD {})
    some (r.1,{ c with area := some r.2 })
  else if 0 < env.checkLevel then some (bad,c) else none

def reset (odp : Odp) (size : Nat) : Option (Status × Cell) :=
  if c.type ≠ .packet then (if 3 ≤ env.checkLevel then some (.badArg,c) else none)
  else
    match env.elemOf c.odpPool with
    | none => some (.badId,c)
    | some poolElem =>
      match resetFailure env odp poolElem size with
      | some stat => some (stat,c)
      | none => some (.ok,{ c with area := some { lost := c.area.all Area.lost } })

def clone (type : OdpType) (odpPool : Nat) (poolElem : PoolElem) (cloneUarea : Bool) : Except Status Cell :=
  if 0 < env.checkLevel ∧ cloneUarea ∧ c.area.any (poolElem.userArea < ·.size env c.odpPool) then
    .error .tooSmall
  else .ok { type, odpPool, area := some { id := c.area.bind Area.id } }

end Cell

/-- The calls on the events without the metadata in the headers -/
def cells (env : Env) : Api Cell where
  type := Cell.type
  odpPool := Cell.odpPool
  alloc type odpPool _ := { type, odpPool, area := some {} }
  init type odpPool := { type, odpPool }
  uarea c := c.use env (false,0) fun a => ((0 < a.size env c.odpPool,a.size env c.odpPool),a)
  idSet c id := c.use env .operationFailed fun a => (.ok,{ a with id := some id })
  id c isset id :=
    if 0 < env.checkLevel ∧ !(id || isset) then some ((.badArg,none,none),c)
    else c.use env (.operationFailed,if isset then some false else none,none) fun a =>
      ((.ok,if isset then some a.id.isSome else none,if id then a.id else none),a)
  info c := c.use env (.operationFailed,⟨false,0,false,0⟩) fun a =>
    let size := a.size env c.odpPool
    ((.ok,⟨0 < size,size,a.id.isSome,a.id.getD 0⟩),a)
  reset := Cell.reset env
  clone := Cell.clone env

/-- The metadata in the header -/
def Area.userArea (env : Env) (odpPool : Nat) (a : Area) : UserArea :=
  ⟨a.id.isSome,true,.ofNat 14 (a.size env odpPool),a.id.getD 0⟩

def Cell.event (env : Env) (c : Cell) : Event :=
  ⟨c.type,c.odpPool,(c.area.map fun a => a.userArea env c.odpPool).getD {}⟩

variable {env : Env} {c : Cell}

theorem Env.poolSize_lt (env : Env) (odpPool : Nat) : env.poolSize odpPool < 2 ^ 14 := by
  rw [poolSize]
  cases env.elemOf odpPool with
  | none => exact Nat.two_pow_pos 14
  | some poolElem => exact Nat.mod_lt poolElem.userArea (Nat.two_pow_pos 14)

theorem Area.size_toNat (odpPool : Nat) (a : Area) :
    (BitVec.ofNat 14 (a.size env odpPool)).toNat = a.size env odpPool := by
  rw [BitVec.toNat_ofNat, Nat.mod_eq_of_lt]
  rw [size]
  split
  · exact Nat.two_pow_pos 14
  · exact env.poolSize_lt odpPool

/-- The size that EM writes when it allocates an event is that of the pool. -/
theorem uareaSize_poolSize {odpPool : Nat} {poolElem : PoolElem} (h : env.elemOf odpPool = some poolElem) :
    uareaSize poolElem.userArea = .ofNat 14 (env.poolSize odpPool) := by
  apply BitVec.eq_of_toNat_eq
  rw [uareaSize, BitVec.toNat_ofNat, BitVec.toNat_ofNat, Env.poolSize, h]
  exact (Nat.mod_mod _ _).symm

namespace Cell

/-- `event_uarea_init` looks the size up and changes nothing else. -/
theorem event_init (hu : hasUarea c.type = true) :
    eventUareaInit env (c.event env) = (0,{ c with area := some (c.area.getD {}) }.event env) := by
  obtain ⟨type,odpPool,area⟩ := c
  cases area with
  | some a => simp [eventUareaInit, event, hu, Area.userArea]
  | none =>
    cases hp : env.poolOdp2em odpPool with
    | none =>
      have he : env.elemOf odpPool = none := by rw [Env.elemOf, hp, Option.bind_none]
      simp [eventUareaInit, event, hu, hp, Area.userArea, Area.size, Env.poolSize, he]
    | some pool =>
      obtain ⟨poolElem,hq⟩ := Option.isSome_iff_exists.mp (env.poolElem_isSome odpPool pool hp)
      have he : env.elemOf odpPool = some poolElem := by rw [Env.elemOf, hp, Option.bind_some, hq]
      simp [eventUareaInit, event, hu, hp, hq, Area.userArea, Area.size, uareaSize_poolSize he]

theorem event_not_init (hu : hasUarea c.type = false) : eventUareaInit env (c.event env) = (-1,c.event env) := by
  simp [eventUareaInit, event, hu]

/-- A call that starts with `event_uarea_init` needs to know only what is done with the area. -/
theorem event_use {β : Type} {bad : β} {good : Event → β × Event} {f : Area → β × Area}
    (hf : ∀ a, good ({ c with area := some a }.event env) = ((f a).1,{ c with area := some (f a).2 }.event env)) :
    uareaCall env (c.event env) bad good = (c.use env bad f).map fun r => (r.1,r.2.event env) := by
  cases hu : hasUarea c.type with
  | true =>
    have h0 : ¬(0 < env.checkLevel ∧ (0 : Int) ≠ 0) := fun h => h.2 rfl
    rw [uareaCall, event_init hu, use, if_pos hu]
    dsimp only
    rw [if_neg h0, if_neg (by decide), hf]
    rfl
  | false =>
    rw [uareaCall, event_not_init hu, use, if_neg (by rw [hu]; decide)]
    dsimp only
    by_cases hl : 0 < env.checkLevel
    · rw [if_pos ⟨hl,by decide⟩, if_pos hl]
      rfl
    · rw [if_neg (fun h => hl h.1), if_pos rfl, if_neg hl]
      rfl

end Cell

section
variable (env) (c)

theorem uareaPtr_userArea (odpPool : Nat) (a : Area) :
    uareaPtr (a.userArea env odpPool) = (decide (0 < a.size env odpPool),a.size env odpPool) := by
  have hn : (a.userArea env odpPool).size.toNat = a.size env odpPool := a.size_toNat odpPool
  rw [uareaPtr]
  split
  next h =>
    rw [h] at hn
    rw [← hn]
    rfl
  next h =>
    have hz : a.size env odpPool ≠ 0 := fun hz => h (BitVec.eq_of_toNat_eq (hn.trans hz))
    rw [decide_eq_true (Nat.pos_of_ne_zero hz), hn]

theorem emEventUarea_event :
    emEventUarea env (c.event env) = ((cells env).uarea c).map fun r => (r.1,r.2.event env) := by
  simp only [emEventUarea, cells]
  apply Cell.event_use
  intro a
  exact congrArg (·,_) (uareaPtr_userArea env c.odpPool a)

theorem emEventUareaIdSet_event (id : BitVec 16) :
    emEventUareaIdSet env (c.event env) id = ((cells env).idSet c id).map fun r => (r.1,r.2.event env) := by
  simp only [emEventUareaIdSet, cells]
  apply Cell.event_use
  intro a
  rfl

theorem emEventUareaId_event (isset id : Bool) :
    emEventUareaId env (c.event env) isset id = ((cells env).id c isset id).map fun r => (r.1,r.2.event env) := by
  simp only [emEventUareaId, cells]
  split
  · rfl
  · apply Cell.event_use
    rintro ⟨lost,_ | v⟩
    · cases id <;> rfl
    · cases id <;> rfl

theorem emEventUareaInfo_event :
    emEventUareaInfo env (c.event env) = ((cells env).info c).map fun r => (r.1,r.2.event env) := by
  simp only [emEventUareaInfo, cells]
  apply Cell.event_use
  intro a
  simp only [Cell.event, Option.map_some, Option.getD_some, uareaPtr_userArea]
  obtain ⟨lost,_ | v⟩ := a
  · rfl
  · rfl

theorem emPacketReset_event (odp : Odp) (size : Nat) :
    emPacketReset env (c.event env) odp size = (c.reset env odp size).map fun r => (r.1,r.2.event env) := by
  by_cases hy : c.type = .packet
  · rw [emPacketReset, Cell.reset, if_neg (not_not.mpr hy),
      if_neg (show ¬(c.event env).type ≠ .packet from not_not.mpr hy)]
    dsimp only [Cell.event]
    cases env.elemOf c.odpPool with
    | none => rfl
    | some poolElem =>
      dsimp only
      cases resetFailure env odp poolElem size with
      | some stat => rfl
      | none =>
        obtain ⟨type,odpPool,_ | a⟩ := c
        · rfl
        · rfl
  · rw [emPacketReset, Cell.reset, if_pos hy, if_pos (show (c.event env).type ≠ .packet from hy)]
    split
    · rfl
    · rfl

/-- The size that is compared with the pool's is the one of a used area. -/
theorem tooSmall_iff (n : Nat) :
    ((c.event env).userArea.isinit = true ∧ n < (c.event env).userArea.size.toNat) ↔
      c.area.any (n < ·.size env c.odpPool) = true := by
  obtain ⟨type,odpPool,_ | a⟩ := c
  · exact ⟨fun h => Bool.noConfusion h.1,fun h => Bool.noConfusion h⟩
  · have hn : (a.userArea env odpPool).size.toNat = a.size env odpPool := a.size_toNat odpPool
    simp only [Cell.event, Option.map_some, Option.getD_some, hn, Option.any_some, decide_eq_true_eq]
    exact and_iff_right rfl

theorem event_type : (events env).type (c.event env) = (cells env).type c := rfl

theorem event_odpPool : (events env).odpPool (c.event env) = (cells env).odpPool c := rfl

theorem clone_event (type : OdpType) (odpPool : Nat) {poolElem : PoolElem} (cloneUarea : Bool)
    (hp : env.elemOf odpPool = some poolElem) :
    (events env).clone (c.event env) type odpPool poolElem cloneUarea =
      ((cells env).clone c type odpPool poolElem cloneUarea).map (Cell.event env) := by
  simp only [events, cells, Cell.clone, cloneUserArea, tooSmall_iff]
  split
  · rfl
  · rw [uareaSize_poolSize hp]
    obtain ⟨_,_,_ | a⟩ := c
    · rfl
    · rfl

end

section Runs
variable {α : Type} (env : Env)

/-- The headers of all events -/
def headers (t : α → Option Cell) : α → Option Event := fun a => (t a).map (Cell.event env)

theorem headers_apply (t : α → Option Cell) (a : α) : headers env t a = (t a).map (Cell.event env) := rfl

variable [DecidableEq α]

theorem headers_update (t : α → Option Cell) (a : α) (c : Option Cell) :
    Function.update (headers env t) a (c.map (Cell.event env)) = headers env (Function.update t a c) := by
  funext b
  by_cases hb : b = a
  · rw [hb, Function.update_self, headers, Function.update_self]
  · rw [Function.update_of_ne hb, headers, headers, Function.update_of_ne hb]

theorem onEvent_headers {β : Type} (t : α → Option Cell) (a : α) (output : β → Output)
    {call : Event → Option (β × Event)} {call' : Cell → Option (β × Cell)}
    (h : ∀ c, call (c.event env) = (call' c).map fun r => (r.1,r.2.event env)) :
    Api.onEvent (headers env t) a call output =
      (Api.onEvent t a call' output).map fun r => (r.1,headers env r.2) := by
  rw [Api.onEvent, Api.onEvent, headers]
  cases t a with
  | none => rfl
  | some c =>
    rw [Option.map_some, Option.bind_some, Option.bind_some, h]
    cases call' c with
    | none => rfl
    | some r => exact congrArg (fun s => some (output r.1,s)) (headers_update env t a (some r.2))

theorem new_headers (t : α → Option Cell) (a : α) (c : Cell) :
    Api.new (headers env t) a (c.event env) = (Api.new t a c).map fun r => (r.1,headers env r.2) := by
  rw [Api.new, Api.new, headers, Option.isSome_map]
  split
  · rfl
  · exact congrArg (fun s => some (Output.none,s)) (headers_update env t a (some c))

theorem alloc_event (type : OdpType) {odpPool : Nat} {poolElem : PoolElem} (hp : env.elemOf odpPool = some poolElem) :
    (events env).alloc type odpPool poolElem = ((cells env).alloc type odpPool poolElem).event env := by
  dsimp only [events, cells]
  rw [uareaSize_poolSize hp]
  rfl

theorem step_headers (t : α → Option Cell) (l : Label α) :
    Api.step env (events env) (headers env t) l =
      (Api.step env (cells env) t l).map fun r => (r.1,headers env r.2) := by
  cases l with
  | alloc a type odpPool =>
    simp only [Api.step]
    cases hp : env.elemOf odpPool with
    | none => rfl
    | some poolElem =>
      rw [Option.bind_some, Option.bind_some]
      split
      · rw [alloc_event env type hp]
        exact new_headers env t a _
      · rfl
  | init a type odpPool => exact new_headers env t a { type, odpPool }
  | free a =>
    simp only [Api.step, headers]
    cases t a with
    | none => rfl
    | some c => exact congrArg (fun s => some (Output.none,s)) (headers_update env t a none)
  | uarea a => exact onEvent_headers env t a _ (emEventUarea_event env)
  | idSet a id => exact onEvent_headers env t a _ fun c => emEventUareaIdSet_event env c id
  | id a isset id => exact onEvent_headers env t a _ fun c => emEventUareaId_event env c isset id
  | info a => exact onEvent_headers env t a _ (emEventUareaInfo_event env)
  | reset a odp size => exact onEvent_headers env t a _ fun c => emPacketReset_event env c odp size
  | clone a b type odpPool cloneUarea =>
    simp only [Api.step]
    rw [headers_apply]
    cases t a with
    | none => rfl
    | some c =>
      rw [Option.map_some, Option.bind_some, Option.bind_some]
      cases hp : env.elemOf odpPool with
      | none => rfl
      | some poolElem =>
        rw [Option.bind_some, Option.bind_some, clone_event env c type odpPool cloneUarea hp]
        rw [event_type]
        split
        · cases (cells env).clone c type odpPool poolElem cloneUarea with
          | error stat => rfl
          | ok c' => exact new_headers env t b c'
        · rfl
  | cloneOdp a b =>
    simp only [Api.step]
    rw [headers_apply]
    cases t a with
    | none => rfl
    | some c =>
      rw [Option.map_some, Option.bind_some, Option.bind_some]
      rw [event_type, event_odpPool]
      split
      · exact new_headers env t b c
      · rfl

end Runs
end EmOdp.EventUarea
