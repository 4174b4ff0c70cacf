import EmOdp.OdpExt.PktSteps

/-! Packets on their way through EM: received by `em_odp_pkt_enqueue`, dispatched or dequeued, sent on and
freed, in any order. -/
namespace EmOdp.OdpExt
open Lib EventState EventFree
open Send (QueueElem QueueType)

variable {κ : Type} {env : Env κ}

/-- The header of a packet shows where the packet is. -/
def HdrOk (env : Env κ) (e : OdpEvent) (handle : EvHdl) (p : OdpEvt) : Place κ → Prop
  | .outside => e.type = .packet → Raw env.cfg e
  | .queued k true => if env.dispatched k then Raw env.cfg e else Owned p e
  | .queued _ false => Sent p e
  | .user => Owned p e ∧ handle = e.hdr.event

namespace State

structure Initial (env : Env κ) (s : State κ) : Prop where
  raw : ∀ p, (s.memory.event p).type = .packet → Raw env.cfg (s.memory.event p)
  queue : ∀ k, s.queue k = []
  place : ∀ p, s.place p = .outside
  given : s.given = []
  freed : s.freed = []

/-- The packets in any run of calls -/
def machine [DecidableEq κ] (env : Env κ) : System (State κ) (Label κ) where
  init := Initial env
  step s l t := s.Legal env l ∧ s.call env l = some t

structure Inv (env : Env κ) (s : State κ) : Prop where
  packet : ∀ p, s.place p ≠ .outside → p ≠ 0 ∧ (s.memory.event p).type = .packet
  nodup : ∀ k, (s.queue k).Nodup
  mem_queue : ∀ k p, p ∈ s.queue k ↔ ∃ external, s.place p = .queued k external
  inner : ∀ p k external, s.place p = .queued k external → env.dispatched k ∨ env.dequeued k
  handle : ∀ p, s.place p = .user → (s.handle p).evptr = p
  counted : ∀ p, s.given.count p = s.freed.count p + (s.place p).held
  header : env.cfg.esvEnabled = true → ∀ p, HdrOk env (s.memory.event p) (s.handle p) p (s.place p)

variable {s : State κ}

theorem Initial.inv (h : s.Initial env) : s.Inv env := by
  refine ⟨fun p hp => absurd (h.place p) hp,fun k => ?_,fun k p => ?_,fun p k x hx => ?_,fun p hp => ?_,fun p => ?_,
    fun _ p => ?_⟩
  · rw [h.queue k]
    exact List.nodup_nil
  · rw [h.queue k, h.place p]
    exact iff_of_false List.not_mem_nil (by rintro ⟨_,⟨⟩⟩)
  · rw [h.place p] at hx
    cases hx
  · rw [h.place p] at hp
    cases hp
  · rw [h.given, h.freed, h.place p]
    rfl
  · rw [h.place p]
    exact h.raw p

section Enqueue
variable {ps : List OdpEvt} {k : Option κ} {r : Enqueued} {init : Bool}

theorem newHandle_mem {events : List EvHdl} {p : OdpEvt} (h : p ∈ events.map EvHdl.evptr) :
    s.newHandle events p ∈ events ∧ (s.newHandle events p).evptr = p := by
  obtain ⟨event,hmem,hp⟩ := List.mem_map.1 h
  obtain ⟨event',hfind⟩ := Option.isSome_iff_exists.1
    (List.find?_isSome.2 ⟨event,hmem,decide_eq_true hp⟩ : (events.find? fun event => event.evptr = p).isSome = true)
  have hp' : event'.evptr = p := by simpa using List.find?_some hfind
  rw [newHandle, hfind]
  exact ⟨List.mem_of_find?_eq_some hfind,hp'⟩

theorem newHandle_not_mem {events : List EvHdl} {p : OdpEvt} (h : p ∉ events.map EvHdl.evptr) :
    s.newHandle events p = s.handle p := by
  have hfind : (events.find? fun event => event.evptr = p) = none :=
    List.find?_eq_none.2 fun event hmem hp => h (List.mem_map.2 ⟨event,hmem,of_decide_eq_true hp⟩)
  rw [newHandle, hfind]
  rfl

theorem inits_iff (k : κ) : inits (some (env.elem k)) = true ↔ ¬env.dispatched k := by
  rw [inits, Bool.and_eq_true, Bool.not_eq_true', decide_eq_true_iff, ← Bool.not_eq_true, ← not_or]
  rfl

/-- Packets are initialized before they are handed over, unless the dispatcher initializes them. -/
theorem hdrOk_handedTo {e : OdpEvent} {handle : EvHdl} {p : OdpEvt}
    (h : if inits (k.map env.elem) then Owned p e ∧ handle = e.hdr.event else Raw env.cfg e) :
    HdrOk env e handle p (handedTo env k) := by
  cases k with
  | none => exact h
  | some k =>
    rw [Option.map_some] at h
    by_cases hdisp : env.dispatched k
    · rw [if_neg (mt (inits_iff k).1 (not_not_intro hdisp))] at h
      rw [handedTo, if_pos (.inl hdisp), HdrOk, if_pos hdisp]
      exact h
    · rw [if_pos ((inits_iff k).2 hdisp)] at h
      rw [handedTo]
      split
      · rw [HdrOk, if_neg hdisp]
        exact h.1
      · exact h

theorem held_handedTo (k : Option κ) : (handedTo env k).held = 1 := by
  cases k with
  | none => rfl
  | some k =>
    rw [handedTo]
    split
    · rfl
    · rfl

theorem handedTo_eq_queued {k' : κ} {x : Bool} (h : handedTo env k = .queued k' x) :
    k = some k' ∧ x = true ∧ (env.dispatched k' ∨ env.dequeued k') := by
  cases k with
  | none => cases h
  | some k =>
    rw [handedTo] at h
    split at h
    · cases h
      exact ⟨rfl,rfl,‹_›⟩
    · cases h

variable [DecidableEq κ]

theorem pktEnqueued_place_freed {p : OdpEvt} (hf : p ∈ r.freed) : (s.pktEnqueued env k ps r).place p = .outside :=
  if_pos hf

theorem pktEnqueued_place_handed {p : OdpEvt} (hf : p ∉ r.freed) (hh : p ∈ r.handed.map EvHdl.evptr) :
    (s.pktEnqueued env k ps r).place p = handedTo env k := (if_neg hf).trans (if_pos hh)

theorem pktEnqueued_place_other {p : OdpEvt} (hf : p ∉ r.freed) (hh : p ∉ r.handed.map EvHdl.evptr) :
    (s.pktEnqueued env k ps r).place p = s.place p := (if_neg hf).trans (if_neg hh)

theorem pktEnqueued_queue_of_not_handed {p : OdpEvt} {k' : κ} (hh : p ∉ r.handed.map EvHdl.evptr) :
    p ∈ (s.pktEnqueued env k ps r).queue k' ↔ p ∈ s.queue k' := by
  dsimp only [pktEnqueued]
  split
  · rw [List.mem_append]
    exact or_iff_left hh
  · rfl

theorem pktEnqueued_memory_freed {p : OdpEvt} (hf : p ∈ r.freed) :
    (s.pktEnqueued env k ps r).memory.event p = { r.memory.event p with userFlag := false } := if_pos hf

theorem pktEnqueued_memory {p : OdpEvt} (hf : p ∉ r.freed) :
    (s.pktEnqueued env k ps r).memory.event p = r.memory.event p := if_neg hf

theorem Inv.enqueue (h : s.Inv env) (hnodup : ps.Nodup) (hout : ∀ p ∈ ps, s.place p = .outside)
    (hpkt : ∀ p ∈ ps, p ≠ 0 ∧ (s.memory.event p).type = .packet)
    (hr : EnqueueOk env.cfg (inits (k.map env.elem)) ps s.memory r) : (s.pktEnqueued env k ps r).Inv env := by
  have htype (p : OdpEvt) : ((s.pktEnqueued env k ps r).memory.event p).type = (s.memory.event p).type := by
    rw [← hr.type p]
    dsimp only [State.pktEnqueued, odpFree]
    split
    · rfl
    · rfl
  refine ⟨fun p hp => ?_,fun k' => ?_,fun k' p => ?_,fun p k' x hx => ?_,fun p hp => ?_,fun p => ?_,fun hesv p => ?_⟩
  · rw [htype]
    rcases hr.cases hnodup p with ⟨hps,-⟩ | ⟨hps,-⟩ | ⟨-,hf,hh⟩
    · exact hpkt p hps
    · exact hpkt p hps
    · dsimp only [State.pktEnqueued] at hp
      rw [if_neg hf, if_neg hh] at hp
      exact h.packet p hp
  · dsimp only [State.pktEnqueued]
    split
    · refine List.nodup_append'.2 ⟨h.nodup k',?_,fun p hq hh => ?_⟩
      · exact (List.nodup_append'.1 (hr.split ▸ hnodup)).1
      · obtain ⟨x,hx⟩ := (h.mem_queue k' p).1 hq
        have hp := hout p (hr.split ▸ List.mem_append_left _ hh)
        rw [hp] at hx
        cases hx
    · exact h.nodup k'
  · have hold (hps : p ∈ ps) : p ∉ s.queue k' := fun hq => by
      obtain ⟨x,hx⟩ := (h.mem_queue k' p).1 hq
      rw [hout p hps] at hx
      cases hx
    rcases hr.cases hnodup p with ⟨hps,hf,hh⟩ | ⟨hps,hf,hh⟩ | ⟨-,hf,hh⟩
    · rw [pktEnqueued_place_freed hf]
      refine iff_of_false (fun hq => ?_) (by rintro ⟨_,⟨⟩⟩)
      rw [pktEnqueued_queue_of_not_handed hh] at hq
      exact hold hps hq
    · rw [pktEnqueued_place_handed hf hh, pktEnqueued]
      dsimp only
      by_cases hk : k = some k' ∧ (env.dispatched k' ∨ env.dequeued k')
      · rw [if_pos hk, hk.1, handedTo, if_pos hk.2]
        exact iff_of_true (List.mem_append_right _ hh) ⟨true,rfl⟩
      · rw [if_neg hk]
        refine iff_of_false (hold hps) ?_
        rintro ⟨x,hx⟩
        obtain ⟨hk',-,hinner⟩ := handedTo_eq_queued hx
        exact hk ⟨hk',hinner⟩
    · rw [pktEnqueued_place_other hf hh, pktEnqueued_queue_of_not_handed hh]
      exact h.mem_queue k' p
  · rcases hr.cases hnodup p with ⟨-,hf,-⟩ | ⟨-,hf,hh⟩ | ⟨-,hf,hh⟩
    · rw [pktEnqueued_place_freed hf] at hx
      cases hx
    · rw [pktEnqueued_place_handed hf hh] at hx
      exact (handedTo_eq_queued hx).2.2
    · rw [pktEnqueued_place_other hf hh] at hx
      exact h.inner p k' x hx
  · rcases hr.cases hnodup p with ⟨-,hf,-⟩ | ⟨-,hf,hh⟩ | ⟨-,hf,hh⟩
    · rw [pktEnqueued_place_freed hf] at hp
      cases hp
    · exact (newHandle_mem hh).2
    · rw [pktEnqueued_place_other hf hh] at hp
      exact (congrArg EvHdl.evptr (newHandle_not_mem hh)).trans (h.handle p hp)
  · have hcount := h.counted p
    have hps : ps.count p = (r.handed.map EvHdl.evptr).count p + r.freed.count p := by
      rw [← List.count_append, hr.split]
    show (s.given ++ ps).count p = (s.freed ++ r.freed).count p + _
    rw [List.count_append, List.count_append]
    rcases hr.cases hnodup p with ⟨hmem,hf,hh⟩ | ⟨hmem,hf,hh⟩ | ⟨hmem,hf,hh⟩
    · rw [List.count_eq_one_of_mem hnodup hmem, List.count_eq_zero.2 hh] at hps
      rw [Nat.zero_add] at hps
      rw [hout p hmem] at hcount
      rw [pktEnqueued_place_freed hf, List.count_eq_one_of_mem hnodup hmem, hcount, ← hps]
      rfl
    · rw [hout p hmem] at hcount
      rw [pktEnqueued_place_handed hf hh, List.count_eq_one_of_mem hnodup hmem, List.count_eq_zero.2 hf, hcount,
        held_handedTo]
      rfl
    · rw [pktEnqueued_place_other hf hh, List.count_eq_zero.2 hmem, List.count_eq_zero.2 hf]
      exact hcount
  · rcases hr.cases hnodup p with ⟨-,hf,hh⟩ | ⟨-,hf,hh⟩ | ⟨hmem,hf,hh⟩
    · rw [pktEnqueued_place_freed hf, pktEnqueued_memory_freed hf]
      exact fun _ => hr.freed hesv p hf
    · rw [pktEnqueued_place_handed hf hh, pktEnqueued_memory hf]
      obtain ⟨hnew,hptr⟩ := newHandle_mem (s := s) hh
      have hhanded := hr.handed hesv _ hnew
      rw [hptr] at hhanded
      exact hdrOk_handedTo hhanded
    · rw [pktEnqueued_place_other hf hh, pktEnqueued_memory hf, hr.frame p hmem]
      dsimp only [pktEnqueued]
      rw [newHandle_not_mem hh]
      exact h.header hesv p

end Enqueue

section Single
variable {p : OdpEvt} {e : OdpEvent}

/-- One packet is moved from one place inside to another one. -/
theorem Inv.move (hdl : EvHdl) (pl : Place κ) (queue : κ → List OdpEvt) (h : s.Inv env)
    (hp : s.place p ≠ .outside) (hpl : pl ≠ .outside)
    (htype : e.type = (s.memory.event p).type) (hnodup : ∀ k, (queue k).Nodup)
    (hmem : ∀ k, p ∈ queue k ↔ ∃ external, pl = .queued k external)
    (hother : ∀ k q, q ≠ p → (q ∈ queue k ↔ q ∈ s.queue k))
    (hinner : ∀ k external, pl = .queued k external → env.dispatched k ∨ env.dequeued k)
    (hhandle : pl = .user → hdl.evptr = p) (hheader : env.cfg.esvEnabled = true → HdrOk env e hdl p pl) :
    Inv env { s with
      memory := s.setEvent p e
      queue
      handle := Function.update s.handle p hdl
      place := Function.update s.place p pl } := by
  have hheld {pl : Place κ} (hpl : pl ≠ .outside) : pl.held = 1 := by
    cases pl with
    | outside => exact absurd rfl hpl
    | queued => rfl
    | user => rfl
  refine ⟨fun q hq => ?_,hnodup,fun k q => ?_,fun q k x hx => ?_,fun q hq => ?_,fun q => ?_,fun hesv q => ?_⟩
  · by_cases hqp : q = p
    · obtain rfl := hqp
      dsimp only [setEvent]
      rw [Function.update_self, htype]
      exact h.packet q hp
    · dsimp only [setEvent] at hq ⊢
      rw [Function.update_of_ne hqp] at hq ⊢
      exact h.packet q hq
  · by_cases hqp : q = p
    · obtain rfl := hqp
      dsimp only
      rw [Function.update_self]
      exact hmem k
    · dsimp only
      rw [Function.update_of_ne hqp]
      exact (hother k q hqp).trans (h.mem_queue k q)
  · by_cases hqp : q = p
    · obtain rfl := hqp
      dsimp only at hx
      rw [Function.update_self] at hx
      exact hinner k x hx
    · dsimp only at hx
      rw [Function.update_of_ne hqp] at hx
      exact h.inner q k x hx
  · by_cases hqp : q = p
    · obtain rfl := hqp
      dsimp only at hq ⊢
      rw [Function.update_self] at hq ⊢
      exact hhandle hq
    · dsimp only at hq ⊢
      rw [Function.update_of_ne hqp] at hq ⊢
      exact h.handle q hq
  · have hcount := h.counted q
    by_cases hqp : q = p
    · obtain rfl := hqp
      dsimp only
      rw [Function.update_self, hheld hpl]
      rw [hheld hp] at hcount
      exact hcount
    · dsimp only
      rw [Function.update_of_ne hqp]
      exact hcount
  · by_cases hqp : q = p
    · obtain rfl := hqp
      dsimp only [setEvent]
      rw [Function.update_self, Function.update_self, Function.update_self]
      exact hheader hesv
    · dsimp only [setEvent]
      rw [Function.update_of_ne hqp, Function.update_of_ne hqp, Function.update_of_ne hqp]
      exact h.header hesv q

theorem Inv.mem_unique {k k' : κ} (h : s.Inv env) (hp : p ∈ s.queue k) (hp' : p ∈ s.queue k') : k = k' := by
  obtain ⟨x,hx⟩ := (h.mem_queue k p).1 hp
  obtain ⟨x',hx'⟩ := (h.mem_queue k' p).1 hp'
  rw [hx] at hx'
  cases hx'
  rfl

theorem Inv.userPkts (h : s.Inv env) (hp : s.place p = .user) : UserPkts env.cfg s.memory [s.handle p] := by
  have hptr := h.handle p hp
  refine ⟨List.nodup_singleton _,fun event hmem => ?_,fun hesv event hmem => ?_⟩
  · obtain rfl := List.mem_singleton.1 hmem
    rw [hptr]
    exact h.packet p (by rw [hp]; rintro ⟨⟩)
  · obtain rfl := List.mem_singleton.1 hmem
    have hheader := h.header hesv p
    rw [hp] at hheader
    rw [hptr]
    exact hheader

theorem Inv.freed {m : Memory} (h : s.Inv env) (hp : s.place p = .user)
    (hm : FreedAll env.cfg [p] s.memory m) : Inv env { s with
      memory := odpFree [p] m
      place := fun q => if q ∈ [p] then .outside else s.place q
      freed := s.freed ++ [p] } := by
  have htype (q : OdpEvt) : ((odpFree [p] m).event q).type = (s.memory.event q).type := by
    rw [← hm.type q]
    dsimp only [odpFree]
    split
    · rfl
    · rfl
  refine ⟨fun q hq => ?_,h.nodup,fun k q => ?_,fun q k x hx => ?_,fun q hq => ?_,fun q => ?_,fun hesv q => ?_⟩
  · dsimp only at hq
    rw [htype]
    split at hq
    · exact absurd rfl hq
    · exact h.packet q hq
  · dsimp only
    rw [h.mem_queue k q]
    split
    · rename_i hqp
      rw [List.mem_singleton.1 hqp, hp]
      exact iff_of_false (by rintro ⟨_,⟨⟩⟩) (by rintro ⟨_,⟨⟩⟩)
    · rfl
  · dsimp only at hx
    split at hx
    · cases hx
    · exact h.inner q k x hx
  · dsimp only at hq
    split at hq
    · cases hq
    · exact h.handle q hq
  · have hcount := h.counted q
    dsimp only
    rw [List.count_append]
    split
    · rename_i hqp
      rw [List.mem_singleton.1 hqp, hp] at hcount
      rw [List.mem_singleton.1 hqp, List.count_singleton_self, hcount]
      rfl
    · rename_i hqp
      rw [List.count_eq_zero.2 hqp]
      exact hcount
  · dsimp only [odpFree]
    split
    · rename_i hqp
      obtain ⟨hrefs,hcnt⟩ := hm.freed hesv q hqp
      exact fun _ => ⟨rfl,hrefs,fun _ _ => hcnt⟩
    · rename_i hqp
      rw [hm.frame q hqp]
      exact h.header hesv q

variable [DecidableEq κ] {k : κ} {rest : List OdpEvt}

theorem Inv.received {r : EvHdl × OdpEvent} (h : s.Inv env) (hq : s.queue k = p :: rest)
    (hr : Given env.cfg p (s.memory.event p) r) : (s.receive k p rest r).Inv env := by
  have hp : p ∈ s.queue k := hq ▸ List.mem_cons_self
  have hplace : s.place p ≠ .outside := by
    obtain ⟨x,hx⟩ := (h.mem_queue k p).1 hp
    rw [hx]
    rintro ⟨⟩
  have hnodup := List.nodup_cons.1 (hq ▸ h.nodup k)
  refine h.move r.1 .user _ hplace (by rintro ⟨⟩) hr.type (fun k' => ?_) (fun k' => ?_) (fun k' q hqp => ?_) (by rintro _ _ ⟨⟩)
    (fun _ => hr.evptr) hr.owned
  · by_cases hk : k' = k
    · obtain rfl := hk
      rw [Function.update_self]
      exact hnodup.2
    · rw [Function.update_of_ne hk]
      exact h.nodup k'
  · refine iff_of_false ?_ (by rintro ⟨_,⟨⟩⟩)
    by_cases hk : k' = k
    · obtain rfl := hk
      rw [Function.update_self]
      exact hnodup.1
    · rw [Function.update_of_ne hk]
      exact fun hc => hk (h.mem_unique hc hp)
  · by_cases hk : k' = k
    · obtain rfl := hk
      rw [Function.update_self, hq, List.mem_cons]
      exact (or_iff_right hqp).symm
    · rw [Function.update_of_ne hk]

theorem Inv.sent (h : s.Inv env) (hp : s.place p = .user) (hk : env.dispatched k ∨ env.dequeued k)
    (htype : e.type = (s.memory.event p).type) (hsent : env.cfg.esvEnabled = true → Sent p e) : Inv env { s with
      memory := s.setEvent p e
      queue := Function.update s.queue k (s.queue k ++ [p])
      place := Function.update s.place p (.queued k false) } := by
  have hout : s.place p ≠ .outside := by
    rw [hp]
    rintro ⟨⟩
  have hnot (k' : κ) : p ∉ s.queue k' := fun hc => by
    obtain ⟨x,hx⟩ := (h.mem_queue k' p).1 hc
    rw [hp] at hx
    cases hx
  have hmove := h.move (s.handle p) (.queued k false) (Function.update s.queue k (s.queue k ++ [p])) hout
    (by rintro ⟨⟩) htype (fun k' => ?_) (fun k' => ?_) (fun k' q hqp => ?_) ?_ (by rintro ⟨⟩) hsent
  · rw [Function.update_eq_self] at hmove
    exact hmove
  · by_cases hk' : k' = k
    · obtain rfl := hk'
      rw [Function.update_self]
      exact List.nodup_append'.2 ⟨h.nodup k',List.nodup_singleton p,fun q hq hqp =>
        hnot k' (List.mem_singleton.1 hqp ▸ hq)⟩
    · rw [Function.update_of_ne hk']
      exact h.nodup k'
  · by_cases hk' : k' = k
    · obtain rfl := hk'
      rw [Function.update_self]
      exact iff_of_true (List.mem_append_right _ List.mem_cons_self) ⟨false,rfl⟩
    · rw [Function.update_of_ne hk']
      refine iff_of_false (hnot k') ?_
      rintro ⟨x,hx⟩
      cases hx
      exact hk' rfl
  · by_cases hk' : k' = k
    · obtain rfl := hk'
      rw [Function.update_self, List.mem_append, List.mem_singleton]
      exact or_iff_left hqp
    · rw [Function.update_of_ne hk']
  · rintro k' x ⟨⟩
    exact hk

end Single
/-- An event that `em_odp_pkt_enqueue` has put into an unscheduled queue is taken from it. -/
def Unsent (env : Env κ) (s : State κ) (l : Label κ) : Prop :=
  env.cfg.esvEnabled = true ∧ ∃ k p rest, l = .dequeue k ∧ s.queue k = p :: rest ∧ s.place p = .queued k true

section Call
variable {l : Label κ}

theorem Inv.enqueue_ok {ps : List OdpEvt} {k : Option κ} {external orderedContext : Bool} {res : Results}
    (h : s.Inv env) (hl : s.Legal env (.pktEnqueue ps k external orderedContext res)) :
    ∃ r, emOdpPktEnqueue env.cfg orderedContext res ps s.memory (k.map env.elem) external = some r ∧
      EnqueueOk env.cfg (inits (k.map env.elem)) ps s.memory r := by
  obtain ⟨hnodup,hres,hps⟩ := hl
  refine emOdpPktEnqueue_ok hnodup hres (fun p hp => (hps p hp).2) fun hesv p hp => ?_
  obtain ⟨hout,-,htype⟩ := hps p hp
  have hheader := h.header hesv p
  rw [hout] at hheader
  exact hheader htype

/-- What the header of an event in a queue is, by how it came there -/
theorem Inv.queued {k : κ} {p : OdpEvt} (h : s.Inv env) (hesv : env.cfg.esvEnabled = true) (hp : p ∈ s.queue k) :
    (s.place p = .queued k true ∧
      if env.dispatched k then Raw env.cfg (s.memory.event p) else Owned p (s.memory.event p)) ∨
    (s.place p = .queued k false ∧ Sent p (s.memory.event p)) := by
  obtain ⟨x,hx⟩ := (h.mem_queue k p).1 hp
  have hheader := h.header hesv p
  rw [hx] at hheader
  cases x with
  | true => exact .inl ⟨hx,hheader⟩
  | false => exact .inr ⟨hx,hheader⟩

theorem not_dispatched {k : κ} (h : env.dequeued k) : ¬env.dispatched k := by
  have hk : (env.elem k).type = .unscheduled := h
  rintro (hsched | hlocal)
  · have htype := (env.scheduled_iff k).1 hsched
    rw [hk] at htype
    rcases htype with htype | htype | htype
    · cases htype
    · cases htype
    · cases htype
  · rw [hk] at hlocal
    cases hlocal

variable [DecidableEq κ]

theorem Inv.call_ok (h : s.Inv env) (hl : s.Legal env l) (hno : ¬s.Unsent env l) :
    ∃ t, s.call env l = some t ∧ t.Inv env := by
  cases l with
  | pktEnqueue ps k external orderedContext res =>
    obtain ⟨r,hr,hok⟩ := h.enqueue_ok hl
    obtain ⟨hnodup,-,hps⟩ := hl
    rw [call, hr]
    exact ⟨_,rfl,h.enqueue hnodup (fun p hp => (hps p hp).1) (fun p hp => (hps p hp).2) hok⟩
  | dispatch k =>
    cases hq : s.queue k with
    | nil => exact absurd hq hl.2
    | cons p rest =>
      have hp : p ∈ s.queue k := hq ▸ List.mem_cons_self
      obtain ⟨r,hinit,hr⟩ := @evhdrInitPkt_given env.cfg p (s.memory.event p) fun hesv => by
        rcases h.queued hesv hp with ⟨-,hraw⟩ | ⟨-,hsent⟩
        · rw [if_pos hl.1] at hraw
          exact .inl hraw
        · exact .inr hsent
      rw [call, hq]
      dsimp only
      rw [hinit]
      exact ⟨_,rfl,h.received hq hr⟩
  | dequeue k =>
    rw [call]
    cases hq : s.queue k with
    | nil => exact ⟨s,rfl,h⟩
    | cons p rest =>
      have hp : p ∈ s.queue k := hq ▸ List.mem_cons_self
      dsimp only
      cases hesv : env.cfg.esvEnabled with
      | true =>
        rcases h.queued hesv hp with ⟨hplace,-⟩ | ⟨-,hsent⟩
        · exact absurd ⟨hesv,k,p,rest,rfl,hq,hplace⟩ hno
        · obtain ⟨e,hem2usr,hown,htype⟩ := hsent.evstateEm2usr env.cfg ⟨p,0⟩ rfl
          rw [if_pos rfl, hem2usr]
          exact ⟨_,rfl,h.received hq ⟨hown.evptr,htype,fun _ => ⟨hown,rfl⟩⟩⟩
      | false =>
        rw [if_neg (by decide)]
        exact ⟨_,rfl,h.received hq ⟨rfl,rfl,fun hc => by rw [hesv] at hc; cases hc⟩⟩
  | send p k =>
    obtain ⟨hp,hk⟩ := hl
    rw [call]
    cases hesv : env.cfg.esvEnabled with
    | true =>
      obtain ⟨hown,hevent⟩ := (h.userPkts hp).owned hesv _ List.mem_cons_self
      rw [h.handle p hp] at hown hevent
      obtain ⟨e,husr2em,hsent,htype⟩ := hown.evstateUsr2em env.cfg
      rw [← hevent] at husr2em
      rw [if_pos rfl, husr2em]
      exact ⟨_,rfl,h.sent hp hk htype fun _ => hsent⟩
    | false =>
      rw [if_neg (by decide)]
      exact ⟨_,rfl,h.sent hp hk rfl fun hc => by rw [hesv] at hc; cases hc⟩
  | free p =>
    have hptr := h.handle p hl
    obtain ⟨m,hfree,hm⟩ := emFree_pkt (h.userPkts hl)
    rw [hptr] at hfree hm
    rw [call, hfree]
    exact ⟨_,rfl,h.freed hl hm⟩

theorem Inv.call_unsent (h : s.Inv env) (hl : s.Legal env l) (hun : s.Unsent env l) : s.call env l = none := by
  obtain ⟨hesv,k,p,rest,rfl,hq,hplace⟩ := hun
  have hheader := h.header hesv p
  rw [hplace, HdrOk, if_neg (not_dispatched hl)] at hheader
  rw [call, hq]
  dsimp only
  rw [if_pos hesv, hheader.evstateEm2usr]
  rfl

theorem reachable_inv (h : (machine env).Reachable s) : s.Inv env := by
  refine h.invariant (fun s (hi : s.Initial env) => hi.inv) fun s l t hs hst _ => ?_
  by_cases hun : s.Unsent env l
  · have hnone := hs.call_unsent hst.1 hun
    rw [hst.2] at hnone
    cases hnone
  · obtain ⟨t',ht',hinv⟩ := hs.call_ok hst.1 hun
    rw [hst.2] at ht'
    cases ht'
    exact hinv

end Call

/-- One unscheduled queue -/
private def unschedEnv : Env Unit where
  cfg := ⟨3,true,true,false,false⟩
  elem _ := ⟨.unscheduled,.unscheduled,true,false,false,true⟩
  scheduled_iff _ := by decide

private def pkt : OdpEvent := ⟨.packet,⟨⟨0,0⟩,⟨0⟩,false,false⟩,false,false,.other,false,false⟩

private def noPkts : State Unit := ⟨⟨fun _ => pkt,fun _ => []⟩,fun _ => [],fun p => ⟨p,0⟩,fun _ => .outside,[],[]⟩

private theorem noPkts_initial : noPkts.Initial unschedEnv :=
  ⟨fun _ _ => ⟨rfl,rfl,fun _ hpool => by cases hpool⟩,fun _ => rfl,fun _ => rfl,rfl,rfl⟩

/-- The queue takes one packet of two. -/
private def oneEnqueued : Option (State Unit) :=
  noPkts.call unschedEnv (.pktEnqueue [1,2] (some ()) false false ⟨1,0,0,0⟩)

private theorem oneEnqueued_isSome : oneEnqueued.isSome = true := by decide

end State
end EmOdp.OdpExt
