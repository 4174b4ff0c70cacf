import EmOdp.Pool.Subpools
import Mathlib.Algebra.Order.Group.Nat
import Mathlib.Data.Nat.ModEq

/-! Where the payload of an event starts and ends in what has been allocated for it. Sizes are of type
`uint32_t`: each computation of one is followed by its conversion to 32 bits. -/
namespace EmOdp.Pool

/-- The conversion to `uint32_t` -/
def u32 (n : Int) : Nat := (n % 2 ^ 32).toNat

/-- `ALIGN_OFFSET_MAX` -/
def alignOffsetMax : Nat := 16

/-- `sizeof(event_hdr_t)` is asserted to be 64 at most. -/
structure HdrSize where
  size : Nat
  le : size ≤ 64

/-- The cache line size of ODP, and the maximum alignment of packets and buffers -/
structure OdpAlign where
  cacheLineSize : Nat
  pktMaxAlign : Nat
  bufMaxAlign : Nat
  cacheLineSize_lt : cacheLineSize < 2 ^ 32

/-- `odp_align_get` -/
def OdpAlign.odpAlignGet (capa : OdpAlign) (cfg : PoolCfg) : Nat :=
  min capa.cacheLineSize (if cfg.eventType = .packet then capa.pktMaxAlign else capa.bufMaxAlign)

/-- `POWEROF2` of a `uint32_t` -/
def powerOf2 (x : Nat) : Bool := u32 ((x : Int) - 1) &&& x == 0

/-- `is_align_offset_valid` -/
def isAlignOffsetValid (env : Env) (capa : OdpAlign) (cfg : PoolCfg) : Bool :=
  let offset := env.alignOffsetGet cfg
  let align := capa.odpAlignGet cfg
  powerOf2 offset && powerOf2 align && offset ≤ alignOffsetMax && offset < align

/-- What `em_pool_create` has accepted: the checks of `invalid_pool_cfg` that are about sizes, and those
of `pool_create`. The sizes of the subpools are of type `uint32_t`. -/
structure Accepted (env : Env) (capa : OdpAlign) (cfg : PoolCfg) : Prop where
  alignOffset : isAlignOffsetValid env capa cfg = true
  subpool : ∀ p ∈ cfg.subpool, 0 < p.size ∧ p.size < 2 ^ 32
  uarea : ∃ n, env.setUareaSize cfg = some n
  headroom : cfg.eventType = .packet → ∃ n, env.setPktHeadroom cfg = some n

/-- `odp_pool_param_t` of a packet pool -/
structure PktParams where
  len : Nat
  maxLen : Nat
  segLen : Nat
  align : Nat
  uareaSize : Nat
  headroom : Nat

/-- `set_pool_params_pkt` -/
def setPoolParamsPkt (hdr : HdrSize) (size alignOffset odpAlign uareaSize pktHeadroom : Nat) : PktParams :=
  let size := if alignOffset < size then u32 (size - alignOffset) else 1
  { len := size
    maxLen := size
    segLen := size
    align := odpAlign
    uareaSize := u32 (hdr.size + uareaSize)
    headroom := if pktHeadroom < alignOffset then alignOffset else pktHeadroom }

/-- `odp_pool_param_t` of a buffer pool -/
structure BufParams where
  size : Nat
  align : Nat
  uareaSize : Nat

/-- `set_pool_params_buf` -/
def setPoolParamsBuf (hdr : HdrSize) (size alignOffset odpAlign uareaSize : Nat) : BufParams where
  size := if alignOffset = 0 then size else u32 (size + u32 (32 - alignOffset))
  align := odpAlign
  uareaSize := u32 (hdr.size + uareaSize)

/-- An ODP packet: where its data starts, its length and its headroom -/
structure OdpPacket where
  data : Nat
  len : Nat
  headroom : Nat

/-- `odp_packet_alloc`, of a length that the pool has been created for -/
structure PktAlloc (params : PktParams) (len : Nat) (pkt : OdpPacket) : Prop where
  len_le : len ≤ params.maxLen
  aligned : pkt.data % params.align = 0
  len_eq : pkt.len = len
  headroom : params.headroom ≤ pkt.headroom
  headroom_le : pkt.headroom ≤ pkt.data

/-- `odp_packet_push_head` -/
def OdpPacket.pushHead (pkt : OdpPacket) (len : Nat) : Option OdpPacket :=
  if len ≤ pkt.headroom then some ⟨pkt.data - len,pkt.len + len,pkt.headroom - len⟩ else none

/-- `odp_packet_pull_tail` -/
def OdpPacket.pullTail (pkt : OdpPacket) (len : Nat) : Option OdpPacket :=
  if len ≤ pkt.len then some { pkt with len := pkt.len - len } else none

/-- The lengths that `event_alloc_pkt` and `event_alloc_pkt_multi` allocate and pull -/
def pktLens (pushLen size : Nat) : Nat × Nat :=
  if pushLen < size then (u32 (size - pushLen),0) else (1,u32 (u32 (pushLen + 1) - size))

/-- The payload of a packet that `event_alloc_pkt` has allocated -/
def adjustPkt (pushLen pullLen : Nat) (pkt : OdpPacket) : Option OdpPacket :=
  (if pushLen = 0 then some pkt else pkt.pushHead pushLen).bind fun pkt =>
    if pullLen = 0 then some pkt else pkt.pullTail pullLen

/-- An ODP buffer: where it starts, and its size -/
structure OdpBuffer where
  addr : Nat
  size : Nat

/-- `odp_buffer_alloc` -/
structure BufAlloc (params : BufParams) (buf : OdpBuffer) : Prop where
  aligned : buf.addr % params.align = 0
  size : params.size ≤ buf.size

/-- `event_pointer` of a buffer; the header stores the offset as an `uint8_t`. -/
def eventPointer (buf : OdpBuffer) (alignOffset : Nat) : Nat :=
  let alignOffset := alignOffset % 256
  if alignOffset = 0 then buf.addr else buf.addr + 32 - alignOffset

variable (hdr : HdrSize) (env : Env) (capa : OdpAlign) (cfg : PoolCfg)

/-- The sizes of the subpools, in the order of `pool_create` -/
def subpoolSizes : List Nat := (sortPoolCfg cfg.subpool).map Subpool.size

/-- A packet of a subpool with the given size holds the payload of an event of `size` bytes. -/
structure PktFits (subpoolSize size : Nat) (params : PktParams) : Prop where
  /-- no computation wraps -/
  exact_len : (params.maxLen : Int) = max 1 ((subpoolSize : Int) - env.alignOffsetGet cfg)
  exact_uarea : params.uareaSize = hdr.size + (env.setUareaSize cfg).getD 0
  exact_alloc : ((pktLens (env.alignOffsetGet cfg) size).1 : Int) = max 1 ((size : Int) - env.alignOffsetGet cfg)
  exact_pull : ((pktLens (env.alignOffsetGet cfg) size).2 : Int) = max 0 ((env.alignOffsetGet cfg : Int) + 1 - size)
  /-- the length comes out as requested -/
  length : ((pktLens (env.alignOffsetGet cfg) size).1 : Int) + env.alignOffsetGet cfg -
    (pktLens (env.alignOffsetGet cfg) size).2 = size
  alloc_le : (pktLens (env.alignOffsetGet cfg) size).1 ≤ params.maxLen
  push_le : env.alignOffsetGet cfg ≤ params.headroom
  pull_le : (pktLens (env.alignOffsetGet cfg) size).2 ≤
    (pktLens (env.alignOffsetGet cfg) size).1 + env.alignOffsetGet cfg
  payload : ∀ pkt, PktAlloc params (pktLens (env.alignOffsetGet cfg) size).1 pkt →
    ∃ p, adjustPkt (env.alignOffsetGet cfg) (pktLens (env.alignOffsetGet cfg) size).2 pkt = some p ∧
      p.len = size ∧ (p.data + env.alignOffsetGet cfg) % capa.odpAlignGet cfg = 0

/-- A buffer of a subpool with the given size holds the payload of an event of `size` bytes. The payload
after the offset has an alignment of 32 bytes, or that of the pool where this is less. -/
structure BufFits (subpoolSize size : Nat) (params : BufParams) : Prop where
  exact_size : (params.size : Int) = subpoolSize +
    if env.alignOffsetGet cfg = 0 then 0 else 32 - (env.alignOffsetGet cfg : Int)
  exact_uarea : params.uareaSize = hdr.size + (env.setUareaSize cfg).getD 0
  payload : ∀ buf, BufAlloc params buf →
    eventPointer buf (env.alignOffsetGet cfg) + size ≤ buf.addr + buf.size ∧
    (eventPointer buf (env.alignOffsetGet cfg) + env.alignOffsetGet cfg) % min 32 (capa.odpAlignGet cfg) = 0 ∧
    (env.alignOffsetGet cfg = 0 → eventPointer buf 0 % capa.odpAlignGet cfg = 0)

/-- An event of each size that `event_alloc` picks a subpool for fits into the subpools that it tries. -/
def Fits : Prop := ∀ size j n, Tries (subpoolSizes cfg) size j → (subpoolSizes cfg)[j]? = some n →
  match cfg.eventType with
  | .packet => PktFits hdr env capa cfg n size (setPoolParamsPkt hdr n (env.alignOffsetGet cfg)
      (capa.odpAlignGet cfg) ((env.setUareaSize cfg).getD 0) ((env.setPktHeadroom cfg).getD 0))
  | .sw => BufFits hdr env capa cfg n size (setPoolParamsBuf hdr n (env.alignOffsetGet cfg)
      (capa.odpAlignGet cfg) ((env.setUareaSize cfg).getD 0))
  | .vector => True

/-- The sizes of a buffer pool with an offset leave room for it in 32 bits. -/
def RoomForOffset : Prop := cfg.eventType = .sw → env.alignOffsetGet cfg ≠ 0 →
  ∀ p ∈ cfg.subpool, p.size + (32 - env.alignOffsetGet cfg) < 2 ^ 32

variable {hdr env capa cfg} {size n : Nat}

theorem u32_eq {n : Int} (h0 : 0 ≤ n) (hn : n < 2 ^ 32) : (u32 n : Int) = n := by
  rw [u32, Int.emod_eq_of_lt h0 hn, Int.toNat_of_nonneg h0]

theorem u32_natCast {n : Nat} (hn : n < 2 ^ 32) : u32 n = n := by
  have h := u32_eq (Int.natCast_nonneg n) (by exact_mod_cast hn)
  exact_mod_cast h

/-- What the checks say about the offset and the alignment -/
theorem Accepted.offset (h : Accepted env capa cfg) : env.alignOffsetGet cfg ≤ 16 ∧
    env.alignOffsetGet cfg < capa.odpAlignGet cfg ∧ powerOf2 (capa.odpAlignGet cfg) = true := by
  have hvalid := h.alignOffset
  simp only [isAlignOffsetValid, Bool.and_eq_true, decide_eq_true_eq] at hvalid
  obtain ⟨⟨⟨-,hpow⟩,hle⟩,hlt⟩ := hvalid
  exact ⟨hle,hlt,hpow⟩

/-- An alignment that is a power of two has a common divisor with 32 that is the smaller of them. -/
theorem min_dvd {x : Nat} (hpos : 0 < x) (hlt : x < 2 ^ 32) (h : powerOf2 x = true) :
    min 32 x ∣ x ∧ min 32 x ∣ 32 := by
  have hsub : u32 ((x : Int) - 1) = x - 1 := by
    have hcast : ((x : Int) - 1) = ((x - 1 : Nat) : Int) := by omega
    rw [hcast, u32_natCast (by omega)]
  rw [powerOf2, hsub, beq_iff_eq, Nat.and_comm] at h
  obtain ⟨k,rfl⟩ := (Nat.and_sub_one_eq_zero_iff_isPowerOfTwo (Nat.ne_of_gt hpos)).1 h
  rw [show 32 = 2 ^ 5 from rfl]
  rcases Nat.le_total 5 k with hk | hk
  · rw [Nat.min_eq_left (Nat.pow_le_pow_right (by decide) hk)]
    exact ⟨Nat.pow_dvd_pow 2 hk,Nat.dvd_refl _⟩
  · rw [Nat.min_eq_right (Nat.pow_le_pow_right (by decide) hk)]
    exact ⟨Nat.dvd_refl _,Nat.pow_dvd_pow 2 hk⟩

theorem Accepted.min_dvd (h : Accepted env capa cfg) :
    min 32 (capa.odpAlignGet cfg) ∣ capa.odpAlignGet cfg ∧ min 32 (capa.odpAlignGet cfg) ∣ 32 := by
  obtain ⟨-,hlt,hpow⟩ := h.offset
  exact EmOdp.Pool.min_dvd (Nat.zero_lt_of_lt hlt)
    (Nat.lt_of_le_of_lt (Nat.min_le_left ..) capa.cacheLineSize_lt) hpow

/-- The header with the user area fits into 32 bits. -/
theorem uarea_exact (hdr : HdrSize) (env : Env) (cfg : PoolCfg) :
    u32 ((hdr.size : Int) + ((env.setUareaSize cfg).getD 0 : Nat)) = hdr.size + (env.setUareaSize cfg).getD 0 := by
  have hle : (env.setUareaSize cfg).getD 0 ≤ emEventUserAreaMaxSize := by
    have hmax : (if cfg.eventType = .sw ∧ cfg.userArea.getD env.userAreaSize = 0 then 0
        else min (env.maxUareaSize.of env cfg.eventType) emEventUserAreaMaxSize) ≤
        emEventUserAreaMaxSize := by
      split
      · exact Nat.zero_le _
      · exact Nat.min_le_right ..
    simp only [Env.setUareaSize]
    generalize (if cfg.eventType = .sw ∧ cfg.userArea.getD env.userAreaSize = 0 then 0
      else min (env.maxUareaSize.of env cfg.eventType) emEventUserAreaMaxSize) = maxSize at hmax ⊢
    split
    · exact Nat.zero_le _
    · rename_i hsize
      exact Nat.le_trans (Nat.not_lt.1 hsize) hmax
  have hhdr := hdr.le
  rw [emEventUserAreaMaxSize] at hle
  have hcast : (hdr.size : Int) + ((env.setUareaSize cfg).getD 0 : Nat) =
      ((hdr.size + (env.setUareaSize cfg).getD 0 : Nat) : Int) := (Int.natCast_add ..).symm
  rw [hcast]
  exact u32_natCast (by omega)

/-- The lengths of an allocation, as they come out without a wrap -/
theorem pktLens_eq {pushLen : Nat} (hpush : pushLen ≤ 16) (hsize : size < 2 ^ 32) :
    pktLens pushLen size = if pushLen < size then (size - pushLen,0) else (1,pushLen + 1 - size) := by
  rw [pktLens]
  split
  · rename_i hlt
    have hcast : ((size : Int) - pushLen) = ((size - pushLen : Nat) : Int) := by omega
    rw [hcast, u32_natCast (by omega)]
  · rename_i hge
    have hone : u32 ((pushLen : Int) + 1) = pushLen + 1 := u32_natCast (n := pushLen + 1) (by omega)
    have hcast : ((pushLen + 1 : Nat) : Int) - size = ((pushLen + 1 - size : Nat) : Int) := by omega
    rw [hone, hcast, u32_natCast (by omega)]

theorem setPoolParamsPkt_len {alignOffset odpAlign uareaSize pktHeadroom : Nat} (hn : n < 2 ^ 32) :
    (setPoolParamsPkt hdr n alignOffset odpAlign uareaSize pktHeadroom).maxLen =
      if alignOffset < n then n - alignOffset else 1 := by
  rw [setPoolParamsPkt]
  dsimp only
  split
  · have hcast : ((n : Int) - alignOffset) = ((n - alignOffset : Nat) : Int) := by omega
    rw [hcast, u32_natCast (by omega)]
  · rfl

theorem pktFits {params : PktParams} (hoff : env.alignOffsetGet cfg ≤ 16) (hle : size ≤ n) (hn : n < 2 ^ 32)
    (hlen : params.maxLen = if env.alignOffsetGet cfg < n then n - env.alignOffsetGet cfg else 1)
    (huarea : params.uareaSize = hdr.size + (env.setUareaSize cfg).getD 0)
    (halign : params.align = capa.odpAlignGet cfg) (hpush : env.alignOffsetGet cfg ≤ params.headroom) :
    PktFits hdr env capa cfg n size params := by
  have hlens := pktLens_eq hoff (Nat.lt_of_le_of_lt hle hn)
  have halloc : (pktLens (env.alignOffsetGet cfg) size).1 =
      if env.alignOffsetGet cfg < size then size - env.alignOffsetGet cfg else 1 := by
    rw [hlens]
    exact apply_ite ..
  have hpull : (pktLens (env.alignOffsetGet cfg) size).2 =
      if env.alignOffsetGet cfg < size then 0 else env.alignOffsetGet cfg + 1 - size := by
    rw [hlens]
    exact apply_ite ..
  have hlength : (pktLens (env.alignOffsetGet cfg) size).1 + env.alignOffsetGet cfg =
      (pktLens (env.alignOffsetGet cfg) size).2 + size := by
    rw [halloc, hpull]
    split <;> omega
  refine ⟨?_,huarea,?_,?_,?_,?_,hpush,?_,?_⟩
  · rw [hlen]
    split <;> omega
  · rw [halloc]
    split <;> omega
  · rw [hpull]
    split <;> omega
  · omega
  · rw [halloc, hlen]
    split <;> split <;> omega
  · omega
  · intro pkt hpkt
    have hroom := Nat.le_trans hpush hpkt.headroom
    have hdata := Nat.le_trans hroom hpkt.headroom_le
    have hpkt_len := hpkt.len_eq
    have hpushed : (if env.alignOffsetGet cfg = 0 then some pkt else pkt.pushHead (env.alignOffsetGet cfg)) =
        some ⟨pkt.data - env.alignOffsetGet cfg,pkt.len + env.alignOffsetGet cfg,
          pkt.headroom - env.alignOffsetGet cfg⟩ := by
      by_cases hzero : env.alignOffsetGet cfg = 0
      · rw [if_pos hzero, hzero]
        rfl
      · rw [if_neg hzero, OdpPacket.pushHead, if_pos hroom]
    have hpulled : ∀ p : OdpPacket, (pktLens (env.alignOffsetGet cfg) size).2 ≤ p.len →
        (if (pktLens (env.alignOffsetGet cfg) size).2 = 0 then some p
          else p.pullTail (pktLens (env.alignOffsetGet cfg) size).2) =
          some { p with len := p.len - (pktLens (env.alignOffsetGet cfg) size).2 } := by
      intro p hp
      by_cases hzero : (pktLens (env.alignOffsetGet cfg) size).2 = 0
      · rw [if_pos hzero, hzero]
        rfl
      · rw [if_neg hzero, OdpPacket.pullTail, if_pos hp]
    refine ⟨⟨pkt.data - env.alignOffsetGet cfg,
      pkt.len + env.alignOffsetGet cfg - (pktLens (env.alignOffsetGet cfg) size).2,
      pkt.headroom - env.alignOffsetGet cfg⟩,?_,?_,?_⟩
    · rw [adjustPkt, hpushed, Option.bind_some]
      refine hpulled _ ?_
      dsimp only
      omega
    · dsimp only
      omega
    · dsimp only
      rw [Nat.sub_add_cancel hdata, ← halign]
      exact hpkt.aligned

theorem Accepted.pktFits (h : Accepted env capa cfg) (hle : size ≤ n) (hn : n < 2 ^ 32) :
    PktFits hdr env capa cfg n size (setPoolParamsPkt hdr n (env.alignOffsetGet cfg)
      (capa.odpAlignGet cfg) ((env.setUareaSize cfg).getD 0) ((env.setPktHeadroom cfg).getD 0)) := by
  refine EmOdp.Pool.pktFits h.offset.1 hle hn (setPoolParamsPkt_len hn) (uarea_exact hdr env cfg) rfl ?_
  rw [setPoolParamsPkt]
  dsimp only
  split
  · exact Nat.le_refl _
  · rename_i hge
    exact Nat.not_lt.1 hge

/-- The size of a buffer pool is exact if and only if there is room for the offset. -/
theorem setPoolParamsBuf_size {alignOffset odpAlign uareaSize : Nat} (hoff : alignOffset ≤ 16)
    (hn : n < 2 ^ 32) : ((setPoolParamsBuf hdr n alignOffset odpAlign uareaSize).size : Int) =
      n + (if alignOffset = 0 then 0 else 32 - (alignOffset : Int)) ↔
        (alignOffset ≠ 0 → n + (32 - alignOffset) < 2 ^ 32) := by
  rw [setPoolParamsBuf]
  by_cases hzero : alignOffset = 0
  · rw [if_pos hzero, if_pos hzero]
    exact iff_of_true (Int.add_zero _).symm fun hne => absurd hzero hne
  · have hsub : u32 (32 - (alignOffset : Int)) = 32 - alignOffset := by
      have hcast : (32 - (alignOffset : Int)) = ((32 - alignOffset : Nat) : Int) := by omega
      rw [hcast, u32_natCast (by omega)]
    rw [if_neg hzero, if_neg hzero, hsub, u32]
    dsimp only
    constructor
    · intro heq _
      omega
    · intro hroom
      have hroom := hroom hzero
      omega

theorem Accepted.bufFits (h : Accepted env capa cfg) (hle : size ≤ n) (hn : n < 2 ^ 32)
    (hroom : env.alignOffsetGet cfg ≠ 0 → n + (32 - env.alignOffsetGet cfg) < 2 ^ 32) :
    BufFits hdr env capa cfg n size (setPoolParamsBuf hdr n (env.alignOffsetGet cfg)
      (capa.odpAlignGet cfg) ((env.setUareaSize cfg).getD 0)) := by
  obtain ⟨hoff,-,-⟩ := h.offset
  obtain ⟨hdvd,hdvd32⟩ := h.min_dvd
  generalize hparams : setPoolParamsBuf hdr n (env.alignOffsetGet cfg) (capa.odpAlignGet cfg)
    ((env.setUareaSize cfg).getD 0) = params
  have hsize : (params.size : Int) = n + if env.alignOffsetGet cfg = 0 then 0
      else 32 - (env.alignOffsetGet cfg : Int) := by
    rw [← hparams]
    exact (setPoolParamsBuf_size hoff hn).2 hroom
  refine ⟨hsize,by rw [← hparams]; exact uarea_exact hdr env cfg,fun buf hbuf => ?_⟩
  have halign : params.align = capa.odpAlignGet cfg := by rw [← hparams]; rfl
  have haddr : capa.odpAlignGet cfg ∣ buf.addr := Nat.dvd_of_mod_eq_zero (halign ▸ hbuf.aligned)
  have hbufsize := hbuf.size
  have hmod : env.alignOffsetGet cfg % 256 = env.alignOffsetGet cfg := Nat.mod_eq_of_lt (by omega)
  simp only [eventPointer, hmod]
  by_cases hzero : env.alignOffsetGet cfg = 0
  · rw [if_pos hzero] at hsize ⊢
    refine ⟨by omega,?_,fun _ => ?_⟩
    · rw [hzero]
      exact Nat.mod_eq_zero_of_dvd (Nat.dvd_trans hdvd haddr)
    · exact Nat.mod_eq_zero_of_dvd haddr
  · rw [if_neg hzero] at hsize ⊢
    refine ⟨by omega,?_,fun hc => absurd hc hzero⟩
    rw [Nat.sub_add_cancel (by omega)]
    exact Nat.mod_eq_zero_of_dvd (Nat.dvd_add (Nat.dvd_trans hdvd haddr) hdvd32)

/-- For every pool that `em_pool_create` accepts the payload fits its allocation if and only if no size
of a buffer pool with an offset is within 32 bytes less the offset of the end of `uint32_t`. -/
theorem payload_fits_iff (h : Accepted env capa cfg) : Fits hdr env capa cfg ↔ RoomForOffset env cfg := by
  have hmem : ∀ n, n ∈ subpoolSizes cfg ↔ ∃ p ∈ cfg.subpool, p.size = n := by
    intro n
    rw [subpoolSizes, List.mem_map]
    exact exists_congr fun p => and_congr_left' (sortPoolCfg_perm cfg.subpool).mem_iff
  have hlt : ∀ n ∈ subpoolSizes cfg, n < 2 ^ 32 := by
    intro n hn
    obtain ⟨p,hp,rfl⟩ := (hmem n).1 hn
    exact (h.subpool p hp).2
  constructor
  · intro hfits hsw hoff p hp
    obtain ⟨j,hj⟩ := List.mem_iff_getElem?.1 ((hmem p.size).2 ⟨p,hp,rfl⟩)
    have hbuf := hfits p.size j p.size (tries_self hj) hj
    rw [hsw] at hbuf
    exact (setPoolParamsBuf_size h.offset.1 (h.subpool p hp).2).1 hbuf.exact_size hoff
  · intro hroom size j n htries hj
    obtain ⟨m,hm,hle⟩ := htries.le (sortPoolCfg_sorted cfg.subpool)
    obtain rfl := Option.some.inj (hj.symm.trans hm)
    have hn := List.mem_of_getElem? hj
    cases htype : cfg.eventType with
    | packet => exact h.pktFits hle (hlt n hn)
    | vector => trivial
    | sw =>
      refine h.bufFits hle (hlt n hn) fun hoff => ?_
      obtain ⟨p,hp,rfl⟩ := (hmem n).1 hn
      exact hroom htype hoff p hp

private def env256 : Env := ⟨⟨256,256,256,256⟩,⟨64,64,64,64⟩,128,0,0,128,.event⟩

private def lineOf64 : OdpAlign := ⟨64,4096,4096,by decide⟩

private def swCfg (size : Nat) : PoolCfg :=
  { eventType := .sw
    alignOffset := some 8
    subpool := [⟨size,1,64⟩]
    num_pos := Nat.zero_lt_one
    num_le := Nat.succ_le_succ (Nat.zero_le 3) }

private theorem swCfg_accepted {size : Nat} (h0 : 0 < size) (hlt : size < 2 ^ 32) :
    Accepted env256 lineOf64 (swCfg size) where
  alignOffset := by
    rw [isAlignOffsetValid, show env256.alignOffsetGet (swCfg size) = 8 from rfl,
      show lineOf64.odpAlignGet (swCfg size) = 64 from rfl]
    decide
  subpool p hp := by
    rw [List.mem_singleton.1 hp]
    exact ⟨h0,hlt⟩
  uarea := ⟨0,rfl⟩
  headroom hc := by cases hc

theorem payload_fits_sw : Fits ⟨64,by decide⟩ env256 lineOf64 (swCfg 256) :=
  (payload_fits_iff (swCfg_accepted (by decide) (by decide))).2 fun _ _ p hp => by
    rw [List.mem_singleton.1 hp]
    decide

/-- The size of the ODP buffers wraps to 23 bytes; the pool is created, and all of its events are too
short. -/
theorem payload_size_wraps : Accepted env256 lineOf64 (swCfg (2 ^ 32 - 1)) ∧
    (setPoolParamsBuf ⟨64,by decide⟩ (2 ^ 32 - 1) 8 64 0).size = 23 ∧
    ¬Fits ⟨64,by decide⟩ env256 lineOf64 (swCfg (2 ^ 32 - 1)) := by
  have hacc : Accepted env256 lineOf64 (swCfg (2 ^ 32 - 1)) :=
    swCfg_accepted (by decide) (by decide)
  have hsize : (setPoolParamsBuf ⟨64,by decide⟩ (2 ^ 32 - 1) 8 64 0).size = 23 := by decide
  refine ⟨hacc,hsize,fun hfits => ?_⟩
  have hbuf := (hfits 1 0 (2 ^ 32 - 1) ⟨0,by decide,Nat.le_refl 0,by decide⟩ (by decide)).payload
    ⟨0,23⟩ ⟨by decide,Nat.le_of_eq hsize⟩
  have hend : eventPointer ⟨0,23⟩ 8 + 1 ≤ 0 + 23 := hbuf.1
  revert hend
  decide

end EmOdp.Pool
