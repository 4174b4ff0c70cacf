import EmOdp.Hooks.Machine

/-! Readers of the hooks see one whole version of the list: the ring takes
`API_HOOKS_MAX_TBL_SIZE` - 1 calls to come round to a table. -/
namespace EmOdp.Hooks
open Lib HookTbl
variable {ι F : Type} {n : Nat} [DecidableEq ι] [DecidableEq F] {s t : State ι n F} {r : Reader n F}

omit [DecidableEq F] in
theorem HookStorage.nextIdx_val (s : HookStorage n F) : s.nextIdx.val = (s.idx.val + 1) % 255 := by
  have hlt := s.idx.isLt
  unfold HookStorage.nextIdx
  split
  · rename_i hnext
    simp only [apiHooksMaxTblSize] at hnext ⊢
    omega
  · rename_i hge
    simp only [apiHooksMaxTblSize, Fin.val_zero] at hge hlt ⊢
    omega

/-- How far the call that holds the lock has come. -/
def State.WriterOk (s : State ι n F) : Prop :=
  match s.writer with
  | none => s.applied = s.started ∧ s.storage = HookStorage.init.calls s.started
  | some (.storing op stores status) => s.started = s.applied ++ [op] ∧
      ∃ s0, s0 = HookStorage.init.calls s.applied ∧
      ∃ done, (op.update (s0.hookTblStorage s0.idx)) = ⟨done ++ stores,status⟩ ∧
        s.storage = ⟨Function.update s0.hookTblStorage s0.nextIdx
          (done.foldl HookTbl.store (s0.hookTblStorage s0.nextIdx)),s0.idx,s0.active⟩
  | some (.published op) => s.applied = s.started ∧
      ∃ s0 : HookStorage n F, (s0.call op).1 = .ok ∧ (s0.call op).2 = HookStorage.init.calls s.started ∧
        s.storage = { (s0.call op).2 with idx := s0.idx }

/-- Calls that got the lock after the reader had loaded its table. -/
def State.since (s : State ι n F) (r : Reader n F) : Nat := s.started.length - r.before

/-- The ring of tables has not come round to the reader's table. -/
def State.Position (s : State ι n F) (r : Reader n F) : Prop :=
  (∃ e, s.storage.idx.val = (r.cbTbl.val + e) % 255 ∧
    e + (if s.writer.isSome then 1 else 0) ≤ s.since r + 1) ∨
  ((∃ op, s.writer = some (.published op)) ∧ s.storage.nextIdx = r.cbTbl)

/-- Fewer than `API_HOOKS_MAX_TBL_SIZE` - 1 calls have started since the load. -/
def State.Valid (s : State ι n F) (r : Reader n F) : Prop :=
  s.started.length < r.before + (apiHooksMaxTblSize - 1)

structure ReaderOk (s : State ι n F) (r : Reader n F) : Prop where
  before : r.before ≤ s.started.length
  position : s.Position r
  contents : s.Valid r → s.storage.hookTblStorage r.cbTbl = r.contents
  table : r.contents = ofList n r.version ∧ r.version.length ≤ n
  version : ∃ ops, ops <+: s.started ∧ r.version = listAfter n ops
  called : s.Valid r → r.called = r.version.take r.i ∧ r.i ≤ r.version.length ∧
    (r.done = true → r.i = r.version.length)

structure Inv (s : State ι n F) : Prop where
  writer : s.WriterOk
  reader : ∀ c r, s.reader c = some r → ReaderOk s r

omit [DecidableEq ι] in
theorem inv_initial (h : Initial s) : Inv s := by
  refine ⟨?_,fun c r hr => by rw [h.reader c] at hr; cases hr⟩
  simp only [State.WriterOk, h.writer, h.started, h.applied, h.storage]
  exact ⟨trivial,rfl⟩

omit [DecidableEq ι] in
/-- A step of the writer keeps what is known of a reader that it does not overrun. -/
theorem ReaderOk.writes (h : ReaderOk s r) (hstarted : ∃ ops, t.started = s.started ++ ops)
    (hposition : t.Position r)
    (htable : t.Valid r → t.storage.hookTblStorage r.cbTbl = s.storage.hookTblStorage r.cbTbl) :
    ReaderOk t r := by
  obtain ⟨ops,hops⟩ := hstarted
  have hlen := congrArg List.length hops
  rw [List.length_append] at hlen
  have hvalid : t.Valid r → s.Valid r := fun hv => by
    unfold State.Valid at hv ⊢
    omega
  refine ⟨by have := h.before; omega,hposition,fun hv => (htable hv).trans (h.contents (hvalid hv)),
    h.table,?_,fun hv => h.called (hvalid hv)⟩
  obtain ⟨ops',hpre,hver⟩ := h.version
  exact ⟨ops',hops ▸ hpre.trans (List.prefix_append _ _),hver⟩

omit [DecidableEq ι] [DecidableEq F] in
/-- While a call stores, its table is not one that a valid reader reads. -/
theorem State.Position.next_ne (h : s.Position r) (hv : s.Valid r) {op : Op F}
    {stores : List (Store n F)} {status : Status} (hw : s.writer = some (.storing op stores status)) :
    r.cbTbl ≠ s.storage.nextIdx := by
  rcases h with ⟨e,hidx,hle⟩ | ⟨⟨op',hp⟩,-⟩
  · intro heq
    have hnext := s.storage.nextIdx_val
    rw [← heq, hidx] at hnext
    have hlt := r.cbTbl.isLt
    simp only [hw, Option.isSome_some, if_true] at hle
    unfold State.since at hle
    unfold State.Valid at hv
    simp only [apiHooksMaxTblSize] at hlt hv
    omega
  · rw [hw] at hp
    cases hp

omit [DecidableEq ι] in
/-- The table that is active now holds the list of the calls applied so far. -/
theorem Inv.active (h : Inv s) :
    s.storage.hookTblStorage s.storage.active = ofList n (listAfter n s.applied) := by
  have hw := h.writer
  unfold State.WriterOk at hw
  split at hw
  · obtain ⟨happ,hst⟩ := hw
    rw [happ, hst]
    exact (HookStorage.holds_calls _).table
  · obtain ⟨-,s0,rfl,done,-,hst⟩ := hw
    have hholds := HookStorage.holds_calls (n := n) s.applied
    rw [hst]
    simp only
    rw [Function.update_of_ne fun heq =>
      (HookStorage.nextIdx_ne _) (heq.symm.trans hholds.idx.symm), hholds.table]
  · obtain ⟨happ,s0,-,hcall,hst⟩ := hw
    rw [happ, hst, hcall]
    exact (HookStorage.holds_calls _).table

theorem inv_start {op : Op F} (h : Inv s) (hs : s.step (.start op) = some t) : Inv t := by
  obtain ⟨hnone,ht⟩ := Option.ite_none_right_eq_some.1 hs
  cases ht
  have hnone := Option.isNone_iff_eq_none.1 hnone
  have hw := h.writer
  simp only [State.WriterOk, hnone] at hw
  refine ⟨⟨by rw [hw.1],_,rfl,[],?_,?_⟩,fun c r hr => ?_⟩
  · rw [hw.1, ← hw.2]
    rfl
  · simp only [List.foldl_nil, Function.update_eq_self]
    rw [hw.1, ← hw.2]
  · refine (h.reader c r hr).writes ⟨[op],rfl⟩ ?_ fun _ => rfl
    rcases (h.reader c r hr).position with ⟨e,hidx,hle⟩ | ⟨⟨op',hp⟩,-⟩
    · refine .inl ⟨e,hidx,?_⟩
      have hb := (h.reader c r hr).before
      simp only [hnone, Option.isSome_none, Bool.false_eq_true, if_false, State.since] at hle
      simp only [Option.isSome_some, if_true, State.since, List.length_append, List.length_singleton]
      omega
    · rw [hnone] at hp
      cases hp

theorem inv_store (h : Inv s) (hs : s.step .store = some t) : Inv t := by
  have hw := h.writer
  simp only [State.step, State.storeNext] at hs
  split at hs
  · cases hs
  · rename_i op w stores status hst
    cases hs
    simp only [State.WriterOk, hst] at hw
    obtain ⟨hstarted,s0,hs0,done,hupdate,hstorage⟩ := hw
    refine ⟨⟨hstarted,s0,hs0,done ++ [w],by rw [hupdate, List.append_assoc]; rfl,?_⟩,fun c r hr => ?_⟩
    · have hnext : s.storage.nextIdx = s0.nextIdx := by rw [hstorage]; rfl
      simp only [hnext]
      rw [hstorage]
      simp only [Function.update_self, Function.update_idem, List.foldl_append, List.foldl_cons,
        List.foldl_nil]
    · have hok := h.reader c r hr
      refine hok.writes ⟨[],(List.append_nil _).symm⟩ ?_ fun hv =>
        Function.update_of_ne (hok.position.next_ne hv hst) _ _
      rcases hok.position with ⟨e,hidx,hle⟩ | ⟨⟨op',hp⟩,-⟩
      · exact .inl ⟨e,hidx,by simpa [State.since, hst] using hle⟩
      · rw [hst] at hp
        cases hp
  · rename_i op status hst
    simp only [State.WriterOk, hst] at hw
    obtain ⟨hstarted,s0,hs0,done,hupdate,hstorage⟩ := hw
    have hcalls : HookStorage.init.calls s.started = (s0.call op).2 := by
      rw [hstarted, HookStorage.calls, List.foldl_append, List.foldl_cons, List.foldl_nil,
        ← HookStorage.calls, ← hs0]
    have hpos : ∀ c r, s.reader c = some r → ∃ e, s.storage.idx.val = (r.cbTbl.val + e) % 255 ∧
        e + 1 ≤ s.since r + 1 := fun c r hr => by
      rcases (h.reader c r hr).position with ⟨e,hidx,hle⟩ | ⟨⟨op',hp⟩,-⟩
      · exact ⟨e,hidx,by simpa [hst] using hle⟩
      · rw [hst] at hp
        cases hp
    split at hs <;> cases hs
    · rename_i hok
      refine ⟨⟨rfl,s0,by simp only [HookStorage.call, hupdate]; exact hok,hcalls.symm,?_⟩,
        fun c r hr => ?_⟩
      · simp only [HookStorage.call, hupdate, hok, if_true, List.append_nil]
        rw [hstorage]
        rfl
      · obtain ⟨e,hidx,hle⟩ := hpos c r hr
        exact (h.reader c r hr).writes ⟨[],(List.append_nil _).symm⟩ (.inl ⟨e,hidx,hle⟩) fun _ => rfl
    · rename_i hfail
      refine ⟨⟨rfl,?_⟩,fun c r hr => ?_⟩
      · rw [hcalls, hstorage]
        simp only [HookStorage.call, hupdate, hfail, if_false, List.append_nil]
      · obtain ⟨e,hidx,hle⟩ := hpos c r hr
        refine (h.reader c r hr).writes ⟨[],(List.append_nil _).symm⟩ (.inl ⟨e,hidx,?_⟩) fun _ => rfl
        simp only [Option.isSome_none, Bool.false_eq_true, if_false, State.since] at hle ⊢
        omega
  · rename_i op hst
    cases hs
    simp only [State.WriterOk, hst] at hw
    obtain ⟨happ,s0,hok,hcall,hstorage⟩ := hw
    have hnext : s.storage.nextIdx = s0.nextIdx := by rw [hstorage]; rfl
    refine ⟨⟨happ,?_⟩,fun c r hr => ?_⟩
    · have hidx : (s0.call op).2.idx = s0.nextIdx := by
        simp only [HookStorage.call] at hok ⊢
        rw [if_pos hok]
      rw [hnext, hstorage, ← hcall, ← hidx]
    · have hr' := h.reader c r hr
      refine hr'.writes ⟨[],(List.append_nil _).symm⟩ (.inl ?_) fun _ => rfl
      rcases hr'.position with ⟨e,hidx,hle⟩ | ⟨-,heq⟩
      · refine ⟨e+1,?_,?_⟩
        · rw [s.storage.nextIdx_val, hidx]
          omega
        · simpa [State.since, hst] using hle
      · refine ⟨0,?_,by simp⟩
        have hlt := r.cbTbl.isLt
        simp only [heq, Nat.add_zero]
        rw [Nat.mod_eq_of_lt hlt]

omit [DecidableEq F] in
private theorem setReader_eq {c d : ι} {r' : Option (Reader n F)} (h : (s.setReader c r').reader d = some r) :
    d = c ∧ r' = some r ∨ s.reader d = some r := by
  by_cases hd : d = c
  · subst hd
    exact .inl ⟨rfl,by simpa [State.setReader] using h⟩
  · exact .inr (by simpa [State.setReader, hd] using h)

private theorem ReaderOk.setReader (h : ReaderOk s r) (c : ι) (r' : Option (Reader n F)) :
    ReaderOk (s.setReader c r') r :=
  ⟨h.before,h.position,h.contents,h.table,h.version,h.called⟩

theorem inv_load {c : ι} (h : Inv s) (hs : s.step (.load c) = some t) : Inv t := by
  obtain ⟨-,ht⟩ := Option.ite_none_right_eq_some.1 hs
  cases ht
  refine ⟨h.writer,fun d r hr => ?_⟩
  rcases setReader_eq hr with ⟨-,hr⟩ | hr
  · cases hr
    have hw := h.writer
    have hlist := HookStorage.holds_calls (n := n) s.applied
    have hpre : s.applied <+: s.started := by
      unfold State.WriterOk at hw
      split at hw
      · exact hw.1 ▸ List.prefix_refl _
      · exact ⟨_,hw.1.symm⟩
      · exact hw.1 ▸ List.prefix_refl _
    refine ⟨le_rfl,?_,fun _ => rfl,⟨h.active,hlist.length⟩,⟨_,hpre,rfl⟩,
      fun _ => ⟨rfl,Nat.zero_le _,nofun⟩⟩
    unfold State.WriterOk at hw
    split at hw
    · rename_i hnone
      refine .inl ⟨0,?_,?_⟩
      · simp only [State.setReader, Nat.add_zero, hw.2, (HookStorage.holds_calls s.started).idx]
        exact (Nat.mod_eq_of_lt (Fin.isLt _)).symm
      · simp [State.setReader, hnone]
    · obtain ⟨-,s0,rfl,done,-,hstorage⟩ := hw
      rename_i hst
      refine .inl ⟨0,?_,?_⟩
      · simp only [State.setReader, Nat.add_zero, hstorage, hlist.idx]
        exact (Nat.mod_eq_of_lt (Fin.isLt _)).symm
      · simp [State.setReader, hst]
    · obtain ⟨-,s0,hok,hcall,hstorage⟩ := hw
      rename_i op hst
      refine .inr ⟨⟨op,hst⟩,?_⟩
      have hactive : (s0.call op).2.active = s0.nextIdx := by
        simp only [HookStorage.call] at hok ⊢
        rw [if_pos hok]
      simp only [State.setReader]
      rw [hstorage]
      exact hactive.symm
  · exact (h.reader d r hr).setReader ..

/-- A valid reader calls the next function of its version of the list. -/
theorem ReaderOk.readNext {c : ι} (h : ReaderOk s r) (hdone : r.done = false) :
    ∃ r', s.readNext c r = s.setReader c (some r') ∧ ReaderOk s r' := by
  have hentry : s.Valid r → ∀ hi : r.i < n,
      s.storage.hookTblStorage r.cbTbl ⟨r.i,hi⟩ = r.version[r.i]? := fun hv hi => by
    rw [h.contents hv, h.table.1]
    rfl
  have hend : s.Valid r → r.version[r.i]? = none → r.i = r.version.length := fun hv hnone => by
    have hle := (h.called hv).2.1
    have hge := List.getElem?_eq_none_iff.1 hnone
    omega
  unfold State.readNext
  split
  · rename_i hi
    split
    · rename_i fn hfn
      refine ⟨_,rfl,h.before,h.position,h.contents,h.table,h.version,fun hv => ?_⟩
      obtain ⟨hcalled,hle,-⟩ := h.called hv
      have hget : r.version[r.i]? = some fn := (hentry hv hi).symm.trans hfn
      refine ⟨?_,(List.getElem?_eq_some_iff.1 hget).1,fun hd => by rw [hdone] at hd; cases hd⟩
      rw [hcalled, List.take_add_one, hget]
      rfl
    · rename_i hnone
      refine ⟨_,rfl,h.before,h.position,h.contents,h.table,h.version,fun hv => ?_⟩
      obtain ⟨hcalled,hle,-⟩ := h.called hv
      exact ⟨hcalled,hle,fun _ => hend hv ((hentry hv hi).symm.trans hnone)⟩
  · rename_i hi
    refine ⟨_,rfl,h.before,h.position,h.contents,h.table,h.version,fun hv => ?_⟩
    obtain ⟨hcalled,hle,-⟩ := h.called hv
    have hlen := h.table.2
    exact ⟨hcalled,hle,fun _ => hend hv (List.getElem?_eq_none (by omega))⟩

theorem inv_read {c : ι} (h : Inv s) (hs : s.step (.read c) = some t) : Inv t := by
  simp only [State.step] at hs
  split at hs
  · rename_i r hr
    obtain ⟨hdone,ht⟩ := Option.ite_none_left_eq_some.1 hs
    cases ht
    obtain ⟨r',hset,hok⟩ := (h.reader c r hr).readNext (c := c) (Bool.eq_false_of_not_eq_true hdone)
    rw [hset]
    refine ⟨h.writer,fun d r'' hr'' => ?_⟩
    rcases setReader_eq hr'' with ⟨-,hr''⟩ | hr''
    · cases hr''
      exact hok.setReader ..
    · exact (h.reader d r'' hr'').setReader ..
  · cases hs

theorem inv_leave {c : ι} (h : Inv s) (hs : s.step (.leave c) = some t) : Inv t := by
  obtain ⟨-,ht⟩ := Option.ite_none_right_eq_some.1 hs
  cases ht
  refine ⟨h.writer,fun d r hr => ?_⟩
  rcases setReader_eq hr with ⟨-,hr⟩ | hr
  · cases hr
  · exact (h.reader d r hr).setReader ..

theorem reachable_inv (h : (machine ι n F).Reachable s) : Inv s :=
  h.invariant (I := Inv) (fun _ => inv_initial) fun _ l _ hi (hs : State.step _ l = some _) _ => by
    cases l with
    | start => exact inv_start hi hs
    | store => exact inv_store hi hs
    | load => exact inv_load hi hs
    | read => exact inv_read hi hs
    | leave => exact inv_leave hi hs

/-- The storage is the list: calls succeed and fail as the list says, and one that fails
changes neither the active table nor the index. -/
structure HookStorage.Refines (s : HookStorage n F) (l : List F) : Prop where
  callbacks : (s.hookTblStorage s.active).callbacks = l
  length : l.length ≤ n
  register : ∀ fn, (s.call (.register fn)).1 = if l.length = n then .allocFailed else .ok
  unregister : ∀ fn, (s.call (.unregister fn)).1 = if fn ∈ l then .ok else .notFound
  registered : ∀ fn, (s.call (.register fn)).1 = .ok →
    ((s.call (.register fn)).2.hookTblStorage (s.call (.register fn)).2.active).callbacks = l ++ [fn]
  unregistered : ∀ fn, (s.call (.unregister fn)).1 = .ok →
    ((s.call (.unregister fn)).2.hookTblStorage (s.call (.unregister fn)).2.active).callbacks =
      l.erase fn
  failed : ∀ op, (s.call op).1 ≠ .ok → (s.call op).2.active = s.active ∧ (s.call op).2.idx = s.idx ∧
    (s.call op).2.hookTblStorage s.active = s.hookTblStorage s.active

omit [DecidableEq F] in
theorem HookStorage.Holds.callbacks {s : HookStorage n F} {l : List F} (h : s.Holds l) :
    (s.hookTblStorage s.active).callbacks = l := by
  rw [h.table, callbacks_ofList h.length]

theorem HookStorage.Holds.refines {s : HookStorage n F} {l : List F} (h : s.Holds l) : s.Refines l := by
  have hregister : ∀ fn, l.length < n → Op.onList n l (.register fn) = some (l ++ [fn]) :=
    fun fn hlt => if_pos hlt
  have hfull : ∀ fn, ¬l.length < n → Op.onList n l (.register fn) = none := fun fn hlt => if_neg hlt
  have hunregister : ∀ fn ∈ l, Op.onList n l (.unregister fn) = some (l.erase fn) :=
    fun fn hmem => if_pos hmem
  have habsent : ∀ fn, fn ∉ l → Op.onList n l (.unregister fn) = none := fun fn hmem => if_neg hmem
  refine ⟨h.callbacks,h.length,fun fn => ?_,fun fn => ?_,fun fn hok => ?_,fun fn hok => ?_,
    fun op hfail => ?_⟩
  · by_cases hlt : l.length < n
    · rw [(h.call_some (hregister fn hlt)).1, if_neg (by omega)]
    · rw [(h.call_none (hfull fn hlt)).1, if_pos (by have := h.length; omega)]
      rfl
  · by_cases hmem : fn ∈ l
    · rw [(h.call_some (hunregister fn hmem)).1, if_pos hmem]
    · rw [(h.call_none (habsent fn hmem)).1, if_neg hmem]
      rfl
  · by_cases hlt : l.length < n
    · exact (h.call_some (hregister fn hlt)).2.callbacks
    · rw [(h.call_none (hfull fn hlt)).1] at hok
      cases hok
  · by_cases hmem : fn ∈ l
    · exact (h.call_some (hunregister fn hmem)).2.callbacks
    · rw [(h.call_none (habsent fn hmem)).1] at hok
      cases hok
  · cases hl : op.onList n l with
    | some l' => exact absurd (h.call_some hl).1 hfail
    | none =>
      obtain ⟨-,-,hactive,hidx,htable⟩ := h.call_none hl
      exact ⟨hactive,hidx,htable⟩

/-- After any calls the active table is the list that the calls make, and a core that has
loaded a table reads one whole version of the list while fewer than
`API_HOOKS_MAX_TBL_SIZE` - 1 further calls have started. -/
theorem hooks_refine_list (ops : List (Op F)) :
    (HookStorage.init.calls ops : HookStorage n F).Refines (listAfter n ops) ∧
    ∀ s, (machine ι n F).Reachable s →
      (s.writer = none → s.storage = HookStorage.init.calls s.started) ∧
      ∀ c r, s.reader c = some r → s.started.length < r.before + (apiHooksMaxTblSize - 1) →
        s.storage.hookTblStorage r.cbTbl = r.contents ∧ r.contents.callbacks = r.version ∧
        (∃ applied, applied <+: s.started ∧ r.version = listAfter n applied) ∧
        r.called = r.version.take r.i ∧ (r.done = true → r.called = r.version) := by
  refine ⟨(HookStorage.holds_calls ops).refines,fun s hs => ⟨fun hw => ?_,fun c r hr hv => ?_⟩⟩
  · have hok := (reachable_inv hs).writer
    simp only [State.WriterOk, hw] at hok
    exact hok.2
  · have hok := (reachable_inv hs).reader c r hr
    obtain ⟨hcalled,-,hdone⟩ := hok.called hv
    refine ⟨hok.contents hv,?_,hok.version,hcalled,fun hd => ?_⟩
    · rw [hok.table.1, callbacks_ofList hok.table.2]
    · rw [hcalled, hdone hd, List.take_length]

private def noHooks : State Unit 2 Nat := ⟨.init,none,fun _ => none,[],[]⟩

/-- A core reads the table while its only function is unregistered. -/
private def seen : Option (State Unit 2 Nat) :=
  System.exec State.step (fun _ _ _ => true) noHooks
    ([.start (.register 5)] ++ List.replicate 5 .store ++ [.load (), .start (.unregister 5)] ++
      List.replicate 4 .store ++ [.read (), .store, .read ()])

private theorem seen_isSome : seen.isSome = true := by decide

private theorem seen_reader : ((seen.get seen_isSome).reader ()).isSome = true := by decide

theorem hooks_refine_list_seen :
    (((seen.get seen_isSome).reader ()).get seen_reader).called =
      (((seen.get seen_isSome).reader ()).get seen_reader).version :=
  (((hooks_refine_list []).2 _ (System.ReachableVia.exec (fun _ _ _ _ => trivial)
      (.start ⟨rfl,rfl,fun _ => rfl,rfl,rfl⟩) (Option.some_get seen_isSome).symm)).2 ()
    _ (Option.some_get seen_reader).symm (by decide)).2.2.2.2 (by decide)

end EmOdp.Hooks
