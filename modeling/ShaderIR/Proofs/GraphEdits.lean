import ShaderIR.Proofs.NodeEdits
import ShaderIR.Proofs.OperandLists

/-! Edits of operands, and edits that make values. -/

open ShaderIR.Core

namespace ShaderIR

structure Store.Rewired (s : Store) (u : ValueId) (s' : Store) : Prop where
  uses : ∃ g, s' = { s with uses := g }
  settled : s'.Settled
  others : ∀ v, v ≠ u → s'.uses.targets v = s.uses.targets v

theorem Store.Rewired.trans {s s' s'' : Store} {u : ValueId} (h : s.Rewired u s')
    (h' : s'.Rewired u s'') : s.Rewired u s'' := by
  refine ⟨?_, h'.settled, fun v hv => (h'.others v hv).trans (h.others v hv)⟩
  obtain ⟨g, rfl⟩ := h.uses
  obtain ⟨g', rfl⟩ := h'.uses
  exact ⟨g', rfl⟩

theorem Store.Settled.rewired {s : Store} (hs : s.Settled) (u : ValueId) : s.Rewired u s :=
  ⟨⟨s.uses, rfl⟩, hs, fun _ _ => rfl⟩

namespace Edit

variable {s : Store} {u v : ValueId} {o : Option ValueId}

def MayRefer (s : Store) (u : ValueId) (o : Option ValueId) : Prop :=
  ∀ d t, s.core.values.get? u = some d → d.IsAddress → o = some t →
    ∃ dt, s.core.values.get? t = some dt ∧ s.types.IsAddressable dt.ty

theorem mayRefer_of_kind {d : Value} (h : s.values.get? u = some d) (hk : d.kind ≠ .constant)
    (o : Option ValueId) : MayRefer s u o := by
  intro d' t hd' ha
  rw [Store.get?_core, h] at hd'
  obtain rfl := Option.some.inj hd'
  rw [← Value.kind_bare] at hk
  exact absurd (by rw [Value.kind, ha]; rfl) hk

theorem mayRefer_of_addressable {t : ValueId} {d : Value} (h : s.values.get? t = some d)
    (ht : s.types.IsAddressable d.ty) : MayRefer s u (some t) := by
  rintro _ _ - - ⟨⟩
  exact ⟨d.bare, by rw [Store.get?_core, h]; rfl, ht⟩

section Operands

theorem ends_link (hs : s.Settled) {e : EdgeId} {t : ValueId} {i : Nat}
    (he : (s.uses.slotsOf u)[i]? = some e) (hn : (s.uses.edge e).target = none)
    (hu : MayRefer s u (some t)) : Ends (link e t) s (fun _ s' => s.Rewired u s' ∧
      s'.uses.targets u = (s.uses.targets u).set i (some t))
      fun _ s' => s' = s ∧ s.values.get? t = none := by
  have hg : s.uses.Sound s.core.IsLive := hs.graph
  refine ends_bind.2 (ends_lift.2 ⟨fun d hd => ?_, fun x hx => ⟨rfl, ?_⟩⟩)
  · have hlive : s.core.IsLive t := Store.isLive_core.2 ⟨d, Query.value_ok.1 hd⟩
    have htargets (v : ValueId) := hg.targets_link he hn t v
    refine ⟨⟨⟨_, rfl⟩, hs.link (List.mem_of_getElem? he) hn hlive fun du hdu ha =>
      hu du t hdu ha rfl, fun v hv => ?_⟩, ?_⟩
    · exact (htargets v).trans (if_neg (Ne.symm hv))
    · exact (htargets u).trans (if_pos rfl)
  · cases hd : s.values.get? t with
    | none => rfl
    | some d =>
      rw [Query.value_ok.2 hd] at hx
      cases hx

theorem ends_addOperand (hs : s.Settled) (hu : MayRefer s u o) :
    Ends (addOperand u o) s (fun _ s' => s.Rewired u s' ∧
      s'.uses.targets u = s.uses.targets u ++ [o]) fun _ s' => s.Rewired u s' ∧
        (s.values.get? u = none ∨ ∃ t, o = some t ∧ s.values.get? t = none) := by
  have hg : s.uses.Sound s.core.IsLive := hs.graph
  refine ends_bind.2 (ends_lift.2 ⟨fun k hk => ?_, fun x hx => ⟨hs.rewired u, .inl ?_⟩⟩)
  · have hlive : s.core.IsLive u := Store.isLive_core.2 (Query.operandCount_ok.1 hk).1
    have htargets (v : ValueId) : ((s.uses.addSlot u).2).targets v = _ := hg.targets_addSlot v
    have hadd : s.Rewired u { s with uses := (s.uses.addSlot u).2 } :=
      ⟨⟨_, rfl⟩, hs.addSlot hlive, fun v hv => (htargets v).trans (if_neg (Ne.symm hv))⟩
    rw [ends_bind, ends_modifyGet, ends_bind]
    cases o with
    | none => exact ⟨hadd, (htargets u).trans (if_pos rfl)⟩
    | some t =>
      refine (ends_link hadd.settled (u := u) (i := (s.uses.slotsOf u).length) ?_ ?_ hu).mono
        (fun _ s' h => ⟨hadd.trans h.1, h.2.trans ?_⟩) ?_
      · change ((s.uses.addSlot u).2.slotsOf u)[_]? = some (s.uses.addSlot u).1
        rw [hg.slotsOf_addSlot, if_pos rfl]
        simp
      · change ((s.uses.addSlot u).2.edge (s.uses.addSlot u).1).target = none
        rw [hg.edge_addSlot, if_pos rfl]
      · rw [show ((s.uses.addSlot u).2).targets u = s.uses.targets u ++ [none] from
          (htargets u).trans (if_pos rfl)]
        have hlen : (s.uses.slotsOf u).length = (s.uses.targets u).length :=
          (List.length_map ..).symm
        rw [hlen, List.set_append_right _ _ (Nat.le_refl _), Nat.sub_self]
        rfl
      · rintro _ _ ⟨rfl, hdead⟩
        exact ⟨hadd, .inr ⟨t, rfl, hdead⟩⟩
  · cases hd : s.values.get? u with
    | none => rfl
    | some d =>
      rw [Query.operandCount_ok.2 ⟨⟨d, hd⟩, rfl⟩] at hx
      cases hx

theorem ends_putOperand (hs : s.Settled) {i : Nat} (hu : MayRefer s u o) :
    Ends (putOperand u i o) s (fun _ => s.Rewired u) fun _ => s.Rewired u := by
  have hg : s.uses.Sound s.core.IsLive := hs.graph
  refine ends_bind.2 (ends_lift.2 ⟨fun e he => ?_, fun _ _ => hs.rewired u⟩)
  obtain ⟨-, he⟩ := Query.operandEdge_ok.1 he
  rw [ends_bind, ends_get]
  split
  · have hunlink : s.Rewired u { s with uses := s.uses.unlink e } :=
      ⟨⟨_, rfl⟩, hs.unlink e, fun v hv => (hg.targets_unlink he v).trans (if_neg (Ne.symm hv))⟩
    rw [ends_bind, unlink, ends_modify]
    cases o with
    | none => exact hunlink
    | some t =>
      refine (ends_link hunlink.settled (u := u) (i := i) ?_ ?_ hu).mono
        (fun _ _ h => hunlink.trans h.1) ?_
      · change ((s.uses.unlink e).slotsOf u)[i]? = some e
        rwa [(UseGraph.sameSlots_unlink s.uses e).slotsOf]
      · change ((s.uses.unlink e).edge e).target = none
        rw [hg.target_unlink, if_pos rfl]
      · rintro _ _ ⟨rfl, -⟩
        exact hunlink
  · exact hs.rewired u

theorem mayRefer_none : MayRefer s u none := fun _ _ _ _ h => by cases h

theorem ends_emptyOperands (hs : s.Settled) :
    Ends (emptyOperands u) s (fun _ => s.Rewired u) fun _ => s.Rewired u := by
  refine ends_bind.2 (ends_lift.2 ⟨fun _ _ => ?_, fun _ _ => hs.rewired u⟩)
  refine ends_forM (fun _ => s.Rewired u) (fun _ _ s' hs' => ?_) _ s (hs.rewired u)
  exact (ends_putOperand hs'.settled mayRefer_none).mono (fun _ _ h => hs'.trans h)
    fun _ _ h => hs'.trans h

theorem keeps_emptyOperands : Keeps Store.Settled (emptyOperands u) := fun _ hs =>
  (ends_emptyOperands hs).mono (fun _ _ h => h.settled) fun _ _ h => h.settled

theorem keeps_setOperand {i : Nat} : Keeps Store.Settled (setOperand u i o) := by
  intro s hs
  refine ends_bind.2 (ends_lift.2 ⟨fun _ hk => ?_, fun _ _ => hs⟩)
  obtain ⟨d, hd, hne⟩ : ∃ d, s.values.get? u = some d ∧ d.kind ≠ .constant := by
    simpa [Query.expectMutableOperands] using hk
  exact (ends_putOperand hs (mayRefer_of_kind hd hne o)).mono (fun _ _ h => h.settled)
    fun _ _ h => h.settled

theorem keeps_pushOperand : Keeps Store.Settled (pushOperand u o) := by
  intro s hs
  refine ends_bind.2 (ends_lift.2 ⟨fun _ hk => ?_, fun _ _ => hs⟩)
  obtain ⟨d, hd, hne⟩ : ∃ d, s.values.get? u = some d ∧ d.kind ≠ .constant := by
    simpa [Query.expectMutableOperands] using hk
  refine ends_bind.2 (ends_lift.2 ⟨fun _ _ => ?_, fun _ _ => hs⟩)
  exact (ends_addOperand hs (mayRefer_of_kind hd hne o)).mono (fun _ _ h => h.1.settled)
    fun _ _ h => h.1.settled

theorem keeps_dropAllReferences : Keeps Store.Settled (dropAllReferences u) :=
  .bind (.lift _) fun _ => keeps_emptyOperands

theorem keeps_setInitializer : Keeps Store.Settled (setInitializer u o) := by
  intro s hs
  refine ends_bind.2 (ends_lift.2 ⟨fun _ hk => ?_, fun _ _ => hs⟩)
  obtain ⟨d, hd, hk⟩ := Query.expectKind_ok.1 hk
  exact (ends_putOperand hs (mayRefer_of_kind hd (by simp [hk]) o)).mono
    (fun _ _ h => h.settled) fun _ _ h => h.settled

end Operands

section NewValues

variable {d : Value} {ty : TypeId}

theorem keeps_internType {sh : TypeShape} : Keeps Store.Settled (internType sh) :=
  Keeps.modifyGet fun _ hs => ⟨hs.graph, hs.typed.intern sh, hs.consistent, hs.attached,
    hs.recorded.congr rfl rfl⟩

theorem ends_internType {sh : TypeShape} (hs : s.Settled) : Ends (internType sh) s
    (fun ty s' => s'.Settled ∧ s'.types.get? ty = some sh ∧ ∃ types, s' = { s with types := types } ∧
      ∀ {ty sh}, s.types.get? ty = some sh → types.get? ty = some sh) fun _ _ => False :=
  ⟨(keeps_internType s hs : _), TypeTable.get?_intern_self .., _, rfl,
    fun h => TypeTable.get?_intern h sh⟩

theorem core_pushValue (s : Store) (d : Value) :
    (s.pushValue d).2.core = s.core.withValues (s.core.values.push d.bare) := by
  simp only [Store.core, Store.pushValue, withValues, Arena.map_push]

theorem settled_pushValue (hs : s.Settled) (hd : d.bare.WellTyped s.types)
    (ha : d.attachments = []) (hw : d.wrapped? = none) : (s.pushValue d).2.Settled := by
  have hcore := core_pushValue s d
  have hheld : (s.pushValue d).2.core.held = s.core.held := by
    rw [hcore, held_push s.core (d := d.bare) ha, Value.wrapped?_bare, hw]
    exact (Function.update_eq_self_iff ..).2 (by simp [held])
  rw [Store.Settled, hheld, hcore]
  exact hs.push hd ha (by simp [hw])

theorem get?_pushValue (s : Store) (d : Value) (w : ValueId) :
    (s.pushValue d).2.values.get? w = if w = s.values.next then some d else s.values.get? w :=
  Arena.get?_push ..

theorem wellTyped_of_kind (hb : d.kind ≠ .block) (hf : d.kind ≠ .function)
    (hm : d.kind ≠ .metadata) (ha : d.payload ≠ .constant .blockAddress) (types : TypeTable) :
    d.bare.WellTyped types where
  block hk := absurd (Value.kind_bare d ▸ hk) hb
  function hk := absurd (Value.kind_bare d ▸ hk) hf
  wrapper hk := absurd (Value.kind_bare d ▸ hk) hm
  address hk := absurd (Value.bare_payload_constant.1 hk) ha

theorem keeps_internScalar {data : ConstantData} (hdata : data ≠ .blockAddress) :
    Keeps Store.Settled (internScalar ty data) := by
  refine .bind .get fun s => ?_
  split
  · exact .pure _
  · refine .bind (Keeps.modifyGet fun s hs => ?_) fun c => .bind (.modify fun s hs => ?_) fun _ =>
      .pure _
    · exact settled_pushValue hs (wellTyped_of_kind (by simp [Value.kind, Payload.kind])
        (by simp [Value.kind, Payload.kind]) (by simp [Value.kind, Payload.kind]) (by simpa) _)
        rfl rfl
    · exact ⟨hs.graph, ⟨hs.typed.distinct, hs.typed.values, hs.typed.address⟩, hs.consistent,
        hs.attached, hs.recorded.congr rfl rfl⟩

structure NewAddress (s s' : Store) (f b c : ValueId) : Prop where
  settled : s'.Settled
  fresh : s.constants[ConstantKey.blockAddress f b]? = none
  function : ∃ d, s.values.get? f = some d ∧ d.kind = .function
  block : ∃ d, s.values.get? b = some d ∧ d.kind = .block
  next : c = s.values.next
  values : ∃ ty, s'.values = s.values.push { ty := ty, payload := .constant .blockAddress }
  types : ∀ {ty sh}, s.types.get? ty = some sh → s'.types.get? ty = some sh
  targets : s'.uses.targets c = [some f, some b]
  others : ∀ v, v ≠ c → s'.uses.targets v = s.uses.targets v
  constants : s'.constants = s.constants.insert (.blockAddress f b) c
  metadata : s'.metadata = s.metadata
  modules : s'.modules = s.modules

theorem ends_blockAddress (hs : s.Settled) {f b : ValueId} : Ends (blockAddress f b) s
    (fun c s' => s' = s ∧ s.constants[ConstantKey.blockAddress f b]? = some c ∨
      NewAddress s s' f b c) fun _ s' => s' = s := by
  have hg : s.uses.Sound s.core.IsLive := hs.graph
  refine ends_bind.2 (ends_lift.2 ⟨fun _ hf => ?_, fun _ _ => rfl⟩)
  refine ends_bind.2 (ends_lift.2 ⟨fun _ hb => ?_, fun _ _ => rfl⟩)
  obtain ⟨df, hdf, hkf⟩ := Query.expectKind_ok.1 hf
  obtain ⟨db, hdb, hkb⟩ := Query.expectKind_ok.1 hb
  rw [ends_bind, ends_get]
  split
  next c hc => exact .inl ⟨rfl, hc⟩
  next hnone =>
  rw [ends_bind]
  refine Ends.weaken (ends_internType hs) ?_
  rintro ty _ ⟨hs₁, hty, types, rfl, hmono⟩
  have hwell : Value.WellTyped types { ty := ty, payload := .constant .blockAddress } :=
    ⟨by simp [Value.kind, Payload.kind], by simp [Value.kind, Payload.kind],
      by simp [Value.kind, Payload.kind], fun _ => hty⟩
  have hs₂ := settled_pushValue hs₁ (d := { ty := ty, payload := .constant .blockAddress })
    hwell rfl rfl
  set p := (Store.pushValue { s with types := types }
    { ty := ty, payload := .constant .blockAddress }).2 with hp
  have hget (w : ValueId) : p.values.get? w = if w = s.values.next then
      some { ty := ty, payload := .constant .blockAddress } else s.values.get? w :=
    get?_pushValue { s with types := types } _ w
  have hkeep {w : ValueId} {dw : Value} (hw : s.values.get? w = some dw) :
      p.values.get? w = some dw := by
    rw [hget, if_neg]
    · exact hw
    · rintro rfl
      simp at hw
  have haddr {w : ValueId} {dw : Value} (hw : s.values.get? w = some dw)
      (hk : dw.kind = .function ∨ dw.kind = .block) : types.IsAddressable dw.ty := by
    have hwell := hs.typed.values (v := w) (d := dw.bare) (by rw [Store.get?_core, hw]; rfl)
    obtain hk | hk := hk
    · exact .inr ((hwell.function (by simpa using hk)).imp fun _ => Exists.imp fun _ => hmono)
    · exact .inl (hmono (hwell.block (by simpa using hk)))
  have hnext : p.values.get? s.values.next ≠ none := by
    rw [hget, if_pos rfl]
    simp
  have hnil : p.uses.targets s.values.next = [] := hg.targets_of_dead fun hl => by
    obtain ⟨d, hd⟩ := Store.isLive_core.1 hl
    simp at hd
  rw [ends_bind, pushValue, ends_modifyGet]
  refine Ends.bind ((ends_addOperand hs₂ (mayRefer_of_addressable (hkeep hdf)
    (haddr hdf (.inl hkf)))).mono (fun _ _ h => h) ?_) ?_
  · rintro _ _ ⟨-, hdead | ⟨t, ⟨⟩, hdead⟩⟩
    · exact absurd hdead hnext
    · cases (hkeep hdf).symm.trans hdead
  rintro _ q ⟨hq, hqt⟩
  obtain ⟨g, rfl⟩ := hq.uses
  rw [ends_bind]
  refine Ends.mono (ends_addOperand hq.settled (mayRefer_of_addressable (hkeep hdb)
    (haddr hdb (.inr hkb)))) ?_ ?_
  · rintro _ q' ⟨hq', hqt'⟩
    obtain ⟨g', rfl⟩ := hq'.uses
    have hs₄ := hq'.settled
    refine .inr ⟨⟨hs₄.graph, ⟨hs₄.typed.distinct, hs₄.typed.values, hs₄.typed.address⟩,
      hs₄.consistent, hs₄.attached, hs₄.recorded.congr rfl rfl⟩, hnone, ⟨df, hdf, hkf⟩,
      ⟨db, hdb, hkb⟩, rfl, ⟨ty, rfl⟩, hmono, ?_, fun v hv => ?_, rfl, rfl, rfl⟩
    · refine hqt'.trans ?_
      rw [hqt]
      exact congrArg (fun os => os ++ [some f] ++ [some b]) hnil
    · exact (hq'.others v hv).trans (hq.others v hv)
  · rintro _ _ ⟨-, hdead | ⟨t, ⟨⟩, hdead⟩⟩
    · exact absurd hdead hnext
    · cases (hkeep hdb).symm.trans hdead

theorem keeps_blockAddress {f b : ValueId} : Keeps Store.Settled (blockAddress f b) := by
  intro s hs
  refine (ends_blockAddress hs).mono ?_ ?_
  · rintro _ s' (⟨rfl, -⟩ | h)
    · exact hs
    · exact h.settled
  · rintro _ _ rfl
    exact hs

theorem keeps_pushValue (hk : d.kind = .argument ∨ d.kind = .global ∨ d.kind = .instruction)
    (ha : d.attachments = []) (hw : d.wrapped? = none) : Keeps Store.Settled (pushValue d) :=
  Keeps.modifyGet fun s hs => by
    refine settled_pushValue hs (wellTyped_of_kind ?_ ?_ ?_ ?_ _) ha hw
    · rintro h
      simp [h] at hk
    · rintro h
      simp [h] at hk
    · rintro h
      simp [h] at hk
    · rintro h
      simp [Value.kind, h, Payload.kind] at hk

theorem ends_pushValue (hs : s.Settled)
    (hk : d.kind = .argument ∨ d.kind = .global ∨ d.kind = .instruction)
    (ha : d.attachments = []) (hw : d.wrapped? = none) : Ends (pushValue d) s
      (fun v s' => s'.Settled ∧ s'.values.get? v = some d) fun _ _ => False :=
  ⟨keeps_pushValue hk ha hw s hs, by simp [Arena.get?_push]⟩

theorem ends_addOperands (hs : s.Settled) (hd : s.values.get? u = some d)
    (hk : d.kind ≠ .constant) (os : List (Option ValueId)) :
    Ends (os.forM fun o => do let _ ← addOperand u o) s (fun _ => s.Rewired u)
      fun _ => s.Rewired u := by
  refine ends_forM (fun _ => s.Rewired u) (fun o rest s' hs' => ?_) os s (hs.rewired u)
  have hmay : MayRefer s' u o := by
    obtain ⟨g, rfl⟩ := hs'.uses
    exact mayRefer_of_kind (s := { s with uses := g }) hd hk o
  exact Ends.bind ((ends_addOperand hs'.settled hmay).mono (fun _ _ h => h)
    fun _ _ h => hs'.trans h.1) fun _ s'' h => hs'.trans h.1

theorem keeps_createInstruction {opcode : String} {os : List (Option ValueId)} :
    Keeps Store.Settled (createInstruction opcode ty os) := by
  intro s hs
  refine Ends.bind ((ends_pushValue hs (.inr (.inr rfl)) rfl rfl).weaken fun _ _ h => h) ?_
  rintro i s' ⟨hs', hi⟩
  exact Ends.bind ((ends_addOperands hs' hi (by simp [Value.kind, Payload.kind]) os).mono
    (fun _ _ h => h) fun _ _ h => h.settled) fun _ _ h => h.settled

theorem keeps_createDetachedBlock {text : String} :
    Keeps Store.Settled (createDetachedBlock text) := by
  intro s hs
  refine Ends.bind ((ends_internType hs).weaken fun _ _ h => h) ?_
  rintro ty s' ⟨hs', hty, -⟩
  have hwell : Value.WellTyped s'.types { ty := ty, payload := .block none [] } :=
    ⟨fun _ => hty, by simp [Value.kind, Payload.kind], by simp [Value.kind, Payload.kind],
      by simp [Value.IsAddress]⟩
  rw [ends_bind, pushValue, ends_modifyGet]
  exact Keeps.bind (keeps_of_fixes fixes_writeName) (fun _ => .pure _) _
    (settled_pushValue hs' hwell rfl rfl)

theorem keeps_createBlock {f : ValueId} {text : String} :
    Keeps Store.Settled (createBlock f text) :=
  .bind keeps_createDetachedBlock fun _ => .bind (keeps_of_fixes fixes_insertBlock) fun _ =>
    .pure _

theorem keeps_createFunction {m : ModuleId} {text : String} :
    Keeps Store.Settled (createFunction m text ty) := by
  intro s hs
  refine ends_bind.2 (ends_lift.2 ⟨fun sh hsh => ?_, fun _ _ => hs⟩)
  split
  next params hparams =>
    have hfunction : ∃ result ps, s.types.get? ty = some (.function result ps) := by
      rw [Query.shape_ok.1 hsh]
      cases sh <;> simp [TypeShape.params?] at hparams ⊢
    have hwell : Value.WellTyped s.types { ty := ty, payload := .function none [] [] } :=
      ⟨by simp [Value.kind, Payload.kind], fun _ => hfunction, by simp [Value.kind, Payload.kind],
        by simp [Value.IsAddress]⟩
    have hs₁ := settled_pushValue (d := { ty := ty, payload := .function none [] [] }) hs hwell
      rfl rfl
    -- While the arguments are made the function stays what it is.
    let I (s' : Store) := s'.Settled ∧ ∃ d, s'.values.get? s.values.next = some d ∧
      d.kind = .function
    have harg (p : TypeId × Nat) : Keeps I
        (pushValue { ty := p.1, payload := .argument s.values.next p.2 }) := by
      refine Keeps.modifyGet fun s' hs' => ⟨keeps_pushValue (.inl rfl) rfl rfl s' hs'.1, ?_⟩
      obtain ⟨d, hd, hk⟩ := hs'.2
      refine ⟨d, ?_, hk⟩
      rw [get?_pushValue, if_neg]
      · exact hd
      · rintro hn
        simp [hn] at hd
    rw [ends_bind, pushValue, ends_modifyGet, ends_bind, ends_modify]
    refine Ends.bind (Ends.mono (Keeps.mapM harg params.zipIdx _ ⟨hs₁, ?_⟩) (fun _ _ h => h)
      fun _ _ h => h.1) ?_
    · exact ⟨_, (get?_pushValue s _ _).trans (if_pos rfl), rfl⟩
    rintro args s' ⟨hs', d, hd, hk⟩
    rw [ends_bind]
    refine (ends_modifyValue hd _).2 ?_
    refine Keeps.bind (keeps_of_fixes fixes_writeName) (fun _ =>
      .bind (keeps_of_fixes fixes_appendFunction) fun _ => .pure _) _ ?_
    rw [Store.Settled, Store.core_modifyValue_of_bare]
    · exact hs'
    · intro d' hd'
      obtain rfl := Option.some.inj (hd.symm.trans hd')
      obtain ⟨_, p, _, _, _⟩ := d
      cases p <;> simp [Value.kind, Payload.kind] at hk
      rfl
  next => exact hs

theorem keeps_createGlobal {m : ModuleId} {text : String} :
    Keeps Store.Settled (createGlobal m text ty o) := by
  intro s hs
  refine Ends.bind ((ends_pushValue hs (.inr (.inl rfl)) rfl rfl).weaken fun _ _ h => h) ?_
  rintro g s' ⟨hs', hg⟩
  refine Ends.bind ((ends_addOperand hs' (mayRefer_of_kind hg (by simp [Value.kind, Payload.kind])
    o)).mono (fun _ _ h => h.1.settled) fun _ _ h => h.1.settled) fun _ s'' h => ?_
  exact Keeps.bind (keeps_of_fixes fixes_writeName) (fun _ =>
    .bind (keeps_of_fixes fixes_appendGlobal) fun _ => .pure _) _ h

theorem keeps_buildInstruction {opcode : String} {os : List (Option ValueId)}
    {text : Option String} {placement : Placement} :
    Keeps Store.Settled (buildInstruction opcode ty os text placement) :=
  Carries.keeps (.buildInstruction keeps_createInstruction.carries
    (keeps_of_fixes fixes_setName).carries (keeps_of_fixes fixes_insertInstruction).carries)

theorem safe_wrapperValue {n : NodeId} : Safe Fault.IsOrdinary Store.Settled (wrapperValue n) := by
  intro s hs
  refine Query.regular_node.ends_bind (fun _ hx => ⟨hx, hs⟩) fun dn hdn => ?_
  rw [ends_bind, ends_get]
  split
  · exact hs
  next hnone =>
    refine Ends.bind (Ends.weaken (ends_internType hs) fun _ _ h => h) ?_
    rintro ty p ⟨hp, hty, types, hps, -⟩
    have hn : p.metadata.wrapperOf[n]? = none := by rw [hps]; exact hnone
    have hlt : n.index < p.metadata.nodes.size := by
      rw [hps]
      exact Arena.lt_size_of_get? (Query.node_ok.1 hdn)
    let d : Value := { ty := ty, payload := .metadata n }
    have hwell : Value.WellTyped p.types { ty := ty, payload := .metadata n } :=
      ⟨by simp [Value.kind, Payload.kind], by simp [Value.kind, Payload.kind], fun _ => hty,
        by simp [Value.IsAddress]⟩
    have hnext : p.core.values.next = p.values.next := Arena.next_map ..
    have hpush : (p.pushValue d).2.core.held =
        Function.update p.core.held (.wrapper p.values.next) (some n) := by
      rw [core_pushValue, held_push p.core (d := d.bare) rfl, hnext]
      rfl
    have hs₂ : (p.pushValue d).2.core.Sound p.core.held := by
      rw [core_pushValue]
      refine hp.push hwell rfl fun m hm => ?_
      obtain rfl : n = m := Option.some.inj hm
      exact hlt
    have hs₃ : ((p.pushValue d).2.modifyMetadata fun md =>
        { md with wrapperOf := md.wrapperOf.insert n p.values.next }).core.Sound p.core.held :=
      hs₂.insertWrapper (by rw [hpush, Function.update_self]) hn
    have hfresh : p.core.held (.wrapper p.values.next) = none := by
      rw [← hnext]
      simp [held]
    rw [ends_bind, pushValue, ends_modifyGet, ends_bind, ends_modify, ends_bind]
    refine Ends.weaken (ends_track hs₃.recorded.follows hfresh) ?_
    rintro _ _ ⟨t, rfl, ht, hi⟩
    have hs₄ := hs₃.tracked ht hi ?_ ?_
    · exact settled_of_eq hs₄ hpush
    · exact (congrFun hpush _).trans (Function.update_self ..)
    · rintro w m hw hm
      obtain rfl := Location.wrapper.inj hw
      obtain rfl := Option.some.inj hm
      exact (getElem?_insert_eq_ite ..).trans (if_pos rfl)

end NewValues

end Edit

end ShaderIR
