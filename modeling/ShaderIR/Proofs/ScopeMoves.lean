import ShaderIR.Proofs.ReturningNames

/-! Moving within a scope. Whether a value is taken out and put back or only changes its place in a
list, names and tables are the same as before; and if it is put back where it was, so is the whole
store. -/

namespace ShaderIR

namespace Store

/-- Whatever has left its place has taken its entries with it. Nothing else about names has
changed. -/
structure Suspends (s s₁ : Store) : Prop where
  consistent : s₁.layout.Consistent True
  kind : s₁.layout.kind = s.layout.kind
  labels : s₁.labels = s.labels
  retabled : s.Retabled s₁

structure Resettles (s : Store) (L : Layout) (s' : Store) : Prop where
  awaits : s.Awaits s' []
  renamed : L.Renamed s'.layout

variable {s s₁ s₂ s' : Store} {v : ValueId} {p : Place} {anchor : Option ValueId} {L L' : Layout}

theorem Suspends.refl (h : s.layout.Consistent True) : s.Suspends s := ⟨h, rfl, rfl, .refl s⟩

theorem Suspends.awaits (h : s.Suspends s₁) (hv : s₁.layout.place v = none)
    (hpos : s₁.layout.position v = none) (hlayout : s₂.layout = s₁.layout.attach v p anchor)
    (hl : s₂.labels = s₁.labels) (hr : s₂.registry = s₁.registry)
    (hscope : (s₁.layout.attach v p anchor).scope = s.layout.scope) :
    s.Awaits s₂ (v :: s₁.layout.children (.instructions v)) where
  placed := hlayout ▸ h.consistent.placed.attach hv
  named := hlayout ▸ h.consistent.named.attach h.consistent.placed hv hpos
  kind := (congrArg Layout.kind hlayout).trans h.kind
  scope := (congrArg Layout.scope hlayout).trans hscope
  labels := hl.trans h.labels
  retabled := h.retabled.trans (retabled_of_registry hr)

end Store

namespace Edit

open Store Layout

variable {s s₀ s₁ : Store} {v i b c f g : ValueId} {m : ModuleId} {anchor : Option ValueId}
variable {p : Place} {e : Edit Unit} {k : ValueKind} {L : Layout} {hash : String → UInt64}

section Leaving

theorem Fixes.retabled {α : Type} {e : Edit α} (h : Fixes Store.registry e) :
    Keeps s₀.Retabled e := fun s hs =>
  (h.ends s).mono (fun _ _ hs' => hs.trans (retabled_of_registry hs'))
    fun _ _ hs' => hs.trans (retabled_of_registry hs')

theorem registry_modifyInstructions {change : List ValueId → List ValueId} :
    Fixes Store.registry (modifyInstructions b change) :=
  .bind (.lift _) fun _ => .bind (.lift _) fun _ => .modify fun s => registry_modifyValue fun d => by
    obtain ⟨_, p, _, _, _⟩ := d
    cases p <;> rfl

theorem registry_placeInstruction : Fixes Store.registry (placeInstruction b i anchor) :=
  .bind fixes_setInstructionParent fun _ => registry_modifyInstructions

theorem registry_modifyModules {change : Module → Module} :
    Fixes Store.registry (modifyModule m change) :=
  .bind (.lift _) fun _ => .modify fun _ => registry_modifyModule

theorem retabled_unregisterName : Keeps s₀.Retabled (unregisterName v) := by
  intro s hs
  refine ends_bind.2 (ends_lift.2 ⟨fun d _ => ?_, fun _ _ => hs⟩)
  split
  · exact hs
  · refine ends_bind.2 (ends_lift.2 ⟨fun o _ => ?_, fun _ _ => hs⟩)
    cases o with
    | none => exact hs
    | some sc =>
      refine ends_bind.2 (ends_lift.2 ⟨fun t ht => ?_, fun _ _ => hs⟩)
      rw [Query.symbols_ok] at ht
      split
      next hf => exact hs.trans (retabled_setTable ht (scopes_of_find? ht hf) rfl)
      next => exact hs

theorem retabled_removeInstruction : Keeps s₀.Retabled (removeInstruction i) := by
  refine .bind (.lift _) fun b => ?_
  split
  · exact .bind retabled_unregisterName fun _ =>
      (Fixes.bind registry_modifyInstructions fun _ => fixes_setInstructionParent).retabled
  · exact .raise _

theorem retabled_removeBlock : Keeps s₀.Retabled (removeBlock b) := by
  refine .bind (.lift _) fun f => ?_
  split
  · refine .bind (.lift _) fun insts => .bind (.forM (fun _ => retabled_unregisterName) insts) ?_
    exact fun _ => .bind retabled_unregisterName fun _ =>
      (Fixes.bind fixes_modifyBlocks fun _ => fixes_setBlockParent).retabled
  · exact .raise _

theorem retabled_removeFunction : Keeps s₀.Retabled (removeFunction f) := by
  refine .bind (.lift _) fun m => ?_
  split
  · exact .bind retabled_unregisterName fun _ =>
      (Fixes.bind registry_modifyModules fun _ => fixes_setFunctionModule).retabled
  · exact .raise _

theorem retabled_removeGlobal : Keeps s₀.Retabled (removeGlobal g) := by
  refine .bind (.lift _) fun m => ?_
  split
  · exact .bind retabled_unregisterName fun _ =>
      (Fixes.bind registry_modifyModules fun _ => fixes_setGlobalModule).retabled
  · exact .raise _

theorem ends_suspends (hplace : s.layout.place v = some p)
    (hends : Ends e s (fun _ s' => s'.layout.Consistent True ∧ ∃ q, s.layout.place v = some q ∧
      (s.layout.detach v q).Renamed s'.layout) fun _ _ => False)
    (ht : Fixes Store.naming e) (hr : Keeps s.Retabled e) :
    Ends e s (fun _ s' => s.Suspends s' ∧ (s.layout.detach v p).Renamed s'.layout)
      fun _ _ => False := by
  refine ((hends.and (ht.ends s)).and (hr s (.refl s))).mono ?_ fun _ _ h => h.1.1
  rintro _ s' ⟨⟨⟨hs', q, hq, hrenamed⟩, hnaming⟩, hretabled⟩
  obtain rfl := Option.some.inj (hq.symm.trans hplace)
  exact ⟨⟨hs', hrenamed.kind, labels_of_naming hnaming, hretabled⟩, hrenamed⟩

theorem ends_removeInstruction_suspends (hs : s.layout.Consistent True)
    (hi : s.layout.place i = some (.instructions b)) : Ends (removeInstruction i) s
      (fun _ s' => s.Suspends s' ∧ (s.layout.detach i (.instructions b)).Renamed s'.layout)
      fun _ _ => False :=
  ends_suspends hi ((ends_removeInstruction hs).mono (fun _ _ h => h) fun _ _ h => h.2 b hi)
    naming_removeInstruction retabled_removeInstruction

theorem ends_removeBlock_suspends (hs : s.layout.Consistent True)
    (hb : s.layout.place b = some (.blocks f)) : Ends (removeBlock b) s
      (fun _ s' => s.Suspends s' ∧ (s.layout.detach b (.blocks f)).Renamed s'.layout)
      fun _ _ => False :=
  ends_suspends hb ((ends_removeBlock hs).mono (fun _ _ h => ⟨h.1, h.2.2⟩) fun _ _ h => h.2 f hb)
    naming_removeBlock retabled_removeBlock

theorem ends_removeFunction_suspends (hs : s.layout.Consistent True)
    (hf : s.layout.place f = some (.functions m)) : Ends (removeFunction f) s
      (fun _ s' => s.Suspends s' ∧ (s.layout.detach f (.functions m)).Renamed s'.layout)
      fun _ _ => False :=
  ends_suspends hf ((ends_removeFunction hs).mono (fun _ _ h => h) fun _ _ h => h.2 m hf)
    naming_removeFunction retabled_removeFunction

theorem ends_removeGlobal_suspends (hs : s.layout.Consistent True)
    (hg : s.layout.place g = some (.globals m)) : Ends (removeGlobal g) s
      (fun _ s' => s.Suspends s' ∧ (s.layout.detach g (.globals m)).Renamed s'.layout)
      fun _ _ => False :=
  ends_suspends hg ((ends_removeGlobal hs).mono (fun _ _ h => h) fun _ _ h => h.2 m hg)
    naming_removeGlobal retabled_removeGlobal

end Leaving

section Returning

theorem ends_placing (h : Ends e s (fun _ s' => s'.layout = L) fun _ _ => False)
    (ht : Fixes Store.naming e) (hr : Fixes Store.registry e) : Ends e s
      (fun _ s' => s'.layout = L ∧ s'.labels = s.labels ∧ s'.registry = s.registry)
      fun _ _ => False :=
  ((h.and (ht.ends s)).and (hr.ends s)).mono
    (fun _ _ h => ⟨h.1.1, labels_of_naming h.1.2, h.2⟩) fun _ _ h => h.1.1

variable (hc : s.layout.Consistent True) (hh : s.Hashed hash)

include hc hh

theorem ends_registerName_resettles (hs : s.Suspends s₁) (hk : s.layout.kind v = some k)
    (hblock : k ≠ .block) (hargument : k ≠ .argument) (hv : s₁.layout.place v = none) {s₂ : Store}
    (hs₂ : s₂.layout = s₁.layout.attach v p anchor ∧ s₂.labels = s₁.labels ∧
      s₂.registry = s₁.registry)
    (hscope : (s₁.layout.attach v p anchor).scope = s.layout.scope) :
    Ends (registerName v) s₂ (fun _ s' => s.Resettles (s₁.layout.attach v p anchor) s')
      fun _ _ => False := by
  have hk₁ : s₁.layout.kind v = some k := by rw [hs.kind]; exact hk
  have hawaits := hs.awaits hv (position_of_kind hk₁ hargument) hs₂.1 hs₂.2.1 hs₂.2.2 hscope
  rw [instructions_of_kind hk₁ hblock] at hawaits
  have hk₂ : s₂.layout.kind v = some k := by rw [hawaits.kind]; exact hk
  refine (ends_registerName_enters hawaits.placed hk₂).mono (fun _ s' he => ?_)
    fun _ _ hx => hawaits.not_unnames hc hh hx.2
  obtain ⟨hawaits', hrenamed⟩ := hawaits.enters hc hh List.not_mem_nil he
  exact ⟨hawaits', hs₂.1 ▸ hrenamed⟩

theorem ends_insertInstruction_resettles (hs : s.Suspends s₁)
    (hi : s.layout.kind i = some .instruction) (hb : s.layout.kind b = some .block)
    (hplace : s₁.layout.place i = none)
    (hscope : (s₁.layout.attach i (.instructions b) anchor).scope = s.layout.scope) :
    Ends (insertInstruction b i anchor) s₁
      (fun _ s' => s.Resettles (s₁.layout.attach i (.instructions b) anchor) s')
      fun _ _ => False := by
  have hi₁ : s₁.layout.kind i = some .instruction := by rw [hs.kind]; exact hi
  have hb₁ : s₁.layout.kind b = some .block := by rw [hs.kind]; exact hb
  have hquery : Query.instructionParent i s₁ = .ok none := Query.instructionParent_ok.2 ⟨hi₁, hplace⟩
  unfold insertInstruction
  rw [ends_bind, ends_lift_ok ((Query.expectKind_layout (u := ()) rfl).2 hb₁), ends_bind,
    ends_lift_ok hquery]
  refine Ends.bind (ends_placing (ends_placeInstruction hb₁ hi₁) naming_placeInstruction
    registry_placeInstruction) fun _ s₂ hs₂ => ?_
  exact ends_registerName_resettles hc hh hs hi (by simp) (by simp) hplace hs₂ hscope

theorem ends_insertBlock_resettles (hs : s.Suspends s₁) (hb : s.layout.kind b = some .block)
    (hf : s.layout.kind f = some .function) (hplace : s₁.layout.place b = none)
    (hscope : (s₁.layout.attach b (.blocks f) anchor).scope = s.layout.scope) :
    Ends (insertBlock f b anchor) s₁
      (fun _ s' => s.Resettles (s₁.layout.attach b (.blocks f) anchor) s') fun _ _ => False := by
  have hb₁ : s₁.layout.kind b = some .block := by rw [hs.kind]; exact hb
  have hf₁ : s₁.layout.kind f = some .function := by rw [hs.kind]; exact hf
  have hp₁ : s₁.layout.Placed := hs.consistent.placed
  refine ends_insertBlock hp₁ hb₁ hplace hf₁ ((ends_placing (ends_attachBlock anchor hb₁ hf₁)
    (.bind fixes_setBlockParent fun _ => fixes_modifyBlocks)
    (.bind fixes_setBlockParent fun _ => fixes_modifyBlocks)).mono (fun _ _ h => h.2)
    fun _ _ _ => trivial) fun s₂ hlayout hfixed => ?_
  have hawaits := hs.awaits hplace (position_of_kind hb₁ (by simp)) hlayout hfixed.1 hfixed.2 hscope
  refine (ends_registerNames_awaits hc hh hawaits (nodup_members hp₁ hb₁) fun w hw => ?_).mono
    (fun _ s₃ h => ⟨h.1, hlayout ▸ h.2⟩) fun _ _ h => h
  rw [hlayout]
  exact kind_of_member hp₁ hb₁ hw

theorem ends_appendFunction_resettles {dm : Module} (hs : s.Suspends s₁)
    (hf : s.layout.kind f = some .function) (hm : s.modules.get? m = some dm)
    (hplace : s₁.layout.place f = none)
    (hscope : (s₁.layout.attach f (.functions m) none).scope = s.layout.scope) :
    Ends (appendFunction m f) s₁
      (fun _ s' => s.Resettles (s₁.layout.attach f (.functions m) none) s') fun _ _ => False := by
  have hf₁ : s₁.layout.kind f = some .function := by rw [hs.kind]; exact hf
  obtain ⟨dm₁, hm₁⟩ := hs.retabled.module hm
  have hquery : Query.functionModule f s₁ = .ok none := Query.functionModule_ok.2 ⟨hf₁, hplace⟩
  unfold appendFunction
  rw [ends_bind, ends_lift_ok (Query.module_ok.2 hm₁), ends_bind, ends_lift_ok hquery]
  have hattach := ends_placing (ends_attachFunction hf₁ hm₁)
    (.bind fixes_setFunctionModule fun _ => naming_modifyModule)
    (.bind fixes_setFunctionModule fun _ => registry_modifyModules)
  rw [ends_bind] at hattach
  refine ends_bind.2 (Ends.weaken hattach fun _ s₂ hs₂ => ?_)
  refine Ends.bind (Ends.weaken hs₂ fun _ _ h => h) fun _ s₃ hs₃ => ?_
  exact ends_registerName_resettles hc hh hs hf (by simp) (by simp) hplace hs₃ hscope

theorem ends_appendGlobal_resettles {dm : Module} (hs : s.Suspends s₁)
    (hg : s.layout.kind g = some .global) (hm : s.modules.get? m = some dm)
    (hplace : s₁.layout.place g = none)
    (hscope : (s₁.layout.attach g (.globals m) none).scope = s.layout.scope) :
    Ends (appendGlobal m g) s₁
      (fun _ s' => s.Resettles (s₁.layout.attach g (.globals m) none) s') fun _ _ => False := by
  have hg₁ : s₁.layout.kind g = some .global := by rw [hs.kind]; exact hg
  obtain ⟨dm₁, hm₁⟩ := hs.retabled.module hm
  have hquery : Query.globalModule g s₁ = .ok none := Query.globalModule_ok.2 ⟨hg₁, hplace⟩
  unfold appendGlobal
  rw [ends_bind, ends_lift_ok (Query.module_ok.2 hm₁), ends_bind, ends_lift_ok hquery]
  have hattach := ends_placing (ends_attachGlobal hg₁ hm₁)
    (.bind fixes_setGlobalModule fun _ => naming_modifyModule)
    (.bind fixes_setGlobalModule fun _ => registry_modifyModules)
  rw [ends_bind] at hattach
  refine ends_bind.2 (Ends.weaken hattach fun _ s₂ hs₂ => ?_)
  refine Ends.bind (Ends.weaken hs₂ fun _ _ h => h) fun _ s₃ hs₃ => ?_
  exact ends_registerName_resettles hc hh hs hg (by simp) (by simp) hplace hs₃ hscope

end Returning

section Reinserting

variable (hc : s.layout.Consistent True) (hh : s.Hashed hash)

include hc hh

theorem ends_reinsertInstruction (hi : s.layout.place i = some (.instructions c))
    (hb : s.layout.kind b = some .block) (hbc : s.layout.place b = s.layout.place c) :
    Ends (do removeInstruction i; insertInstruction b i anchor) s
      (fun _ s' => s.Resettles ((s.layout.detach i (.instructions c)).attach i (.instructions b)
        anchor) s') fun _ _ => False := by
  have hki : s.layout.kind i = some .instruction := kind_of_place hi
  have hbi : b ≠ i := by
    rintro rfl
    cases hb.symm.trans hki
  refine Ends.bind (ends_removeInstruction_suspends hc hi) ?_
  rintro _ s₁ ⟨hs, hr⟩
  refine (ends_insertInstruction_resettles hc hh hs hki hb ?_ ?_).mono
    (fun _ _ h => ⟨h.awaits, hr.attach.trans h.renamed⟩) fun _ _ h => h
  · rw [hr.place, place_detach_self]
  · rw [hr.attach.scope]
    exact scope_attach_instructions (.inl hi) hbc hbi
      (place_ne_instructions hc.placed hki (by simp)) (fun _ hw => place_detach hw) rfl

theorem ends_reinsertBlock (hb : s.layout.place b = some (.blocks f)) :
    Ends (do removeBlock b; insertBlock f b anchor) s
      (fun _ s' => s.Resettles ((s.layout.detach b (.blocks f)).attach b (.blocks f) anchor) s')
      fun _ _ => False := by
  refine Ends.bind (ends_removeBlock_suspends hc hb) ?_
  rintro _ s₁ ⟨hs, hr⟩
  refine (ends_insertBlock_resettles hc hh hs (kind_of_place hb)
    (kind_of_mem_blocks ((hc.placed.child b _).1 hb)) ?_ ?_).mono
    (fun _ _ h => ⟨h.awaits, hr.attach.trans h.renamed⟩) fun _ _ h => h
  · rw [hr.place, place_detach_self]
  · rw [hr.attach.scope]
    exact scope_detach_attach_self hb

theorem ends_reappendFunction (hf : s.layout.place f = some (.functions m)) :
    Ends (do removeFunction f; appendFunction m f) s
      (fun _ s' => s.Resettles ((s.layout.detach f (.functions m)).attach f (.functions m) none) s')
      fun _ _ => False := by
  obtain ⟨dm, hm⟩ := module_of_mem (.inl ((hc.placed.child f _).1 hf))
  refine Ends.bind (ends_removeFunction_suspends hc hf) ?_
  rintro _ s₁ ⟨hs, hr⟩
  refine (ends_appendFunction_resettles hc hh hs (kind_of_place hf) hm ?_ ?_).mono
    (fun _ _ h => ⟨h.awaits, hr.attach.trans h.renamed⟩) fun _ _ h => h
  · rw [hr.place, place_detach_self]
  · rw [hr.attach.scope]
    exact scope_detach_attach_self hf

theorem ends_reappendGlobal (hg : s.layout.place g = some (.globals m)) :
    Ends (do removeGlobal g; appendGlobal m g) s
      (fun _ s' => s.Resettles ((s.layout.detach g (.globals m)).attach g (.globals m) none) s')
      fun _ _ => False := by
  obtain ⟨dm, hm⟩ := module_of_mem (.inr ((hc.placed.child g _).1 hg))
  refine Ends.bind (ends_removeGlobal_suspends hc hg) ?_
  rintro _ s₁ ⟨hs, hr⟩
  refine (ends_appendGlobal_resettles hc hh hs (kind_of_place hg) hm ?_ ?_).mono
    (fun _ _ h => ⟨h.awaits, hr.attach.trans h.renamed⟩) fun _ _ h => h
  · rw [hr.place, place_detach_self]
  · rw [hr.attach.scope]
    exact scope_detach_attach_self hg

end Reinserting

end Edit

end ShaderIR
