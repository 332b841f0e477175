import ShaderIR.Proofs.NameRegistration

/-! Attaching, detaching and moving the children of modules, functions and blocks. The four lists
are treated alike: what changes is the list of a place and the parent link of a child. -/

namespace ShaderIR

namespace Layout

variable {L : Layout} {v b c f : ValueId} {p : Place} {anchor : Option ValueId} {total : Prop}

def relist (L : Layout) (p : Place) (change : List ValueId → List ValueId) : Layout :=
  { L with children := Function.update L.children p (change (L.children p)) }

theorem Consistent.reorder (h : L.Consistent total) (hv : L.place v = some p) :
    (L.relist p fun vs => insertBefore v anchor (without v vs)).Consistent total := by
  refine ⟨?_, h.named.congr rfl rfl rfl⟩
  rw [relist, ← detach_attach_self hv]
  exact (h.placed.detach hv).attach place_detach_self

theorem Consistent.relocate (h : L.Consistent total) (hv : L.place v = some (.instructions c))
    (hc : L.place c = some (.blocks f)) (hb : L.place b = some (.blocks f))
    (hnone : ∀ w, L.place w ≠ some (.instructions v)) :
    ((L.detach v (.instructions c)).attach v (.instructions b) anchor).Consistent total := by
  have hbv : b ≠ v := by
    rintro rfl
    simp [hb] at hv
  exact ⟨(h.placed.detach hv).attach place_detach_self, h.named.congr rfl rfl
    (scope_attach_instructions (.inl hv) (hb.trans hc.symm) hbv hnone (fun _ hw => place_detach hw)
      rfl)⟩

end Layout

namespace Edit

open Store Layout

variable {s : Store} {v b c i f g : ValueId} {m : ModuleId} {anchor : Option ValueId}
variable {k : ValueKind} {p : Option Place} {total : Prop}

section Writing

theorem ends_writePlace (hk : s.layout.kind v = some k) {g : Value → Value}
    (hg : ∀ d, d.kind = k → (g d).kind = d.kind ∧ (g d).payload.place = p ∧
      (g d).payload.blocks = d.payload.blocks ∧ (g d).payload.instructions = d.payload.instructions ∧
      (g d).payload.position = d.payload.position ∧ (g d).payload.arguments = d.payload.arguments ∧
      (g d).symbol = d.symbol) :
    Ends (modifyValue v g) s (fun _ s' => s'.layout =
      { s.layout with place := Function.update s.layout.place v p }) fun _ _ => False := by
  obtain ⟨hres, d, hd, rfl⟩ := layout_kind.1 hk
  obtain ⟨hkind, hplace, hblocks, hinsts, hposition, harguments, hsymbol⟩ := hg d rfl
  refine (ends_modifyValue hd _).2 ((layout_modifyValue hd hkind hres).trans ?_)
  rw [hplace, hblocks, hinsts, hposition, harguments, hsymbol]
  refine Layout.ext rfl rfl ?_ ?_ ?_ ?_ rfl
  · dsimp only
    rw [← layout_blocks hd, Function.update_eq_self]
    exact (Function.update_eq_self_iff ..).2 (layout_instructions hd).symm
  · exact (Function.update_eq_self_iff ..).2 (layout_position hd).symm
  · exact (Function.update_eq_self_iff ..).2 (layout_arguments hd).symm
  · exact (Function.update_eq_self_iff ..).2 (layout_symbol hd hres).symm

theorem ends_setInstructionParent (hi : s.layout.kind i = some .instruction)
    (o : Option ValueId) : Ends (setInstructionParent i o) s (fun _ s' => s'.layout =
      { s.layout with place := Function.update s.layout.place i (o.map .instructions) })
      fun _ _ => False :=
  ends_writePlace hi fun d hd => by
    obtain ⟨_, p, _, _, _⟩ := d
    cases p <;> simp [Value.kind, Payload.kind] at hd
    exact ⟨rfl, rfl, rfl, rfl, rfl, rfl, rfl⟩

theorem ends_setBlockParent (hb : s.layout.kind b = some .block) (o : Option ValueId) :
    Ends (setBlockParent b o) s (fun _ s' => s'.layout =
      { s.layout with place := Function.update s.layout.place b (o.map .blocks) })
      fun _ _ => False :=
  ends_writePlace hb fun d hd => by
    obtain ⟨_, p, _, _, _⟩ := d
    cases p <;> simp [Value.kind, Payload.kind] at hd
    exact ⟨rfl, rfl, rfl, rfl, rfl, rfl, rfl⟩

theorem ends_setFunctionModule (hf : s.layout.kind f = some .function) (o : Option ModuleId) :
    Ends (setFunctionModule f o) s (fun _ s' => s'.layout =
      { s.layout with place := Function.update s.layout.place f (o.map .functions) })
      fun _ _ => False :=
  ends_writePlace hf fun d hd => by
    obtain ⟨_, p, _, _, _⟩ := d
    cases p <;> simp [Value.kind, Payload.kind] at hd
    exact ⟨rfl, rfl, rfl, rfl, rfl, rfl, rfl⟩

theorem ends_setGlobalModule (hg : s.layout.kind g = some .global) (o : Option ModuleId) :
    Ends (setGlobalModule g o) s (fun _ s' => s'.layout =
      { s.layout with place := Function.update s.layout.place g (o.map .globals) })
      fun _ _ => False :=
  ends_writePlace hg fun d hd => by
    obtain ⟨_, p, _, _, _⟩ := d
    cases p <;> simp [Value.kind, Payload.kind] at hd
    exact ⟨rfl, rfl, rfl, rfl, rfl, rfl, rfl⟩

variable {r : List ValueId → List ValueId}

theorem ends_modifyInstructions (hb : s.layout.kind b = some .block) :
    Ends (modifyInstructions b r) s
      (fun _ s' => s'.layout = s.layout.relist (.instructions b) r) fun _ _ => False := by
  unfold modifyInstructions
  rw [ends_bind, ends_lift_ok ((Query.expectKind_layout (u := ()) rfl).2 hb)]
  obtain ⟨hres, ⟨ty, q, name, hash, as⟩, hd, hk⟩ := layout_kind.1 hb
  cases q <;> simp [Value.kind, Payload.kind] at hk
  next parent insts =>
    have hblocks : s.layout.children (.blocks b) = [] := layout_blocks hd
    have hinsts : s.layout.children (.instructions b) = insts := layout_instructions hd
    refine (ends_modifyValue hd _).2 ((layout_modifyValue hd rfl rfl).trans
      (Layout.ext rfl ?_ ?_ ?_ ?_ ?_ rfl))
    · exact (Function.update_eq_self_iff ..).2 (layout_place hd).symm
    · simp only [relist, hinsts, Payload.blocks, Payload.instructions]
      rw [show Function.update s.layout.children (.blocks b) [] = s.layout.children from
        (Function.update_eq_self_iff ..).2 hblocks.symm]
    · exact (Function.update_eq_self_iff ..).2 (layout_position hd).symm
    · exact (Function.update_eq_self_iff ..).2 (layout_arguments hd).symm
    · exact (Function.update_eq_self_iff ..).2 (layout_symbol hd rfl).symm

theorem ends_modifyBlocks (hf : s.layout.kind f = some .function) :
    Ends (modifyBlocks f r) s
      (fun _ s' => s'.layout = s.layout.relist (.blocks f) r) fun _ _ => False := by
  unfold modifyBlocks
  rw [ends_bind, ends_lift_ok ((Query.expectKind_layout (u := ()) rfl).2 hf)]
  obtain ⟨hres, ⟨ty, q, name, hash, as⟩, hd, hk⟩ := layout_kind.1 hf
  cases q <;> simp [Value.kind, Payload.kind] at hk
  next parent args blocks =>
    have hblocks : s.layout.children (.blocks f) = blocks := layout_blocks hd
    have hinsts : s.layout.children (.instructions f) = [] := layout_instructions hd
    refine (ends_modifyValue hd _).2 ((layout_modifyValue hd rfl rfl).trans
      (Layout.ext rfl ?_ ?_ ?_ ?_ ?_ rfl))
    · exact (Function.update_eq_self_iff ..).2 (layout_place hd).symm
    · simp only [relist, hblocks]
      refine (Function.update_eq_self_iff ..).2 ?_
      rw [Function.update_of_ne (by simp), hinsts]
      rfl
    · exact (Function.update_eq_self_iff ..).2 (layout_position hd).symm
    · exact (Function.update_eq_self_iff ..).2 (layout_arguments hd).symm
    · exact (Function.update_eq_self_iff ..).2 (layout_symbol hd rfl).symm

theorem ends_modifyFunctions {dm : Module} (hm : s.modules.get? m = some dm) :
    Ends (modifyModule m fun d => { d with functions := r d.functions }) s
      (fun _ s' => s'.layout = s.layout.relist (.functions m) r) fun _ _ => False := by
  unfold modifyModule
  rw [ends_bind, ends_lift_ok (Query.module_ok.2 hm), ends_modify, layout_modifyModule hm, relist,
    layout_functions hm]
  refine Layout.ext rfl rfl ?_ rfl rfl rfl rfl
  refine (Function.update_eq_self_iff ..).2 ?_
  rw [Function.update_of_ne (by simp), layout_globals hm]

theorem ends_modifyGlobals {dm : Module} (hm : s.modules.get? m = some dm) :
    Ends (modifyModule m fun d => { d with globals := r d.globals }) s
      (fun _ s' => s'.layout = s.layout.relist (.globals m) r) fun _ _ => False := by
  unfold modifyModule
  rw [ends_bind, ends_lift_ok (Query.module_ok.2 hm), ends_modify, layout_modifyModule hm, relist,
    layout_globals hm]
  refine Layout.ext rfl rfl ?_ rfl rfl rfl rfl
  dsimp only
  rw [show Function.update s.layout.children (.functions m) dm.functions = s.layout.children from
    (Function.update_eq_self_iff ..).2 (layout_functions hm).symm]

end Writing

section Steps

variable {q : Place}

theorem ends_enter {s₁ : Store} (hs : s.layout.Consistent total) (hk : s.layout.kind v = some k)
    (hblock : k ≠ .block) (hv : s.layout.place v = none) (hpos : s.layout.position v = none)
    (hs₁ : s₁.layout = s.layout.attach v q anchor) : Ends (registerName v) s₁
      (fun _ s' => s'.layout.Consistent total)
      fun x s' => (total → x ≠ .counterExhausted) → s'.layout.Consistent total := by
  have hp : s₁.layout.Placed := hs₁ ▸ hs.placed.attach hv
  have hn : s₁.layout.Named total [v] := by
    have hn : s₁.layout.Named total (v :: s.layout.children (.instructions v)) :=
      hs₁ ▸ hs.named.attach hs.placed hv hpos
    rwa [instructions_of_kind hk hblock] at hn
  have hk₁ : s₁.layout.kind v = some k := by rw [hs₁]; exact hk
  refine (ends_registerName hp hn List.not_mem_nil hk₁).mono ?_
    fun _ _ hx _ => ⟨hx.2.1.placed hp, hx.2.2⟩
  rintro _ s' ⟨hr, hn'⟩
  exact ⟨hr.placed hp, hn'⟩

theorem consistent_detach {s₁ : Store} {xs : List ValueId} (hs : s.layout.Consistent total)
    (hr : s.layout.Renamed s₁.layout) (hn : s₁.layout.Named total xs) (hv : s.layout.place v = some q)
    (hxs : ∀ w, w ∈ xs ↔ w = v ∨ w ∈ s.layout.children (.instructions v)) :
    (s₁.layout.detach v q).Consistent total := by
  have hp₁ := hr.placed hs.placed
  have hv₁ : s₁.layout.place v = some q := by rw [hr.place]; exact hv
  refine ⟨hp₁.detach hv₁, hn.detach hp₁ (position_of_place hv₁) (hr.children ▸ hxs) fun hself => ?_⟩
  -- Nothing that stands in itself is a block, and only blocks have instructions.
  have hblock := kind_of_mem_instructions ((hp₁.child v _).1 hself)
  rw [kind_of_place hself] at hblock
  cases hblock

theorem consistent_detach_single {s₁ : Store} (hs : s.layout.Consistent total)
    (hr : s.layout.Renamed s₁.layout) (hn : s₁.layout.Named total [v])
    (hv : s.layout.place v = some q) (hblock : q.childKind ≠ .block) :
    (s₁.layout.detach v q).Consistent total :=
  consistent_detach hs hr hn hv fun w => by
    simp [instructions_of_kind (kind_of_place hv) hblock]

end Steps

section Instructions

theorem ends_placeInstruction (hb : s.layout.kind b = some .block)
    (hi : s.layout.kind i = some .instruction) : Ends (placeInstruction b i anchor) s
      (fun _ s' => s'.layout = s.layout.attach i (.instructions b) anchor) fun _ _ => False := by
  refine Ends.bind (ends_setInstructionParent hi (some b)) ?_
  intro _ s₁ hs₁
  refine (ends_modifyInstructions (by rw [hs₁]; exact hb)).mono ?_ fun _ _ hx => hx
  intro _ s₂ hs₂
  rw [hs₂, hs₁]
  rfl

theorem arranges_insertInstruction : Arranges total (insertInstruction b i anchor) := by
  intro s hs
  refine ends_bind.2 (ends_lift.2 ⟨fun _ hb => ?_, fun _ _ _ => hs⟩)
  refine ends_bind.2 (ends_lift.2 ⟨fun o ho => ?_, fun _ _ _ => hs⟩)
  obtain ⟨hi, hplace⟩ := Query.instructionParent_ok.1 ho
  cases o with
  | some c => exact fun _ => hs
  | none =>
    refine Ends.bind (Ends.weaken (ends_placeInstruction ((Query.expectKind_layout rfl).1 hb) hi)
      fun _ _ h => h) ?_
    intro _ s₁ hs₁
    exact ends_enter hs hi (by simp) hplace (position_of_kind hi (by simp)) hs₁

theorem arranges_insertInstructionBefore {a : ValueId} :
    Arranges total (insertInstructionBefore i a) :=
  .bind (.lift _) fun _ => .bind (.lift _) fun _ => arranges_insertInstruction

theorem ends_removeInstruction (hs : s.layout.Consistent total) : Ends (removeInstruction i) s
    (fun _ s' => s'.layout.Consistent total ∧ ∃ q, s.layout.place i = some q ∧
      (s.layout.detach i q).Renamed s'.layout)
    fun _ s' => s' = s ∧ ∀ b, s.layout.place i ≠ some (.instructions b) := by
  refine ends_bind.2 (ends_lift.2 ⟨fun o ho => ?_, fun x hx => ⟨rfl, fun b hplace => by
    simp [Query.instructionParent_of_place hplace] at hx⟩⟩)
  obtain ⟨hi, hplace⟩ := Query.instructionParent_ok.1 ho
  cases o with
  | none => exact ⟨rfl, fun b hb => by cases hplace.symm.trans hb⟩
  | some b =>
    refine Ends.bind (Ends.mono (ends_unregisterName s i) (fun _ _ h => h) fun _ _ hx => ?_) ?_
    · have hdead := hx.2 hs.placed
      rw [hi] at hdead
      cases hdead
    intro _ s₁ hstrikes
    have hr₁ : s.layout.Renamed s₁.layout := hstrikes.renamed
    have hplace₁ : s₁.layout.place i = some (.instructions b) := by rw [hr₁.place]; exact hplace
    have hb := kind_of_mem_instructions (((hr₁.placed hs.placed).child i _).1 hplace₁)
    refine Ends.bind (Ends.weaken (ends_modifyInstructions hb) fun _ _ h => h) ?_
    intro _ s₂ hs₂
    have hi₂ : s₂.layout.kind i = some .instruction := by
      rw [hs₂]
      exact hr₁.kind ▸ hi
    refine Ends.weaken (ends_setInstructionParent hi₂ none) ?_
    intro _ s₃ hs₃
    have hs₃ : s₃.layout = s₁.layout.detach i (.instructions b) := by
      rw [hs₃, hs₂]
      rfl
    rw [hs₃]
    exact ⟨consistent_detach_single hs hr₁ (hstrikes.named hs.named) hplace
      (by simp [Place.childKind]), _,
      hplace, hr₁.detach⟩

theorem arranges_removeInstruction : Arranges total (removeInstruction i) := fun _ hs =>
  (ends_removeInstruction hs).mono (fun _ _ h => h.1) fun _ _ hx _ => hx.1 ▸ hs

theorem shareFunction_of_place {o : Option ValueId} (hb : s.layout.kind b = some .block)
    (hc : s.layout.kind c = some .block) (hpb : s.layout.place b = o.map .blocks)
    (hpc : s.layout.place c = o.map .blocks) : shareFunction b c s = .ok o.isSome := by
  refine Query.bind_ok.2 ⟨o, Query.blockParent_ok.2 ⟨hb, hpb⟩, ?_⟩
  cases o with
  | none => rfl
  | some f =>
    refine Query.bind_ok.2 ⟨some f, Query.blockParent_ok.2 ⟨hc, hpc⟩, ?_⟩
    rw [Query.pure_ok]
    exact decide_eq_true rfl

theorem shareFunction_ok {x : Bool} (h : shareFunction b c s = .ok x) :
    x = true → ∃ f, s.layout.place b = some (.blocks f) ∧ s.layout.place c = some (.blocks f) ∧
      s.layout.kind c = some .block := by
  rintro rfl
  obtain ⟨o, ho, h⟩ := Query.bind_ok.1 h
  rw [Query.ite_ok] at h
  rcases h with ⟨-, h⟩ | ⟨hsome, h⟩
  · simp at h
  · obtain ⟨o', ho', h⟩ := Query.bind_ok.1 h
    rw [Query.pure_ok, decide_eq_true_eq] at h
    rw [Bool.not_eq_true, Option.isNone_eq_false_iff, Option.isSome_iff_exists] at hsome
    obtain ⟨f, rfl⟩ := hsome
    subst h
    exact ⟨f, (Query.blockParent_ok.1 ho).2, (Query.blockParent_ok.1 ho').2,
      (Query.blockParent_ok.1 ho').1⟩

theorem ends_shiftInstruction (hi : s.layout.kind i = some .instruction)
    (hc : s.layout.kind c = some .block) (hb : s.layout.kind b = some .block) :
    Ends (do modifyInstructions c (without i); placeInstruction b i anchor) s
      (fun _ s' => s'.layout =
        (s.layout.detach i (.instructions c)).attach i (.instructions b) anchor)
      fun _ _ => False := by
  refine Ends.bind (ends_modifyInstructions hc) ?_
  intro _ s₁ hs₁
  refine Ends.weaken (ends_placeInstruction (by rw [hs₁]; exact hb) (by rw [hs₁]; exact hi)) ?_
  intro _ s₂ hs₂
  rw [hs₂, hs₁]
  simp only [attach, detach, relist, Function.update_idem]

theorem arranges_relocateInstruction : Arranges total (relocateInstruction i b anchor) := by
  intro s hs
  refine ends_bind.2 (ends_lift.2 ⟨fun o ho => ?_, fun _ _ _ => hs⟩)
  obtain ⟨hi, hplace⟩ := Query.instructionParent_ok.1 ho
  cases o with
  | none => exact arranges_insertInstruction s hs
  | some c =>
    refine ends_bind.2 (ends_lift.2 ⟨fun x hx => ?_, fun _ _ _ => hs⟩)
    split
    next hshare =>
      obtain ⟨f, hc, hb, hkb⟩ := shareFunction_ok hx hshare
      have hkc := kind_of_mem_instructions ((hs.placed.child i _).1 hplace)
      refine Ends.weaken (ends_shiftInstruction hi hkc hkb) ?_
      intro _ s' hs'
      rw [hs']
      exact hs.relocate hplace hc hb (place_ne_instructions hs.placed hi (by simp))
    next => exact Arranges.bind arranges_removeInstruction (fun _ => arranges_insertInstruction) s hs

end Instructions

section Blocks

theorem ends_attachBlock (anchor : Option ValueId) (hb : s.layout.kind b = some .block)
    (hf : s.layout.kind f = some .function) :
    Ends (do setBlockParent b (some f); modifyBlocks f (insertBefore b anchor)) s
      (fun _ s' => s'.layout = s.layout.attach b (.blocks f) anchor) fun _ _ => False := by
  refine Ends.bind (ends_setBlockParent hb (some f)) ?_
  intro _ s₁ hs₁
  refine Ends.weaken (ends_modifyBlocks (by rw [hs₁]; exact hf)) ?_
  intro _ s₂ hs₂
  rw [hs₂, hs₁]
  rfl

/-- A block that is attached is entered before its instructions. What they are is asked when the
block has been entered, but that does not change the answer. -/
theorem ends_insertBlock {P : Store → Prop} {Q : Unit → Store → Prop} {E : Fault → Store → Prop}
    (hp : s.layout.Placed) (hb : s.layout.kind b = some .block) (hplace : s.layout.place b = none)
    (hf : s.layout.kind f = some .function)
    (hattach : Ends (do setBlockParent b (some f); modifyBlocks f (insertBefore b anchor)) s
      (fun _ => P) fun _ _ => True)
    (hnames : ∀ s₁, s₁.layout = s.layout.attach b (.blocks f) anchor → P s₁ →
      Ends ((b :: s.layout.children (.instructions b)).forM registerName) s₁ Q E) :
    Ends (insertBlock f b anchor) s Q E := by
  have hquery : Query.blockParent b s = .ok none := Query.blockParent_ok.2 ⟨hb, hplace⟩
  unfold insertBlock
  rw [ends_bind, ends_lift_ok ((Query.expectKind_layout (u := ()) rfl).2 hf), ends_bind,
    ends_lift_ok hquery]
  have hboth := ((ends_attachBlock anchor hb hf).and hattach).mono (fun _ _ h => h) fun _ _ h => h.1
  rw [ends_bind] at hboth
  refine ends_bind.2 (Ends.weaken hboth fun _ s₀ hs₀ => ?_)
  refine Ends.bind (Ends.weaken hs₀ fun _ _ h => h) ?_
  rintro _ s₁ ⟨hlayout, hP⟩
  have hregister := hnames s₁ hlayout hP
  change Ends (registerName b >>= fun _ => (s.layout.children (.instructions b)).forM registerName)
    s₁ Q E at hregister
  have hb₁ : s₁.layout.kind b = some .block := by rw [hlayout]; exact hb
  have hp₁ : s₁.layout.Placed := hlayout ▸ hp.attach hplace
  refine Ends.bind (((ends_bind.1 hregister).and (ends_registerName_enters hp₁ hb₁)).mono
    (fun _ _ h => h) fun _ _ h => h.1) ?_
  rintro _ s₂ ⟨hrest, henters⟩
  have hinsts : s₂.layout.children (.instructions b) = s.layout.children (.instructions b) := by
    rw [henters.renamed.children, hlayout]
    exact children_attach nofun
  rw [ends_bind, ends_lift_ok (Query.blockInstructions_ok.2 ⟨by rw [henters.renamed.kind]; exact hb₁,
    hinsts⟩)]
  exact hrest

theorem arranges_insertBlock : Arranges total (insertBlock f b anchor) := by
  intro s hs
  by_cases hfree : s.layout.kind f = some .function ∧ s.layout.kind b = some .block ∧
      s.layout.place b = none
  · obtain ⟨hf, hb, hplace⟩ := hfree
    refine ends_insertBlock (P := fun _ => True) hs.placed hb hplace hf (ends_true _ s)
      fun s₁ hs₁ _ => ?_
    have hp₁ : s₁.layout.Placed := hs₁ ▸ hs.placed.attach hplace
    have hn₁ : s₁.layout.Named total (b :: s.layout.children (.instructions b)) :=
      hs₁ ▸ hs.named.attach hs.placed hplace (position_of_kind hb (by simp))
    refine (ends_registerNames hp₁ hn₁ (nodup_members hs.placed hb) fun w hw => ?_).mono
      (fun _ _ h => ⟨h.1.placed hp₁, h.2⟩) ?_
    · rw [hs₁]
      exact kind_of_member hs.placed hb hw
    -- Members that are still to be entered when the counters are used up stay pending.
    · rintro _ s₂ ⟨hx, hr, ys, hn⟩ hne
      exact ⟨hr.placed hp₁, hn.of_not_total fun ht => hne ht hx⟩
  · refine ends_bind.2 (ends_lift.2 ⟨fun _ hf => ?_, fun _ _ _ => hs⟩)
    refine ends_bind.2 (ends_lift.2 ⟨fun o ho => ?_, fun _ _ _ => hs⟩)
    obtain ⟨hb, hplace⟩ := Query.blockParent_ok.1 ho
    cases o with
    | some g => exact fun _ => hs
    | none => exact absurd ⟨(Query.expectKind_layout rfl).1 hf, hb, hplace⟩ hfree

theorem ends_removeBlock (hs : s.layout.Consistent total) : Ends (removeBlock b) s
    (fun _ s' => s'.layout.Consistent total ∧
      s.layout.Delisted s'.layout (s.layout.children (.instructions b) ++ [b]) ∧
      ∃ q, s.layout.place b = some q ∧ (s.layout.detach b q).Renamed s'.layout)
    fun _ s' => s' = s ∧ ∀ f, s.layout.place b ≠ some (.blocks f) := by
  refine ends_bind.2 (ends_lift.2 ⟨fun o ho => ?_, fun x hx => ⟨rfl, fun f hplace => by
    simp [Query.blockParent_of_place hplace] at hx⟩⟩)
  obtain ⟨hb, hplace⟩ := Query.blockParent_ok.1 ho
  cases o with
  | none => exact ⟨rfl, fun f hf => by cases hplace.symm.trans hf⟩
  | some f =>
    dsimp only
    rw [ends_bind, ends_lift_ok (Query.blockInstructions_ok.2 ⟨hb, rfl⟩)]
    refine Ends.bind (Ends.weaken (ends_unregisterNames hs.placed hs.named
      (s.layout.children (.instructions b)) fun w hw => ⟨.instruction, ?_⟩) fun _ _ h => h) ?_
    · exact kind_of_place ((hs.placed.child w _).2 hw)
    rintro _ s₁ ⟨hr₁, hd₁, xs, hxs, hn₁⟩
    have hb₁ : s₁.layout.kind b = some .block := by rw [hr₁.kind]; exact hb
    refine Ends.bind (Ends.mono (ends_unregisterName s₁ b) (fun _ _ h => h) fun _ _ hx => ?_) ?_
    · have hdead := hx.2 (hr₁.placed hs.placed)
      rw [hb₁] at hdead
      cases hdead
    intro _ s₂ hstrikes
    have hr₂ : s.layout.Renamed s₂.layout := hr₁.trans hstrikes.renamed
    have hd₂ := hd₁.trans (hstrikes.delisted hn₁) hr₁.scope
    have hplace₂ : s₂.layout.place b = some (.blocks f) := by rw [hr₂.place]; exact hplace
    have hf₂ := kind_of_mem_blocks (((hr₂.placed hs.placed).child b _).1 hplace₂)
    refine Ends.bind (Ends.weaken (ends_modifyBlocks hf₂) fun _ _ h => h) ?_
    intro _ s₃ hs₃
    have hb₃ : s₃.layout.kind b = some .block := by
      rw [hs₃]
      exact hr₂.kind ▸ hb
    refine Ends.weaken (ends_setBlockParent hb₃ none) ?_
    intro _ s₄ hs₄
    have hs₄ : s₄.layout = s₂.layout.detach b (.blocks f) := by
      rw [hs₄, hs₃]
      rfl
    rw [hs₄]
    refine ⟨consistent_detach hs hr₂ (hstrikes.named hn₁) hplace fun w => ?_,
      ⟨hd₂.elsewhere, hd₂.tables⟩, _, hplace, hr₂.detach⟩
    rw [List.mem_cons, hxs]

theorem arranges_removeBlock : Arranges total (removeBlock b) := fun _ hs =>
  (ends_removeBlock hs).mono (fun _ _ h => h.1) fun _ _ hx _ => hx.1 ▸ hs

theorem arranges_relocateBlock : Arranges total (relocateBlock b f anchor) := by
  intro s hs
  refine ends_bind.2 (ends_lift.2 ⟨fun o ho => ?_, fun _ _ _ => hs⟩)
  obtain ⟨hb, hplace⟩ := Query.blockParent_ok.1 ho
  cases o with
  | none => exact arranges_insertBlock s hs
  | some g =>
    dsimp only
    split
    next hg =>
      subst hg
      have hkind := kind_of_mem_blocks ((hs.placed.child b _).1 hplace)
      refine Ends.weaken (ends_modifyBlocks hkind) ?_
      intro _ s₁ hs₁
      rw [hs₁]
      exact hs.reorder hplace
    next => exact Arranges.bind arranges_removeBlock (fun _ => arranges_insertBlock) s hs

end Blocks

section Modules

theorem module_of_layout {t : Store} {dm : Module} (hm : s.modules.get? m = some dm)
    (ht : t.layout.tables (.module m) = s.layout.tables (.module m)) :
    ∃ dm', t.modules.get? m = some dm' :=
  (tables_module.1 (ht.trans (tables_module.2 ⟨⟨dm, hm⟩, rfl⟩))).1

theorem ends_attachFunction {dm : Module} (hf : s.layout.kind f = some .function)
    (hm : s.modules.get? m = some dm) :
    Ends (do setFunctionModule f (some m)
             modifyModule m fun d => { d with functions := d.functions ++ [f] }) s
      (fun _ s' => s'.layout = s.layout.attach f (.functions m) none) fun _ _ => False := by
  refine Ends.bind (ends_setFunctionModule hf (some m)) ?_
  intro _ s₁ hs₁
  obtain ⟨dm₁, hm₁⟩ := module_of_layout (t := s₁) hm (by rw [hs₁])
  refine Ends.weaken (ends_modifyFunctions (r := fun vs => vs ++ [f]) hm₁) ?_
  intro _ s₂ hs₂
  rw [hs₂, hs₁]
  simp only [relist, attach, insertBefore_none]
  rfl

theorem arranges_appendFunction : Arranges total (appendFunction m f) := by
  intro s hs
  refine ends_bind.2 (ends_lift.2 ⟨fun dm hm => ?_, fun _ _ _ => hs⟩)
  refine ends_bind.2 (ends_lift.2 ⟨fun o ho => ?_, fun _ _ _ => hs⟩)
  obtain ⟨hf, hplace⟩ := Query.functionModule_ok.1 ho
  cases o with
  | some m' => exact fun _ => hs
  | none =>
    have hattach := ends_attachFunction hf (Query.module_ok.1 hm)
    rw [ends_bind] at hattach
    refine ends_bind.2 (Ends.weaken hattach fun _ s₁ hs₁ => ?_)
    refine Ends.bind (Ends.weaken hs₁ fun _ _ h => h) ?_
    intro _ s₂ hs₂
    exact ends_enter hs hf (by simp) hplace (position_of_kind hf (by simp)) hs₂

theorem ends_removeFunction (hs : s.layout.Consistent total) : Ends (removeFunction f) s
    (fun _ s' => s'.layout.Consistent total ∧ ∃ q, s.layout.place f = some q ∧
      (s.layout.detach f q).Renamed s'.layout)
    fun _ s' => s' = s ∧ ∀ m, s.layout.place f ≠ some (.functions m) := by
  refine ends_bind.2 (ends_lift.2 ⟨fun o ho => ?_, fun x hx => ⟨rfl, fun m hplace => by
    simp [Query.functionModule_of_place hplace] at hx⟩⟩)
  obtain ⟨hf, hplace⟩ := Query.functionModule_ok.1 ho
  cases o with
  | none => exact ⟨rfl, fun m hm => by cases hplace.symm.trans hm⟩
  | some m =>
    refine Ends.bind (Ends.mono (ends_unregisterName s f) (fun _ _ h => h) fun _ _ hx => ?_) ?_
    · have hdead := hx.2 hs.placed
      rw [hf] at hdead
      cases hdead
    intro _ s₁ hstrikes
    have hr₁ : s.layout.Renamed s₁.layout := hstrikes.renamed
    have hplace₁ : s₁.layout.place f = some (.functions m) := by rw [hr₁.place]; exact hplace
    obtain ⟨dm, hm⟩ := module_of_mem (.inl (((hr₁.placed hs.placed).child f _).1 hplace₁))
    refine Ends.bind (Ends.weaken (ends_modifyFunctions (r := without f) hm) fun _ _ h => h) ?_
    intro _ s₂ hs₂
    have hf₂ : s₂.layout.kind f = some .function := by
      rw [hs₂]
      exact hr₁.kind ▸ hf
    refine Ends.weaken (ends_setFunctionModule hf₂ none) ?_
    intro _ s₃ hs₃
    have hs₃ : s₃.layout = s₁.layout.detach f (.functions m) := by
      rw [hs₃, hs₂]
      rfl
    rw [hs₃]
    exact ⟨consistent_detach_single hs hr₁ (hstrikes.named hs.named) hplace (by simp [Place.childKind]),
      _, hplace, hr₁.detach⟩

theorem arranges_removeFunction : Arranges total (removeFunction f) := fun _ hs =>
  (ends_removeFunction hs).mono (fun _ _ h => h.1) fun _ _ hx _ => hx.1 ▸ hs

theorem arranges_moveFunctionTo : Arranges total (moveFunctionTo f m) := by
  intro s hs
  refine ends_bind.2 (ends_lift.2 ⟨fun o ho => ?_, fun _ _ _ => hs⟩)
  obtain ⟨hf, hplace⟩ := Query.functionModule_ok.1 ho
  cases o with
  | none => exact arranges_appendFunction s hs
  | some m' =>
    dsimp only
    split
    next hm =>
      subst hm
      obtain ⟨dm, hm⟩ := module_of_mem (.inl ((hs.placed.child f _).1 hplace))
      refine Ends.weaken (ends_modifyFunctions (r := fun vs => without f vs ++ [f]) hm) ?_
      intro _ s₁ hs₁
      rw [hs₁]
      have hreorder : (s.layout.relist (.functions m') fun vs =>
          insertBefore f none (without f vs)).Consistent total := hs.reorder hplace
      simpa only [insertBefore_none] using hreorder
    next => exact Arranges.bind arranges_removeFunction (fun _ => arranges_appendFunction) s hs

theorem ends_attachGlobal {dm : Module} (hg : s.layout.kind g = some .global)
    (hm : s.modules.get? m = some dm) :
    Ends (do setGlobalModule g (some m)
             modifyModule m fun d => { d with globals := d.globals ++ [g] }) s
      (fun _ s' => s'.layout = s.layout.attach g (.globals m) none) fun _ _ => False := by
  refine Ends.bind (ends_setGlobalModule hg (some m)) ?_
  intro _ s₁ hs₁
  obtain ⟨dm₁, hm₁⟩ := module_of_layout (t := s₁) hm (by rw [hs₁])
  refine Ends.weaken (ends_modifyGlobals (r := fun vs => vs ++ [g]) hm₁) ?_
  intro _ s₂ hs₂
  rw [hs₂, hs₁]
  simp only [relist, attach, insertBefore_none]
  rfl

theorem arranges_appendGlobal : Arranges total (appendGlobal m g) := by
  intro s hs
  refine ends_bind.2 (ends_lift.2 ⟨fun dm hm => ?_, fun _ _ _ => hs⟩)
  refine ends_bind.2 (ends_lift.2 ⟨fun o ho => ?_, fun _ _ _ => hs⟩)
  obtain ⟨hg, hplace⟩ := Query.globalModule_ok.1 ho
  cases o with
  | some m' => exact fun _ => hs
  | none =>
    have hattach := ends_attachGlobal hg (Query.module_ok.1 hm)
    rw [ends_bind] at hattach
    refine ends_bind.2 (Ends.weaken hattach fun _ s₁ hs₁ => ?_)
    refine Ends.bind (Ends.weaken hs₁ fun _ _ h => h) ?_
    intro _ s₂ hs₂
    exact ends_enter hs hg (by simp) hplace (position_of_kind hg (by simp)) hs₂

theorem ends_removeGlobal (hs : s.layout.Consistent total) : Ends (removeGlobal g) s
    (fun _ s' => s'.layout.Consistent total ∧ ∃ q, s.layout.place g = some q ∧
      (s.layout.detach g q).Renamed s'.layout)
    fun _ s' => s' = s ∧ ∀ m, s.layout.place g ≠ some (.globals m) := by
  refine ends_bind.2 (ends_lift.2 ⟨fun o ho => ?_, fun x hx => ⟨rfl, fun m hplace => by
    simp [Query.globalModule_of_place hplace] at hx⟩⟩)
  obtain ⟨hg, hplace⟩ := Query.globalModule_ok.1 ho
  cases o with
  | none => exact ⟨rfl, fun m hm => by cases hplace.symm.trans hm⟩
  | some m =>
    refine Ends.bind (Ends.mono (ends_unregisterName s g) (fun _ _ h => h) fun _ _ hx => ?_) ?_
    · have hdead := hx.2 hs.placed
      rw [hg] at hdead
      cases hdead
    intro _ s₁ hstrikes
    have hr₁ : s.layout.Renamed s₁.layout := hstrikes.renamed
    have hplace₁ : s₁.layout.place g = some (.globals m) := by rw [hr₁.place]; exact hplace
    obtain ⟨dm, hm⟩ := module_of_mem (.inr (((hr₁.placed hs.placed).child g _).1 hplace₁))
    refine Ends.bind (Ends.weaken (ends_modifyGlobals (r := without g) hm) fun _ _ h => h) ?_
    intro _ s₂ hs₂
    have hg₂ : s₂.layout.kind g = some .global := by
      rw [hs₂]
      exact hr₁.kind ▸ hg
    refine Ends.weaken (ends_setGlobalModule hg₂ none) ?_
    intro _ s₃ hs₃
    have hs₃ : s₃.layout = s₁.layout.detach g (.globals m) := by
      rw [hs₃, hs₂]
      rfl
    rw [hs₃]
    exact ⟨consistent_detach_single hs hr₁ (hstrikes.named hs.named) hplace (by simp [Place.childKind]),
      _, hplace, hr₁.detach⟩

theorem arranges_removeGlobal : Arranges total (removeGlobal g) := fun _ hs =>
  (ends_removeGlobal hs).mono (fun _ _ h => h.1) fun _ _ hx _ => hx.1 ▸ hs

theorem arranges_moveGlobalTo : Arranges total (moveGlobalTo g m) :=
  .bind (.lift _) fun _ => .guard arranges_removeGlobal arranges_appendGlobal

end Modules

end Edit

end ShaderIR
