import ShaderIR.Proofs.Answers
import ShaderIR.Proofs.LayoutLaws

/-! Where values stand, in terms of the cells of a store: what queries answer about it, and what
writing into one cell does to the layout. -/

namespace ShaderIR

theorem Value.resident?_of_kind {d : Value} (h : d.kind.isResident = true) :
    d.resident? = some { d with attachments := [] } := if_pos h

theorem Value.resident?_eq_none {d : Value} (h : d.kind.isResident = false) :
    d.resident? = none := by
  simp [resident?, h]

namespace Store

variable {s : Store} {v f b : ValueId} {d : Value} {m : ModuleId} {p : Place}

section Cells

theorem layout_kind {k : ValueKind} : s.layout.kind v = some k ↔
    k.isResident = true ∧ ∃ d, s.values.get? v = some d ∧ d.kind = k := by
  simp only [layout, resident?, Option.map_eq_some_iff, Option.bind_eq_some_iff]
  constructor
  · rintro ⟨d', ⟨d, hd, hd'⟩, rfl⟩
    unfold Value.resident? at hd'
    split at hd'
    next hk =>
      obtain rfl := Option.some.inj hd'
      exact ⟨hk, d, hd, rfl⟩
    next => cases hd'
  · rintro ⟨hk, d, hd, rfl⟩
    exact ⟨_, ⟨d, hd, Value.resident?_of_kind hk⟩, rfl⟩

theorem layout_place (hd : s.values.get? v = some d) : s.layout.place v = d.payload.place := by
  obtain ⟨_, p, _, _, _⟩ := d
  simp only [layout, resident?, hd, Option.bind_some]
  cases p <;> rfl

theorem layout_position (hd : s.values.get? v = some d) :
    s.layout.position v = d.payload.position := by
  obtain ⟨_, p, _, _, _⟩ := d
  simp only [layout, resident?, hd, Option.bind_some]
  cases p <;> rfl

theorem layout_arguments (hd : s.values.get? v = some d) :
    s.layout.arguments v = d.payload.arguments := by
  obtain ⟨_, p, _, _, _⟩ := d
  simp only [layout, resident?, hd, Option.bind_some]
  cases p <;> rfl

theorem layout_blocks (hd : s.values.get? v = some d) :
    s.layout.children (.blocks v) = d.payload.blocks := by
  obtain ⟨_, p, _, _, _⟩ := d
  simp only [layout, childrenAt, resident?, hd, Option.bind_some]
  cases p <;> rfl

theorem layout_instructions (hd : s.values.get? v = some d) :
    s.layout.children (.instructions v) = d.payload.instructions := by
  obtain ⟨_, p, _, _, _⟩ := d
  simp only [layout, childrenAt, resident?, hd, Option.bind_some]
  cases p <;> rfl

theorem layout_symbol (hd : s.values.get? v = some d) (hk : d.kind.isResident = true) :
    s.layout.symbol v = d.symbol := by
  simp only [layout, resident?, hd, Option.bind_some, Value.resident?_of_kind hk]
  rfl

theorem layout_symbol_eq_some {h : UInt64} (hn : s.layout.symbol v = some h)
    (hd : s.values.get? v = some d) : d.symbol = some h := by
  cases hk : d.kind.isResident with
  | true => rwa [← layout_symbol hd hk]
  | false => simp [layout, resident?, hd, Value.resident?_eq_none hk] at hn

theorem kind_of_stale (h : ∀ d, s.values.get? v ≠ some d) : s.layout.kind v = none := by
  rw [Option.eq_none_iff_forall_ne_some]
  intro k hk
  obtain ⟨-, d, hd, -⟩ := layout_kind.1 hk
  exact h d hd

theorem symbol_of_kind (h : s.layout.kind v = none) : s.layout.symbol v = none := by
  simp only [layout, Option.map_eq_none_iff] at h
  simp [layout, h]

theorem layout_functions {dm : Module} (hm : s.modules.get? m = some dm) :
    s.layout.children (.functions m) = dm.functions := by
  simp [layout, childrenAt, hm]

theorem layout_globals {dm : Module} (hm : s.modules.get? m = some dm) :
    s.layout.children (.globals m) = dm.globals := by
  simp [layout, childrenAt, hm]

theorem get?_of_resident? {d' : Value} (h : s.resident? v = some d') :
    ∃ d, s.values.get? v = some d ∧ d.kind.isResident = true ∧ d' = { d with attachments := [] } := by
  obtain ⟨d, hd, hd'⟩ := Option.bind_eq_some_iff.1 h
  unfold Value.resident? at hd'
  split at hd'
  next hk => exact ⟨d, hd, hk, (Option.some.inj hd').symm⟩
  next => cases hd'

theorem get?_of_place (h : s.layout.place v = some p) :
    ∃ d, s.values.get? v = some d ∧ d.payload.place = some p := by
  obtain ⟨d', hr, hp⟩ := Option.bind_eq_some_iff.1 h
  obtain ⟨d, hd, -, rfl⟩ := get?_of_resident? hr
  exact ⟨d, hd, hp⟩

theorem get?_of_position {i : Nat} (h : s.layout.position v = some (f, i)) :
    ∃ d, s.values.get? v = some d ∧ d.payload = .argument f i := by
  obtain ⟨d', hr, hp⟩ := Option.bind_eq_some_iff.1 h
  obtain ⟨d, hd, -, rfl⟩ := get?_of_resident? hr
  refine ⟨d, hd, ?_⟩
  obtain ⟨_, p, _, _, _⟩ := d
  cases p <;> simp_all [Payload.position]

theorem kind_of_place (h : s.layout.place v = some p) : s.layout.kind v = some p.childKind := by
  obtain ⟨d, hd, hp⟩ := get?_of_place h
  rw [layout_kind]
  obtain ⟨_, q, _, _, _⟩ := d
  cases p <;> cases q <;> simp [Payload.place] at hp <;>
    exact ⟨rfl, _, hd, rfl⟩

theorem position_of_place (h : s.layout.place v = some p) : s.layout.position v = none := by
  obtain ⟨d, hd, hp⟩ := get?_of_place h
  rw [layout_position hd]
  obtain ⟨_, q, _, _, _⟩ := d
  cases q <;> first | rfl | cases hp

theorem position_of_kind {k : ValueKind} (h : s.layout.kind v = some k) (hk : k ≠ .argument) :
    s.layout.position v = none := by
  obtain ⟨-, d, hd, rfl⟩ := layout_kind.1 h
  rw [layout_position hd]
  obtain ⟨_, q, _, _, _⟩ := d
  cases q <;> first | rfl | exact absurd rfl hk

theorem place_of_kind (h : s.layout.kind v = some .argument) : s.layout.place v = none := by
  obtain ⟨-, d, hd, hk⟩ := layout_kind.1 h
  rw [layout_place hd]
  obtain ⟨_, q, _, _, _⟩ := d
  cases q <;> first | rfl | cases hk

theorem isResident_of_scope {sc : Scope} (h : s.layout.scope v = some sc)
    (hd : s.values.get? v = some d) : d.kind.isResident = true := by
  rw [Layout.scope, layout_place hd, layout_position hd] at h
  obtain ⟨_, p, _, _, _⟩ := d
  cases p <;> first | rfl | cases h

theorem kind_of_mem_blocks (h : v ∈ s.layout.children (.blocks f)) :
    s.layout.kind f = some .function := by
  simp only [layout, childrenAt] at h
  cases hr : s.resident? f with
  | none => simp [hr] at h
  | some d' =>
    obtain ⟨d, hd, -, rfl⟩ := get?_of_resident? hr
    refine layout_kind.2 ⟨rfl, d, hd, ?_⟩
    obtain ⟨_, p, _, _, _⟩ := d
    cases p <;> simp [hr, Payload.blocks] at h
    rfl

theorem kind_of_mem_instructions (h : v ∈ s.layout.children (.instructions b)) :
    s.layout.kind b = some .block := by
  simp only [layout, childrenAt] at h
  cases hr : s.resident? b with
  | none => simp [hr] at h
  | some d' =>
    obtain ⟨d, hd, -, rfl⟩ := get?_of_resident? hr
    refine layout_kind.2 ⟨rfl, d, hd, ?_⟩
    obtain ⟨_, p, _, _, _⟩ := d
    cases p <;> simp [hr, Payload.instructions] at h
    rfl

theorem instructions_of_kind {k : ValueKind} (h : s.layout.kind b = some k) (hk : k ≠ .block) :
    s.layout.children (.instructions b) = [] := by
  refine List.eq_nil_iff_forall_not_mem.2 fun w hw => hk ?_
  rw [kind_of_mem_instructions hw] at h
  exact (Option.some.inj h).symm

theorem place_ne_instructions (hp : s.layout.Placed) {k : ValueKind} (h : s.layout.kind b = some k)
    (hk : k ≠ .block) (v : ValueId) : s.layout.place v ≠ some (.instructions b) := fun hv => by
  simpa [instructions_of_kind h hk] using (hp.child v _).1 hv

theorem kind_of_member (hp : s.layout.Placed) (hb : s.layout.kind b = some .block)
    (hv : v ∈ b :: s.layout.children (.instructions b)) : ∃ k, s.layout.kind v = some k := by
  rcases List.mem_cons.1 hv with rfl | hv
  · exact ⟨_, hb⟩
  · exact ⟨_, kind_of_place ((hp.child v _).2 hv)⟩

theorem nodup_members (hp : s.layout.Placed) (hb : s.layout.kind b = some .block) :
    (b :: s.layout.children (.instructions b)).Nodup := by
  refine List.nodup_cons.2 ⟨fun hmem => ?_, hp.nodup _⟩
  have hkind := kind_of_place ((hp.child b _).2 hmem)
  rw [hb] at hkind
  cases hkind

theorem scope_of_members (hp : s.layout.Placed) (hb : s.layout.place b = some (.blocks f))
    (hv : v ∈ b :: s.layout.children (.instructions b)) :
    s.layout.scope v = some (.function f) := by
  rcases List.mem_cons.1 hv with rfl | hv
  · simp [Layout.scope, hb]
  · simp [Layout.scope, (hp.child v _).2 hv, hb]

theorem kind_of_mem_arguments (h : v ∈ s.layout.arguments f) :
    s.layout.kind f = some .function := by
  simp only [layout] at h
  cases hr : s.resident? f with
  | none => simp [hr] at h
  | some d' =>
    obtain ⟨d, hd, -, rfl⟩ := get?_of_resident? hr
    refine layout_kind.2 ⟨rfl, d, hd, ?_⟩
    obtain ⟨_, p, _, _, _⟩ := d
    cases p <;> simp [hr, Payload.arguments] at h
    rfl

theorem module_of_mem (h : v ∈ s.layout.children (.functions m) ∨
    v ∈ s.layout.children (.globals m)) : ∃ dm, s.modules.get? m = some dm := by
  cases hm : s.modules.get? m with
  | none => simp [layout, childrenAt, hm] at h
  | some dm => exact ⟨dm, rfl⟩

theorem payloadIs_isFunction : s.payloadIs f isFunction = true ↔
    s.layout.kind f = some .function := by
  rw [layout_kind]
  simp only [payloadIs, Option.any_eq_true]
  constructor
  · rintro ⟨d, hd, hp⟩
    refine ⟨rfl, d, hd, ?_⟩
    obtain ⟨_, p, _, _, _⟩ := d
    cases p <;> simp [isFunction] at hp
    rfl
  · rintro ⟨-, d, hd, hk⟩
    refine ⟨d, hd, ?_⟩
    obtain ⟨_, p, _, _, _⟩ := d
    cases p <;> simp [Value.kind, Payload.kind] at hk
    rfl

theorem tables_function {t : SymbolTable} : s.layout.tables (.function f) = some t ↔
    s.layout.kind f = some .function ∧ s.table (.function f) = t := by
  rw [← payloadIs_isFunction]
  simp [layout, table?]

theorem tables_module {t : SymbolTable} : s.layout.tables (.module m) = some t ↔
    (∃ dm, s.modules.get? m = some dm) ∧ s.table (.module m) = t := by
  cases hm : s.modules.get? m <;> simp [layout, table?, isModuleLive, hm]

theorem table_of_scope (hp : s.layout.Placed) {sc : Scope} (h : s.layout.scope v = some sc) :
    ∃ t, s.layout.tables sc = some t := by
  have hfunction {f : ValueId} (hf : s.layout.kind f = some .function) :
      ∃ t, s.layout.tables (.function f) = some t := ⟨_, tables_function.2 ⟨hf, rfl⟩⟩
  unfold Layout.scope at h
  split at h
  next m hm =>
    obtain rfl := Option.some.inj h
    exact ⟨_, tables_module.2 ⟨module_of_mem (.inl ((hp.child v _).1 hm)), rfl⟩⟩
  next m hm =>
    obtain rfl := Option.some.inj h
    exact ⟨_, tables_module.2 ⟨module_of_mem (.inr ((hp.child v _).1 hm)), rfl⟩⟩
  next f hf =>
    obtain rfl := Option.some.inj h
    exact hfunction (kind_of_mem_blocks ((hp.child v _).1 hf))
  next b hb =>
    split at h
    next f hf =>
      obtain rfl := Option.some.inj h
      exact hfunction (kind_of_mem_blocks ((hp.child b _).1 hf))
    next => cases h
  next =>
    obtain ⟨⟨f, i⟩, hpos, rfl⟩ := Option.map_eq_some_iff.1 h
    exact hfunction (kind_of_mem_arguments (List.mem_of_getElem? ((hp.argument v f i).1 hpos)))

end Cells

section Writing

theorem resident?_modifyValue (s : Store) (v : ValueId) (g : Value → Value) (w : ValueId) :
    (s.modifyValue v g).resident? w =
      if v = w then (s.values.get? w).bind fun d => (g d).resident? else s.resident? w := by
  rw [resident?, modifyValue, Arena.get?_modify, resident?]
  split
  · exact Option.bind_map ..
  · simp

theorem layout_modifyValue (hd : s.values.get? v = some d) {g : Value → Value}
    (hk : (g d).kind = d.kind) (hr : d.kind.isResident = true) :
    (s.modifyValue v g).layout = { s.layout with
      place := Function.update s.layout.place v (g d).payload.place
      children := Function.update (Function.update s.layout.children (.blocks v)
        (g d).payload.blocks) (.instructions v) (g d).payload.instructions
      position := Function.update s.layout.position v (g d).payload.position
      arguments := Function.update s.layout.arguments v (g d).payload.arguments
      symbol := Function.update s.layout.symbol v (g d).symbol } := by
  have hres (w : ValueId) : (s.modifyValue v g).resident? w =
      if w = v then some { g d with attachments := [] } else s.resident? w := by
    rw [resident?_modifyValue]
    by_cases hw : w = v
    · rw [if_pos hw.symm, if_pos hw, hw, hd, Option.bind_some,
        Value.resident?_of_kind (by rw [hk]; exact hr)]
    · rw [if_neg (Ne.symm hw), if_neg hw]
  have hkind : (s.modifyValue v g).layout.kind = s.layout.kind := by
    funext w
    simp only [layout, hres]
    split
    next hw =>
      rw [hw, resident?, hd, Option.bind_some, Value.resident?_of_kind hr]
      exact congrArg some hk
    next => rfl
  have htables : (s.modifyValue v g).layout.tables = s.layout.tables := by
    funext sc
    refine Option.ext fun t => ?_
    cases sc with
    | function f => rw [tables_function, tables_function, hkind]; rfl
    | module m => rw [tables_module, tables_module]; rfl
  have hchildren : (s.modifyValue v g).layout.children =
      Function.update (Function.update s.layout.children (.blocks v)
        (g d).payload.blocks) (.instructions v) (g d).payload.instructions := by
    funext p
    cases p with
    | functions m => rfl
    | globals m => rfl
    | blocks f =>
      simp only [layout, childrenAt, hres, Function.update_apply, Place.blocks.injEq, reduceCtorEq,
        if_false]
      split <;> rfl
    | instructions b =>
      simp only [layout, childrenAt, hres, Function.update_apply, Place.instructions.injEq,
        reduceCtorEq, if_false]
      split <;> rfl
  have hfield {α : Type} (k : Value → Option α) (w : ValueId) :
      ((s.modifyValue v g).resident? w).bind k = Function.update
        (fun w => (s.resident? w).bind k) v (k { g d with attachments := [] }) w := by
    rw [hres, Function.update_apply]
    split <;> rfl
  have harguments : (s.modifyValue v g).layout.arguments =
      Function.update s.layout.arguments v (g d).payload.arguments := by
    funext w
    simp only [layout, hres, Function.update_apply]
    split <;> rfl
  refine Layout.ext hkind ?_ hchildren ?_ harguments ?_ htables
  · exact funext fun w => hfield (fun d => d.payload.place) w
  · exact funext fun w => hfield (fun d => d.payload.position) w
  · exact funext fun w => hfield Value.symbol w

theorem layout_modifyModule {dm : Module} (hm : s.modules.get? m = some dm)
    (g : Module → Module) : (s.modifyModule m g).layout = { s.layout with
      children := Function.update (Function.update s.layout.children (.functions m)
        (g dm).functions) (.globals m) (g dm).globals } := by
  have hget (m' : ModuleId) : (s.modifyModule m g).modules.get? m' =
      if m' = m then some (g dm) else s.modules.get? m' := by
    refine (Arena.get?_modify ..).trans ?_
    by_cases hm' : m' = m
    · rw [if_pos hm'.symm, if_pos hm', hm', hm, Option.map_some]
    · rw [if_neg (Ne.symm hm'), if_neg hm']
  have htables : (s.modifyModule m g).layout.tables = s.layout.tables := by
    funext sc
    refine Option.ext fun t => ?_
    cases sc with
    | function f => rfl
    | module m' =>
      rw [tables_module, tables_module, hget]
      refine and_congr ?_ Iff.rfl
      split
      next hm' => rw [hm', hm]; simp
      next => rfl
  refine Layout.ext rfl rfl ?_ rfl rfl rfl htables
  funext p
  cases p with
  | functions m' =>
    simp only [layout, childrenAt, hget, Function.update_apply, Place.functions.injEq, reduceCtorEq,
      if_false]
    split <;> rfl
  | globals m' =>
    simp only [layout, childrenAt, hget, Function.update_apply, Place.globals.injEq, reduceCtorEq,
      if_false]
    split <;> rfl
  | blocks f => rfl
  | instructions b => rfl

theorem layout_setTable {sc : Scope} {t₀ : SymbolTable} (h : s.layout.tables sc = some t₀)
    (t : SymbolTable) : (s.setTable sc t).layout =
      { s.layout with tables := Function.update s.layout.tables sc (some t) } := by
  have htable (sc' : Scope) : (s.setTable sc t).table sc' = if sc' = sc then t else s.table sc' := by
    simp only [table, setTable, getElem?_insert_eq_ite]
    by_cases hsc : sc' = sc
    · simp [hsc]
    · simp [hsc, Ne.symm hsc]
  refine Layout.ext rfl rfl rfl rfl rfl rfl ?_
  funext sc'
  refine Option.ext fun t' => ?_
  change _ ↔ Function.update s.layout.tables sc (some t) sc' = some t'
  rw [Function.update_apply]
  by_cases hsc : sc' = sc
  · rw [if_pos hsc, Option.some.injEq]
    subst hsc
    cases sc' with
    | function f =>
      rw [tables_function, htable, if_pos rfl]
      exact and_iff_right (tables_function.1 h).1
    | module m =>
      rw [tables_module, htable, if_pos rfl]
      exact and_iff_right (tables_module.1 h).1
  · rw [if_neg hsc]
    cases sc' with
    | function f => rw [tables_function, tables_function, htable, if_neg hsc]; rfl
    | module m => rw [tables_module, tables_module, htable, if_neg hsc]; rfl

end Writing

end Store

namespace Query

open Store

variable {s : Store} {v b f : ValueId} {m : ModuleId}

theorem expectKind_layout {k : ValueKind} {u : Unit} (hk : k.isResident = true) :
    expectKind v k s = .ok u ↔ s.layout.kind v = some k := by
  rw [expectKind_ok, layout_kind]
  exact (and_iff_right hk).symm

theorem payload_bind_ok {α β : Type} {k : ValueKind} {q : Payload → Query α} {ι : α → β} {c : β}
    {a : α} (hk : k.isResident = true) (hι : Function.Injective ι)
    (hq : ∀ d, s.values.get? v = some d → d.kind = k → ∃ x, q d.payload = pure x ∧ c = ι x)
    (hother : ∀ p, p.kind ≠ k → q p = wrongKind v k) :
    (payload v >>= q) s = .ok a ↔ s.layout.kind v = some k ∧ c = ι a := by
  rw [bind_ok, layout_kind]
  constructor
  · rintro ⟨_, hp, ha⟩
    obtain ⟨d, hd, rfl⟩ := payload_ok.1 hp
    by_cases hdk : d.kind = k
    · obtain ⟨x, hx, hc⟩ := hq d hd hdk
      rw [hx, pure_ok] at ha
      exact ⟨⟨hk, d, hd, hdk⟩, ha ▸ hc⟩
    · rw [hother _ hdk] at ha
      exact absurd ha wrongKind_ok
  · rintro ⟨⟨-, d, hd, hdk⟩, ha⟩
    obtain ⟨x, hx, hc⟩ := hq d hd hdk
    refine ⟨d.payload, payload_ok.2 ⟨d, hd, rfl⟩, ?_⟩
    rw [hx, pure_ok]
    exact hι (hc.symm.trans ha)

theorem blockParent_ok {o : Option ValueId} : blockParent b s = .ok o ↔
    s.layout.kind b = some .block ∧ s.layout.place b = o.map .blocks := by
  refine payload_bind_ok rfl (Option.map_injective fun _ _ => Place.blocks.inj)
    (fun d hd hk => ?_) fun p hp => ?_
  · rw [layout_place hd]
    obtain ⟨_, p, _, _, _⟩ := d
    cases p <;> first | exact ⟨_, rfl, rfl⟩ | cases hk
  · cases p <;> first | rfl | exact absurd rfl hp

theorem instructionParent_ok {o : Option ValueId} : instructionParent v s = .ok o ↔
    s.layout.kind v = some .instruction ∧ s.layout.place v = o.map .instructions := by
  refine payload_bind_ok rfl (Option.map_injective fun _ _ => Place.instructions.inj)
    (fun d hd hk => ?_) fun p hp => ?_
  · rw [layout_place hd]
    obtain ⟨_, p, _, _, _⟩ := d
    cases p <;> first | exact ⟨_, rfl, rfl⟩ | cases hk
  · cases p <;> first | rfl | exact absurd rfl hp

theorem functionModule_ok {o : Option ModuleId} : functionModule f s = .ok o ↔
    s.layout.kind f = some .function ∧ s.layout.place f = o.map .functions := by
  refine payload_bind_ok rfl (Option.map_injective fun _ _ => Place.functions.inj)
    (fun d hd hk => ?_) fun p hp => ?_
  · rw [layout_place hd]
    obtain ⟨_, p, _, _, _⟩ := d
    cases p <;> first | exact ⟨_, rfl, rfl⟩ | cases hk
  · cases p <;> first | rfl | exact absurd rfl hp

theorem globalModule_ok {o : Option ModuleId} : globalModule v s = .ok o ↔
    s.layout.kind v = some .global ∧ s.layout.place v = o.map .globals := by
  refine payload_bind_ok rfl (Option.map_injective fun _ _ => Place.globals.inj)
    (fun d hd hk => ?_) fun p hp => ?_
  · rw [layout_place hd]
    obtain ⟨_, p, _, _, _⟩ := d
    cases p <;> first | exact ⟨_, rfl, rfl⟩ | cases hk
  · cases p <;> first | rfl | exact absurd rfl hp

theorem blockParent_of_place (h : s.layout.place b = some (.blocks f)) :
    blockParent b s = .ok (some f) :=
  blockParent_ok.2 ⟨kind_of_place h, h⟩

theorem instructionParent_of_place (h : s.layout.place v = some (.instructions b)) :
    instructionParent v s = .ok (some b) :=
  instructionParent_ok.2 ⟨kind_of_place h, h⟩

theorem anchorFunction_of_place (h : s.layout.place b = some (.blocks f)) :
    anchorFunction b s = .ok f :=
  bind_ok.2 ⟨some f, blockParent_of_place h, rfl⟩

theorem anchorBlock_of_place (h : s.layout.place v = some (.instructions b)) :
    anchorBlock v s = .ok b :=
  bind_ok.2 ⟨some b, instructionParent_of_place h, rfl⟩

theorem expectDistinct_of_ne (h : v ≠ b) : expectDistinct v b s = .ok () := by
  rw [expectDistinct, if_neg h]
  rfl

theorem functionModule_of_place (h : s.layout.place f = some (.functions m)) :
    functionModule f s = .ok (some m) :=
  functionModule_ok.2 ⟨kind_of_place h, h⟩

theorem globalModule_of_place (h : s.layout.place v = some (.globals m)) :
    globalModule v s = .ok (some m) :=
  globalModule_ok.2 ⟨kind_of_place h, h⟩

theorem blockInstructions_ok {vs : List ValueId} : blockInstructions b s = .ok vs ↔
    s.layout.kind b = some .block ∧ s.layout.children (.instructions b) = vs := by
  refine payload_bind_ok rfl Function.injective_id (fun d hd hk => ?_) fun p hp => ?_
  · rw [layout_instructions hd]
    obtain ⟨_, p, _, _, _⟩ := d
    cases p <;> first | exact ⟨_, rfl, rfl⟩ | cases hk
  · cases p <;> first | rfl | exact absurd rfl hp

theorem functionBlocks_ok {vs : List ValueId} : functionBlocks f s = .ok vs ↔
    s.layout.kind f = some .function ∧ s.layout.children (.blocks f) = vs := by
  refine payload_bind_ok rfl Function.injective_id (fun d hd hk => ?_) fun p hp => ?_
  · rw [layout_blocks hd]
    obtain ⟨_, p, _, _, _⟩ := d
    cases p <;> first | exact ⟨_, rfl, rfl⟩ | cases hk
  · cases p <;> first | rfl | exact absurd rfl hp

theorem functionArguments_ok {vs : List ValueId} : functionArguments f s = .ok vs ↔
    s.layout.kind f = some .function ∧ s.layout.arguments f = vs := by
  refine payload_bind_ok rfl Function.injective_id (fun d hd hk => ?_) fun p hp => ?_
  · rw [layout_arguments hd]
    obtain ⟨_, p, _, _, _⟩ := d
    cases p <;> first | exact ⟨_, rfl, rfl⟩ | cases hk
  · cases p <;> first | rfl | exact absurd rfl hp

theorem symbols_ok {sc : Scope} {t : SymbolTable} :
    symbols sc s = .ok t ↔ s.layout.tables sc = some t := by
  cases sc with
  | function f =>
    simp only [symbols, bind_ok, read_ok, pure_ok, tables_function]
    rw [← expectKind_layout (u := ()) rfl]
    constructor
    · rintro ⟨_, hf, _, rfl, rfl⟩
      exact ⟨hf, rfl⟩
    · rintro ⟨hf, rfl⟩
      exact ⟨(), hf, s, rfl, rfl⟩
  | module m =>
    simp only [symbols, bind_ok, read_ok, pure_ok, tables_module, module_ok]
    constructor
    · rintro ⟨dm, hm, _, rfl, rfl⟩
      exact ⟨⟨dm, hm⟩, rfl⟩
    · rintro ⟨⟨dm, hm⟩, rfl⟩
      exact ⟨dm, hm, s, rfl, rfl⟩

theorem scope_of_scopeOf_ok {o : Option Scope} (h : scopeOf v s = .ok o) :
    s.layout.scope v = o := by
  obtain ⟨p, hp, h⟩ := bind_ok.1 h
  obtain ⟨d, hd, rfl⟩ := payload_ok.1 hp
  have hplace := layout_place hd
  have hposition := layout_position hd
  unfold Layout.scope
  cases hpd : d.payload with
  | argument f i =>
    simp only [hpd, pure_ok] at h hplace hposition
    simp [hplace, hposition, Payload.place, Payload.position, h]
  | block f insts =>
    simp only [hpd, pure_ok] at h hplace hposition
    cases f <;> simp_all [Payload.place, Payload.position]
  | function m args blocks =>
    simp only [hpd, pure_ok] at h hplace hposition
    cases m <;> simp_all [Payload.place, Payload.position]
  | global m =>
    simp only [hpd, pure_ok] at h hplace hposition
    cases m <;> simp_all [Payload.place, Payload.position]
  | instruction b opcode =>
    cases b with
    | none =>
      simp only [hpd, pure_ok] at h hplace hposition
      simp [hplace, hposition, Payload.place, Payload.position, h]
    | some b =>
      simp only [hpd, bind_ok, pure_ok] at h hplace hposition
      obtain ⟨f, hf, rfl⟩ := h
      simp only [hplace, Payload.place, Option.map_some, (blockParent_ok.1 hf).2]
      cases f <;> rfl
  | constant data =>
    simp only [hpd, pure_ok] at h hplace hposition
    simp [hplace, hposition, Payload.place, Payload.position, h]
  | metadata n =>
    simp only [hpd, pure_ok] at h hplace hposition
    simp [hplace, hposition, Payload.place, Payload.position, h]

theorem scopeOf_of_block (hb : ∀ b, s.layout.place v = some (.instructions b) →
    s.layout.kind b = some .block) {d : Value} (hd : s.values.get? v = some d) :
    scopeOf v s = .ok (s.layout.scope v) := by
  suffices h : ∃ o, scopeOf v s = .ok o by
    obtain ⟨o, ho⟩ := h
    rw [ho, scope_of_scopeOf_ok ho]
  have hplace := layout_place hd
  simp only [scopeOf, bind_ok]
  cases hpd : d.payload with
  | instruction b opcode =>
    cases b with
    | none => exact ⟨_, _, payload_ok.2 ⟨d, hd, hpd⟩, pure_ok.2 rfl⟩
    | some b =>
      rw [hpd] at hplace
      obtain ⟨-, db, hdb, hkb⟩ := layout_kind.1 (hb b hplace)
      obtain ⟨o, ho⟩ : ∃ o, blockParent b s = .ok o := by
        obtain ⟨_, p, _, _, _⟩ := db
        cases p <;> simp [Value.kind, Payload.kind] at hkb
        exact ⟨_, bind_ok.2 ⟨_, payload_ok.2 ⟨_, hdb, rfl⟩, pure_ok.2 rfl⟩⟩
      exact ⟨_, _, payload_ok.2 ⟨d, hd, hpd⟩, bind_ok.2 ⟨o, ho, pure_ok.2 rfl⟩⟩
  | _ => exact ⟨_, _, payload_ok.2 ⟨d, hd, hpd⟩, pure_ok.2 rfl⟩

theorem scopeOf_ok (hp : s.layout.Placed) {d : Value} (hd : s.values.get? v = some d) :
    scopeOf v s = .ok (s.layout.scope v) :=
  scopeOf_of_block (fun b h => kind_of_mem_instructions ((hp.child v (.instructions b)).1 h)) hd

end Query

end ShaderIR
