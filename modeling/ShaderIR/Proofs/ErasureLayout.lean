import ShaderIR.Proofs.ContainerCreation
import ShaderIR.Proofs.ErasureInvariants

/-! Erasing what has a place. A container that goes takes its children with it, one after the
other; what remains is the layout without all of them, and that is consistent again. -/

namespace ShaderIR

namespace Layout

variable {L L' L'' : Layout} {v w : ValueId} {D : List ValueId} {p : Place} {m : ModuleId}

def Sheds (L L' : Layout) (v : ValueId) : Prop :=
  ∀ p u, u ∈ L'.children p → u ∈ L.children p ∧ u ≠ v

theorem Sheds.of_placed (h : L.Placed) (hv : L.place v = none) : L.Sheds L v := by
  intro p u hu
  refine ⟨hu, ?_⟩
  rintro rfl
  rw [(h.child u p).2 hu] at hv
  cases hv

theorem Sheds.of_detach (h : (L.detach v p).Renamed L') (hp : L.Placed)
    (hv : L.place v = some p) : L.Sheds L' v := by
  intro q u hu
  rw [h.children] at hu
  simp only [detach, Function.update_apply] at hu
  split at hu
  next hq =>
    subst hq
    exact mem_without.1 hu
  next hq =>
    refine ⟨hu, ?_⟩
    rintro rfl
    rw [(hp.child u q).2 hu] at hv
    exact hq (Option.some.inj hv)

theorem mem_children_of_drop {u : ValueId} (h : u ∈ (L.drop D).children p) : u ∈ L.children p := by
  by_cases hp : ∃ w ∈ D, p.owner? = some w
  · rw [children_drop_of_owner hp] at h
    cases h
  · rwa [children_drop hp] at h

theorem Sheds.drop (h : L.Sheds L' v) : L.Sheds (L'.drop D) v :=
  fun p u hu => h p u (mem_children_of_drop hu)

structure Uproots (L L' : Layout) (b : ValueId) : Prop where
  kind : L'.kind = L.kind
  place : L'.place = Function.update L.place b none
  children : ∀ p, L'.children p =
    if L.place b = some p then without b (L.children p) else L.children p
  position : L'.position = L.position
  arguments : L'.arguments = L.arguments
  delisted : L.Delisted L' (L.children (.instructions b) ++ [b])

theorem uproots_of_detach {b : ValueId} (h : (L.detach b p).Renamed L') (hb : L.place b = some p)
    (hd : L.Delisted L' (L.children (.instructions b) ++ [b])) : L.Uproots L' b where
  kind := h.kind
  place := h.place
  children q := by
    rw [h.children, hb]
    by_cases hq : q = p
    · rw [hq, if_pos rfl]
      exact Function.update_self ..
    · rw [if_neg fun hqp => hq (Option.some.inj hqp).symm]
      exact Function.update_of_ne hq ..
  position := h.position
  arguments := h.arguments
  delisted := hd

theorem uproots_of_placed {b : ValueId} {total : Prop} (h : L.Consistent total)
    (hb : L.place b = none) (hpos : L.position b = none) : L.Uproots L b where
  kind := rfl
  place := by rw [← hb, Function.update_eq_self]
  children p := by simp [hb]
  position := rfl
  arguments := rfl
  delisted := by
    refine ⟨fun _ _ => rfl, fun {sc t} ht => ⟨t, ht, rfl, rfl, fun k v => ?_⟩⟩
    rw [iff_self_and]
    intro hf hv
    have hsc := (h.named.owned ht hf).2.2
    rw [List.mem_append, List.mem_singleton, ← h.placed.child] at hv
    obtain hv | rfl := hv
    · cases (scope_of_instructions hv hb).symm.trans hsc
    · cases (scope_of_unplaced hb hpos).symm.trans hsc

namespace Uproots

variable {b : ValueId} (h : L.Uproots L' b)

include h

theorem place_self : L'.place b = none := by
  rw [h.place, Function.update_self]

theorem sheds (hp : L.Placed) : L.Sheds L' b := by
  intro p u hu
  rw [h.children] at hu
  split at hu
  next => exact mem_without.1 hu
  next hb =>
    refine ⟨hu, ?_⟩
    rintro rfl
    exact hb ((hp.child u p).2 hu)

end Uproots

theorem drop_withTables {tables : Scope → Option SymbolTable}
    (h : ∀ sc, (∀ f ∈ D, sc ≠ .function f) → tables sc = L.tables sc) :
    drop { L with tables := tables } D = L.drop D := by
  refine Layout.ext rfl rfl rfl rfl rfl rfl ?_
  funext sc
  cases sc with
  | module m => exact h _ fun _ _ => by simp
  | function f =>
    by_cases hf : f ∈ D
    · simp [drop, hf]
    · simp only [drop, if_neg hf]
      refine h _ fun g hg hfg => hf ?_
      rwa [Scope.function.inj hfg]

theorem drop_relist {r : List ValueId → List ValueId} (h : ∃ w ∈ D, p.owner? = some w) :
    (L.relist p r).drop D = L.drop D := by
  refine Layout.ext rfl rfl ?_ rfl rfl rfl rfl
  funext q
  by_cases hq : ∃ w ∈ D, q.owner? = some w
  · rw [children_drop_of_owner hq, children_drop_of_owner hq]
  · rw [children_drop hq, children_drop hq]
    refine Function.update_of_ne ?_ ..
    rintro rfl
    exact hq h

theorem Placed.mem_arguments_of_scope {f : ValueId} (h : L.Placed)
    (hblocks : L.children (.blocks f) = []) (hw : L.scope w = some (.function f)) :
    w ∈ L.arguments f := by
  have hnone (b : ValueId) : L.place b ≠ some (.blocks f) := fun hb => by
    have hmem := (h.child b _).1 hb
    rw [hblocks] at hmem
    cases hmem
  unfold scope at hw
  split at hw
  next => cases hw
  next => cases hw
  next g hp =>
    obtain rfl := Scope.function.inj (Option.some.inj hw)
    exact absurd hp (hnone w)
  next b hp =>
    split at hw
    next g hb =>
      obtain rfl := Scope.function.inj (Option.some.inj hw)
      exact absurd hb (hnone b)
    next => cases hw
  next =>
    obtain ⟨⟨g, i⟩, hpos, hg⟩ := Option.map_eq_some_iff.1 hw
    obtain rfl := Scope.function.inj hg
    exact List.mem_of_getElem? ((h.argument w g i).1 hpos)

theorem Placed.scope_ne_module (h : L.Placed) (hf : L.children (.functions m) = [])
    (hg : L.children (.globals m) = []) (w : ValueId) : L.scope w ≠ some (.module m) := by
  intro hw
  unfold scope at hw
  split at hw
  next m' hp =>
    obtain rfl := Scope.module.inj (Option.some.inj hw)
    have hmem := (h.child w _).1 hp
    rw [hf] at hmem
    cases hmem
  next m' hp =>
    obtain rfl := Scope.module.inj (Option.some.inj hw)
    have hmem := (h.child w _).1 hp
    rw [hg] at hmem
    cases hmem
  next => cases hw
  next =>
    split at hw
    next => cases hw
    next => cases hw
  next =>
    obtain ⟨_, _, hw⟩ := Option.map_eq_some_iff.1 hw
    cases hw

theorem Consistent.dropTable {total : Prop} (h : L.Consistent total)
    (hf : L.children (.functions m) = []) (hg : L.children (.globals m) = []) :
    Consistent { L with tables := Function.update L.tables (.module m) none } total := by
  refine ⟨⟨h.placed.child, h.placed.nodup, h.placed.argument⟩, fun htotal {w k sc} hw hn hs => ?_,
    fun {sc t k w} ht hfind => ?_⟩
  · obtain ⟨t, ht, hfind⟩ := h.named.entered htotal hw hn hs
    refine ⟨t, (Function.update_of_ne ?_ ..).trans ht, hfind⟩
    rintro rfl
    exact h.placed.scope_ne_module hf hg w hs
  · simp only [Function.update_apply] at ht
    split at ht
    · cases ht
    · exact h.named.owned ht hfind

end Layout

namespace Store

open Layout

variable {s : Store} {v : ValueId} {t : Tracker} {ws : Std.ExtTreeMap NodeId ValueId}

theorem instructions_of_uproots {L : Layout} {b : ValueId} (h : s.layout.Uproots L b)
    (hb : s.layout.kind b = some .block) :
    L.children (.instructions b) = s.layout.children (.instructions b) := by
  rw [h.children, if_neg]
  intro hself
  rw [kind_of_place hself] at hb
  cases hb

theorem layout_without_eq_drop (s : Store) (v : ValueId) (t : Tracker)
    (ws : Std.ExtTreeMap NodeId ValueId) : (s.without v t ws).layout = s.layout.drop [v] := by
  have hres (w : ValueId) : (s.without v t ws).resident? w =
      if w ∈ [v] then none else s.resident? w := by
    rw [resident?, show (s.without v t ws).values.get? w = _ from Arena.get?_erase .., resident?]
    by_cases hw : v = w
    · simp [hw]
    · simp [hw, Ne.symm hw]
  have hfield {α : Type} (k : Value → Option α) : (fun w => ((s.without v t ws).resident? w).bind k) =
      fun w => if w ∈ [v] then none else (s.resident? w).bind k := by
    funext w
    rw [hres]
    split <;> rfl
  have hlist (k : Value → List ValueId) (w : ValueId) :
      (((s.without v t ws).resident? w).map k).getD [] =
        if w ∈ [v] then [] else ((s.resident? w).map k).getD [] := by
    rw [hres]
    split <;> rfl
  have hkind : (s.without v t ws).layout.kind = (s.layout.drop [v]).kind := by
    funext w
    simp only [layout, drop, hres]
    split <;> rfl
  refine Layout.ext hkind (hfield _) ?_ (hfield _) (funext fun w => hlist _ w) (hfield _) ?_
  · funext p
    cases p with
    | functions m => rfl
    | globals m => rfl
    | blocks f => exact hlist _ f
    | instructions b => exact hlist _ b
  · have htable (sc : Scope) (hsc : sc ≠ .function v) : (s.without v t ws).table sc = s.table sc := by
      simp only [table, without, getElem?_erase_eq_ite, if_neg (Ne.symm hsc)]
    funext sc
    refine Option.ext fun t' => ?_
    cases sc with
    | module m =>
      rw [tables_module, htable _ (by simp),
        show (s.layout.drop [v]).tables (.module m) = s.layout.tables (.module m) from rfl,
        tables_module]
      rfl
    | function f =>
      rw [tables_function, hkind]
      by_cases hf : f = v
      · simp [drop, hf]
      · simp only [drop, List.mem_singleton, if_neg hf]
        rw [htable _ (by simpa using hf), tables_function]

theorem drop_of_kind (h : s.layout.kind v = none) : s.layout.drop [v] = s.layout := by
  have hnone : s.resident? v = none := Option.map_eq_none_iff.1 h
  have hself {β : Type} (k : Option Value → β) (w : ValueId) :
      (if w ∈ [v] then k none else k (s.resident? w)) = k (s.resident? w) := by
    split
    next hw => rw [List.mem_singleton.1 hw, hnone]
    next => rfl
  refine Layout.ext ?_ ?_ ?_ ?_ ?_ ?_ ?_
  · exact funext (hself (Option.map Value.kind))
  · exact funext (hself fun o => o.bind fun d => d.payload.place)
  · funext p
    cases p with
    | functions m => rfl
    | globals m => rfl
    | blocks f => exact hself (fun o => (o.map fun d => d.payload.blocks).getD []) f
    | instructions b => exact hself (fun o => (o.map fun d => d.payload.instructions).getD []) b
  · exact funext (hself fun o => o.bind fun d => d.payload.position)
  · exact funext (hself fun o => (o.map fun d : Value => d.payload.arguments).getD [])
  · exact funext (hself fun o => o.bind Value.symbol)
  · funext sc
    cases sc with
    | module m => rfl
    | function f =>
      simp only [drop]
      split
      next hw =>
        refine (Option.eq_none_iff_forall_ne_some.2 fun t ht => ?_).symm
        have hf := (tables_function.1 ht).1
        rw [List.mem_singleton.1 hw, h] at hf
        cases hf
      next => rfl

def dropModule (s : Store) (m : ModuleId) : Store :=
  { s with
    modules := s.modules.erase m
    scopes := s.scopes.erase (.module m) }

theorem layout_dropModule {m : ModuleId} (hf : s.layout.children (.functions m) = [])
    (hg : s.layout.children (.globals m) = []) : (s.dropModule m).layout =
      { s.layout with tables := Function.update s.layout.tables (.module m) none } := by
  have hmodule (m' : ModuleId) : (s.dropModule m).modules.get? m' =
      if m = m' then none else s.modules.get? m' := Arena.get?_erase ..
  have htable (sc : Scope) (hsc : sc ≠ .module m) : (s.dropModule m).table sc = s.table sc := by
    simp only [table, dropModule, getElem?_erase_eq_ite, if_neg (Ne.symm hsc)]
  refine Layout.ext rfl rfl ?_ rfl rfl rfl ?_
  · funext p
    cases p with
    | functions m' =>
      by_cases hm : m = m'
      · subst hm
        rw [hf]
        simp [layout, childrenAt, hmodule]
      · simp [layout, childrenAt, hmodule, hm]
    | globals m' =>
      by_cases hm : m = m'
      · subst hm
        rw [hg]
        simp [layout, childrenAt, hmodule]
      · simp [layout, childrenAt, hmodule, hm]
    | blocks f => rfl
    | instructions b => rfl
  · funext sc
    refine Option.ext fun t => ?_
    dsimp only
    rw [Function.update_apply]
    cases sc with
    | function f =>
      rw [tables_function, htable _ (by simp), if_neg (by simp), tables_function]
      rfl
    | module m' =>
      rw [tables_module, hmodule]
      by_cases hm : m' = m
      · simp [hm]
      · rw [htable _ (by simpa using hm), if_neg (Ne.symm hm), if_neg (by simpa using hm),
          tables_module]

end Store

namespace Edit

open Store Layout

variable {s : Store} {v b f g i c : ValueId} {m : ModuleId} {L : Layout} {total : Prop}

theorem ends_destroyValue (hs : s.Settled) : Ends (destroyValue v) s
    (fun _ s' => s'.Settled ∧ ∃ L, s.layout.Strikes v L ∧ s'.layout = L.drop [v])
    fun _ s' => s'.Settled ∧ s'.layout = s.layout := by
  suffices h : Ends (destroyValue v) s
      (fun _ s' => ∃ L, s.layout.Strikes v L ∧ s'.layout = L.drop [v])
      fun _ s' => s'.layout = s.layout from
    Ends.and (keeps_destroyValue s hs) h
  rw [destroyValue_eq]
  refine Ends.bind (Ends.mono (ends_condemn hs) (fun _ _ h => h) ?_) ?_
  · rintro _ _ ⟨md, rfl, -⟩
    rfl
  rintro _ s₁ ⟨⟨d, hd⟩, hu, md, cs, hs₁, -, hsound, -⟩
  have hlayout₁ : s₁.layout = s.layout := by
    rw [hs₁]
    rfl
  have hcore := (fixes_unregisterName : Fixes Store.core (unregisterName v)).ends s₁
  refine Ends.bind (Ends.mono (hcore.and (ends_unregisterName s₁ v)) (fun _ _ h => h) ?_) ?_
  · rintro _ _ ⟨-, rfl, -⟩
    exact hlayout₁
  rintro _ s₂ ⟨hcore₂, hstrikes⟩
  have hlive : s₂.core.IsLive v := by
    rw [hcore₂, hs₁]
    exact isLive_core.2 ⟨d, hd⟩
  obtain ⟨d₂, hd₂⟩ := isLive_core.1 hlive
  have hu₂ : s₂.uses.useList v = [] := by
    rw [show s₂.uses = s₁.uses from congrArg Core.uses hcore₂, hs₁]
    exact hu
  refine Ends.weaken (ends_discard (hcore₂ ▸ hsound) hd₂ hu₂) ?_
  rintro _ s₃ ⟨t, ws, rfl, -⟩
  exact ⟨s₂.layout, hlayout₁ ▸ hstrikes, layout_without_eq_drop ..⟩

theorem ends_destroyAll (hs : s.Settled) (vs : List ValueId) (hL : s.layout.drop (vs ++ [c]) = L)
    (hscope : ∀ u ∈ vs ++ [c], ∀ sc, s.layout.scope u = some sc → sc = .function c) :
    Ends (vs.forM destroyValue) s (fun _ s' => s'.Settled ∧ s'.layout.drop [c] = L ∧
      ∀ sc, s'.layout.scope c = some sc → sc = .function c) fun _ _ => True := by
  refine Ends.mono (E := fun _ _ => True) (ends_forM (fun rest s' => s'.Settled ∧
    s'.layout.drop (rest ++ [c]) = L ∧ ∀ u ∈ rest ++ [c], ∀ sc, s'.layout.scope u = some sc →
      sc = .function c) ?_ vs s ⟨hs, hL, hscope⟩) ?_ fun _ _ _ => trivial
  · rintro v rest s₁ ⟨hs₁, hL₁, hscope₁⟩
    refine (ends_destroyValue hs₁).mono ?_ fun _ _ _ => trivial
    rintro _ s₂ ⟨hs₂, L₂, hstrikes, hlayout⟩
    obtain ⟨tables, rfl⟩ := hstrikes.eq_withTables
    refine ⟨hs₂, ?_, fun u hu sc hsc => ?_⟩
    · rw [hlayout, drop_drop, drop_withTables, ← hL₁, List.cons_append]
      intro sc hsc
      refine hstrikes.elsewhere fun hv => ?_
      obtain rfl := hscope₁ v (by simp) sc hv
      exact hsc c (by simp) rfl
    · rw [hlayout] at hsc
      exact hscope₁ u (List.mem_cons_of_mem _ hu) sc (scope_drop hsc).2
  · rintro _ s' ⟨hs', hL', hscope'⟩
    exact ⟨hs', hL', hscope' c (by simp)⟩

theorem ends_destroyLast (hs : s.Settled) (hL : s.layout.drop [c] = L)
    (hscope : ∀ sc, s.layout.scope c = some sc → sc = .function c) :
    Ends (destroyValue c) s (fun _ s' => s'.Settled ∧ s'.layout = L)
      fun _ s' => s'.Settled ∧ s'.layout = s.layout := by
  refine (ends_destroyValue hs).mono ?_ fun _ _ hx => hx
  rintro _ s' ⟨hs', L', hstrikes, hlayout⟩
  obtain ⟨tables, rfl⟩ := hstrikes.eq_withTables
  refine ⟨hs', ?_⟩
  rw [hlayout, ← hL, drop_withTables]
  intro sc hsc
  refine hstrikes.elsewhere fun hv => ?_
  obtain rfl := hscope sc hv
  exact hsc c (by simp) rfl

section Leaves

theorem closed_single (hp : s.layout.Placed) {k : ValueKind} (hk : s.layout.kind v = some k)
    (hplace : s.layout.place v = none) (hblock : k ≠ .block) (hfunction : k ≠ .function)
    (hargument : k ≠ .argument) : s.layout.Closed [v] := by
  have hkind {k' : ValueKind} (hk' : s.layout.kind v = some k') : k' = k :=
    Option.some.inj (hk'.symm.trans hk)
  refine ⟨fun {w p} hw => ?_, fun {w f i} hw => ?_⟩
  · refine iff_of_false (fun hwv => ?_) ?_
    · rw [List.mem_singleton.1 hwv, hplace] at hw
      cases hw
    · rintro ⟨u, hu, ho⟩
      obtain rfl := List.mem_singleton.1 hu
      have hmem := (hp.child w p).1 hw
      cases p with
      | functions m => cases ho
      | globals m => cases ho
      | blocks f =>
        obtain rfl := Option.some.inj ho
        exact hfunction (hkind (kind_of_mem_blocks hmem)).symm
      | instructions b =>
        obtain rfl := Option.some.inj ho
        exact hblock (hkind (kind_of_mem_instructions hmem)).symm
  · refine iff_of_false (fun hwv => ?_) fun hfv => ?_
    · rw [List.mem_singleton.1 hwv, position_of_kind hk hargument] at hw
      cases hw
    · rw [List.mem_singleton.1 hfv] at hw
      have hmem := List.mem_of_getElem? ((hp.argument w v i).1 hw)
      exact hfunction (hkind (kind_of_mem_arguments hmem)).symm

theorem ends_destroyLeaf (hs : s.Settled) (hc : s.layout.Consistent total) {k : ValueKind}
    (hk : s.layout.kind v = some k) (hplace : s.layout.place v = none) (hblock : k ≠ .block)
    (hfunction : k ≠ .function) (hargument : k ≠ .argument) : Ends (destroyValue v) s
      (fun _ s' => s'.Settled ∧ s'.layout.Consistent total ∧ s.layout.Sheds s'.layout v)
      fun _ s' => s'.layout.Consistent total := by
  have hclosed := closed_single hc.placed hk hplace hblock hfunction hargument
  have hscope := scope_of_unplaced hplace (position_of_kind hk hargument)
  refine (ends_destroyLast hs rfl ?_).mono ?_ fun _ _ hx => hx.2 ▸ hc
  · intro sc hsc
    rw [hscope] at hsc
    cases hsc
  · rintro _ s' ⟨hs', hlayout⟩
    rw [hlayout]
    exact ⟨hs', hc.drop hclosed, (Sheds.of_placed hc.placed hplace).drop⟩

theorem ends_eraseGlobal (hs : s.Settled) (hc : s.layout.Consistent total) : Ends (eraseGlobal g) s
    (fun _ s' => s'.Settled ∧ s'.layout.Consistent total ∧ s.layout.Sheds s'.layout g)
    fun _ s' => s'.layout.Consistent total := by
  refine ends_bind.2 (ends_lift.2 ⟨fun _ _ => ?_, fun _ _ => hc⟩)
  refine ends_bind.2 (ends_lift.2 ⟨fun o ho => ?_, fun _ _ => hc⟩)
  obtain ⟨hg, hplace⟩ := Query.globalModule_ok.1 ho
  split
  · refine Ends.bind (Ends.mono (Ends.and (keeps_of_fixes fixes_removeGlobal s hs)
      (ends_removeGlobal hc)) (fun _ _ h => h) fun _ _ hx => hx.2.1 ▸ hc) ?_
    rintro _ s₁ ⟨hs₁, hc₁, q, hq, hr⟩
    have hg₁ : s₁.layout.kind g = some .global := by rw [hr.kind]; exact hg
    have hplace₁ : s₁.layout.place g = none := by
      rw [hr.place]
      exact Function.update_self ..
    refine (ends_destroyLeaf hs₁ hc₁ hg₁ hplace₁ (by simp) (by simp) (by simp)).mono ?_
      fun _ _ hx => hx
    rintro _ s₂ ⟨hs₂, hc₂, hshed⟩
    exact ⟨hs₂, hc₂, fun p u hu =>
      (Sheds.of_detach hr hc.placed hq) p u (hshed p u hu).1⟩
  next hnone =>
    cases o with
    | some m => exact absurd rfl hnone
    | none => exact ends_destroyLeaf hs hc hg hplace (by simp) (by simp) (by simp)

theorem ends_eraseInstruction (hs : s.Settled) (hc : s.layout.Consistent total) :
    Ends (eraseInstruction i) s (fun _ s' => s'.layout.Consistent total)
      fun _ s' => s'.layout.Consistent total := by
  refine ends_bind.2 (ends_lift.2 ⟨fun _ _ => ?_, fun _ _ => hc⟩)
  refine ends_bind.2 (ends_lift.2 ⟨fun o ho => ?_, fun _ _ => hc⟩)
  obtain ⟨hi, hplace⟩ := Query.instructionParent_ok.1 ho
  split
  · refine Ends.bind (Ends.mono (Ends.and (keeps_of_fixes fixes_removeInstruction s hs)
      (ends_removeInstruction hc)) (fun _ _ h => h) fun _ _ hx => hx.2.1 ▸ hc) ?_
    rintro _ s₁ ⟨hs₁, hc₁, q, hq, hr⟩
    have hi₁ : s₁.layout.kind i = some .instruction := by rw [hr.kind]; exact hi
    have hplace₁ : s₁.layout.place i = none := by
      rw [hr.place]
      exact Function.update_self ..
    exact (ends_destroyLeaf hs₁ hc₁ hi₁ hplace₁ (by simp) (by simp) (by simp)).mono
      (fun _ _ h => h.2.1) fun _ _ hx => hx
  next hnone =>
    cases o with
    | some b => exact absurd rfl hnone
    | none =>
      have hleaf := ends_destroyLeaf hs hc hi hplace (by simp) (by simp) (by simp)
      exact hleaf.mono (fun _ _ h => h.2.1) fun _ _ hx => hx

end Leaves

section Containers

theorem keeps_nullifyBlockAddress_layout {a : ValueId} (ha : L.kind a = none) :
    Keeps (SettledWith L) (nullifyBlockAddress a) := by
  have hnull {ty : TypeId} : Keeps (SettledWith L) (constNull ty) := fun s hs =>
    Ends.and (keeps_constNull s hs.1) (Fixes.keeps fixes_internScalar (· = L) s hs.2)
  refine .bind (.lift _) fun ty => .bind hnull fun null => .bind safe_replaceAllUses.keeps fun _ => ?_
  intro s hs
  have ha : s.layout.kind a = none := by rw [hs.2]; exact ha
  refine (ends_destroyValue hs.1).mono ?_ fun _ _ hx => ⟨hx.1, hx.2.trans hs.2⟩
  rintro _ s' ⟨hs', L', hstrikes, hlayout⟩
  refine ⟨hs', ?_⟩
  have hscope (sc : Scope) : s.layout.scope a ≠ some sc := by
    intro hsc
    have hnone : s.resident? a = none := Option.map_eq_none_iff.1 ha
    simp [Layout.scope, layout, hnone] at hsc
  obtain ⟨tables, rfl⟩ := hstrikes.eq_withTables
  obtain rfl : tables = s.layout.tables := funext fun sc => hstrikes.elsewhere (hscope sc)
  exact hlayout.trans ((drop_of_kind ha).trans hs.2)

theorem mem_dropRepeats {vs : List ValueId} {a : ValueId} : a ∈ dropRepeats vs ↔ a ∈ vs := by
  induction vs using dropRepeats.induct with
  | case1 => rfl
  | case2 v => rfl
  | case3 v rest ih =>
    rw [dropRepeats, if_pos rfl, ih]
    simp only [List.mem_cons, ← or_assoc, or_self]
  | case4 v w rest hvw ih =>
    rw [dropRepeats, if_neg hvw, List.mem_cons, ih, List.mem_cons (b := v)]

theorem dropRepeats_sublist (vs : List ValueId) : List.Sublist (dropRepeats vs) vs := by
  induction vs using dropRepeats.induct with
  | case1 => exact .refl _
  | case2 v => exact .refl _
  | case3 v rest ih =>
    rw [dropRepeats, if_pos rfl]
    exact ih.cons v
  | case4 v w rest hvw ih =>
    rw [dropRepeats, if_neg hvw]
    exact ih.cons_cons v

theorem kind_of_isBlockAddress {a : ValueId} (h : s.isBlockAddress a = true) :
    s.layout.kind a = none := by
  rw [Option.eq_none_iff_forall_ne_some]
  intro k hk
  obtain ⟨hres, d, hd, rfl⟩ := layout_kind.1 hk
  simp only [isBlockAddress, hd, Option.any_some, decide_eq_true_eq] at h
  rw [Value.kind, h] at hres
  cases hres

theorem keeps_nullifyBlockAddresses_layout : Keeps (SettledWith L) (nullifyBlockAddresses b) := by
  intro s hs
  refine ends_bind.2 (ends_lift.2 ⟨fun users _ => ?_, fun _ _ => hs⟩)
  rw [ends_bind, ends_get]
  refine Ends.mono (E := fun _ => SettledWith L) (ends_forM (fun rest s' => s'.SettledWith L ∧
    ∀ a ∈ rest, L.kind a = none) ?_ _ s ⟨hs, fun a ha => ?_⟩) (fun _ _ h => h.1) fun _ _ hx => hx
  · rintro a rest s₁ ⟨hs₁, hrest⟩
    refine (keeps_nullifyBlockAddress_layout (hrest a (List.mem_cons_self ..)) s₁ hs₁).mono ?_
      fun _ _ hx => hx
    exact fun _ s₂ hs₂ => ⟨hs₂, fun a' ha' => hrest a' (List.mem_cons_of_mem _ ha')⟩
  · have haddress := (List.mem_filter.1 (mem_dropRepeats.1 ha)).2
    rw [← hs.2]
    exact kind_of_isBlockAddress haddress

theorem closed_block (hp : s.layout.Placed) (hb : s.layout.kind b = some .block)
    (hplace : s.layout.place b = none) :
    s.layout.Closed (s.layout.children (.instructions b) ++ [b]) := by
  have hmem {w : ValueId} : w ∈ s.layout.children (.instructions b) ++ [b] ↔
      s.layout.place w = some (.instructions b) ∨ w = b := by
    rw [List.mem_append, List.mem_singleton, ← hp.child]
  have hkind {w : ValueId} (hw : w ∈ s.layout.children (.instructions b) ++ [b]) :
      s.layout.kind w = some .instruction ∨ w = b :=
    (hmem.1 hw).imp_left fun hwp => kind_of_place hwp
  refine ⟨fun {w p} hw => ?_, fun {w f i} hw => ?_⟩
  · rw [hmem, hw, Option.some.injEq]
    constructor
    · rintro (rfl | rfl)
      · exact ⟨b, by simp, rfl⟩
      · rw [hplace] at hw
        cases hw
    · rintro ⟨u, hu, ho⟩
      have hin := (hp.child w p).1 hw
      -- Of the values that go only the block has children.
      cases p with
      | functions m => cases ho
      | globals m => cases ho
      | blocks f =>
        obtain rfl := Option.some.inj ho
        have hf := kind_of_mem_blocks hin
        rcases hkind hu with hu | rfl
        · rw [hu] at hf
          cases hf
        · rw [hb] at hf
          cases hf
      | instructions c =>
        obtain rfl := Option.some.inj ho
        have hc := kind_of_mem_instructions hin
        rcases hkind hu with hu | rfl
        · rw [hu] at hc
          cases hc
        · exact .inl rfl
  · refine iff_of_false (fun hwD => ?_) fun hfD => ?_
    · obtain ⟨d, hd, hpay⟩ := get?_of_position hw
      have hargument : s.layout.kind w = some .argument :=
        layout_kind.2 ⟨rfl, d, hd, by rw [Value.kind, hpay]; rfl⟩
      rcases hkind hwD with hk | rfl
      · rw [hargument] at hk
        cases hk
      · rw [hargument] at hb
        cases hb
    · have hf := kind_of_mem_arguments (List.mem_of_getElem? ((hp.argument w f i).1 hw))
      rcases hkind hfD with hk | rfl
      · rw [hf] at hk
        cases hk
      · rw [hf] at hb
        cases hb

theorem closed_function (hp : s.layout.Placed) (hf : s.layout.kind f = some .function)
    (hplace : s.layout.place f = none) (hblocks : s.layout.children (.blocks f) = []) :
    s.layout.Closed (s.layout.arguments f ++ [f]) := by
  have hmem {w : ValueId} : w ∈ s.layout.arguments f ++ [f] ↔
      (∃ i, s.layout.position w = some (f, i)) ∨ w = f := by
    rw [List.mem_append, List.mem_singleton, List.mem_iff_getElem?]
    simp only [hp.argument]
  have hkind {w : ValueId} (hw : w ∈ s.layout.arguments f ++ [f]) :
      s.layout.kind w = some .argument ∨ w = f := by
    refine (hmem.1 hw).imp_left fun h => ?_
    obtain ⟨i, hi⟩ := h
    obtain ⟨d, hd, hpay⟩ := get?_of_position hi
    exact layout_kind.2 ⟨rfl, d, hd, by rw [Value.kind, hpay]; rfl⟩
  refine ⟨fun {w p} hw => ?_, fun {w g i} hw => ?_⟩
  · refine iff_of_false (fun hwD => ?_) ?_
    · rcases hkind hwD with hk | rfl
      · rw [place_of_kind hk] at hw
        cases hw
      · rw [hplace] at hw
        cases hw
    · rintro ⟨u, hu, ho⟩
      have hin := (hp.child w p).1 hw
      cases p with
      | functions m => cases ho
      | globals m => cases ho
      | blocks g =>
        obtain rfl := Option.some.inj ho
        have hg := kind_of_mem_blocks hin
        rcases hkind hu with hu | rfl
        · rw [hu] at hg
          cases hg
        · rw [hblocks] at hin
          cases hin
      | instructions c =>
        obtain rfl := Option.some.inj ho
        have hc := kind_of_mem_instructions hin
        rcases hkind hu with hu | rfl
        · rw [hu] at hc
          cases hc
        · rw [hf] at hc
          cases hc
  · have hg := kind_of_mem_arguments (List.mem_of_getElem? ((hp.argument w g i).1 hw))
    rw [hmem, hw]
    constructor
    · rintro (⟨j, hj⟩ | rfl)
      · obtain rfl := (Prod.mk.inj (Option.some.inj hj)).1
        simp
      · rw [position_of_kind hf (by simp)] at hw
        cases hw
    · intro hgD
      rcases hkind hgD with hk | rfl
      · rw [hg] at hk
        cases hk
      · exact .inl ⟨i, rfl⟩

theorem scope_of_mem_arguments (hp : s.layout.Placed) (hv : v ∈ s.layout.arguments f) :
    s.layout.scope v = some (.function f) := by
  obtain ⟨i, hi⟩ := List.mem_iff_getElem?.1 hv
  have hpos := (hp.argument v f i).2 hi
  obtain ⟨d, hd, hpay⟩ := get?_of_position hpos
  have hnone : s.layout.place v = none := by
    rw [layout_place hd, hpay]
    rfl
  simp only [Layout.scope, hnone, hpos, Option.map_some]

theorem place_ne_of_mem_arguments (hp : s.layout.Placed) (hv : v ∈ s.layout.arguments f)
    (w : ValueId) : s.layout.place w ≠ some (.instructions v) := by
  intro hw
  have hblock := kind_of_mem_instructions ((hp.child w _).1 hw)
  obtain ⟨i, hi⟩ := List.mem_iff_getElem?.1 hv
  have hpos := (hp.argument v f i).2 hi
  rw [position_of_kind hblock (by simp)] at hpos
  cases hpos

theorem ends_destroyAll_named (hs : s.Settled) {vs : List ValueId} (hn : s.layout.Named total [])
    (hleaf : ∀ v ∈ vs, ∀ w, s.layout.place w ≠ some (.instructions v)) :
    Ends (vs.forM destroyValue) s (fun _ s' => ∀ {sc t k w}, s'.layout.tables sc = some t →
      t.find? k = some w → w ∉ vs ∧ s.layout.scope w = some sc) fun _ _ => True := by
  let I (done : List ValueId) (s' : Store) := s'.Settled ∧
    (∀ {w sc}, s'.layout.scope w = some sc → s.layout.scope w = some sc) ∧
    (∀ {w p}, s'.layout.place w = some p → s.layout.place w = some p) ∧
    ∃ xs, (∀ v ∈ done, v ∈ xs) ∧ s'.layout.Named False xs
  have hstart : I [] s := ⟨hs, id, id, [], by simp, False.elim, hn.owned⟩
  refine (ends_forM_visited (E := fun _ _ => True) vs I ?_ s hstart).mono ?_ fun _ _ _ => trivial
  · rintro done v rest s₁ hvs ⟨hs₁, hscope, hplace, xs, hdone, hn₁⟩
    refine (ends_destroyValue hs₁).mono ?_ fun _ _ _ => trivial
    rintro _ s₂ ⟨hs₂, L₂, hstrikes, hlayout⟩
    have hr := hstrikes.renamed
    refine ⟨hs₂, fun hw => ?_, fun {w p} hw => ?_, v :: xs, fun u hu => ?_, ?_⟩
    · rw [hlayout] at hw
      exact hscope (hr.scope ▸ (scope_drop hw).2)
    · rw [hlayout] at hw
      change (if w ∈ [v] then none else L₂.place w) = some p at hw
      split at hw
      · cases hw
      · exact hplace (hr.place ▸ hw)
    · obtain hu | hu := List.mem_append.1 hu
      · exact List.mem_cons_of_mem _ (hdone u hu)
      · exact List.mem_cons.2 (.inl (List.mem_singleton.1 hu))
    · rw [hlayout]
      refine (hstrikes.named hn₁).dropOne (List.mem_cons_self ..) fun w hw => ?_
      exact hleaf v (by simp [hvs]) w (hplace (hr.place ▸ hw))
  · rintro _ s' ⟨-, hscope, -, xs, hdone, hn'⟩ sc t k w ht hf
    obtain ⟨hw, -, hsc⟩ := hn'.owned ht hf
    exact ⟨fun hvs => hw (hdone w hvs), hscope hsc⟩

theorem ends_expectEmptyScope {sc : Scope}
    (h : ∀ {t k w}, s.layout.tables sc = some t → t.find? k ≠ some w) :
    Ends (liftM (Query.expectEmptyScope sc) : Edit Unit) s (fun _ s' => s' = s)
      fun x _ => x.IsContained := by
  rw [Query.expectEmptyScope, lift_bind]
  refine Query.regular_symbols.ends_bind (fun _ hx => hx) fun t ht => ?_
  have hempty : t.size = 0 := by
    refine Std.ExtTreeMap.eq_empty_iff_size_eq_zero.1
      (Std.ExtTreeMap.eq_empty_iff_forall_not_mem.2 fun k hk => ?_)
    exact h (Query.symbols_ok.1 ht) (Std.ExtTreeMap.getElem?_eq_some_getElem hk)
  rw [if_neg (not_not_intro hempty)]
  rfl

theorem keeps_emptyOperands_layout : Keeps (SettledWith L) (emptyOperands v) := fun s hs =>
  Ends.and (keeps_emptyOperands s hs.1)
    (Fixes.keeps fixes_emptyOperands.of_unwired (· = L) s hs.2)

def detachBlock (b : ValueId) : Edit Unit := do
  if (← Query.blockParent b).isSome then removeBlock b

def razeBlock (b : ValueId) : Edit Unit := do
  let insts ← Query.blockInstructions b
  modifyInstructions b fun _ => []
  insts.forM emptyOperands
  insts.forM destroyValue
  destroyValue b

theorem eraseBlock_eq (b : ValueId) : eraseBlock b = (do
    Query.expectKind b .block
    let members ← Query.blockMembers b
    Query.expectErasable members.all members.inside
    nullifyBlockAddresses b
    detachBlock b
    razeBlock b) := by
  unfold eraseBlock
  refine bind_congr fun _ => bind_congr fun members => bind_congr fun _ => bind_congr fun _ => ?_
  rw [detachBlock, bind_assoc]
  refine bind_congr fun f => ?_
  split
  · rfl
  · rfl

theorem ends_detachBlock (hs : s.Settled) (hc : s.layout.Consistent total) :
    Ends (detachBlock b) s (fun _ s' => s'.Settled ∧ s'.core = s.core ∧ s'.layout.Consistent total ∧
      s.layout.Uproots s'.layout b) fun _ _ => True := by
  refine ends_bind.2 (ends_lift.2 ⟨fun o ho => ?_, fun _ _ => trivial⟩)
  obtain ⟨hb, hplace⟩ := Query.blockParent_ok.1 ho
  have hcore : Fixes Store.core (removeBlock b) := fixes_removeBlock
  split
  · refine Ends.mono (Ends.and (keeps_of_fixes fixes_removeBlock s hs)
      ((hcore.ends s).and (ends_removeBlock hc))) ?_ fun _ _ _ => trivial
    rintro _ s' ⟨hs', hcore', hc', hd, q, hq, hr⟩
    exact ⟨hs', hcore', hc', uproots_of_detach hr hq hd⟩
  next hnone =>
    cases o with
    | some f => exact absurd rfl hnone
    | none => exact ⟨hs, rfl, hc, uproots_of_placed hc hplace (position_of_kind hb (by simp))⟩

theorem ends_razeBlock (hs : s.Settled) (hp : s.layout.Placed)
    (hb : s.layout.kind b = some .block) (hplace : s.layout.place b = none) : Ends (razeBlock b) s
    (fun _ s' => s'.Settled ∧
      s'.layout = s.layout.drop (s.layout.children (.instructions b) ++ [b])) fun _ _ => True := by
  unfold razeBlock
  rw [ends_bind, ends_lift_ok (Query.blockInstructions_ok.2 ⟨hb, rfl⟩)]
  refine Ends.bind (Ends.mono (Ends.and (keeps_of_fixes (fixes_modifyInstructions (b := b)
    (k := fun _ => [])) s hs) (ends_modifyInstructions (r := fun _ => []) hb))
    (fun _ _ h => h) fun _ _ _ => trivial) ?_
  rintro _ s₁ ⟨hs₁, hlayout₁⟩
  have hempty : Keeps (SettledWith s₁.layout)
      ((s.layout.children (.instructions b)).forM emptyOperands) :=
    .forM (fun _ => keeps_emptyOperands_layout) _
  refine Ends.bind (Ends.mono (hempty s₁ ⟨hs₁, rfl⟩) (fun _ _ h => h) fun _ _ _ => trivial) ?_
  rintro _ s₂ ⟨hs₂, hlayout₂⟩
  rw [hlayout₁] at hlayout₂
  have hdrop : s₂.layout.drop (s.layout.children (.instructions b) ++ [b]) =
      s.layout.drop (s.layout.children (.instructions b) ++ [b]) := by
    rw [hlayout₂]
    exact drop_relist ⟨b, by simp, rfl⟩
  have hscope : ∀ u ∈ s.layout.children (.instructions b) ++ [b], ∀ sc,
      s₂.layout.scope u = some sc → sc = .function b := by
    intro u hu sc hsc
    have hnone : s.layout.scope u = none := by
      rw [List.mem_append, List.mem_singleton] at hu
      rcases hu with hu | rfl
      · exact scope_of_instructions ((hp.child u _).2 hu) hplace
      · exact scope_of_unplaced hplace (position_of_kind hb (by simp))
    rw [hlayout₂, show (s.layout.relist (.instructions b) fun _ => []).scope u =
      s.layout.scope u from rfl, hnone] at hsc
    cases hsc
  refine Ends.bind (ends_destroyAll hs₂ _ hdrop hscope) ?_
  rintro _ s₃ ⟨hs₃, hlayout₃, hscope₃⟩
  exact (ends_destroyLast hs₃ hlayout₃ hscope₃).mono (fun _ _ h => h) fun _ _ _ => trivial

theorem ends_eraseBlock_uproots (hs : s.Settled) (hc : s.layout.Consistent total) :
    Ends (eraseBlock b) s (fun _ s' => s'.Settled ∧ ∃ L, L.Consistent total ∧
      s.layout.Uproots L b ∧ L.Closed (s.layout.children (.instructions b) ++ [b]) ∧
      s'.layout = L.drop (s.layout.children (.instructions b) ++ [b])) fun _ _ => True := by
  rw [eraseBlock_eq]
  refine ends_bind.2 (ends_lift.2 ⟨fun _ hb => ?_, fun _ _ => trivial⟩)
  refine ends_bind.2 (ends_lift.2 ⟨fun members _ => ?_, fun _ _ => trivial⟩)
  refine ends_bind.2 (ends_lift.2 ⟨fun _ _ => ?_, fun _ _ => trivial⟩)
  have hb := (Query.expectKind_layout rfl).1 hb
  refine Ends.bind (Ends.mono (keeps_nullifyBlockAddresses_layout s ⟨hs, rfl⟩) (fun _ _ h => h)
    fun _ _ _ => trivial) ?_
  rintro _ s₁ ⟨hs₁, hlayout₁⟩
  rw [← hlayout₁] at hb hc ⊢
  refine Ends.bind (ends_detachBlock hs₁ hc) ?_
  rintro _ s₂ ⟨hs₂, -, hc₂, hu⟩
  have hb₂ : s₂.layout.kind b = some .block := by rw [hu.kind, hb]
  rw [← instructions_of_uproots hu hb]
  refine (ends_razeBlock hs₂ hc₂.placed hb₂ hu.place_self).mono ?_ fun _ _ hx => hx
  rintro _ s₃ ⟨hs₃, hlayout₃⟩
  exact ⟨hs₃, s₂.layout, hc₂, hu, closed_block hc₂.placed hb₂ hu.place_self, hlayout₃⟩

theorem ends_eraseBlock (hs : s.Settled) (hc : s.layout.Consistent total) : Ends (eraseBlock b) s
    (fun _ s' => s'.Settled ∧ s'.layout.Consistent total ∧ s.layout.Sheds s'.layout b)
    fun _ _ => True := by
  refine (ends_eraseBlock_uproots hs hc).mono ?_ fun _ _ hx => hx
  rintro _ s' ⟨hs', L, hL, hu, hclosed, hlayout⟩
  rw [hlayout]
  exact ⟨hs', hL.drop hclosed, (hu.sheds hc.placed).drop⟩

theorem keeps_emptyBody_layout : Keeps (SettledWith L) (emptyBody f) :=
  .bind (.lift _) fun _ => .forM (fun _ => .bind (.lift _) fun _ =>
    .forM (fun _ => keeps_emptyOperands_layout) _) _

theorem ends_eraseBlocks (hs : s.Settled) (hc : s.layout.Consistent total) :
    Ends ((s.layout.children (.blocks f)).forM eraseBlock) s (fun _ s' =>
      s'.Settled ∧ s'.layout.Consistent total ∧ s'.layout.children (.blocks f) = [] ∧
        ∀ p u, u ∈ s'.layout.children p → u ∈ s.layout.children p) fun x _ => x.IsContained := by
  let I (rest : List ValueId) (s' : Store) := s'.Settled ∧ s'.layout.Consistent total ∧
    (∀ p u, u ∈ s'.layout.children p → u ∈ s.layout.children p) ∧
    ∀ u ∈ s'.layout.children (.blocks f), u ∈ rest
  refine (ends_forM I ?_ _ s ⟨hs, hc, fun _ _ hu => hu, fun _ hu => hu⟩).mono ?_ fun _ _ hx => hx
  · rintro b rest s' ⟨hs', hc', hsub, hrest⟩
    refine (regular_eraseBlock.ends_of (ends_eraseBlock hs' hc')).mono ?_ fun _ _ hx => hx
    rintro _ s'' ⟨hs'', hc'', hshed⟩
    refine ⟨hs'', hc'', fun p u hu => hsub p u (hshed p u hu).1, fun u hu => ?_⟩
    obtain ⟨hu, hne⟩ := hshed _ u hu
    exact (List.mem_cons.1 (hrest u hu)).resolve_left hne
  · rintro _ s' ⟨hs', hc', hsub, hnil⟩
    refine ⟨hs', hc', List.eq_nil_iff_forall_not_mem.2 fun u hu => ?_, hsub⟩
    exact List.not_mem_nil (hnil u hu)

theorem ends_destroyFunction (hs : s.Settled) (hc : s.layout.Consistent total)
    (hf : s.layout.kind f = some .function) (hplace : s.layout.place f = none)
    (hblocks : s.layout.children (.blocks f) = []) : Ends (do
      (s.layout.arguments f).forM destroyValue
      Query.expectEmptyScope (.function f)
      destroyValue f) s
    (fun _ s' => s'.Settled ∧ s'.layout.Consistent total ∧
      s'.layout = s.layout.drop (s.layout.arguments f ++ [f])) fun x _ => x.IsContained := by
  have hclosed := closed_function hc.placed hf hplace hblocks
  have hscope : ∀ u ∈ s.layout.arguments f ++ [f], ∀ sc, s.layout.scope u = some sc →
      sc = .function f := by
    intro u hu sc hsc
    rw [List.mem_append, List.mem_singleton] at hu
    rcases hu with hu | rfl
    · rw [scope_of_mem_arguments hc.placed hu] at hsc
      exact (Option.some.inj hsc).symm
    · rw [scope_of_unplaced hplace (position_of_kind hf (by simp))] at hsc
      cases hsc
  refine Ends.bind (Regular.ends_of (.forM (fun _ => regular_destroyValue) _)
    ((ends_destroyAll hs _ rfl hscope).and (ends_destroyAll_named hs hc.named
      fun _ hu => place_ne_of_mem_arguments hc.placed hu))) ?_
  rintro _ s₁ ⟨⟨hs₁, hlayout₁, hscope₁⟩, hnamed₁⟩
  have hempty {t : SymbolTable} {k : UInt64} {w : ValueId}
      (ht : s₁.layout.tables (.function f) = some t) : t.find? k ≠ some w := fun hfind => by
    obtain ⟨hgone, hsc⟩ := hnamed₁ ht hfind
    exact hgone (hc.placed.mem_arguments_of_scope hblocks hsc)
  refine Ends.bind (ends_expectEmptyScope hempty) ?_
  rintro _ _ rfl
  refine (regular_destroyValue.ends_of (ends_destroyLast hs₁ hlayout₁ hscope₁)).mono ?_
    fun _ _ hx => hx
  rintro _ s₂ ⟨hs₂, hlayout₂⟩
  exact ⟨hs₂, hlayout₂ ▸ hc.drop hclosed, hlayout₂⟩

theorem ends_eraseFunction (hs : s.Settled) (hc : s.layout.Consistent total) :
    Ends (eraseFunction f) s
      (fun _ s' => s'.Settled ∧ s'.layout.Consistent total ∧ s.layout.Sheds s'.layout f)
      fun x _ => x.IsContained := by
  refine Query.regular_expectKind.ends_bind (fun _ hx => hx) fun _ _ => ?_
  refine Query.regular_functionMembers.ends_bind (fun _ hx => hx) fun members _ => ?_
  refine Query.regular_expectErasable.ends_bind (fun _ hx => hx) fun _ _ => ?_
  refine Query.regular_functionModule.ends_bind (fun _ hx => hx) fun o ho => ?_
  obtain ⟨-, hplace⟩ := Query.functionModule_ok.1 ho
  -- What follows once the function is detached.
  have htail {s₁ : Store} (hs₁ : s₁.Settled) (hc₁ : s₁.layout.Consistent total)
      (hplace₁ : s₁.layout.place f = none) (hshed : s.layout.Sheds s₁.layout f) : Ends (do
        emptyBody f
        (← Query.functionBlocks f).forM eraseBlock
        (← Query.functionArguments f).forM destroyValue
        Query.expectEmptyScope (.function f)
        destroyValue f) s₁
      (fun _ s' => s'.Settled ∧ s'.layout.Consistent total ∧ s.layout.Sheds s'.layout f)
      fun x _ => x.IsContained := by
    refine Ends.bind (regular_emptyBody.ends_of (keeps_emptyBody_layout s₁ ⟨hs₁, rfl⟩)) ?_
    rintro _ s₂ ⟨hs₂, hlayout₂⟩
    rw [← hlayout₂] at hc₁ hplace₁ hshed
    refine Query.regular_functionBlocks.ends_bind (fun _ hx => hx) fun blocks hblocks => ?_
    obtain ⟨-, rfl⟩ := Query.functionBlocks_ok.1 hblocks
    refine Ends.bind (ends_eraseBlocks hs₂ hc₁) ?_
    rintro _ s₃ ⟨hs₃, hc₃, hblocks₃, hsub⟩
    have hplace₃ : s₃.layout.place f = none := by
      rw [Option.eq_none_iff_forall_ne_some]
      intro p hp
      have hin := (hc₁.placed.child f p).2 (hsub p f ((hc₃.placed.child f p).1 hp))
      rw [hplace₁] at hin
      cases hin
    refine Query.regular_functionArguments.ends_bind (fun _ hx => hx) fun args hargs => ?_
    obtain ⟨hf₃, rfl⟩ := Query.functionArguments_ok.1 hargs
    refine (ends_destroyFunction hs₃ hc₃ hf₃ hplace₃ hblocks₃).mono ?_ fun _ _ hx => hx
    rintro _ s₄ ⟨hs₄, hc₄, hlayout₄⟩
    refine ⟨hs₄, hc₄, fun p u hu => hshed p u (hsub p u ?_)⟩
    rw [hlayout₄] at hu
    exact mem_children_of_drop hu
  split
  · refine Ends.bind (regular_removeFunction.ends_of
      (Ends.and (keeps_of_fixes fixes_removeFunction s hs) (ends_removeFunction hc))) ?_
    rintro _ s₁ ⟨hs₁, hc₁, q, hq, hr⟩
    refine htail hs₁ hc₁ ?_ (Sheds.of_detach hr hc.placed hq)
    rw [hr.place]
    exact Function.update_self ..
  next hnone =>
    cases o with
    | some m => exact absurd rfl hnone
    | none => exact htail hs hc hplace (Sheds.of_placed hc.placed hplace)

theorem ends_eraseModule (hs : s.Settled) (hc : s.layout.Consistent total) : Ends (eraseModule m) s
    (fun _ s' => s'.layout.Consistent total) fun x _ => x.IsContained := by
  refine Query.regular_module.ends_bind (fun _ hx => hx) fun dm hm => ?_
  rw [Query.module_ok] at hm
  refine Query.regular_moduleMembers.ends_bind (fun _ hx => hx) fun members _ => ?_
  refine Query.regular_expectErasable.ends_bind (fun _ hx => hx) fun _ _ => ?_
  have hbodies : Keeps (SettledWith s.layout) (dm.functions.forM emptyBody) :=
    .forM (fun _ => keeps_emptyBody_layout) _
  refine Ends.bind
    (Regular.ends_of (.forM (fun _ => regular_emptyBody) _) (hbodies s ⟨hs, rfl⟩)) ?_
  rintro _ s₁ ⟨hs₁, hlayout₁⟩
  have hglobals : Keeps (SettledWith s.layout) (dm.globals.forM emptyOperands) :=
    .forM (fun _ => keeps_emptyOperands_layout) _
  refine Ends.bind
    (Regular.ends_of (.forM (fun _ => regular_emptyOperands) _) (hglobals s₁ ⟨hs₁, hlayout₁⟩)) ?_
  rintro _ s₂ ⟨hs₂, hlayout₂⟩
  let I (fs gs : List ValueId) (s' : Store) := s'.Settled ∧ s'.layout.Consistent total ∧
    (∀ u ∈ s'.layout.children (.functions m), u ∈ fs) ∧
    ∀ u ∈ s'.layout.children (.globals m), u ∈ gs
  refine Ends.bind (ends_forM (fun rest => I rest dm.globals) ?_ dm.functions s₂
    ⟨hs₂, hlayout₂ ▸ hc, fun u hu => ?_, fun u hu => ?_⟩) ?_
  · rintro f rest s' ⟨hs', hc', hfs, hgs⟩
    refine (ends_eraseFunction hs' hc').mono ?_ fun _ _ hx => hx
    rintro _ s'' ⟨hs'', hc'', hshed⟩
    refine ⟨hs'', hc'', fun u hu => ?_, fun u hu => hgs u (hshed _ u hu).1⟩
    exact (List.mem_cons.1 (hfs u (hshed _ u hu).1)).resolve_left (hshed _ u hu).2
  · rwa [hlayout₂, layout_functions hm] at hu
  · rwa [hlayout₂, layout_globals hm] at hu
  intro _ s₃ hs₃
  refine Ends.bind (ends_forM (fun rest => I [] rest) ?_ dm.globals s₃ hs₃) ?_
  · rintro g rest s' ⟨hs', hc', hfs, hgs⟩
    refine (regular_eraseGlobal.ends_of (ends_eraseGlobal hs' hc')).mono ?_ fun _ _ hx => hx
    rintro _ s'' ⟨hs'', hc'', hshed⟩
    refine ⟨hs'', hc'', fun u hu => hfs u (hshed _ u hu).1, fun u hu => ?_⟩
    exact (List.mem_cons.1 (hgs u (hshed _ u hu).1)).resolve_left (hshed _ u hu).2
  rintro _ s₄ ⟨-, hc₄, hfs, hgs⟩
  refine Query.regular_namedMetadataNames.ends_bind (fun _ hx => hx) fun names _ => ?_
  have hnamed : Fixes Store.layout (names.forM (eraseNamedMetadata m)) :=
    .forM (fun _ => fixes_eraseNamedMetadata.of_body) names
  refine Ends.bind
    (Regular.ends_of (.forM (fun _ => regular_eraseNamedMetadata) _) (hnamed.ends s₄)) ?_
  intro _ s₅ hlayout₅
  have hc₅ : s₅.layout.Consistent total := hlayout₅ ▸ hc₄
  have hnil {p : Place} (h : ∀ u ∈ s₄.layout.children p, u ∈ []) : s₅.layout.children p = [] := by
    rw [hlayout₅]
    exact List.eq_nil_iff_forall_not_mem.2 fun u hu => List.not_mem_nil (h u hu)
  have hf := hnil hfs
  have hg := hnil hgs
  have hunnamed {t : SymbolTable} {k : UInt64} {w : ValueId}
      (ht : s₅.layout.tables (.module m) = some t) : t.find? k ≠ some w := fun hfind =>
    hc₅.placed.scope_ne_module hf hg w (hc₅.named.owned ht hfind).2.2
  refine Ends.bind (ends_expectEmptyScope hunnamed) ?_
  rintro _ s' rfl
  rw [ends_modify]
  change (s'.dropModule m).layout.Consistent total
  rw [layout_dropModule hf hg]
  exact hc₅.dropTable hf hg

end Containers

end Edit

end ShaderIR
