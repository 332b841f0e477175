import ShaderIR.Proofs.FunctionErasure
import ShaderIR.Proofs.LiveLocations

/-! Erasing a module in order. All bodies and globals let go of what they use; then the functions
go, the globals, and the handles that the module names. -/

namespace ShaderIR

open Edit

namespace Layout

variable {L : Layout} {m : ModuleId} {v : ValueId}

/-- What a module consists of, and what of it lets go of its operands before anything goes. -/
def moduleMembers (L : Layout) (m : ModuleId) : Query.Members where
  all := L.children (.globals m) ++ (L.children (.functions m)).flatMap fun f => f :: (L.members f).all
  inside := L.children (.globals m) ++ (L.children (.functions m)).flatMap L.body

theorem mem_moduleBatches : v ∈ (L.moduleBatches m).flatMap Batch.members ↔
    (∃ f ∈ L.children (.functions m), v ∈ (L.functionBatches f).flatMap Batch.members) ∨
      v ∈ L.children (.globals m) := by
  rw [moduleBatches, List.flatMap_append, List.mem_append, List.flatMap_assoc, List.mem_flatMap,
    Batch.members_map_single]

theorem mem_moduleMembers : v ∈ (L.moduleMembers m).all ↔
    v ∈ (L.moduleBatches m).flatMap Batch.members := by
  rw [mem_moduleBatches, or_comm, moduleMembers, List.mem_append, List.mem_flatMap]
  exact or_congr Iff.rfl (exists_congr fun f => and_congr_right fun _ => mem_members)

theorem mem_moduleMembers_inside : v ∈ (L.moduleMembers m).inside ↔
    v ∈ (L.children (.functions m)).flatMap L.body ∨ v ∈ L.children (.globals m) := by
  rw [moduleMembers, List.mem_append, or_comm]

end Layout

namespace Query

variable {s : Store} {m : ModuleId}

theorem moduleMembers_ok (hp : s.layout.Placed) {d : Module} (hm : s.modules.get? m = some d) :
    moduleMembers m s = .ok (s.layout.moduleMembers m) := by
  have hfunctions := Store.layout_functions hm
  have hglobals := Store.layout_globals hm
  refine bind_ok.2 ⟨_, module_ok.2 hm, bind_ok.2 ⟨_, mapM_ok fun f hf =>
    bind_ok.2 ⟨_, functionMembers_ok hp ?_, rfl⟩, pure_ok.2 ?_⟩⟩
  · exact Store.kind_of_place ((hp.child f _).2 (hfunctions ▸ hf))
  · rw [foldl_append, Layout.moduleMembers, hfunctions, hglobals, List.flatMap_map, List.flatMap_map]
    rfl

end Query

namespace Store

variable {s s' : Store} {f g v : ValueId} {m : ModuleId} {hs : List HandleId}

theorem scope_of_module (hp : s.layout.Placed) (hv : v ∈ s.layout.children (.functions m) ∨
    v ∈ s.layout.children (.globals m)) : s.layout.scope v = some (.module m) := by
  obtain hv | hv := hv
  · simp only [Layout.scope, (hp.child v _).2 hv]
  · simp only [Layout.scope, (hp.child v _).2 hv]

theorem apart_of_mem_functionBatches (hp : s.layout.Placed)
    (hf : f ∈ s.layout.children (.functions m))
    (hv : v ∈ (s.layout.functionBatches f).flatMap Batch.members) :
    v ∉ s.layout.children (.globals m) ∧ ∀ g ∈ s.layout.children (.functions m), g ≠ f →
      v ≠ g ∧ s.layout.scope v ≠ some (.function g) := by
  have hscope := scope_of_mem_functionBatches hp hv
  refine ⟨fun hmem => ?_, fun g hg hne => ⟨?_, fun hsc => ?_⟩⟩
  · obtain rfl | hscope := hscope
    · cases ((hp.child v _).2 hmem).symm.trans ((hp.child v _).2 hf)
    · cases (scope_of_module hp (.inr hmem)).symm.trans hscope
  · rintro rfl
    obtain rfl | hscope := hscope
    · exact hne rfl
    · cases (scope_of_module hp (.inl hg)).symm.trans hscope
  · obtain rfl | hscope := hscope
    · cases (scope_of_module hp (.inl hf)).symm.trans hsc
    · exact hne (Scope.function.inj (Option.some.inj (hsc.symm.trans hscope)))

/-- Handles that are live, each of them once. -/
structure Releasable (s : Store) (hs : List HandleId) : Prop where
  nodup : hs.Nodup
  live : ∀ h ∈ hs, (s.metadata.handles.get? h).isSome

instance : Decidable (s.Releasable hs) :=
  decidable_of_iff (hs.Nodup ∧ ∀ h ∈ hs, (s.metadata.handles.get? h).isSome)
    ⟨fun h => ⟨h.1, h.2⟩, fun h => ⟨h.1, h.2⟩⟩

structure Strips (m : ModuleId) (s : Store) (entries : List (String × List HandleId)) (s' : Store) :
    Prop where
  values : s'.values = s.values
  uses : s'.uses = s.uses
  others : ∀ m', m' ≠ m → s'.modules.get? m' = s.modules.get? m'
  named : (s'.modules.get? m).map Module.named = some entries
  releasable : s'.Releasable (entries.flatMap Prod.snd)

end Store

namespace Edit

open Store

variable {B D I : ValueId → Prop} {s s' : Store} {f g v : ValueId} {m : ModuleId}
variable {freed done fs gs : List ValueId} {total : Prop}

section Members

theorem ends_emptyBodies_phase (h : Phase B D s I freed done s') (hp : s'.layout.Placed)
    (hf : ∀ f ∈ fs, s'.layout.kind f = some .function) (hD : ∀ v ∈ fs.flatMap s'.layout.body, D v) :
    Ends (fs.forM emptyBody) s' (fun _ q => Phase B D s (fun u => I u ∨ u ∈ fs.flatMap s'.layout.body)
      freed done q ∧ q.layout = s'.layout) fun _ _ => False := by
  refine ends_forM_visited _ (fun past q =>
    Phase B D s (fun u => I u ∨ u ∈ past.flatMap s'.layout.body) freed done q ∧
      q.layout = s'.layout) ?_ s' ⟨h.mono fun u hu => hu.resolve_right List.not_mem_nil, rfl⟩
  rintro past f rest p rfl ⟨hphase, hlayout⟩
  have hmem : f ∈ past ++ f :: rest := List.mem_append_right _ (List.mem_cons_self ..)
  rw [← hlayout] at hp hf hD
  refine (ends_emptyBody_phase hphase hp (hf f hmem) fun v hv =>
    hD v (List.mem_flatMap.2 ⟨f, hmem, hv⟩)).weaken ?_
  rintro _ q ⟨hq, hsame⟩
  refine ⟨hq.mono fun u hu => ?_, hsame.trans hlayout⟩
  rw [hlayout]
  rwa [List.flatMap_append, List.flatMap_singleton, List.mem_append, ← or_assoc] at hu

theorem ends_eraseFunctions_phase (h : Phase B D s I freed done s')
    (hc : s'.layout.Consistent total) (hD : ∀ f ∈ s'.layout.children (.functions m),
      ∀ v ∈ (s'.layout.functionBatches f).flatMap Batch.members, D v)
    (hconf : ∀ f ∈ s'.layout.children (.functions m),
      ∀ v ∈ (s'.layout.functionBatches f).flatMap Batch.members, s.Confines I v)
    (hfore : s.ForeseesAll freed done
      ((s'.layout.children (.functions m)).flatMap s'.layout.functionBatches)) :
    Ends ((s'.layout.children (.functions m)).forM eraseFunction) s' (fun _ =>
      Erased total B D s I freed done
        ((s'.layout.children (.functions m)).flatMap s'.layout.functionBatches) s')
      fun _ _ => False := by
  have hnodup := hc.placed.nodup (.functions m)
  refine ends_forM_visited _ (fun past => Erased total B D s I freed done
    (past.flatMap s'.layout.functionBatches) s') ?_ s' (.nil h hc)
  rintro past f rest p hfunctions hp
  have hf : f ∈ s'.layout.children (.functions m) := by simp [hfunctions]
  have hapart : ∀ v ∈ (past.flatMap s'.layout.functionBatches).flatMap Batch.members,
      v ≠ f ∧ s'.layout.scope v ≠ some (.function f) := by
    intro v hv
    rw [List.flatMap_assoc, List.mem_flatMap] at hv
    obtain ⟨g, hgp, hv⟩ := hv
    have hg : g ∈ s'.layout.children (.functions m) := by simp [hfunctions, hgp]
    refine (apart_of_mem_functionBatches hc.placed hg hv).2 f hf ?_
    rintro rfl
    rw [hfunctions] at hnodup
    exact (List.nodup_append.1 hnodup).2.2 _ hgp _ (List.mem_cons_self ..) rfl
  obtain ⟨hbatches, -, hkind⟩ := functionBatches_of_cuts hc.placed hp.cuts hapart
  rw [hfunctions, List.flatMap_append, foreseesAll_append, List.flatMap_cons,
    foreseesAll_append] at hfore
  refine (ends_eraseFunction_phase hp.phase hp.consistent
    (hkind.trans (kind_of_place ((hc.placed.child f _).2 hf))) (hbatches ▸ hD f hf)
    (hbatches ▸ hconf f hf) (hbatches ▸ hfore.2.1)).weaken ?_
  intro _ q hq
  rw [hbatches] at hq
  rw [List.flatMap_append, List.flatMap_singleton]
  exact hp.append hq

theorem ends_eraseGlobals_phase (h : Phase B D s I freed done s') (hc : s'.layout.Consistent total)
    (hnodup : gs.Nodup) (hkind : ∀ g ∈ gs, s'.layout.kind g = some .global) (hD : ∀ g ∈ gs, D g)
    (hconf : ∀ g ∈ gs, s.Confines I g)
    (hfore : s.ForeseesAll freed done (gs.map .single)) :
    Ends (gs.forM eraseGlobal) s' (fun _ => Erased total B D s I freed done
      (gs.map .single) s') fun _ _ => False := by
  refine ends_forM_visited _ (fun past => Erased total B D s I freed done
    (past.map .single) s') ?_ s' (.nil h hc)
  rintro past g rest p rfl hp
  have hg : g ∈ past ++ g :: rest := List.mem_append_right _ (List.mem_cons_self ..)
  have hout : g ∉ (past.map Batch.single).flatMap Batch.members := by
    rw [Batch.members_map_single]
    exact fun hmem => (List.nodup_append.1 hnodup).2.2 _ hmem _ (List.mem_cons_self ..) rfl
  rw [List.map_append, foreseesAll_append] at hfore
  obtain ⟨-, ⟨hforeg, -⟩, -⟩ := hfore
  refine (ends_eraseGlobal_phase hp.phase hp.consistent ((hp.cuts.kind hout).trans (hkind g hg))
    (hD g hg) (hconf g hg) (by simpa using hforeg)).weaken ?_
  intro _ q hq
  rw [List.map_append]
  exact hp.append hq

end Members

section Named

variable {p : Store} {text : String} {hs hs' : List HandleId}
variable {named : List (String × List HandleId)}

theorem ends_releaseHandles (h : s.Releasable (hs ++ hs')) : Ends (hs.forM releaseHandle) s
    (fun _ q => q.Releasable hs' ∧ ∃ md, q = { s with metadata := md }) fun _ _ => False := by
  induction hs generalizing s with
  | nil => exact ⟨h, s.metadata, rfl⟩
  | cons x hs ih =>
    obtain ⟨hnot, hnodup⟩ := List.nodup_cons.1 h.nodup
    obtain ⟨o, ho⟩ := Option.isSome_iff_exists.1 (h.live x (List.mem_cons_self ..))
    change Ends (releaseHandle x >>= fun _ => hs.forM releaseHandle) s _ _
    unfold releaseHandle
    rw [ends_bind, ends_bind, ends_lift_ok (Query.handle_ok.2 ho)]
    refine Ends.bind ends_untrackOption_any ?_
    rintro _ _ ⟨t, rfl⟩
    rw [ends_modify]
    refine (ih ⟨hnodup, fun y hy => ?_⟩).weaken ?_
    · refine (congrArg Option.isSome (Arena.get?_erase ..)).trans ?_
      rw [if_neg fun hxy : x = y => hnot (hxy ▸ hy)]
      exact h.live y (List.mem_cons_of_mem _ hy)
    · rintro _ _ ⟨hq, md, rfl⟩
      exact ⟨hq, md, rfl⟩

theorem ends_eraseNamedMetadata_strips (h : Strips m p ((text, hs) :: named) s) :
    Ends (eraseNamedMetadata m text) s (fun _ => Strips m p named) fun _ _ => False := by
  obtain ⟨d, hd, hnamed⟩ := Option.map_eq_some_iff.1 h.named
  unfold eraseNamedMetadata
  rw [ends_bind, ends_lift_ok (Query.module_ok.2 hd)]
  have hfind : d.named.find? (·.1 = text) = some (text, hs) := by simp [hnamed]
  rw [hfind]
  dsimp only
  rw [modifyModule, bind_assoc, ends_bind, ends_lift_ok (Query.module_ok.2 hd), ends_bind, ends_modify]
  let unname (d : Module) : Module := { d with named := d.named.eraseP (·.1 = text) }
  have hreleasable : (s.modifyModule m unname).Releasable (hs ++ named.flatMap Prod.snd) :=
    ⟨h.releasable.nodup, h.releasable.live⟩
  refine (ends_releaseHandles hreleasable).weaken ?_
  rintro _ _ ⟨hq, md, rfl⟩
  have hget (m' : ModuleId) : (s.modifyModule m unname).modules.get? m' =
      if m = m' then (s.modules.get? m').map unname else s.modules.get? m' := Arena.get?_modify ..
  refine ⟨h.values, h.uses, fun m' hm' => ?_, ?_, hq⟩
  · exact (hget m').trans ((if_neg hm'.symm).trans (h.others m' hm'))
  · refine (congrArg _ (hget m)).trans ?_
    simp [hd, hnamed, unname]

theorem ends_eraseAllNamed_strips (h : Strips m p named s) :
    Ends ((named.map Prod.fst).forM (eraseNamedMetadata m)) s (fun _ => Strips m p [])
      fun _ _ => False := by
  induction named generalizing s with
  | nil => exact h
  | cons entry named ih =>
    exact Ends.bind (ends_eraseNamedMetadata_strips h) fun _ _ hq => ih hq

def closeModule (m : ModuleId) : Edit Unit := do
  (← Query.namedMetadataNames m).forM (eraseNamedMetadata m)
  Query.expectEmptyScope (.module m)
  modify fun s => { s with
    modules := s.modules.erase m
    scopes := s.scopes.erase (.module m) }

theorem ends_closeModule (hm : (p.modules.get? m).map Module.named = some named)
    (h : p.Releasable (named.flatMap Prod.snd)) : Ends (closeModule m) p
    (fun _ s' => ∃ q, Strips m p [] q ∧ s' = q.dropModule m) fun x _ => x.IsLeak := by
  obtain ⟨d, hd, hnamed⟩ := Option.map_eq_some_iff.1 hm
  have hnames : Query.namedMetadataNames m p = .ok (named.map Prod.fst) :=
    Query.bind_ok.2 ⟨d, Query.module_ok.2 hd, by rw [hnamed]; rfl⟩
  unfold closeModule
  rw [ends_bind, ends_lift_ok hnames]
  have hstart : Strips m p named p := ⟨rfl, rfl, fun _ _ => rfl, hm, h⟩
  refine Ends.bind ((ends_eraseAllNamed_strips hstart).weaken fun _ _ h => h) ?_
  intro _ q hq
  obtain ⟨dq, hdq, -⟩ := Option.map_eq_some_iff.1 hq.named
  refine Ends.bind (ends_expectEmptyScope_leaks (tables_module.2 ⟨⟨dq, hdq⟩, rfl⟩)) ?_
  rintro _ _ rfl
  exact ⟨_, hq, rfl⟩

end Named

section Modules

variable {d : Module}

def emptyModule (d : Module) : Edit Unit := do
  d.functions.forM emptyBody
  d.globals.forM emptyOperands

def razeModule (d : Module) : Edit Unit := do
  d.functions.forM eraseFunction
  d.globals.forM eraseGlobal

def dismantleModule (m : ModuleId) (d : Module) : Edit Unit := do
  emptyModule d
  razeModule d
  closeModule m

theorem eraseModule_eq (m : ModuleId) : eraseModule m = (do
    let d ← Query.module m
    let members ← Query.moduleMembers m
    Query.expectErasable members.all members.inside
    dismantleModule m d) := by
  unfold dismantleModule emptyModule razeModule
  simp only [bind_assoc]
  rfl

theorem ends_emptyModule_phase (h : Phase B D s I freed done s') (hp : s'.layout.Placed)
    (hm : s'.modules.get? m = some d) (hD : ∀ v ∈ (s'.layout.moduleMembers m).all, D v) :
    Ends (emptyModule d) s' (fun _ q => q.layout = s'.layout ∧
      Phase B D s (fun u => I u ∨ u ∈ (s'.layout.moduleMembers m).inside) freed done q)
      fun _ _ => False := by
  have hkind {w : ValueId} {p : Place} (hw : w ∈ s'.layout.children p) :
      s'.layout.kind w = some p.childKind := kind_of_place ((hp.child w p).2 hw)
  unfold emptyModule
  rw [← layout_functions hm, ← layout_globals hm]
  refine Ends.bind (ends_emptyBodies_phase h hp (fun f hf => hkind (p := .functions m) hf)
    fun v hv => ?_) ?_
  · obtain ⟨f, hf, hv⟩ := List.mem_flatMap.1 hv
    obtain ⟨b, hb, hv⟩ := Layout.mem_body.1 hv
    refine hD v (Layout.mem_moduleMembers.2 (Layout.mem_moduleBatches.2 (.inl ⟨f, hf, ?_⟩)))
    exact Layout.mem_functionBatches.2 (.inl ⟨b, hb, List.mem_cons_of_mem _ hv⟩)
  rintro _ p ⟨hphase, hlayout⟩
  refine (ends_emptyAll_phase hphase (fun g hg => ⟨_, hlayout ▸ hkind hg⟩) fun g hg =>
    hD g (Layout.mem_moduleMembers.2 (Layout.mem_moduleBatches.2 (.inr hg)))).weaken ?_
  rintro _ q ⟨hq, hsame⟩
  refine ⟨hsame.trans hlayout, hq.mono fun u hu => ?_⟩
  rwa [Layout.mem_moduleMembers_inside, ← or_assoc] at hu

theorem ends_razeModule_phase (h : Phase B D s I freed done s') (hc : s'.layout.Consistent total)
    (hf : s'.layout.children (.functions m) = d.functions)
    (hg : s'.layout.children (.globals m) = d.globals)
    (hD : ∀ v ∈ (s'.layout.moduleMembers m).all, D v)
    (hconf : ∀ v ∈ (s'.layout.moduleMembers m).all, s.Confines I v)
    (hfore : s.ForeseesAll freed done (s'.layout.moduleBatches m)) : Ends (razeModule d) s'
      (fun _ => Erased total B D s I freed done (s'.layout.moduleBatches m) s') fun _ _ => False := by
  have hin {f v : ValueId} (hf : f ∈ s'.layout.children (.functions m))
      (hv : v ∈ (s'.layout.functionBatches f).flatMap Batch.members) :
      v ∈ (s'.layout.moduleMembers m).all :=
    Layout.mem_moduleMembers.2 (Layout.mem_moduleBatches.2 (.inl ⟨f, hf, hv⟩))
  have hglobal {g : ValueId} (hg : g ∈ s'.layout.children (.globals m)) :
      g ∈ (s'.layout.moduleMembers m).all :=
    Layout.mem_moduleMembers.2 (Layout.mem_moduleBatches.2 (.inr hg))
  obtain ⟨hforef, hforeg⟩ := foreseesAll_append.1 hfore
  unfold razeModule
  rw [← hf, ← hg]
  refine Ends.bind (ends_eraseFunctions_phase h hc (fun f hf v hv => hD v (hin hf hv))
    (fun f hf v hv => hconf v (hin hf hv)) hforef) ?_
  intro _ p hp
  have hkind {g : ValueId} (hg : g ∈ s'.layout.children (.globals m)) :
      p.layout.kind g = some .global := by
    refine (hp.cuts.kind fun hmem => ?_).trans (kind_of_place ((hc.placed.child g _).2 hg))
    rw [List.flatMap_assoc, List.mem_flatMap] at hmem
    obtain ⟨f, hf, hmem⟩ := hmem
    exact (apart_of_mem_functionBatches hc.placed hf hmem).1 hg
  refine (ends_eraseGlobals_phase hp.phase hp.consistent (hc.placed.nodup (.globals m))
    (fun g hg => hkind hg) (fun g hg => hD g (hglobal hg)) (fun g hg => hconf g (hglobal hg))
    hforeg).weaken fun _ _ hq => ?_
  exact hp.append hq

theorem ends_dismantleModule (hs : Coherent B s) (hc : s.layout.Consistent total)
    (hm : s.modules.get? m = some d) (hD : ∀ v ∈ (s.layout.moduleMembers m).all, D v)
    (hconf : ∀ v ∈ (s.layout.moduleMembers m).all,
      s.Confines (· ∈ (s.layout.moduleMembers m).inside) v)
    (hfore : s.ForeseesAll [] [] (s.layout.moduleBatches m))
    (hnamed : s.Releasable (d.named.flatMap Prod.snd)) : Ends (dismantleModule m d) s
      (fun _ s' => ∃ p q, Erased total B D s (· ∈ (s.layout.moduleMembers m).inside) [] []
        (s.layout.moduleBatches m) s p ∧ Strips m p [] q ∧ s' = q.dropModule m)
      fun x _ => x.IsLeak := by
  have hstart : Phase B D s (fun _ => False) [] [] s := .start hs
  refine Ends.bind ((ends_emptyModule_phase hstart hc.placed hm hD).weaken fun _ _ h => h) ?_
  rintro _ p₁ ⟨hlayout, hp₁⟩
  have hp₁ : Phase B D s (· ∈ (s.layout.moduleMembers m).inside) [] [] p₁ := hp₁.mono fun _ => .inr
  have hf := layout_functions hm
  have hg := layout_globals hm
  rw [← hlayout] at hp₁ hc hf hg hD hconf hfore ⊢
  refine Ends.bind ((ends_razeModule_phase hp₁ hc hf hg hD hconf hfore).weaken fun _ _ h => h) ?_
  intro _ p₂ hp₂
  have hupholds := hp₂.phase.thins.upholds
  have hnamed₂ : (p₂.modules.get? m).map Module.named = some d.named := by
    rw [hupholds.named, hm, Option.map_some]
  refine (ends_closeModule hnamed₂ ⟨hnamed.nodup, fun h hh => ?_⟩).mono ?_ fun _ _ h => h
  · obtain ⟨o, ho⟩ := Option.isSome_iff_exists.1 (hnamed.live h hh)
    exact Option.isSome_iff_exists.2 (hupholds.handle ho)
  · rintro _ s' ⟨q, hq, rfl⟩
    exact ⟨p₂, q, ⟨hp₂.phase, hp₂.consistent, hlayout ▸ hp₂.cuts⟩, hq, rfl⟩

end Modules

end Edit

end ShaderIR
