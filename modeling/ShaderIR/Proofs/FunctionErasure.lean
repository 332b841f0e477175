import ShaderIR.Proofs.ErasureOrder

/-! Erasing functions and globals in order. The bodies let go of all that they use before the first
block goes; the arguments go after the blocks, and the function goes last. -/

namespace ShaderIR

open Edit

namespace Layout

variable {L : Layout} {f v : ValueId}

theorem mem_functionBatches : v ∈ (L.functionBatches f).flatMap Batch.members ↔
    (∃ b ∈ L.children (.blocks f), v ∈ b :: L.children (.instructions b)) ∨
      v ∈ f :: L.arguments f := by
  have hperm (b : ValueId) : v ∈ (L.blockBatch b).members ↔ v ∈ b :: L.children (.instructions b) :=
    (List.perm_append_singleton b _).mem_iff
  rw [functionBatches, List.flatMap_append, List.mem_append, List.flatMap_map, List.mem_flatMap]
  refine or_congr (exists_congr fun b => and_congr_right fun _ => hperm b) ?_
  rw [List.flatMap_cons, List.flatMap_nil, List.append_nil]
  exact (List.perm_append_singleton f _).mem_iff

theorem mem_body : v ∈ L.body f ↔
    ∃ b ∈ L.children (.blocks f), v ∈ L.children (.instructions b) := List.mem_flatMap

/-- What goes with a function, and what of it lets go of its operands before. -/
def members (L : Layout) (f : ValueId) : Query.Members where
  all := L.arguments f ++ (L.children (.blocks f)).flatMap fun b => b :: L.children (.instructions b)
  inside := L.body f

theorem mem_members : v ∈ f :: (L.members f).all ↔
    v ∈ (L.functionBatches f).flatMap Batch.members := by
  rw [mem_functionBatches, members, List.mem_cons, List.mem_append, List.mem_flatMap, List.mem_cons,
    ← or_assoc, or_comm]

end Layout

namespace Query

variable {s : Store} {f v : ValueId} {k : ValueKind}

theorem expectUnused_ok (hk : k.isResident = true) : expectUnused v k s = .ok () ↔
    s.layout.kind v = some k ∧ s.uses.useList v = [] := by
  have hkind := expectKind_layout (s := s) (v := v) (u := ()) hk
  rw [expectUnused, bind_ok]
  constructor
  · rintro ⟨_, hv, hrest⟩
    obtain ⟨n, hn, hif⟩ := bind_ok.1 hrest
    obtain ⟨-, rfl⟩ := useCount_ok.1 hn
    refine ⟨hkind.1 hv, List.length_eq_zero_iff.1 (Decidable.not_not.1 fun hne => ?_)⟩
    rw [if_pos hne] at hif
    cases hif
  · rintro ⟨hv, hnil⟩
    obtain ⟨-, d, hd, -⟩ := Store.layout_kind.1 hv
    exact ⟨(), hkind.2 hv, bind_ok.2 ⟨0, useCount_ok.2 ⟨⟨d, hd⟩, by rw [hnil, List.length_nil]⟩, rfl⟩⟩

theorem mapM_ok {α β : Type} {q : α → Query β} {g : α → β} {as : List α}
    (h : ∀ a ∈ as, q a s = .ok (g a)) : as.mapM q s = .ok (as.map g) := by
  induction as with
  | nil => rfl
  | cons a as ih =>
    rw [List.mapM_cons]
    refine bind_ok.2 ⟨_, h a (List.mem_cons_self ..), bind_ok.2 ⟨_, ih fun b hb => ?_, rfl⟩⟩
    exact h b (List.mem_cons_of_mem _ hb)

theorem foldl_append (members : Members) (parts : List Members) :
    parts.foldl Members.append members =
    ⟨members.all ++ parts.flatMap Members.all, members.inside ++ parts.flatMap Members.inside⟩ := by
  induction parts generalizing members with
  | nil => simp
  | cons part parts ih => simp [ih, Members.append, List.append_assoc]

theorem functionMembers_ok (hp : s.layout.Placed) (hf : s.layout.kind f = some .function) :
    functionMembers f s = .ok (s.layout.members f) := by
  refine bind_ok.2 ⟨_, functionArguments_ok.2 ⟨hf, rfl⟩, bind_ok.2 ⟨_, functionBlocks_ok.2 ⟨hf, rfl⟩,
    bind_ok.2 ⟨_, mapM_ok fun b hb => blockMembers_ok.2 ⟨?_, rfl⟩, pure_ok.2 ?_⟩⟩⟩
  · exact Store.kind_of_place ((hp.child b _).2 hb)
  · rw [foldl_append, Layout.members, Layout.body, List.flatMap_map, List.flatMap_map, List.nil_append]

end Query

namespace Store

variable {s s' : Store} {L : Layout} {b c f g v : ValueId}

theorem scope_of_mem_functionBatches (hp : s.layout.Placed)
    (hv : v ∈ (s.layout.functionBatches f).flatMap Batch.members) :
    v = f ∨ s.layout.scope v = some (.function f) := by
  obtain ⟨b, hb, hv⟩ | hv := Layout.mem_functionBatches.1 hv
  · exact .inr (scope_of_members hp ((hp.child b _).2 hb) hv)
  · exact (List.mem_cons.1 hv).imp_right fun hv => scope_of_mem_arguments hp hv

theorem kind_of_mem_functionBatches (hp : s.layout.Placed) (hf : s.layout.kind f = some .function)
    (hv : v ∈ (s.layout.functionBatches f).flatMap Batch.members) :
    ∃ k, s.layout.kind v = some k := by
  obtain ⟨b, hb, hv⟩ | hv := Layout.mem_functionBatches.1 hv
  · exact kind_of_member hp (kind_of_place ((hp.child b _).2 hb)) hv
  · obtain rfl | hv := List.mem_cons.1 hv
    · exact ⟨_, hf⟩
    · obtain ⟨i, hi⟩ := List.mem_iff_getElem?.1 hv
      obtain ⟨d, hd, hpay⟩ := get?_of_position ((hp.argument v f i).2 hi)
      exact ⟨.argument, layout_kind.2 ⟨rfl, d, hd, by rw [Value.kind, hpay]; rfl⟩⟩

theorem functionBatches_of_cuts {D : List ValueId} (hp : s.layout.Placed) (h : s.layout.Cuts L D)
    (hD : ∀ v ∈ D, v ≠ g ∧ s.layout.scope v ≠ some (.function g)) :
    L.functionBatches g = s.layout.functionBatches g ∧ L.body g = s.layout.body g ∧
      L.kind g = s.layout.kind g := by
  have hout : g ∉ D := fun hg => (hD g hg).1 rfl
  have hscope {b : ValueId} (hb : b ∈ s.layout.children (.blocks g)) :
      ∀ v ∈ b :: s.layout.children (.instructions b), s.layout.scope v = some (.function g) :=
    fun _ hv => scope_of_members hp ((hp.child b _).2 hb) hv
  have hblocks : L.children (.blocks g) = s.layout.children (.blocks g) := h.children fun v hv =>
    ⟨fun hmem => (hD v hv).2 (hscope hmem v (List.mem_cons_self ..)),
      fun ho => (hD v hv).1 (Option.some.inj ho).symm⟩
  have hinsts : ∀ b ∈ s.layout.children (.blocks g),
      L.children (.instructions b) = s.layout.children (.instructions b) := fun b hb =>
    h.children fun v hv =>
      ⟨fun hmem => (hD v hv).2 (hscope hb v (List.mem_cons_of_mem _ hmem)), fun ho =>
        (hD v hv).2 (Option.some.inj ho ▸ hscope hb b (List.mem_cons_self ..))⟩
  refine ⟨?_, ?_, h.kind hout⟩
  · rw [Layout.functionBatches, Layout.functionBatches, hblocks, h.arguments hout]
    refine congrArg (· ++ _) (List.map_congr_left fun b hb => ?_)
    rw [Layout.blockBatch, Layout.blockBatch, hinsts b hb]
  · rw [Layout.body, Layout.body, hblocks]
    exact List.flatMap_congr fun b hb => hinsts b hb

theorem functionBatches_of_withdraws (hp : s.layout.Placed) (hf : s.layout.kind f = some .function)
    (h : s.layout.Withdraws L f) : L.functionBatches f = s.layout.functionBatches f ∧
      L.body f = s.layout.body f := by
  have hblocks : L.children (.blocks f) = s.layout.children (.blocks f) := h.children _ fun hmem => by
    cases (kind_of_place ((hp.child f _).2 hmem)).symm.trans hf
  have hinsts (b : ValueId) : L.children (.instructions b) = s.layout.children (.instructions b) :=
    h.children _ fun hmem => by cases (kind_of_place ((hp.child f _).2 hmem)).symm.trans hf
  have hbatch (b : ValueId) : L.blockBatch b = s.layout.blockBatch b := by
    rw [Layout.blockBatch, hinsts, Layout.blockBatch]
  constructor
  · rw [Layout.functionBatches, hblocks, h.arguments, funext hbatch, Layout.functionBatches]
  · rw [Layout.body, hblocks, funext hinsts, Layout.body]

theorem not_mem_of_blockBatch (hp : s.layout.Placed) (hb : s.layout.kind b = some .block)
    (hc : s.layout.kind c = some .block) (hne : c ≠ b) (hv : v ∈ (s.layout.blockBatch b).members) :
    v ≠ c ∧ v ∉ s.layout.children (.instructions c) := by
  have hkind {w : ValueId} (hw : s.layout.kind w = some .block) {p : ValueId} :
      w ∉ s.layout.children (.instructions p) := fun hmem => by
    cases (kind_of_place ((hp.child w _).2 hmem)).symm.trans hw
  rw [Layout.blockBatch, List.mem_append, List.mem_singleton] at hv
  obtain hv | rfl := hv
  · refine ⟨?_, fun hmem => hne ?_⟩
    · rintro rfl
      exact hkind hc hv
    · have hplace := ((hp.child v _).2 hmem).symm.trans ((hp.child v _).2 hv)
      exact Place.instructions.inj (Option.some.inj hplace)
  · exact ⟨hne.symm, hkind hb⟩

theorem cluster_function (hp : s.layout.Placed) (hf : s.layout.kind f = some .function)
    (hplace : s.layout.place f = none) : s.layout.Cluster (s.layout.arguments f) f := by
  have hargument {v : ValueId} (hv : v ∈ s.layout.arguments f) : s.layout.kind v = some .argument := by
    obtain ⟨i, hi⟩ := List.mem_iff_getElem?.1 hv
    obtain ⟨d, hd, hpay⟩ := get?_of_position ((hp.argument v f i).2 hi)
    exact layout_kind.2 ⟨rfl, d, hd, by rw [Value.kind, hpay]; rfl⟩
  have hmem {v : ValueId} (hv : v ∈ s.layout.arguments f ++ [f]) : v ∈ s.layout.arguments f ∨ v = f := by
    rwa [List.mem_append, List.mem_singleton] at hv
  have hnodup : (s.layout.arguments f).Nodup := by
    rw [List.nodup_iff_getElem?_ne_getElem?]
    intro i j hij hj hsame
    have hi := (hp.argument _ f i).2 (List.getElem?_eq_getElem (Nat.lt_trans hij hj))
    have hpos := (hp.argument _ f j).2
      (hsame.symm.trans (List.getElem?_eq_getElem (Nat.lt_trans hij hj)))
    exact Nat.ne_of_lt hij (Prod.mk.inj (Option.some.inj (hi.symm.trans hpos))).2
  refine ⟨List.nodup_append.2 ⟨hnodup, List.nodup_singleton f, fun v hv w hw heq => ?_⟩,
    fun v hv => ?_, fun v hv b hb => ?_, fun v hv sc hsc => ?_⟩
  · obtain rfl := List.mem_singleton.1 hw
    cases (hargument (heq ▸ hv)).symm.trans hf
  · obtain hv | rfl := hmem hv
    · exact ⟨_, hargument hv⟩
    · exact ⟨_, hf⟩
  · obtain hv | rfl := hmem hv
    · cases (place_of_kind (hargument hv)).symm.trans hb
    · cases hplace.symm.trans hb
  · obtain hv | rfl := hmem hv
    · exact ⟨Option.some.inj (hsc.symm.trans (scope_of_mem_arguments hp hv)), hf⟩
    · cases (Layout.scope_of_unplaced hplace (position_of_kind hf (by simp))).symm.trans hsc

end Store

namespace Edit

open Store

variable {B D I : ValueId → Prop} {s s' : Store} {v b c f g : ValueId} {k : ValueKind}
variable {freed done : List ValueId} {total : Prop}

theorem ends_emptyBody_phase (h : Phase B D s I freed done s') (hp : s'.layout.Placed)
    (hf : s'.layout.kind f = some .function) (hD : ∀ v ∈ s'.layout.body f, D v) :
    Ends (emptyBody f) s' (fun _ q => Phase B D s (fun u => I u ∨ u ∈ s'.layout.body f) freed done q ∧
      q.layout = s'.layout) fun _ _ => False := by
  unfold emptyBody
  rw [ends_bind, ends_lift_ok (Query.functionBlocks_ok.2 ⟨hf, rfl⟩)]
  let insts (b : ValueId) := s'.layout.children (.instructions b)
  refine ends_forM_visited _ (fun past q =>
    Phase B D s (fun u => I u ∨ u ∈ past.flatMap insts) freed done q ∧ q.layout = s'.layout) ?_ s'
    ⟨h.mono fun u hu => hu.resolve_right List.not_mem_nil, rfl⟩
  rintro past b rest p hblocks ⟨hphase, hlayout⟩
  have hb : b ∈ s'.layout.children (.blocks f) := by simp [hblocks]
  have hkind : p.layout.kind b = some .block := by
    rw [hlayout]
    exact kind_of_place ((hp.child b _).2 hb)
  rw [ends_bind, ends_lift_ok (Query.blockInstructions_ok.2 ⟨hkind, rfl⟩), hlayout]
  refine (ends_emptyAll_phase hphase (fun v hv => ?_) fun v hv => ?_).mono ?_ fun _ _ h => h
  · rw [hlayout]
    exact ⟨_, kind_of_place ((hp.child v _).2 hv)⟩
  · exact hD v (Layout.mem_body.2 ⟨b, hb, hv⟩)
  · rintro _ q ⟨hq, hsame⟩
    refine ⟨hq.mono fun u hu => ?_, hsame.trans hlayout⟩
    rwa [List.flatMap_append, List.flatMap_singleton, List.mem_append, ← or_assoc] at hu

theorem ends_expectEmptyScope_leaks {sc : Scope} {t : SymbolTable}
    (ht : s.layout.tables sc = some t) :
    Ends (liftM (Query.expectEmptyScope sc) : Edit Unit) s (fun _ s' => s' = s)
      fun x _ => x.IsLeak := by
  have hlabel : ∃ label, Query.scopeLabel sc s = .ok label := by
    cases sc with
    | function f =>
      obtain ⟨-, d, hd, -⟩ := layout_kind.1 (tables_function.1 ht).1
      have hname := Query.name_ok.2 ⟨d, hd, rfl⟩
      cases hn : d.name with
      | none => exact ⟨_, Query.bind_ok.2 ⟨none, hn ▸ hname, rfl⟩⟩
      | some name => exact ⟨_, Query.bind_ok.2 ⟨some name, hn ▸ hname, rfl⟩⟩
    | module m =>
      obtain ⟨d, hd⟩ := (tables_module.1 ht).1
      exact ⟨_, Query.bind_ok.2 ⟨d, Query.module_ok.2 hd, rfl⟩⟩
  obtain ⟨label, hlabel⟩ := hlabel
  rw [Query.expectEmptyScope, lift_bind, ends_bind, ends_lift_ok (Query.symbols_ok.2 ht)]
  split
  · rw [lift_bind, ends_bind, ends_lift_ok hlabel, lift_bind, ends_bind,
      ends_lift_ok (Query.read_ok.2 rfl)]
    split
    · trivial
    · rfl
  · rfl

theorem ends_eraseBlocks_phase (h : Phase B D s I freed done s') (hc : s'.layout.Consistent total)
    (hf : D f)
    (hD : ∀ b ∈ s'.layout.children (.blocks f), ∀ v ∈ (s'.layout.blockBatch b).members, D v)
    (hconf : ∀ b ∈ s'.layout.children (.blocks f),
      ∀ v ∈ (s'.layout.blockBatch b).members, s.Confines I v)
    (hfore : s.ForeseesAll freed done ((s'.layout.children (.blocks f)).map s'.layout.blockBatch)) :
    Ends ((s'.layout.children (.blocks f)).forM eraseBlock) s' (fun _ => Erased total B D s I freed
      done ((s'.layout.children (.blocks f)).map s'.layout.blockBatch) s') fun _ _ => False := by
  have hkind {b : ValueId} (hb : b ∈ s'.layout.children (.blocks f)) :
      s'.layout.kind b = some .block := kind_of_place ((hc.placed.child b _).2 hb)
  have hnodup := hc.placed.nodup (.blocks f)
  refine ends_forM_visited _ (fun past => Erased total B D s I freed done
    (past.map s'.layout.blockBatch) s') ?_ s' (.nil h hc)
  rintro past b rest p hblocks hp
  have hb : b ∈ s'.layout.children (.blocks f) := by simp [hblocks]
  have hapart : ∀ v ∈ (past.map s'.layout.blockBatch).flatMap Batch.members,
      v ≠ b ∧ v ∉ s'.layout.children (.instructions b) := by
    intro v hv
    rw [List.flatMap_map, List.mem_flatMap] at hv
    obtain ⟨c, hcp, hv⟩ := hv
    have hcb : c ∈ s'.layout.children (.blocks f) := by simp [hblocks, hcp]
    refine not_mem_of_blockBatch hc.placed (hkind hcb) (hkind hb) ?_ hv
    rintro rfl
    rw [hblocks] at hnodup
    exact (List.nodup_append.1 hnodup).2.2 _ hcp _ (List.mem_cons_self ..) rfl
  have hout : b ∉ (past.map s'.layout.blockBatch).flatMap Batch.members := fun hmem =>
    (hapart b hmem).1 rfl
  have hbatch : p.layout.blockBatch b = s'.layout.blockBatch b := by
    rw [Layout.blockBatch, Layout.blockBatch, hp.cuts.children fun v hv =>
      ⟨(hapart v hv).2, fun ho => (hapart v hv).1 (Option.some.inj ho).symm⟩]
  have hcontainer (g : ValueId) (hg : p.layout.place b = some (.blocks g)) : D g := by
    rw [hp.cuts.place hout, (hc.placed.child b _).2 hb] at hg
    obtain rfl := Place.blocks.inj (Option.some.inj hg)
    exact hf
  rw [hblocks, List.map_append, foreseesAll_append] at hfore
  refine (ends_eraseBlock_phase hp.phase hp.consistent ((hp.cuts.kind hout).trans (hkind hb))
    hcontainer (hbatch ▸ hD b hb) (hbatch ▸ hconf b hb) (hbatch ▸ hfore.2.1)).mono ?_ fun _ _ h => h
  intro _ q hq
  rw [hbatch] at hq
  rw [List.map_append]
  exact hp.append hq

def razeFunction (f : ValueId) : Edit Unit := do
  (← Query.functionBlocks f).forM eraseBlock
  (← Query.functionArguments f).forM destroyValue
  Query.expectEmptyScope (.function f)
  destroyValue f

def dismantleFunction (f : ValueId) : Edit Unit := do
  detachFunction f
  emptyBody f
  razeFunction f

theorem eraseFunction_eq (f : ValueId) : eraseFunction f = (do
    Query.expectKind f .function
    let members ← Query.functionMembers f
    Query.expectErasable (f :: members.all) members.inside
    dismantleFunction f) := by
  unfold eraseFunction
  refine bind_congr fun _ => bind_congr fun members => bind_congr fun _ => ?_
  rw [dismantleFunction, detachFunction, bind_assoc]
  refine bind_congr fun m => ?_
  split
  · rfl
  · rfl

theorem ends_destroyFunction_phase (h : Phase B D s I freed done s')
    (hc : s'.layout.Consistent total)
    (hf : s'.layout.kind f = some .function) (hplace : s'.layout.place f = none)
    (hblocks : s'.layout.children (.blocks f) = [])
    (hD : ∀ v ∈ s'.layout.arguments f ++ [f], D v)
    (hconf : ∀ v ∈ s'.layout.arguments f ++ [f], s.Confines I v)
    (hfore : s.ForeseesEach freed done (s'.layout.arguments f ++ [f])) : Ends (do
      (s'.layout.arguments f).forM destroyValue
      Query.expectEmptyScope (.function f)
      destroyValue f) s'
    (fun _ => Erased total B D s I freed done [{ members := s'.layout.arguments f ++ [f] }] s')
    fun _ _ => False := by
  have hself : f ∈ s'.layout.arguments f ++ [f] := List.mem_append_right _ (List.mem_singleton_self f)
  have hargument {v : ValueId} (hv : v ∈ s'.layout.arguments f) : v ∈ s'.layout.arguments f ++ [f] :=
    List.mem_append_left _ hv
  obtain ⟨hfores, hforef, -⟩ := foreseesEach_append.1 hfore
  have hcluster := cluster_function hc.placed hf hplace
  -- Names that are left in the scope are all that could stop it, and there are none.
  have hphase : Ends (do
      (s'.layout.arguments f).forM destroyValue
      Query.expectEmptyScope (.function f)
      destroyValue f) s'
      (fun _ q => Phase B D s I freed (done ++ (s'.layout.arguments f ++ [f])) q)
      fun x _ => x.IsLeak := by
    refine Ends.bind ((ends_destroyAll_phase h hcluster (fun v hv => hD v (hargument hv))
      (fun v hv => hconf v (hargument hv)) hfores).weaken fun _ _ hq => hq) ?_
    rintro _ p ⟨hp, hclusterp⟩
    obtain ⟨k, hk⟩ := hclusterp.kind f (List.mem_singleton_self f)
    have hkind : p.layout.kind f = some .function :=
      hk.trans ((hp.thins.kind hk).symm.trans (h.thins.kind hf))
    refine Ends.bind (ends_expectEmptyScope_leaks (tables_function.2 ⟨hkind, rfl⟩)) ?_
    rintro _ _ rfl
    refine (ends_destroyLast_phase hp hclusterp (hD f hself) (hconf f hself) hforef).weaken ?_
    intro _ q hq
    rwa [List.append_assoc] at hq
  refine (hphase.and (ends_destroyFunction h.coherent.settled hc hf hplace hblocks)).mono ?_
    fun _ _ hx => hx.2 hx.1
  rintro _ q ⟨hq, -, hcq, hlayout⟩
  refine ⟨by simpa using hq, hcq, ?_⟩
  rw [List.flatMap_singleton]
  exact hlayout ▸ Layout.cuts_drop ..

theorem ends_razeFunction_phase (h : Phase B D s I freed done s') (hc : s'.layout.Consistent total)
    (hf : s'.layout.kind f = some .function) (hplace : s'.layout.place f = none)
    (hD : ∀ v ∈ (s'.layout.functionBatches f).flatMap Batch.members, D v)
    (hconf : ∀ v ∈ (s'.layout.functionBatches f).flatMap Batch.members, s.Confines I v)
    (hfore : s.ForeseesAll freed done (s'.layout.functionBatches f)) : Ends (razeFunction f) s'
      (fun _ => Erased total B D s I freed done (s'.layout.functionBatches f) s') fun _ _ => False := by
  have hin {b v : ValueId} (hb : b ∈ s'.layout.children (.blocks f))
      (hv : v ∈ (s'.layout.blockBatch b).members) :
      v ∈ (s'.layout.functionBatches f).flatMap Batch.members :=
    List.mem_flatMap.2 ⟨_, List.mem_append_left _ (List.mem_map_of_mem hb), hv⟩
  have hlast {v : ValueId} (hv : v ∈ s'.layout.arguments f ++ [f]) :
      v ∈ (s'.layout.functionBatches f).flatMap Batch.members :=
    List.mem_flatMap.2 ⟨_, List.mem_append_right _ (List.mem_singleton_self _), hv⟩
  have hDf : D f := hD f (hlast (List.mem_append_right _ (List.mem_singleton_self f)))
  obtain ⟨hblocks, hrest, -⟩ := foreseesAll_append.1 hfore
  unfold razeFunction
  rw [ends_bind, ends_lift_ok (Query.functionBlocks_ok.2 ⟨hf, rfl⟩)]
  refine Ends.bind (((ends_eraseBlocks_phase h hc hDf (fun b hb v hv => hD v (hin hb hv))
    (fun b hb v hv => hconf v (hin hb hv)) hblocks).and
    (ends_eraseBlocks h.coherent.settled hc)).mono (fun _ _ h => h) fun _ _ h => h.1) ?_
  rintro _ p ⟨hp, -, -, hnone, -⟩
  -- The blocks and instructions belonged to the scope of the function, which itself belongs to none.
  have hout : f ∉ ((s'.layout.children (.blocks f)).map s'.layout.blockBatch).flatMap Batch.members := by
    intro hmem
    rw [List.flatMap_map, List.mem_flatMap] at hmem
    obtain ⟨b, hb, hmem⟩ := hmem
    have hscope := scope_of_members hc.placed ((hc.placed.child b _).2 hb)
      ((List.perm_append_singleton b _).mem_iff.1 hmem)
    cases hscope.symm.trans (Layout.scope_of_unplaced hplace (position_of_kind hf (by simp)))
  have hfp : p.layout.kind f = some .function := (hp.cuts.kind hout).trans hf
  have hargs : p.layout.arguments f = s'.layout.arguments f := hp.cuts.arguments hout
  rw [← hargs] at hlast hrest
  rw [ends_bind, ends_lift_ok (Query.functionArguments_ok.2 ⟨hfp, rfl⟩)]
  refine (ends_destroyFunction_phase hp.phase hp.consistent hfp ((hp.cuts.place hout).trans hplace)
    hnone (fun v hv => hD v (hlast hv)) (fun v hv => hconf v (hlast hv))
    (by simpa using hrest)).weaken ?_
  intro _ q hq
  rw [hargs] at hq
  exact hp.append hq

theorem ends_dismantleFunction (h : Phase B D s I freed done s') (hc : s'.layout.Consistent total)
    (hf : s'.layout.kind f = some .function)
    (hD : ∀ v ∈ (s'.layout.functionBatches f).flatMap Batch.members, D v)
    (hconf : ∀ v ∈ (s'.layout.functionBatches f).flatMap Batch.members,
      s.Confines (fun u => I u ∨ u ∈ s'.layout.body f) v)
    (hfore : s.ForeseesAll freed done (s'.layout.functionBatches f)) :
    Ends (dismantleFunction f) s' (fun _ => Erased total B D s (fun u => I u ∨ u ∈ s'.layout.body f)
      freed done (s'.layout.functionBatches f) s') fun _ _ => False := by
  have hself : f ∈ (s'.layout.functionBatches f).flatMap Batch.members :=
    Layout.mem_functionBatches.2 (.inr (List.mem_cons_self ..))
  refine Ends.bind (ends_detachFunction_thins h.coherent hc hf (hD f hself)) ?_
  rintro _ p₁ ⟨hp₁, ht₁, hc₁, hw⟩
  obtain ⟨hbatches, hbody⟩ := functionBatches_of_withdraws hc.placed hf hw
  have hcuts₁ : s'.layout.Cuts p₁.layout ((s'.layout.functionBatches f).flatMap Batch.members) :=
    hw.cuts hself
  have hf₁ : p₁.layout.kind f = some .function := by rw [hw.kind, hf]
  have hplace₁ : p₁.layout.place f = none := by rw [hw.place, Function.update_self]
  rw [← hbatches] at hD hconf hfore hcuts₁ ⊢
  rw [← hbody] at hconf ⊢
  refine Ends.bind (ends_emptyBody_phase (h.step hp₁ ht₁) hc₁.placed hf₁ fun v hv => ?_) ?_
  · obtain ⟨b, hb, hv⟩ := Layout.mem_body.1 hv
    exact hD v (Layout.mem_functionBatches.2 (.inl ⟨b, hb, List.mem_cons_of_mem _ hv⟩))
  rintro _ p₂ ⟨hp₂, hlayout₂⟩
  rw [← hlayout₂] at hp₂ hc₁ hf₁ hplace₁ hD hconf hfore hcuts₁ ⊢
  refine (ends_razeFunction_phase hp₂ hc₁ hf₁ hplace₁ hD hconf hfore).weaken ?_
  exact fun _ q hq => ⟨hq.phase, hq.consistent, hcuts₁.trans hq.cuts⟩

theorem ends_eraseFunction_phase (h : Phase B D s I freed done s') (hc : s'.layout.Consistent total)
    (hf : s'.layout.kind f = some .function)
    (hD : ∀ v ∈ (s'.layout.functionBatches f).flatMap Batch.members, D v)
    (hconf : ∀ v ∈ (s'.layout.functionBatches f).flatMap Batch.members, s.Confines I v)
    (hfore : s.ForeseesAll freed done (s'.layout.functionBatches f)) : Ends (eraseFunction f) s'
      (fun _ => Erased total B D s I freed done (s'.layout.functionBatches f) s') fun _ _ => False := by
  have hcheck : Query.expectErasable (f :: (s'.layout.members f).all) (s'.layout.members f).inside s' =
      .ok () := by
    refine (Query.expectErasable_ok h.coherent.settled).2 fun v hv => ?_
    have hv := Layout.mem_members.1 hv
    obtain ⟨k, hk⟩ := kind_of_mem_functionBatches hc.placed hf hv
    obtain ⟨-, d, hd, -⟩ := layout_kind.1 hk
    exact ⟨⟨d, hd⟩, h.confines hk fun u hu => (hconf v hv u hu).imp_left .inl⟩
  have hkind : Query.expectKind f .function s' = .ok () := (Query.expectKind_layout rfl).2 hf
  rw [eraseFunction_eq, ends_bind, ends_lift_ok hkind, ends_bind,
    ends_lift_ok (Query.functionMembers_ok hc.placed hf), ends_bind, ends_lift_ok hcheck]
  refine (ends_dismantleFunction h hc hf hD (fun v hv u hu =>
    (hconf v hv u hu).imp_left .inl) hfore).weaken ?_
  rintro _ q hq
  exact ⟨hq.phase.mono fun _ => .inl, hq.consistent, hq.cuts⟩

theorem eraseGlobal_eq (g : ValueId) : eraseGlobal g = (do
    Query.expectUnused g .global
    detachGlobal g
    destroyValue g) := by
  unfold eraseGlobal
  refine bind_congr fun _ => ?_
  rw [detachGlobal, bind_assoc]
  refine bind_congr fun m => ?_
  split
  · rfl
  · rfl

theorem ends_eraseGlobal_phase (h : Phase B D s I freed done s') (hc : s'.layout.Consistent total)
    (hg : s'.layout.kind g = some .global) (hD : D g) (hconf : s.Confines I g)
    (hf : s.Foresees freed done g) : Ends (eraseGlobal g) s'
      (fun _ => Erased total B D s I freed done [.single g] s') fun _ _ => False := by
  have hcheck : Query.expectUnused g .global s' = .ok () :=
    (Query.expectUnused_ok rfl).2 ⟨hg, (h.yields hg hconf hf).1⟩
  rw [eraseGlobal_eq, ends_bind, ends_lift_ok hcheck]
  refine Ends.bind (ends_detachGlobal_thins h.coherent hc hg hD) ?_
  rintro _ p ⟨hp, ht, hcp, hw⟩
  have hgp : p.layout.kind g = some .global := by rw [hw.kind, hg]
  have hplace : p.layout.place g = none := by rw [hw.place, Function.update_self]
  have hscope : p.layout.FindsScope g := by
    refine ⟨fun hb => ?_, fun hsc => ?_⟩
    · cases hplace.symm.trans hb
    · cases hsc.symm.trans (Layout.scope_of_unplaced hplace (position_of_kind hgp (by simp)))
  refine ((ends_destroyValue_phase (h.step hp ht) hD hgp hconf hf hscope).and
    (ends_destroyLeaf hp.settled hcp hgp hplace (by simp) (by simp) (by simp))).mono ?_
    fun _ _ hx => hx.1
  rintro _ q ⟨⟨hq, L, hstrikes, hlayout⟩, -, hcq, -⟩
  refine ⟨by simpa [List.filterMap_cons] using hq, hcq, (hw.cuts (by simp)).trans ?_⟩
  exact hlayout ▸ hstrikes.renamed.cuts.trans (Layout.cuts_drop ..)

end Edit

end ShaderIR
