import ShaderIR.Proofs.ErasureFrames

/-! Erasing in order. What an erasure destroys goes in batches, those of a block after its block
addresses. A value yields if all that uses it has let go by then, and if all that refers to the node
that wraps it has gone by then. -/

namespace ShaderIR

/-- Values that are destroyed one after the other, and the block whose block addresses are nullified
before. -/
structure Batch where
  members : List ValueId
  block : Option ValueId := none

namespace Batch

def single (v : ValueId) : Batch := { members := [v] }

@[simp] theorem members_single (v : ValueId) : (single v).members = [v] := rfl

@[simp] theorem block_single (v : ValueId) : (single v).block = none := rfl

theorem members_map_single (vs : List ValueId) : (vs.map single).flatMap members = vs := by
  rw [List.flatMap_map]
  exact List.flatMap_singleton' vs

end Batch

namespace Layout

variable {L L' L'' : Layout} {D D' : List ValueId} {v b f g : ValueId} {m : ModuleId} {p : Place}

def blockBatch (L : Layout) (b : ValueId) : Batch :=
  { members := L.children (.instructions b) ++ [b], block := some b }

def functionBatches (L : Layout) (f : ValueId) : List Batch :=
  (L.children (.blocks f)).map L.blockBatch ++ [{ members := L.arguments f ++ [f] }]

def moduleBatches (L : Layout) (m : ModuleId) : List Batch :=
  (L.children (.functions m)).flatMap L.functionBatches ++
    (L.children (.globals m)).map .single

def body (L : Layout) (f : ValueId) : List ValueId :=
  (L.children (.blocks f)).flatMap fun b => L.children (.instructions b)

structure Cuts (L L' : Layout) (D : List ValueId) : Prop where
  kind : ∀ {v}, v ∉ D → L'.kind v = L.kind v
  place : ∀ {v}, v ∉ D → L'.place v = L.place v
  arguments : ∀ {v}, v ∉ D → L'.arguments v = L.arguments v
  children : ∀ {p}, (∀ v ∈ D, v ∉ L.children p ∧ p.owner? ≠ some v) → L'.children p = L.children p

theorem Cuts.refl (L : Layout) (D : List ValueId) : L.Cuts L D :=
  ⟨fun _ => rfl, fun _ => rfl, fun _ => rfl, fun _ => rfl⟩

theorem Cuts.trans (h : L.Cuts L' D) (h' : L'.Cuts L'' D) : L.Cuts L'' D where
  kind hv := (h'.kind hv).trans (h.kind hv)
  place hv := (h'.place hv).trans (h.place hv)
  arguments hv := (h'.arguments hv).trans (h.arguments hv)
  children {p} hp := by
    have hsame := h.children hp
    rw [← hsame]
    exact h'.children (by rwa [hsame])

theorem Cuts.mono (h : L.Cuts L' D) (hD : ∀ v ∈ D, v ∈ D') : L.Cuts L' D' where
  kind hv := h.kind fun hmem => hv (hD _ hmem)
  place hv := h.place fun hmem => hv (hD _ hmem)
  arguments hv := h.arguments fun hmem => hv (hD _ hmem)
  children hp := h.children fun v hv => hp v (hD v hv)

theorem Withdraws.cuts (h : L.Withdraws L' v) (hv : v ∈ D) : L.Cuts L' D where
  kind _ := by rw [h.kind]
  place {w} hw := by
    rw [h.place]
    refine Function.update_of_ne ?_ ..
    rintro rfl
    exact hw hv
  arguments _ := by rw [h.arguments]
  children hp := h.children _ (hp v hv).1

theorem Renamed.cuts (h : L.Renamed L') : L.Cuts L' D :=
  ⟨fun _ => by rw [h.kind], fun _ => by rw [h.place], fun _ => by rw [h.arguments],
    fun _ => by rw [h.children]⟩

theorem cuts_drop (L : Layout) (D : List ValueId) : L.Cuts (L.drop D) D where
  kind hv := if_neg hv
  place hv := if_neg hv
  arguments hv := if_neg hv
  children {p} hp := children_drop fun hw => by
    obtain ⟨w, hw, ho⟩ := hw
    exact (hp w hw).2 ho

/-- Values that go one after the other, the last of them being what they all stand in, if they stand
anywhere. -/
structure Cluster (L : Layout) (vs : List ValueId) (c : ValueId) : Prop where
  nodup : (vs ++ [c]).Nodup
  kind : ∀ v ∈ vs ++ [c], ∃ k, L.kind v = some k
  block : ∀ v ∈ vs ++ [c], ∀ {b}, L.place v = some (.instructions b) → b = c ∧ L.kind c = some .block
  scope : ∀ v ∈ vs ++ [c], ∀ {sc}, L.scope v = some sc → sc = .function c ∧ L.kind c = some .function

theorem Cluster.drop {vs : List ValueId} {c : ValueId} (h : L.Cluster (v :: vs) c)
    (hv : L.Strikes v L') : (L'.drop [v]).Cluster vs c := by
  have hr := hv.renamed
  obtain ⟨hnot, hnodup⟩ := List.nodup_cons.1 h.nodup
  have hkept {w : ValueId} (hw : w ∈ vs ++ [c]) : w ∉ [v] := fun hmem =>
    hnot (List.mem_singleton.1 hmem ▸ hw)
  have hkind {w : ValueId} (hw : w ∈ vs ++ [c]) : (L'.drop [v]).kind w = L.kind w := by
    rw [← hr.kind]
    exact if_neg (hkept hw)
  have hc : c ∈ vs ++ [c] := List.mem_append_right _ (List.mem_singleton_self c)
  refine ⟨hnodup, fun w hw => ?_, fun w hw b hb => ?_, fun w hw sc hsc => ?_⟩
  · rw [hkind hw]
    exact h.kind w (List.mem_cons_of_mem _ hw)
  · rw [hkind hc]
    refine h.block w (List.mem_cons_of_mem _ hw) ?_
    rw [← hr.place]
    exact (if_neg (hkept hw)).symm.trans hb
  · rw [hkind hc]
    refine h.scope w (List.mem_cons_of_mem _ hw) ?_
    rw [← hr.scope]
    exact (scope_drop hsc).2

end Layout

/-- The value that a location is an attachment of. -/
def Location.attachedTo? : Location → Option ValueId
  | .attachment v _ => some v
  | _ => none

theorem Location.attachedTo?_eq_some {l : Location} {v : ValueId} :
    l.attachedTo? = some v ↔ ∃ tag, l = .attachment v tag := by
  cases l <;> simp [attachedTo?]

theorem Tracker.count_of_untracked {t : Tracker} {n : NodeId} (h : ∀ l, t.isTracked l n ≠ true) :
    t.count n = 0 := by
  have hnil : t.tracked n = [] := List.eq_nil_iff_forall_not_mem.2 fun l hl => h l (mem_tracked_iff.1 hl)
  rw [count, Stamps.size_eq_length, ← tracked, hnil, List.length_nil]

open Edit Wiring

namespace Store

variable {B D I J : ValueId → Prop} {s s' s'' : Store} {v u b : ValueId} {k : ValueKind}
variable {freed done vs ws : List ValueId}

def Confines (s : Store) (I : ValueId → Prop) (v : ValueId) : Prop :=
  ∀ u, s.Uses u v → I u ∨ s.config.blockAddressPolicy ≠ .reject ∧ s.isBlockAddress u = true

/-- Nothing is in the way of a value once the block addresses of some blocks have been nullified
and some values have been destroyed: the block addresses that use the value are among those, and
all that refers to the node that wraps it are attachments of these. -/
structure Foresees (s : Store) (freed done : List ValueId) (v : ValueId) : Prop where
  address : s.config.blockAddressPolicy ≠ .reject → ∀ c ∈ s.usersOf v, s.isBlockAddress c = true →
    ∃ b ∈ freed, s.Uses c b
  tracked : ∀ n ∈ s.metadata.nodeOf[v]?, ∀ l ∈ s.metadata.tracker.tracked n,
    ∃ u ∈ done, l.attachedTo? = some u

instance : Decidable (s.Foresees freed done v) :=
  decidable_of_iff ((s.config.blockAddressPolicy ≠ .reject → ∀ c ∈ s.usersOf v,
      s.isBlockAddress c = true → ∃ b ∈ freed, s.Uses c b) ∧
    ∀ n ∈ s.metadata.nodeOf[v]?, ∀ l ∈ s.metadata.tracker.tracked n,
      ∃ u ∈ done, l.attachedTo? = some u) ⟨fun h => ⟨h.1, h.2⟩, fun h => ⟨h.1, h.2⟩⟩

/-- Nothing is in the way of any of some values when its turn comes. -/
def ForeseesEach (s : Store) (freed : List ValueId) : List ValueId → List ValueId → Prop
  | _, [] => True
  | done, v :: rest => s.Foresees freed done v ∧ s.ForeseesEach freed (done ++ [v]) rest

/-- The same for batches: the block addresses of its block are nullified before a batch. -/
def ForeseesAll (s : Store) : List ValueId → List ValueId → List Batch → Prop
  | _, _, [] => True
  | freed, done, g :: rest => s.ForeseesEach (freed ++ g.block.toList) done g.members ∧
      s.ForeseesAll (freed ++ g.block.toList) (done ++ g.members) rest

instance decidableForeseesEach (s : Store) (freed : List ValueId) :
    (done vs : List ValueId) → Decidable (s.ForeseesEach freed done vs)
  | _, [] => .isTrue trivial
  | done, v :: rest =>
    have := decidableForeseesEach s freed (done ++ [v]) rest
    inferInstanceAs (Decidable (s.Foresees freed done v ∧ s.ForeseesEach freed (done ++ [v]) rest))

instance decidableForeseesAll (s : Store) :
    (freed done : List ValueId) → (order : List Batch) → Decidable (s.ForeseesAll freed done order)
  | _, _, [] => .isTrue trivial
  | freed, done, g :: rest =>
    have := decidableForeseesAll s (freed ++ g.block.toList) (done ++ g.members) rest
    inferInstanceAs (Decidable (s.ForeseesEach (freed ++ g.block.toList) done g.members ∧
      s.ForeseesAll (freed ++ g.block.toList) (done ++ g.members) rest))

theorem foreseesEach_append : s.ForeseesEach freed done (vs ++ ws) ↔
    s.ForeseesEach freed done vs ∧ s.ForeseesEach freed (done ++ vs) ws := by
  induction vs generalizing done with
  | nil => simp [ForeseesEach]
  | cons v vs ih => simp [ForeseesEach, ih, and_assoc]

theorem foreseesAll_append {before after : List Batch} :
    s.ForeseesAll freed done (before ++ after) ↔
    s.ForeseesAll freed done before ∧ s.ForeseesAll (freed ++ before.filterMap Batch.block)
      (done ++ before.flatMap Batch.members) after := by
  induction before generalizing freed done with
  | nil => simp [ForeseesAll]
  | cons g before ih =>
    rw [List.cons_append, ForeseesAll, ForeseesAll, ih]
    cases hb : g.block <;> simp [hb, and_assoc]

/-- How far an erasure has come: some values have let go of their operands, the block addresses of
some blocks have been nullified and some values have been destroyed. -/
structure Phase (B D : ValueId → Prop) (s : Store) (I : ValueId → Prop) (freed done : List ValueId)
    (s' : Store) : Prop where
  settled : s.Settled
  coherent : Coherent B s'
  thins : Thins D s s'
  idle : ∀ {u v k}, I u → s'.layout.kind v = some k → ¬ s'.Uses u v
  freed : ∀ {b c}, b ∈ freed → s'.isBlockAddress c = true → ¬ s'.Uses c b
  done : ∀ {v}, v ∈ done → v.index < s'.values.size ∧ s'.values.get? v = none

namespace Phase

theorem start (hs : Coherent B s) : Phase B D s (fun _ => False) [] [] s :=
  ⟨hs.settled, hs, .refl D s, fun hu => hu.elim, fun hb => (by cases hb), fun hv => (by cases hv)⟩

theorem step (h : Phase B D s I freed done s') (hs : Coherent B s'') (ht : Thins D s' s'') :
    Phase B D s I freed done s'' where
  settled := h.settled
  coherent := hs
  thins := h.thins.trans ht
  idle hu hv huses := h.idle hu (ht.kind hv) (ht.uses hv huses)
  freed hb hc huses := h.freed hb (ht.address hc).1 (by rwa [Uses, ← (ht.address hc).2])
  done hv := by
    obtain ⟨hlt, hdead⟩ := h.done hv
    refine ⟨Nat.lt_of_lt_of_le hlt ?_, ht.dead hlt hdead⟩
    have hsize (s : Store) : s.traits.size = s.values.size := Arena.size_map ..
    simpa only [hsize] using ht.traits.size

theorem mono (h : Phase B D s I freed done s') (hJ : ∀ u, J u → I u) :
    Phase B D s J freed done s' :=
  ⟨h.settled, h.coherent, h.thins, fun hu => h.idle (hJ _ hu), h.freed, h.done⟩

variable (h : Phase B D s I freed done s')

include h

theorem confines (hv : s'.layout.kind v = some k) (hconf : s.Confines (fun u => I u ∨ J u) v) :
    s'.Confines J v := by
  intro u hu
  obtain ⟨⟨d, hd⟩, -⟩ := hu.live h.coherent.settled
  obtain (hI | hJ) | ⟨hpolicy, hc⟩ := hconf u (h.thins.uses hv hu)
  · exact absurd hu (h.idle hI hv)
  · exact .inl hJ
  · refine .inr ⟨?_, h.thins.isBlockAddress hc hd⟩
    rwa [h.thins.upholds.config]

theorem yields (hv : s'.layout.kind v = some k) (hconf : s.Confines I v)
    (hf : s.Foresees freed done v) : s'.uses.useList v = [] ∧
      ∀ n, s'.metadata.nodeOf[v]? = some n → s'.metadata.tracker.count n = 0 := by
  have hs' := h.coherent.settled
  refine ⟨useList_eq_nil hs' fun u hu => ?_, fun n hn => Tracker.count_of_untracked fun l hl => ?_⟩
  · obtain ⟨⟨d, hd⟩, -⟩ := hu.live hs'
    have hold := h.thins.uses hv hu
    obtain hI | ⟨hpolicy, hc⟩ := hconf u hold
    · exact h.idle hI hv hu
    · obtain ⟨b, hb, huses⟩ := hf.address hpolicy u ((uses_iff h.settled).1 hold) hc
      have hc' := h.thins.isBlockAddress hc hd
      exact h.freed hb hc' (by rwa [Uses, (h.thins.address hc').2])
  · have hold := (h.thins.nodeOf hv).symm.trans hn
    obtain ⟨u, hu, hlu⟩ := hf.tracked n hold l (Tracker.mem_tracked_iff.2 (h.thins.tracked hv hold hl))
    obtain ⟨tag, rfl⟩ := Location.attachedTo?_eq_some.1 hlu
    have hheld : s'.core.held (.attachment u tag) = some n := hs'.recorded.follows.of_isTracked hl
    rw [held_core] at hheld
    simp [held?, (h.done hu).2] at hheld

end Phase

/-- Some batches have been erased since a store, and all that is left stands as it did there. -/
structure Erased (total : Prop) (B D : ValueId → Prop) (s : Store) (I : ValueId → Prop)
    (freed done : List ValueId) (order : List Batch) (s' q : Store) : Prop where
  phase : Phase B D s I (freed ++ order.filterMap Batch.block) (done ++ order.flatMap Batch.members) q
  consistent : q.layout.Consistent total
  cuts : s'.layout.Cuts q.layout (order.flatMap Batch.members)

namespace Erased

variable {total : Prop} {order order' : List Batch} {q : Store}

theorem nil (h : Phase B D s I freed done s') (hc : s'.layout.Consistent total) :
    Erased total B D s I freed done [] s' s' := ⟨by simpa using h, hc, .refl ..⟩

theorem append (h : Erased total B D s I freed done order s' s'')
    (h' : Erased total B D s I (freed ++ order.filterMap Batch.block)
      (done ++ order.flatMap Batch.members) order' s'' q) :
    Erased total B D s I freed done (order ++ order') s' q where
  phase := by simpa [List.append_assoc] using h'.phase
  consistent := h'.consistent
  cuts := (h.cuts.mono fun v hv => by simp [hv]).trans (h'.cuts.mono fun v hv => by simp [hv])

end Erased

theorem findsScope_of_cluster {c : ValueId} (h : s.layout.Cluster vs c) (hv : v ∈ vs ++ [c]) :
    s.layout.FindsScope v := by
  refine ⟨fun hb => ?_, fun hsc => ?_⟩
  · obtain ⟨rfl, hk⟩ := h.block v hv hb
    exact hk
  · obtain ⟨rfl, hk⟩ := h.scope v hv hsc
    exact ⟨_, tables_function.2 ⟨hk, rfl⟩⟩

end Store

namespace Query

variable {s : Store} {v b f : ValueId} {vs inside : List ValueId} {m : Members}

theorem forM_ok {α : Type} {q : α → Query Unit} {as : List α} :
    as.forM q s = .ok () ↔ ∀ a ∈ as, q a s = .ok () := by
  induction as with
  | nil => simp [List.forM]
  | cons a as ih =>
    change (q a >>= fun _ => as.forM q) s = .ok () ↔ _
    rw [bind_ok, List.forall_mem_cons, ← ih]
    exact ⟨fun ⟨_, ha, has⟩ => ⟨ha, has⟩, fun ⟨ha, has⟩ => ⟨(), ha, has⟩⟩

theorem blockingUses_ok {n : Nat} : blockingUses v inside s = .ok n ↔
    (∃ d, s.values.get? v = some d) ∧ ((s.usersOf v).filter fun u => !inside.contains u &&
      (s.config.blockAddressPolicy = .reject || !s.isBlockAddress u)).length = n := by
  simp [blockingUses, users_ok, Store.usersOf]

theorem expectErasable_ok (hs : s.Settled) : expectErasable vs inside s = .ok () ↔
    ∀ v ∈ vs, (∃ d, s.values.get? v = some d) ∧ s.Confines (· ∈ inside) v := by
  rw [expectErasable, forM_ok]
  refine forall₂_congr fun v _ => ?_
  have hzero : (do
      let uses ← blockingUses v inside
      if uses ≠ 0 then raise (.destroyWithUses v (← kind v) uses) : Query Unit) s = .ok () ↔
      blockingUses v inside s = .ok 0 := by
    rw [bind_ok]
    constructor
    · rintro ⟨n, hn, hif⟩
      split at hif
      · simp at hif
      next h => rwa [Decidable.not_not.1 h] at hn
    · exact fun h => ⟨0, h, rfl⟩
  rw [hzero, blockingUses_ok, List.length_eq_zero_iff, List.filter_eq_nil_iff]
  refine and_congr_right fun _ => forall_congr' fun u => ?_
  rw [← Store.uses_iff hs]
  refine imp_congr_right fun _ => ?_
  by_cases hi : u ∈ inside <;> by_cases hp : s.config.blockAddressPolicy = .reject <;> simp [hi, hp]

theorem blockMembers_ok : blockMembers b s = .ok m ↔ s.layout.kind b = some .block ∧
    m = ⟨b :: s.layout.children (.instructions b), s.layout.children (.instructions b)⟩ := by
  rw [blockMembers, bind_ok]
  constructor
  · rintro ⟨insts, hinsts, hm⟩
    obtain ⟨hb, rfl⟩ := blockInstructions_ok.1 hinsts
    exact ⟨hb, (pure_ok.1 hm).symm⟩
  · rintro ⟨hb, rfl⟩
    exact ⟨_, blockInstructions_ok.2 ⟨hb, rfl⟩, rfl⟩

end Query

namespace Edit

open Store

variable {B D I : ValueId → Prop} {s s' : Store} {v b c f g : ValueId} {k : ValueKind}
variable {freed done vs : List ValueId} {total : Prop}

section Steps

theorem ends_emptyAll_phase (h : Phase B D s I freed done s')
    (hvs : ∀ v ∈ vs, ∃ k, s'.layout.kind v = some k) (hD : ∀ v ∈ vs, D v) :
    Ends (vs.forM emptyOperands) s' (fun _ q => Phase B D s (fun u => I u ∨ u ∈ vs) freed done q ∧
      q.layout = s'.layout) fun _ _ => False := by
  refine ends_forM_visited vs (fun past q => Phase B D s (fun u => I u ∨ u ∈ past) freed done q ∧
    q.layout = s'.layout) ?_ s' ⟨h.mono fun u hu => hu.resolve_right List.not_mem_nil, rfl⟩
  rintro past v rest p rfl ⟨hp, hlayout⟩
  have hv : v ∈ past ++ v :: rest := List.mem_append_right _ (List.mem_cons_self ..)
  obtain ⟨k, hk⟩ := hvs v hv
  rw [← hlayout] at hk
  obtain ⟨hresident, d, hd, rfl⟩ := layout_kind.1 hk
  have hconstant : d.kind ≠ .constant := fun hk => by
    rw [hk] at hresident
    cases hresident
  refine (ends_emptyOperands_thins hp.coherent hd hconstant (hD v hv)).mono ?_ fun _ _ h => h
  rintro _ q ⟨hq, ht, hsame, hnone⟩
  have hphase := hp.step hq ht
  refine ⟨⟨hphase.settled, hphase.coherent, hphase.thins, fun hu hw => ?_, hphase.freed, hphase.done⟩,
    hsame.trans hlayout⟩
  obtain hI | hu := hu
  · exact hphase.idle (.inl hI) hw
  · obtain hu | hu := List.mem_append.1 hu
    · exact hphase.idle (.inr hu) hw
    · rw [List.mem_singleton.1 hu]
      exact hnone _

theorem ends_destroyValue_phase (h : Phase B D s I freed done s') (hD : D v)
    (hk : s'.layout.kind v = some k) (hconf : s.Confines I v) (hf : s.Foresees freed done v)
    (hscope : s'.layout.FindsScope v) : Ends (destroyValue v) s' (fun _ q =>
      Phase B D s I freed (done ++ [v]) q ∧ ∃ L, s'.layout.Strikes v L ∧ q.layout = L.drop [v])
      fun _ _ => False := by
  obtain ⟨hu, hn⟩ := h.yields hk hconf hf
  obtain ⟨-, d, hd, -⟩ := layout_kind.1 hk
  refine (ends_destroyValue_thins h.coherent hk hD hu hn hscope).mono ?_ fun _ _ h => h
  rintro _ q ⟨hq, ht, hdead, hlayout⟩
  have hphase := h.step hq ht
  refine ⟨⟨hphase.settled, hphase.coherent, hphase.thins, hphase.idle, hphase.freed, fun hw => ?_⟩,
    hlayout⟩
  obtain hw | hw := List.mem_append.1 hw
  · exact hphase.done hw
  · obtain rfl := List.mem_singleton.1 hw
    refine ⟨Nat.lt_of_lt_of_le (Arena.lt_size_of_get? hd) ?_, hdead⟩
    have hsize (s : Store) : s.traits.size = s.values.size := Arena.size_map ..
    simpa only [hsize] using ht.traits.size

/-- Values that have been foreseen to yield are destroyed one after the other, but for the last. -/
theorem ends_destroyAll_phase (h : Phase B D s I freed done s') (hcluster : s'.layout.Cluster vs c)
    (hD : ∀ v ∈ vs, D v) (hconf : ∀ v ∈ vs, s.Confines I v)
    (hf : s.ForeseesEach freed done vs) :
    Ends (vs.forM destroyValue) s' (fun _ q => Phase B D s I freed (done ++ vs) q ∧
      q.layout.Cluster [] c) fun _ _ => False := by
  refine (ends_forM (fun rest q => ∃ past, vs = past ++ rest ∧ s.ForeseesEach freed (done ++ past) rest ∧
    Phase B D s I freed (done ++ past) q ∧ q.layout.Cluster rest c) ?_ vs s'
    ⟨[], rfl, by rwa [List.append_nil], by rwa [List.append_nil], hcluster⟩).mono ?_ fun _ _ h => h
  · rintro v rest p ⟨past, rfl, ⟨hfv, hf⟩, hp, hcluster⟩
    have hv : v ∈ past ++ v :: rest := List.mem_append_right _ (List.mem_cons_self ..)
    have hin : v ∈ (v :: rest) ++ [c] := List.mem_append_left _ (List.mem_cons_self ..)
    obtain ⟨k, hk⟩ := hcluster.kind v hin
    refine (ends_destroyValue_phase hp (hD v hv) hk (hconf v hv) hfv
      (findsScope_of_cluster hcluster hin)).mono ?_ fun _ _ h => h
    rintro _ q ⟨hq, L, hstrikes, hlayout⟩
    rw [List.append_assoc] at hq hf
    exact ⟨past ++ [v], by simp, hf, hq, hlayout ▸ hcluster.drop hstrikes⟩
  · rintro _ q ⟨past, hpast, -, hq, hcluster⟩
    rw [List.append_nil] at hpast
    exact ⟨hpast ▸ hq, hcluster⟩

theorem ends_destroyLast_phase (h : Phase B D s I freed done s') (hcluster : s'.layout.Cluster [] c)
    (hD : D c) (hconf : s.Confines I c) (hf : s.Foresees freed done c) :
    Ends (destroyValue c) s' (fun _ q => Phase B D s I freed (done ++ [c]) q) fun _ _ => False := by
  obtain ⟨k, hk⟩ := hcluster.kind c (List.mem_singleton_self c)
  exact (ends_destroyValue_phase h hD hk hconf hf (findsScope_of_cluster hcluster
    (List.mem_singleton_self c))).mono (fun _ _ h => h.1) fun _ _ h => h

end Steps

section Blocks

theorem cluster_block (hp : s'.layout.Placed) (hb : s'.layout.kind b = some .block)
    (hplace : s'.layout.place b = none) :
    (s'.layout.relist (.instructions b) fun _ => []).Cluster (s'.layout.children (.instructions b))
      b := by
  have hmem {v : ValueId} : v ∈ s'.layout.children (.instructions b) ++ [b] ↔
      v ∈ b :: s'.layout.children (.instructions b) :=
    (List.perm_append_singleton b _).mem_iff
  have hstands {v : ValueId} (hv : v ∈ s'.layout.children (.instructions b) ++ [b]) :
      s'.layout.place v = some (.instructions b) ∨ v = b := by
    rwa [List.mem_append, List.mem_singleton, ← hp.child] at hv
  refine ⟨(List.perm_append_singleton b _).nodup_iff.2 (nodup_members hp hb),
    fun v hv => kind_of_member hp hb (hmem.1 hv), fun v hv c hc => ?_, fun v hv sc hsc => ?_⟩
  · obtain hv | rfl := hstands hv
    · exact ⟨(Place.instructions.inj (Option.some.inj (hv.symm.trans hc))).symm, hb⟩
    · cases hplace.symm.trans hc
  · have hnone : s'.layout.scope v = none := by
      obtain hv | rfl := hstands hv
      · exact Layout.scope_of_instructions hv hplace
      · exact Layout.scope_of_unplaced hplace (position_of_kind hb (by simp))
    cases hnone.symm.trans hsc

theorem ends_razeBlock_phase (h : Phase B D s I freed done s') (hp : s'.layout.Placed)
    (hb : s'.layout.kind b = some .block) (hplace : s'.layout.place b = none)
    (hD : ∀ v ∈ (s'.layout.blockBatch b).members, D v)
    (hconf : ∀ v ∈ (s'.layout.blockBatch b).members,
      s.Confines (fun u => I u ∨ u ∈ s'.layout.children (.instructions b)) v)
    (hf : s.ForeseesEach freed done (s'.layout.blockBatch b).members) : Ends (razeBlock b) s' (fun _ q =>
        Phase B D s (fun u => I u ∨ u ∈ s'.layout.children (.instructions b)) freed
          (done ++ (s'.layout.blockBatch b).members) q) fun _ _ => False := by
  have hcluster := cluster_block hp hb hplace
  have hin {v : ValueId} (hv : v ∈ s'.layout.children (.instructions b)) :
      v ∈ (s'.layout.blockBatch b).members := List.mem_append_left _ hv
  have hself : b ∈ (s'.layout.blockBatch b).members :=
    List.mem_append_right _ (List.mem_singleton_self b)
  obtain ⟨hfs, hfb, -⟩ := foreseesEach_append.1 hf
  unfold razeBlock
  rw [ends_bind, ends_lift_ok (Query.blockInstructions_ok.2 ⟨hb, rfl⟩)]
  refine Ends.bind (ends_clear_thins h.coherent hb (hD b hself)) ?_
  rintro _ p₁ ⟨hp₁, ht₁, hlayout₁⟩
  refine Ends.bind (ends_emptyAll_phase (h.step hp₁ ht₁) (fun v hv => ?_) fun v hv => hD v (hin hv)) ?_
  · rw [hlayout₁]
    exact hcluster.kind v (List.mem_append_left _ hv)
  rintro _ p₂ ⟨hp₂, hlayout₂⟩
  rw [← hlayout₁, ← hlayout₂] at hcluster
  refine Ends.bind (ends_destroyAll_phase hp₂ hcluster (fun v hv => hD v (hin hv))
    (fun v hv => hconf v (hin hv)) hfs) ?_
  rintro _ p₃ ⟨hp₃, hcluster₃⟩
  refine (ends_destroyLast_phase hp₃ hcluster₃ (hD b hself) (hconf b hself) hfb).mono ?_
    fun _ _ h => h
  intro _ q hq
  rwa [List.append_assoc] at hq

def dismantleBlock (b : ValueId) : Edit Unit := do
  nullifyBlockAddresses b
  detachBlock b
  razeBlock b

theorem ends_dismantleBlock (h : Phase B D s I freed done s') (hc : s'.layout.Consistent total)
    (hb : s'.layout.kind b = some .block) (hcontainer : ∀ f, s'.layout.place b = some (.blocks f) → D f)
    (hD : ∀ v ∈ (s'.layout.blockBatch b).members, D v)
    (hconf : ∀ v ∈ (s'.layout.blockBatch b).members,
      s.Confines (fun u => I u ∨ u ∈ s'.layout.children (.instructions b)) v)
    (hf : s.ForeseesEach (freed ++ [b]) done (s'.layout.blockBatch b).members) :
    Ends (dismantleBlock b) s' (fun _ q =>
        Phase B D s (fun u => I u ∨ u ∈ s'.layout.children (.instructions b)) (freed ++ [b])
          (done ++ (s'.layout.blockBatch b).members) q ∧
        q.layout.Consistent total ∧ s'.layout.Cuts q.layout (s'.layout.blockBatch b).members)
      fun _ _ => False := by
  have hself : b ∈ (s'.layout.blockBatch b).members :=
    List.mem_append_right _ (List.mem_singleton_self b)
  refine Ends.bind (ends_nullifyBlockAddresses_thins h.coherent hb (hD b hself)) ?_
  rintro _ p₁ ⟨hp₁, ht₁, hlayout₁, hnone⟩
  have hphase₁ : Phase B D s I (freed ++ [b]) done p₁ := by
    have hstep := h.step hp₁ ht₁
    refine ⟨hstep.settled, hstep.coherent, hstep.thins, hstep.idle, fun hc hcb => ?_, hstep.done⟩
    obtain hc | hc := List.mem_append.1 hc
    · exact hstep.freed hc hcb
    · rw [List.mem_singleton.1 hc]
      exact hnone _ hcb
  rw [← hlayout₁] at hc hb hcontainer hD hconf hf hself ⊢
  refine Ends.bind (ends_detachBlock_thins hp₁ hc hb (hD b hself) hcontainer) ?_
  rintro _ p₂ ⟨hp₂, ht₂, hc₂, hu⟩
  have hphase₂ := hphase₁.step hp₂ ht₂
  have hb₂ : p₂.layout.kind b = some .block := by rw [hu.kind, hb]
  have hinsts := instructions_of_uproots hu hb
  have hbatch : p₂.layout.blockBatch b = p₁.layout.blockBatch b := by
    rw [Layout.blockBatch, hinsts, Layout.blockBatch]
  have hcuts : p₁.layout.Cuts p₂.layout (p₁.layout.blockBatch b).members :=
    (hu.withdraws hc.placed).cuts hself
  have hclosed := closed_block hc₂.placed hb₂ hu.place_self
  rw [← hbatch] at hD hconf hf hcuts ⊢
  rw [← hinsts] at hconf ⊢
  refine ((ends_razeBlock_phase hphase₂ hc₂.placed hb₂ hu.place_self hD hconf hf).and
    (ends_razeBlock hp₂.settled hc₂.placed hb₂ hu.place_self)).mono ?_ fun _ _ h => h.1
  rintro _ q ⟨hq, -, hlayout⟩
  exact ⟨hq, hlayout ▸ hc₂.drop hclosed, hcuts.trans (hlayout ▸ Layout.cuts_drop ..)⟩

theorem eraseBlock_eq_dismantle (b : ValueId) : eraseBlock b = (do
    Query.expectKind b .block
    let members ← Query.blockMembers b
    Query.expectErasable members.all members.inside
    dismantleBlock b) := eraseBlock_eq b

theorem ends_eraseBlock_phase (h : Phase B D s I freed done s') (hc : s'.layout.Consistent total)
    (hb : s'.layout.kind b = some .block) (hcontainer : ∀ f, s'.layout.place b = some (.blocks f) → D f)
    (hD : ∀ v ∈ (s'.layout.blockBatch b).members, D v)
    (hconf : ∀ v ∈ (s'.layout.blockBatch b).members, s.Confines I v)
    (hf : s.ForeseesEach (freed ++ [b]) done (s'.layout.blockBatch b).members) :
    Ends (eraseBlock b) s' (fun _ q => Erased total B D s I freed done [s'.layout.blockBatch b] s' q)
      fun _ _ => False := by
  have hmem {v : ValueId} : v ∈ (s'.layout.blockBatch b).members ↔
      v ∈ b :: s'.layout.children (.instructions b) :=
    (List.perm_append_singleton b _).mem_iff
  have hcheck : Query.expectErasable (b :: s'.layout.children (.instructions b))
      (s'.layout.children (.instructions b)) s' = .ok () := by
    refine (Query.expectErasable_ok h.coherent.settled).2 fun v hv => ?_
    obtain ⟨k, hk⟩ := kind_of_member hc.placed hb hv
    obtain ⟨-, d, hd, -⟩ := layout_kind.1 hk
    exact ⟨⟨d, hd⟩, h.confines hk fun u hu => (hconf v (hmem.2 hv) u hu).imp_left .inl⟩
  have hkind : Query.expectKind b .block s' = .ok () := (Query.expectKind_layout rfl).2 hb
  rw [eraseBlock_eq_dismantle, ends_bind, ends_lift_ok hkind, ends_bind,
    ends_lift_ok (Query.blockMembers_ok.2 ⟨hb, rfl⟩), ends_bind, ends_lift_ok hcheck]
  refine (ends_dismantleBlock h hc hb hcontainer hD (fun v hv u hu =>
    (hconf v hv u hu).imp_left .inl) hf).mono ?_ fun _ _ h => h
  rintro _ q ⟨hphase, hcq, hcuts⟩
  exact ⟨by simpa [Layout.blockBatch] using hphase.mono fun _ => .inl, hcq, by simpa using hcuts⟩

end Blocks

end Edit

end ShaderIR
