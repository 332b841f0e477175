import ShaderIR.Proofs.ConstantKeys
import ShaderIR.Proofs.ErasureInvariants
import ShaderIR.Proofs.ListedChildren
import ShaderIR.Proofs.UniquedNodes

/-! What the tables of a store say and what the store holds. A coherent store is settled, its
constants and nodes are interned, and its lists of children hold no constants. -/

namespace ShaderIR.Edit

open Store

/-- Constants and nodes are interned, and lists of children hold no constants. Some values are known
to be no constants besides. -/
structure Tabled (B : ValueId → Prop) (s : Store) : Prop where
  keyed : s.Keyed
  listed : Listed B s
  wrapping : Wrapping s

/-- A settled store in step with its tables. -/
structure Coherent (B : ValueId → Prop) (s : Store) : Prop extends Tabled B s where
  settled : s.Settled

variable {B : ValueId → Prop} {s s' : Store} {u v old new : ValueId} {d : Value} {ty : TypeId}
variable {o : Option ValueId} {n m : NodeId} {α : Type} {e : Edit α}

theorem Coherent.wrapsLive (h : Coherent B s) : s.WrapsLive :=
  wrapsLive_iff.2 h.wrapping.live

theorem Coherent.weaken {B' : ValueId → Prop} (h : Coherent B' s) (hB : ∀ v, B v → B' v) :
    Coherent B s :=
  ⟨⟨h.keyed, h.listed.weaken hB, h.wrapping⟩, h.settled⟩

theorem Keeps.coherent (hs : Keeps Store.Settled e) (ht : Keeps (Tabled B) e) :
    Keeps (Coherent B) e := fun s h =>
  ((hs s h.settled).and (ht s h.toTabled)).mono (fun _ _ h => ⟨h.2, h.1⟩) fun _ _ h => ⟨h.2, h.1⟩

section Views

theorem Coherent.of_core (h : Coherent B s) (hc : s'.core = s.core) (hl : Listed B s') :
    Coherent B s' := by
  have hm : s'.metadata = s.metadata := congrArg Core.metadata hc
  have hlive : s.WrapsLive := h.wrapsLive
  refine ⟨⟨?_, hl, ?_⟩, by rw [Store.Settled, hc]; exact h.settled⟩
  · exact h.keyed.extends (.of_core (congrArg Core.types hc) (congrArg Core.uses hc)
      (congrArg Core.values hc)) (congrArg Core.constants hc)
  · refine ⟨h.wrapping.congr (congrArg Metadata.nodes hm) (congrArg Metadata.uniqued hm)
      (congrArg Metadata.nodeOf hm), ?_⟩
    exact wrapsLive_iff.1 (WrapsLive.of_core hlive hc)

theorem Fixes.coherent_of_core (h : Fixes Store.core e) (hl : Keeps (Listed B) e) :
    Keeps (Coherent B) e := fun s hs =>
  ((h.ends s).and (hl s hs.listed)).mono (fun _ _ h => hs.of_core h.1 h.2)
    fun _ _ h => hs.of_core h.1 h.2

theorem Fixes.coherent_of_placing (hc : Fixes Store.core e) (hl : Fixes Store.ledger e) :
    Keeps (Coherent B) e :=
  hc.coherent_of_core hl.listed

theorem Fixes.ends_tabled (h : Fixes Store.body e) (hs : Tabled B s)
    (hw : Ends e s (fun _ => Wrapping) fun _ => Wrapping) :
    Ends e s (fun _ => Tabled B) fun _ => Tabled B := by
  have hk {s' : Store} (hb : s'.body = s.body) : s'.Keyed :=
    hs.keyed.extends (.of_body hb) (show s'.body.constants = s.body.constants by rw [hb])
  exact (((h.ends s).and (h.listed_of_body s hs.listed)).and hw).mono
    (fun _ _ h => ⟨hk h.1.1, h.1.2, h.2⟩) fun _ _ h => ⟨hk h.1.1, h.1.2, h.2⟩

theorem Fixes.coherent_of_body (h : Fixes Store.body e) (hs : Keeps Store.Settled e)
    (hw : Keeps Wrapping e) : Keeps (Coherent B) e :=
  .coherent hs fun s ht => h.ends_tabled ht (hw s ht.wrapping)

theorem Fixes.coherent_of_holding (h : Fixes Store.body e) (hl : Fixes Store.ledger e)
    (hs : Keeps Store.Settled e) : Keeps (Coherent B) e :=
  h.coherent_of_body hs hl.wrapping

end Views

section Operands

theorem Coherent.add (h : Coherent B s) (hd : s.values.get? v = some d) (hk : d.kind ≠ .constant) :
    Coherent (fun w => B w ∨ w = v) s :=
  ⟨⟨h.keyed, h.listed.add hd hk, h.wrapping⟩, h.settled⟩

theorem Keeps.coherent_of {B' : ValueId → Prop} (h : Keeps (Coherent B') e) (hs : Coherent B' s)
    (hB : ∀ v, B v → B' v) : Ends e s (fun _ => Coherent B) fun _ => Coherent B :=
  (h s hs).mono (fun _ _ h => h.weaken hB) fun _ _ h => h.weaken hB

theorem Coherent.kind_ne (h : Coherent B s) (hu : B u) (hd : s.values.get? u = some d) :
    d.kind ≠ .constant := by
  have hlisting : s.ledger.values.get? u = some d.listing :=
    (Arena.get?_map ..).trans (congrArg (Option.map _) hd)
  exact (h.listed.base hu).kind hlisting

theorem Coherent.mayRefer (h : Coherent B s) (hu : B u) (o : Option ValueId) :
    MayRefer s u o := by
  intro d t hd ha ht
  rw [get?_core] at hd
  obtain ⟨d', hd', rfl⟩ := Option.map_eq_some_iff.1 hd
  have ha : d'.IsAddress := Value.bare_payload_constant.1 ha
  exact absurd ha.kind (h.kind_ne hu hd')

theorem Coherent.rewired (h : Coherent B s) (hu : B u) (hr : s.Rewired u s') : Coherent B s' := by
  have hext : s.Extends (fun _ => False) s' := hr.extends fun d hd => h.kind_ne hu hd
  have hset := hr.settled
  obtain ⟨g, rfl⟩ := hr.uses
  exact ⟨⟨h.keyed.extends hext rfl, h.listed, h.wrapping⟩, hset⟩

theorem keeps_addOperand_coherent (hu : B u) : Keeps (Coherent B) (addOperand u o) := fun _ hs =>
  (ends_addOperand hs.settled (hs.mayRefer hu o)).mono (fun _ _ hr => hs.rewired hu hr.1)
    fun _ _ hr => hs.rewired hu hr.1

theorem keeps_putOperand_coherent {i : Nat} (hu : B u) :
    Keeps (Coherent B) (putOperand u i o) := fun _ hs =>
  (ends_putOperand hs.settled (hs.mayRefer hu o)).mono (fun _ _ hr => hs.rewired hu hr)
    fun _ _ hr => hs.rewired hu hr

theorem keeps_emptyOperands_coherent (hu : B u) : Keeps (Coherent B) (emptyOperands u) :=
  .bind (.lift _) fun _ => .forM (fun _ => keeps_putOperand_coherent hu) _

theorem keeps_mutate {k : Unit → Edit α}
    (hk : Keeps (Coherent fun w => B w ∨ w = u) (k ())) :
    Keeps (Coherent B) (do Query.expectMutableOperands u; k ()) := by
  intro s hs
  refine ends_bind.2 (ends_lift.2 ⟨fun _ h => ?_, fun _ _ => hs⟩)
  obtain ⟨d, hd, hne⟩ : ∃ d, s.values.get? u = some d ∧ d.kind ≠ .constant := by
    simpa [Query.expectMutableOperands] using h
  exact hk.coherent_of (hs.add hd hne) fun _ => .inl

theorem keeps_setOperand_coherent {i : Nat} : Keeps (Coherent B) (setOperand u i o) :=
  keeps_mutate (k := fun _ => putOperand u i o) (keeps_putOperand_coherent (.inr rfl))

theorem keeps_pushOperand_coherent : Keeps (Coherent B) (pushOperand u o) :=
  keeps_mutate (k := fun _ => do
    Query.expectKind u .instruction
    addOperand u o) (.bind (.lift _) fun _ => keeps_addOperand_coherent (.inr rfl))

theorem keeps_dropAllReferences_coherent : Keeps (Coherent B) (dropAllReferences u) :=
  keeps_mutate (k := fun _ => emptyOperands u) (keeps_emptyOperands_coherent (.inr rfl))

theorem keeps_setInitializer_coherent : Keeps (Coherent B) (setInitializer u o) := by
  intro s hs
  refine ends_bind.2 (ends_lift.2 ⟨fun _ h => ?_, fun _ _ => hs⟩)
  obtain ⟨d, hd, hk⟩ := Query.expectKind_ok.1 h
  exact Keeps.coherent_of (keeps_putOperand_coherent (.inr rfl)) (hs.add hd (by simp [hk]))
    fun _ => .inl

end Operands

section Replacing

theorem Coherent.carries (h : Coherent B s) (hl : Carries (fun _ _ => False) (Listed B) e)
    (hi : Carries (fun _ _ => False) Interned e) :
    Ends e s (fun _ s' => Listed B s' ∧ Interned s') fun _ _ => True :=
  ((hl s h.listed).and (hi s h.wrapping.toInterned)).mono (fun _ _ h => h) fun _ _ _ => trivial

theorem keeps_destroyValue_coherent : Keeps (Coherent B) (destroyValue v) := by
  intro s hs
  have htables := (robust_listed.keeps_destroyValue (v := v) s hs.listed).and
    (robust_interned.keeps_destroyValue s hs.wrapping.toInterned)
  have hall := (ends_destroyValue_keyed hs.settled hs.keyed hs.wrapsLive).and htables
  exact hall.mono (fun _ _ h => ⟨⟨h.1.2.1, h.2.1, h.2.2, wrapsLive_iff.1 h.1.2.2⟩, h.1.1⟩)
    fun _ _ h => ⟨⟨h.1.2.1, h.2.1, h.2.2, wrapsLive_iff.1 h.1.2.2⟩, h.1.1⟩

theorem keeps_replaceAllUses_coherent : Keeps (Coherent B) (replaceAllUses old new) := by
  intro s hs
  by_cases hne : old = new
  · subst hne
    refine (replaceAllUses_self s old).weaken ?_
    rintro _ _ rfl
    exact hs
  refine ((ends_replaceAllUses ⟨hs.settled, rfl⟩ hs.keyed hne).and (hs.carries
    robust_listed.carries_replaceAllUses robust_interned.carries_replaceAllUses)).mono ?_ ?_
  · rintro _ s' ⟨h, hl, hi⟩
    exact ⟨⟨h.keyed, hl, hi, wrapsLive_iff.1 (h.wrapsLive hs.wrapsLive)⟩, h.settled.1⟩
  · rintro _ _ ⟨⟨rfl, -⟩, -⟩
    exact hs

theorem keeps_replaceUsesIf_coherent {σ : Type} {ask : σ → Use → Bool × σ} {st : σ} :
    Keeps (Coherent B) (replaceUsesIf old new ask st) := by
  intro s hs
  by_cases hne : old = new
  · unfold replaceUsesIf
    rw [if_pos hne]
    exact hs
  refine ((ends_replaceUsesIf ⟨hs.settled, rfl⟩ hs.keyed hne).and (hs.carries
    robust_listed.carries_replaceUsesIf robust_interned.carries_replaceUsesIf)).mono ?_ ?_
  · rintro _ s' ⟨⟨es, h⟩, hl, hi⟩
    exact ⟨⟨h.keyed, hl, hi, wrapsLive_iff.1 (h.wrapsLive hs.wrapsLive)⟩, h.settled.settledWith.1⟩
  · rintro _ _ ⟨rfl, -⟩
    exact hs

theorem keeps_replaceNode_coherent : Keeps (Coherent B) (replaceNode n m) := by
  intro s hs
  refine ((ends_replaceNode ⟨hs.settled, rfl⟩ hs.keyed).and (hs.carries
    robust_listed.carries_replaceNode robust_interned.carries_replaceNode)).mono ?_ ?_
  · rintro _ s' ⟨⟨hset, hk, hw⟩, hl, hi⟩
    exact ⟨⟨hk, hl, hi, wrapsLive_iff.1 (hw hs.wrapsLive)⟩, hset.1⟩
  · rintro _ _ ⟨rfl, -⟩
    exact hs

theorem fixes_settle {γ : Type} {view : Store → γ} [Unnoded view] {k : Storage} :
    Fixes view (settle n k) :=
  .bind fixes_modifyNode fun _ => .bind .get fun _ => fixes_setTracker

theorem fixes_eraseTemporary {γ : Type} {view : Store → γ} [Unnoded view] :
    Fixes view (eraseTemporary n) :=
  .bind (.lift _) fun _ => .bind .get fun _ => .guard (.raise _) (.bind (.bind (.lift _) fun _ =>
    .forM (fun _ => fixes_untrackOption) _) fun _ => fixes_modifyNodes fun _ => rfl)

theorem keeps_eraseTemporary_coherent : Keeps (Coherent B) (eraseTemporary n) :=
  fixes_eraseTemporary.coherent_of_body (.settled fun _ => keeps_eraseTemporary)
    keeps_eraseTemporary_wrapping

theorem keeps_replaceWithDistinct_coherent : Keeps (Coherent B) (replaceWithDistinct n) :=
  Fixes.coherent_of_body (.bind (.lift _) fun _ => .bind fixes_settle fun _ => .pure _)
    (.settled fun _ => keeps_replaceWithDistinct) keeps_replaceWithDistinct_wrapping

theorem keeps_replaceWithUniqued_coherent : Keeps (Coherent B) (replaceWithUniqued n) := by
  intro s hs
  have hset : Keeps Store.Settled (replaceWithUniqued n) := .settled fun _ => keeps_replaceWithUniqued
  suffices h : Ends (replaceWithUniqued n) s (fun _ => Tabled B) fun _ => Tabled B from
    ((hset s hs.settled).and h).mono (fun _ _ h => ⟨h.2, h.1⟩) fun _ _ h => ⟨h.2, h.1⟩
  refine ends_bind.2 (ends_lift.2 ⟨fun _ ht => ?_, fun _ _ => hs.toTabled⟩)
  obtain ⟨d, hd, htemp⟩ := Query.expectTemporary_ok.1 ht
  rw [ends_bind, ends_lift_ok (Query.node_ok.2 hd), ends_bind, ends_get]
  split
  next x hx =>
    have hmerge : Keeps (Coherent B) (do
        replaceNode n x
        eraseTemporary n
        return x) :=
      .bind keeps_replaceNode_coherent fun _ => .bind keeps_eraseTemporary_coherent fun _ => .pure _
    exact (hmerge s hs).mono (fun _ _ h => h.toTabled) fun _ _ h => h.toTabled
  next hnone =>
    have hbody : Fixes Store.body (do
        settle n .uniqued
        modify (·.modifyMetadata fun md => { md with uniqued := md.uniqued.insert d.content n })
        return n) :=
      .bind fixes_settle fun _ => .bind fixes_modifyMetadata fun _ => .pure _
    have hu : d.storage ≠ .uniqued := by simp [htemp]
    exact hbody.ends_tabled hs.toTabled ((ends_settle_uniqued hs.wrapping hd hu hnone).weaken
      fun _ _ h => h)

end Replacing

section Making

theorem keeps_internType_tabled {sh : TypeShape} : Keeps (Tabled B) (internType sh) :=
  Keeps.modifyGet fun _ hs =>
    ⟨hs.keyed.extends (.of_types fun h => TypeTable.get?_intern h sh) rfl, hs.listed, hs.wrapping⟩

theorem keeps_pushValue_wrapping : Keeps Wrapping (pushValue d) := by
  refine Keeps.modifyGet fun s hs => ⟨hs.congr rfl rfl rfl, fun {v n} hn => ?_⟩
  obtain ⟨k, hk⟩ := hs.live hn
  have hvalues : (s.values.push d).map Value.listing = s.ledger.values.push d.listing :=
    Arena.map_push ..
  refine ⟨k, (congrArg (Arena.get? · v) hvalues).trans ((Arena.get?_push ..).trans ?_)⟩
  rw [if_neg]
  · exact hk
  · rintro rfl
    simp at hk

theorem keeps_pushValue_tabled (hk : d.kind ≠ .constant) (hi : d.payload.instructions = []) :
    Keeps (Tabled B) (pushValue d) := fun s hs =>
  ⟨hs.keyed.extends (.of_push fun h => absurd (Value.constant?_eq_none.2 hk) h) rfl,
    keeps_pushValue_listed hi s hs.listed, keeps_pushValue_wrapping s hs.wrapping⟩

theorem ends_pushValue_coherent (hs : Coherent B s) (hset : (s.pushValue d).2.Settled)
    (hk : d.kind ≠ .constant) (hi : d.payload.instructions = []) :
    Ends (pushValue d) s (fun v s' => Coherent (fun w => B w ∨ w = v) s' ∧
      s'.values.get? v = some d) fun _ _ => False := by
  have htables : Tabled B (s.pushValue d).2 := keeps_pushValue_tabled hk hi s hs.toTabled
  have hget : (s.pushValue d).2.values.get? s.values.next = some d :=
    (get?_pushValue s d _).trans (if_pos rfl)
  exact ⟨Coherent.add ⟨htables, hset⟩ hget hk, hget⟩

theorem keeps_wrapperValue_coherent : Keeps (Coherent B) (wrapperValue n) := by
  have hbody {v : ValueId} : Fixes Store.body (do
      modify (·.modifyMetadata fun md => { md with wrapperOf := md.wrapperOf.insert n v })
      track (.wrapper v) n
      return v) :=
    .bind fixes_modifyMetadata fun _ => .bind fixes_track fun _ => .pure _
  have hledger {v : ValueId} : Fixes Store.ledger (do
      modify (·.modifyMetadata fun md => { md with wrapperOf := md.wrapperOf.insert n v })
      track (.wrapper v) n
      return v) :=
    .bind (.modify fun _ => rfl) fun _ => .bind fixes_track fun _ => .pure _
  refine .coherent safe_wrapperValue.keeps (.bind (.lift _) fun _ => .bind .get fun s => ?_)
  split
  · exact .pure _
  · exact .bind keeps_internType_tabled fun _ =>
      .bind (keeps_pushValue_tabled (by simp [Value.kind, Payload.kind]) rfl) fun _ =>
        fun s hs => hbody.ends_tabled hs (hledger.wrapping s hs.wrapping)

section Constants

variable {data : ConstantData}

theorem keeps_internScalar_coherent (hdata : data ≠ .blockAddress) :
    Keeps (Coherent B) (internScalar ty data) := by
  have htables : Keeps (fun s => Listed B s ∧ Wrapping s) (internScalar ty data) := by
    refine .bind .get fun s => ?_
    split
    · exact .pure _
    · exact .bind (.and (keeps_pushValue_listed rfl) keeps_pushValue_wrapping) fun _ =>
        .bind (.modify fun _ hs => hs) fun _ => .pure _
  intro s hs
  exact (((keeps_internScalar hdata s hs.settled).and (Ends.weaken (E := fun _ => Store.Keyed)
    (ends_internScalar_keyed hs.settled hs.keyed hdata) fun _ _ h => h)).and
    (htables s ⟨hs.listed, hs.wrapping⟩)).mono (fun _ _ h => ⟨⟨h.1.2, h.2.1, h.2.2⟩, h.1.1⟩)
      fun _ _ h => ⟨⟨h.1.2, h.2.1, h.2.2⟩, h.1.1⟩

theorem keeps_constNull_coherent : Keeps (Coherent B) (constNull ty) :=
  keeps_internScalar_coherent (by simp)

theorem keeps_blockAddress_coherent {f b : ValueId} : Keeps (Coherent B) (blockAddress f b) := by
  have hoperand {c : ValueId} {o : Option ValueId} :
      Keeps (fun s => Listed B s ∧ Wrapping s) (addOperand c o) := by
    have hledger : Fixes Store.ledger (addOperand c o) := fixes_addOperand.of_uses
    exact .and hledger.listed hledger.wrapping
  have htables : Keeps (fun s => Listed B s ∧ Wrapping s) (blockAddress f b) := by
    refine .bind (.lift _) fun _ => .bind (.lift _) fun _ => .bind .get fun s => ?_
    split
    · exact .pure _
    · exact .bind (fun s hs => ⟨hs.1, hs.2⟩) fun _ =>
        .bind (.and (keeps_pushValue_listed rfl) keeps_pushValue_wrapping) fun _ =>
          .bind hoperand fun _ => .bind hoperand fun _ => .bind (.modify fun _ hs => hs) fun _ =>
            .pure _
  intro s hs
  exact (((keeps_blockAddress s hs.settled).and (ends_blockAddress_keyed hs.settled hs.keyed)).and
    (htables s ⟨hs.listed, hs.wrapping⟩)).mono (fun _ _ h => ⟨⟨h.1.2, h.2.1, h.2.2⟩, h.1.1⟩)
      fun _ _ h => ⟨⟨h.1.2, h.2.1, h.2.2⟩, h.1.1⟩

end Constants

end Making

end ShaderIR.Edit
