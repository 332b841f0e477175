import ShaderIR.Proofs.AddressNullification
import ShaderIR.Proofs.ScopeTeardown

/-! What is left when a block has been erased. The block goes with its instructions and with the
block addresses that point at it, and a wrapper goes only if what its node wraps has been replaced
so that it has merged with another. All else stays where it is and keeps its name, and what its
slots held is in them still or has been replaced. -/

namespace ShaderIR

namespace Wiring

variable {c c' c'' : Wiring} {gone gone' : ValueId → Prop} {v w : ValueId} {k : ValueKind}

/-- Some values may have let go of their operands and may have died with the nodes that wrap them.
Nothing else has changed. -/
structure Loses (c c' : Wiring) (gone : ValueId → Prop) : Prop where
  survives : ∀ {v k}, c'.kind v = some k → c.kind v = some k
  kind : ∀ {v}, ¬ gone v → c'.kind v = c.kind v
  targets : ∀ {v}, ¬ gone v → c'.targets v = c.targets v
  nodeOf : ∀ {v : ValueId}, ¬ gone v → c'.nodeOf[v]? = c.nodeOf[v]?
  wrapperOf : c'.wrapperOf = c.wrapperOf

namespace Loses

theorem refl (c : Wiring) (gone : ValueId → Prop) : c.Loses c gone :=
  ⟨fun h => h, fun _ => rfl, fun _ => rfl, fun _ => rfl, rfl⟩

theorem trans (h : c.Loses c' gone) (h' : c'.Loses c'' gone) : c.Loses c'' gone where
  survives hv := h.survives (h'.survives hv)
  kind hv := (h'.kind hv).trans (h.kind hv)
  targets hv := (h'.targets hv).trans (h.targets hv)
  nodeOf hv := (h'.nodeOf hv).trans (h.nodeOf hv)
  wrapperOf := h'.wrapperOf.trans h.wrapperOf

theorem mono (h : c.Loses c' gone) (hg : ∀ v, gone v → gone' v) : c.Loses c' gone' where
  survives := h.survives
  kind hv := h.kind fun hgone => hv (hg _ hgone)
  targets hv := h.targets fun hgone => hv (hg _ hgone)
  nodeOf hv := h.nodeOf fun hgone => hv (hg _ hgone)
  wrapperOf := h.wrapperOf

theorem encloses (h : c.Loses c' gone) (hv : ¬ gone v) : c'.Encloses w v ↔ c.Encloses w v := by
  rw [Encloses, Encloses, h.nodeOf hv, h.wrapperOf]

end Loses

theorem loses_lose (c : Wiring) (v : ValueId) : c.Loses (c.lose v) (· = v) where
  survives hw := (kind_drop.1 hw).2
  kind hw := Function.update_of_ne hw ..
  targets hw := targets_drop hw
  nodeOf hw := (getElem?_erase_eq_ite ..).trans (if_neg (Ne.symm hw))
  wrapperOf := rfl

end Wiring

open Wiring

namespace Store

variable {s s' : Store} {v : ValueId}

theorem Rewired.loses (h : s.Rewired v s') : s.wiring.Loses s'.wiring (· = v) := by
  have htargets := h.others
  obtain ⟨g, rfl⟩ := h.uses
  exact ⟨fun h => h, fun _ => rfl, fun hw => htargets _ hw, fun _ => rfl, rfl⟩

theorem isLive_iff_kind : s.isLive v = true ↔ ∃ k, s.wiring.kind v = some k := by
  rw [isLive, Option.isSome_iff_exists]
  constructor
  · rintro ⟨d, hd⟩
    exact ⟨d.kind, kind_wiring hd⟩
  · rintro ⟨k, hk⟩
    obtain ⟨d, hd, -⟩ := Option.map_eq_some_iff.1 hk
    exact ⟨d, hd⟩

theorem isLive_eq_false : s.isLive v = false ↔ s.wiring.kind v = none := by
  rw [isLive, Option.isSome_eq_false_iff, Option.isNone_iff_eq_none]
  exact Option.map_eq_none_iff.symm

theorem wiring_of_layout {k : ValueKind} (h : s.layout.kind v = some k) :
    s.wiring.kind v = some k := by
  obtain ⟨-, d, hd, rfl⟩ := layout_kind.1 h
  exact kind_wiring hd

end Store

open Store

namespace Edit

variable {B : ValueId → Prop} {s : Store} {b v : ValueId} {vs insts : List ValueId} {total : Prop}
variable {J : (String → UInt64) × Arena .value Traits → Prop}

theorem ends_emptyAll (hs : s.Settled) (vs : List ValueId) : Ends (vs.forM emptyOperands) s
    (fun _ s' => s'.Settled ∧ s.wiring.Loses s'.wiring (· ∈ vs)) fun _ _ => True := by
  refine ends_forM_visited vs (fun _ s' => s'.Settled ∧ s.wiring.Loses s'.wiring (· ∈ vs)) ?_ s
    ⟨hs, .refl ..⟩
  rintro done v rest s' hvs ⟨hs', h⟩
  refine (ends_emptyOperands hs').mono (fun _ s'' hr => ⟨hr.settled, h.trans (hr.loses.mono ?_)⟩)
    fun _ _ _ => trivial
  rintro _ rfl
  simp [hvs]

theorem ends_destroyValue_loses (hs : s.Settled) (hm : s.wiring.kind v ≠ some .metadata) :
    Ends (destroyValue v) s (fun _ s' => s'.Settled ∧ s.wiring.Loses s'.wiring (· = v))
      fun _ _ => True := by
  have hentered : ¬ s.IsEntered v := fun hw => by
    obtain ⟨d, hd, hk⟩ := IsEntered.kind hw hs
    exact hm ((kind_wiring hd).trans (congrArg some hk))
  refine ((keeps_destroyValue s hs).and (ends_destroyValue_wiring hs hentered)).mono ?_
    fun _ _ _ => trivial
  rintro _ s' ⟨hs', hwiring⟩
  exact ⟨hs', hwiring ▸ loses_lose ..⟩

theorem ends_destroyAll_loses (hs : s.Settled) (vs : List ValueId)
    (hm : ∀ v ∈ vs, s.wiring.kind v ≠ some .metadata) : Ends (vs.forM destroyValue) s
      (fun _ s' => s'.Settled ∧ s.wiring.Loses s'.wiring (· ∈ vs)) fun _ _ => True := by
  refine ends_forM_visited vs (fun _ s' => s'.Settled ∧ s.wiring.Loses s'.wiring (· ∈ vs)) ?_ s
    ⟨hs, .refl ..⟩
  rintro done v rest s' hvs ⟨hs', h⟩
  have hv : v ∈ vs := by simp [hvs]
  refine (ends_destroyValue_loses hs' fun hk => hm v hv (h.survives hk)).mono ?_ fun _ _ _ => trivial
  rintro _ s'' ⟨hs'', h'⟩
  refine ⟨hs'', h.trans (h'.mono ?_)⟩
  rintro _ rfl
  exact hv

theorem ends_razeBlock_loses (hs : s.Settled) (hq : Query.blockInstructions b s = .ok insts)
    (hm : ∀ v ∈ insts ++ [b], s.wiring.kind v ≠ some .metadata) : Ends (razeBlock b) s
      (fun _ s' => s.wiring.Loses s'.wiring (· ∈ insts ++ [b])) fun _ _ => True := by
  unfold razeBlock
  rw [ends_bind, ends_lift_ok hq]
  have hclear : Fixes Store.core (modifyInstructions b fun _ => []) := fixes_modifyInstructions
  refine Ends.bind (((keeps_of_fixes hclear s hs).and (hclear.ends s)).mono (fun _ _ h => h)
    fun _ _ _ => trivial) ?_
  rintro _ s₁ ⟨hs₁, hcore⟩
  rw [← wiring_of_core hcore] at hm ⊢
  have hinsts (v : ValueId) (hv : v ∈ insts) : v ∈ insts ++ [b] := List.mem_append_left _ hv
  have hb : b ∈ insts ++ [b] := List.mem_append_right _ (List.mem_singleton_self b)
  refine Ends.bind (ends_emptyAll hs₁ insts) ?_
  rintro _ s₂ ⟨hs₂, h₂⟩
  refine Ends.bind (ends_destroyAll_loses hs₂ insts fun v hv hk =>
    hm v (hinsts v hv) (h₂.survives hk)) ?_
  rintro _ s₃ ⟨hs₃, h₃⟩
  have hall : s₁.wiring.Loses s₃.wiring (· ∈ insts ++ [b]) := (h₂.trans h₃).mono hinsts
  refine (ends_destroyValue_loses hs₃ fun hk => hm b hb (hall.survives hk)).mono ?_
    fun _ _ _ => trivial
  rintro _ s₄ ⟨-, h₄⟩
  refine hall.trans (h₄.mono ?_)
  rintro _ rfl
  exact hb

theorem keeps_razeBlock_naming (herase : ∀ a v, J a → J (a.1, a.2.erase v)) :
    Keeps (fun s => J s.naming) (razeBlock b) :=
  .bind (.lift _) fun insts => .bind (naming_modifyInstructions.keeps J) fun _ =>
    .bind (.forM (fun _ => fixes_emptyOperands.of_uses.keeps J) insts) fun _ =>
      .bind (.forM (fun _ => (robust_naming herase).keeps_destroyValue) insts) fun _ =>
        (robust_naming herase).keeps_destroyValue

theorem naming_detachBlock : Fixes Store.naming (detachBlock b) :=
  .bind (.lift _) fun _ => .ite naming_removeBlock (.pure _)

theorem ends_eraseBlock_loses (hs : Coherent B s) (hc : s.layout.Consistent total) :
    Ends (eraseBlock b) s (fun _ s' => s.layout.kind b = some .block ∧ ∃ p q null into,
      p.Settled ∧ s.Equips p b null ∧ p.Nullifies q (s.PointsAt · b) null into ∧
        p.traits.Continues s'.traits ∧
          q.wiring.Loses s'.wiring (· ∈ s.layout.children (.instructions b) ++ [b]))
      fun _ _ => True := by
  rw [eraseBlock_eq]
  refine ends_bind.2 (ends_lift.2 ⟨fun _ hb => ?_, fun _ _ => trivial⟩)
  refine ends_bind.2 (ends_lift.2 ⟨fun members _ => ?_, fun _ _ => trivial⟩)
  refine ends_bind.2 (ends_lift.2 ⟨fun _ _ => ?_, fun _ _ => trivial⟩)
  have hb := (Query.expectKind_layout rfl).1 hb
  obtain ⟨-, d, hd, -⟩ := layout_kind.1 hb
  refine Ends.bind (((ends_nullifyBlockAddresses hs hd).and
    (keeps_nullifyBlockAddresses_layout s ⟨hs.settled, rfl⟩)).mono (fun _ _ h => h)
    fun _ _ _ => trivial) ?_
  rintro _ q ⟨⟨hq, p, null, into, hp, hequips, hnull⟩, -, hlayout⟩
  rw [← hlayout] at hb hc ⊢
  have hdetach : Keeps (fun s' => p.traits.Continues s'.traits) (detachBlock b) :=
    naming_detachBlock.keeps fun x => p.traits.Continues x.2
  refine Ends.bind (((ends_detachBlock hq.settled hc).and (hdetach q hnull.traits)).mono
    (fun _ _ h => h) fun _ _ _ => trivial) ?_
  rintro _ s₂ ⟨⟨hs₂, hcore, hc₂, hu⟩, htraits⟩
  have hb₂ : s₂.layout.kind b = some .block := by rw [hu.kind, hb]
  have hinsts := instructions_of_uproots hu hb
  have hmembers (v : ValueId) (hv : v ∈ s₂.layout.children (.instructions b) ++ [b]) :
      s₂.wiring.kind v ≠ some .metadata := by
    obtain ⟨k, hk⟩ := kind_of_member hc₂.placed hb₂ ((List.perm_append_singleton b _).mem_iff.1 hv)
    rw [wiring_of_layout hk]
    rintro ⟨⟩
    cases (layout_kind.1 hk).1
  refine ((ends_razeBlock_loses hs₂ (Query.blockInstructions_ok.2 ⟨hb₂, rfl⟩) hmembers).and
    (keeps_razeBlock_naming (J := fun x => p.traits.Continues x.2) (fun _ v h => h.erase v) s₂
      htraits)).mono ?_ fun _ _ _ => trivial
  rintro _ s' ⟨hloses, htraits'⟩
  rw [wiring_of_core hcore, hinsts] at hloses
  exact ⟨hb, p, q, null, into, hp, hequips, hnull, htraits', hloses⟩

end Edit

namespace Layout

variable {L L' : Layout} {b : ValueId} {D : List ValueId}

theorem Uproots.delisted_drop (h : L.Uproots L' b) (hD : L.children (.instructions b) ++ [b] = D)
    (htables : ∀ f ∈ D, L.tables (.function f) = none) : L.Delisted (L'.drop D) D := by
  have hlisted : L.Delisted L' D := hD ▸ h.delisted
  have hdrop (sc : Scope) : (L'.drop D).tables sc = L'.tables sc ∨
      (L'.drop D).tables sc = none ∧ L.tables sc = none := by
    cases sc with
    | module m => exact .inl rfl
    | function f =>
      by_cases hf : f ∈ D
      · exact .inr ⟨if_pos hf, htables f hf⟩
      · exact .inl (if_neg hf)
  refine ⟨fun sc hsc => ?_, fun {sc t} ht => ?_⟩
  · obtain hsame | ⟨hnone, hnone'⟩ := hdrop sc
    · rw [hsame, hlisted.elsewhere sc hsc]
    · rw [hnone, hnone']
  · obtain hsame | ⟨-, hnone⟩ := hdrop sc
    · rw [hsame]
      exact hlisted.tables ht
    · cases hnone.symm.trans ht

end Layout

namespace Store

variable {s p q s' : Store} {b c null u v w : ValueId} {insts : List ValueId} {k : ValueKind}
variable {into : ValueId → ValueId}

/-- A block has been erased. It has gone with its instructions and with the block addresses that
point at it, in whose place there is a null constant. A wrapper has gone only if it trails these:
what its node wraps has been replaced, and it has merged with the wrapper of what is there
instead. Nothing else has gone, has moved or has another name. -/
structure ErasesBlock (s s' : Store) (b : ValueId) (insts : List ValueId) (null : ValueId)
    (into : ValueId → ValueId) : Prop where
  gone : ∀ v, v ∈ insts ++ [b] ∨ s.PointsAt v b → s.isLive v = true ∧ s'.isLive v = false
  merged : ∀ v, s.isLive v = true → s'.isLive v = false → v ∉ insts ++ [b] → ¬ s.PointsAt v b →
    Query.kind v s = .ok .metadata ∧ s.wiring.Trails (s.PointsAt · b) (s'.isLive · = false) v
  created : ∀ v, s.isLive v = false → s'.isLive v = true → v = null ∧ ∃ c, s.PointsAt c b
  nullified : ∀ c, s.PointsAt c b → into c = null ∧ ∃ ty, Query.typeOf c s = .ok ty ∧
    Query.shape ty s = .ok .ptr ∧ Query.typeOf null s' = .ok ty ∧
      Query.constantData null s' = .ok (some .null)
  follows : ∀ w v, v ∉ insts ++ [b] → s.wiring.Encloses w v →
    s'.isLive (into w) = true ∧ s'.wiring.Encloses (into w) (into v)
  stays : ∀ v, s.isLive v = true → s'.isLive v = true → into v = v
  unmerged : ∀ v ∈ insts ++ [b], into v = v
  operands : ∀ u os, s'.isLive u = true → Query.operands u s = .ok os →
    Query.operands u s' = .ok (os.map (Option.map into))
  kept : ∀ v, s.isLive v = true → s'.isLive v = true → Query.kind v s' = Query.kind v s ∧
    Query.name v s' = Query.name v s ∧ Query.nameHash v s' = Query.nameHash v s ∧
      s'.layout.place v = s.layout.place v ∧ s'.layout.position v = s.layout.position v
  children : ∀ p, (∀ v, p.owner? = some v → s'.isLive v = true) → s'.layout.children p =
    if s.layout.place b = some p then ShaderIR.without b (s.layout.children p)
    else s.layout.children p
  tables : s.layout.Delisted s'.layout (insts ++ [b])

/-- The stages in which a block is erased: the null constant is there, then the block addresses have
gone, and at last the block and its instructions. -/
structure Demolishes (s p q s' : Store) (b : ValueId) (insts : List ValueId) (null : ValueId)
    (into : ValueId → ValueId) : Prop where
  placed : s.layout.Placed
  wrapsLive : s.WrapsLive
  block : s.layout.kind b = some .block
  instructions : s.layout.children (.instructions b) = insts
  settled : p.Settled
  equips : s.Equips p b null
  nullifies : p.Nullifies q (s.PointsAt · b) null into
  loses : q.wiring.Loses s'.wiring (· ∈ insts ++ [b])
  traits : p.traits.Continues s'.traits
  layout : ∃ L, s.layout.Uproots L b ∧ s'.layout = L.drop (insts ++ [b])

namespace Demolishes

variable (h : s.Demolishes p q s' b insts null into)

include h

theorem kind_member (hv : v ∈ insts ++ [b]) : ∃ k, s.layout.kind v = some k :=
  kind_of_member h.placed h.block ((List.perm_append_singleton b _).mem_iff.1 (h.instructions ▸ hv))

theorem kind_before (hv : s.wiring.kind v = some k) : p.wiring.kind v = some k := by
  obtain ⟨d, hd, rfl⟩ := Option.map_eq_some_iff.1 hv
  exact kind_wiring (h.equips.value hd)

theorem resident (hv : v ∈ insts ++ [b]) (hk : p.wiring.kind v = some k) :
    k.isResident = true := by
  obtain ⟨k', hk'⟩ := h.kind_member hv
  obtain rfl := Option.some.inj ((h.kind_before (wiring_of_layout hk')).symm.trans hk)
  exact (layout_kind.1 hk').1

theorem encloses_before : p.wiring.Encloses w v ↔ s.wiring.Encloses w v := by
  have hmetadata : p.metadata = s.metadata := h.equips.metadata
  simp only [Encloses, Store.wiring, hmetadata]

theorem kind_after (hv : s'.wiring.kind v = some k) :
    q.wiring.kind v = some k ∧ p.wiring.kind v = some k ∧ ¬ s.PointsAt v b ∧ into v = v := by
  have hq := h.loses.survives hv
  obtain ⟨hp, hstays⟩ := h.nullifies.absorbs.survives hq
  have hnot : ¬ s.PointsAt v b := fun hc => by
    cases hq.symm.trans (h.nullifies.dead v hc)
  exact ⟨hq, hp, hnot, hstays hnot⟩

theorem dead_member (hv : v ∈ insts ++ [b]) : s'.wiring.kind v = none := by
  obtain ⟨L, -, hlayout⟩ := h.layout
  rw [Option.eq_none_iff_forall_ne_some]
  intro k hk
  obtain ⟨d, hd, hkd⟩ := Option.map_eq_some_iff.1 hk
  have hresident : k.isResident = true := h.resident hv (h.kind_after hk).2.1
  have hlive : s'.layout.kind v = some k := layout_kind.2 ⟨hresident, d, hd, hkd⟩
  rw [hlayout] at hlive
  cases hlive.symm.trans (if_pos hv)

theorem dead_address (hc : s.PointsAt c b) : s'.wiring.kind c = none := by
  rw [Option.eq_none_iff_forall_ne_some]
  exact fun k hk => (h.kind_after hk).2.2.1 hc

theorem not_mem_of_kind (hv : s'.wiring.kind v = some k) : v ∉ insts ++ [b] := fun hmem => by
  cases hv.symm.trans (h.dead_member hmem)

theorem fixed (hv : p.wiring.kind v = some k) (hk : k.isResident = true) : into v = v := by
  have hgone : ¬ s.PointsAt v b := fun hc => by
    obtain ⟨d, hd, ha⟩ := Edit.isBlockAddress_iff.1 hc.1
    rw [h.kind_before (kind_wiring hd), ha.kind] at hv
    obtain rfl := Option.some.inj hv
    cases hk
  have hmeta : k ≠ .metadata := by
    rintro rfl
    cases hk
  exact (fixed_of_absorbs h.nullifies.absorbs h.settled hv hmeta hgone).1

theorem unmerged (hv : v ∈ insts ++ [b]) : into v = v := by
  obtain ⟨k, hk⟩ := h.kind_member hv
  exact h.fixed (h.kind_before (wiring_of_layout hk)) (layout_kind.1 hk).1

theorem lands (hv : p.wiring.kind v = some k) (hnot : v ∉ insts ++ [b]) :
    s'.wiring.kind (into v) = some k ∧ into v ∉ insts ++ [b] := by
  have hlands := h.nullifies.absorbs.lands hv
  have hinto : into v ∉ insts ++ [b] := fun hmem => by
    -- What it has replaced is of its kind, so that has not been replaced.
    have hresident := h.resident hmem (h.nullifies.absorbs.survives hlands).1
    exact hnot (h.fixed hv hresident ▸ hmem)
  exact ⟨(h.loses.kind hinto).trans hlands, hinto⟩

theorem merged (hv : s.wiring.kind v = some k) (hdead : s'.wiring.kind v = none)
    (hnot : v ∉ insts ++ [b]) (hc : ¬ s.PointsAt v b) :
    k = .metadata ∧ s.wiring.Trails (s.PointsAt · b) (s'.isLive · = false) v := by
  have hp := h.kind_before hv
  have hne : into v ≠ v := fun hself => by
    have hlands := (h.lands hp hnot).1
    rw [hself, hdead] at hlands
    cases hlands
  have htrails := h.nullifies.absorbs.trails hc hne
  obtain ⟨x, hx⟩ := htrails.encloses
  obtain ⟨d, hd, hk⟩ := IsEntered.kind hx.isEntered h.settled
  rw [kind_wiring hd, hk] at hp
  refine ⟨(Option.some.inj hp).symm, htrails.mono h.encloses_before.1 (fun _ hg => hg)
    fun u hu => ?_⟩
  rw [isLive_eq_false, Option.eq_none_iff_forall_ne_some]
  intro k hk
  cases hu.symm.trans (h.loses.survives hk)

theorem traits_eq {d d' : Value} (hd : p.values.get? v = some d)
    (hd' : s'.values.get? v = some d') :
    d'.traits = d.traits :=
  (h.traits.get?_eq (by rw [get?_traits, hd]; rfl) (by rw [get?_traits, hd']; rfl)).symm

theorem null_after (hc : s.PointsAt c b) : ∃ ty, Query.typeOf c s = .ok ty ∧
    Query.shape ty s = .ok .ptr ∧ Query.typeOf null s' = .ok ty ∧
      Query.constantData null s' = .ok (some .null) := by
  obtain ⟨ty, hty, hshape, hnull⟩ := h.equips.content c hc
  have hkind := kind_of_null hnull
  have hstays := (h.nullifies.content h.settled hnull).2
  have hnot : null ∉ insts ++ [b] := fun hmem => by cases h.resident hmem hkind
  have hlands := (h.lands hkind hnot).1
  rw [hstays] at hlands
  obtain ⟨d', hd', -⟩ := Option.map_eq_some_iff.1 hlands
  refine ⟨ty, hty, hshape, ?_⟩
  cases hnull with
  | scalar hd hp hdata =>
    have hconstant : d'.constant? = _ := congrArg Prod.snd (h.traits_eq hd hd')
    rw [Value.traits, Value.constant?_eq_some.2 ⟨rfl, hp⟩] at hconstant
    obtain ⟨hty', hp'⟩ := Value.constant?_eq_some.1 hconstant
    refine ⟨Query.typeOf_ok.2 ⟨d', hd', hty'⟩, ?_⟩
    exact Query.bind_ok.2 ⟨_, Query.payload_ok.2 ⟨d', hd', hp'⟩, rfl⟩

theorem follows (hv : v ∉ insts ++ [b]) (hw : s.wiring.Encloses w v) :
    s'.isLive (into w) = true ∧ s'.wiring.Encloses (into w) (into v) := by
  have hp := h.encloses_before.2 hw
  obtain ⟨n, hn, -⟩ := hw
  obtain ⟨d, hd⟩ := h.wrapsLive hn
  obtain ⟨-, hinto⟩ := h.lands (h.kind_before (kind_wiring hd)) hv
  obtain ⟨dw, hdw, hkw⟩ := IsEntered.kind hp.isEntered h.settled
  have hkind : p.wiring.kind w = some .metadata := by rw [kind_wiring hdw, hkw]
  have hwrapper : w ∉ insts ++ [b] := fun hmem => by cases h.resident hmem hkind
  have hlands := (h.lands hkind hwrapper).1
  exact ⟨isLive_iff_kind.2 ⟨_, hlands⟩,
    (h.loses.encloses hinto).2 (h.nullifies.absorbs.encloses hp)⟩

theorem created (hv : s.wiring.kind v = none) (hv' : s'.wiring.kind v = some k) :
    v = null ∧ ∃ c, s.PointsAt c b := by
  obtain ⟨-, hp, -⟩ := h.kind_after hv'
  obtain ⟨d, hd, -⟩ := Option.map_eq_some_iff.1 hp
  have hnone : s.values.get? v = none := Option.map_eq_none_iff.1 hv
  have hnull : v = null := by
    by_contra hne
    cases hnone.symm.trans ((h.equips.others v hne).symm.trans hd)
  subst hnull
  exact ⟨rfl, h.equips.made hnone hd⟩

theorem targets (hu : s'.wiring.kind u = some k) :
    s'.uses.targets u = (s.uses.targets u).map (Option.map into) := by
  have hloses : s'.wiring.targets u = q.wiring.targets u := h.loses.targets (h.not_mem_of_kind hu)
  have habsorbs := h.nullifies.absorbs.targets (h.kind_after hu).1
  have huses : p.uses = s.uses := h.equips.uses
  exact (hloses.trans habsorbs).trans (by rw [Store.wiring, huses])

theorem named {d d' : Value} (hd : s.values.get? v = some d) (hd' : s'.values.get? v = some d') :
    d'.kind = d.kind ∧ d'.name = d.name ∧ d'.nameHash = d.nameHash := by
  have hkind := (h.kind_after (kind_wiring hd')).2.1.symm.trans (h.kind_before (kind_wiring hd))
  have hlabel : d'.label = d.label := congrArg Prod.fst (h.traits_eq (h.equips.value hd) hd')
  obtain ⟨hname, hhash⟩ := Prod.mk.inj hlabel
  exact ⟨Option.some.inj hkind, hname, hhash⟩

theorem seated (hv : v ∉ insts ++ [b]) : s'.layout.place v = s.layout.place v ∧
    s'.layout.position v = s.layout.position v := by
  obtain ⟨L, hu, hlayout⟩ := h.layout
  have hvb : v ≠ b := by
    rintro rfl
    exact hv (List.mem_append_right _ (List.mem_singleton_self v))
  rw [hlayout]
  constructor
  · exact (if_neg hv).trans (by rw [hu.place, Function.update_of_ne hvb])
  · exact (if_neg hv).trans (by rw [hu.position])

theorem children {p : Place} (hp : ∀ v, p.owner? = some v → v ∉ insts ++ [b]) :
    s'.layout.children p = if s.layout.place b = some p then ShaderIR.without b (s.layout.children p)
      else s.layout.children p := by
  obtain ⟨L, hu, hlayout⟩ := h.layout
  rw [hlayout, Layout.children_drop, hu.children]
  rintro ⟨v, hv, howner⟩
  exact hp v howner hv

theorem delisted : s.layout.Delisted s'.layout (insts ++ [b]) := by
  obtain ⟨L, hu, hlayout⟩ := h.layout
  rw [hlayout]
  refine hu.delisted_drop (by rw [h.instructions]) fun f hf => ?_
  rw [Option.eq_none_iff_forall_ne_some]
  intro t ht
  have hfunction := (tables_function.1 ht).1
  rw [List.mem_append, List.mem_singleton, ← h.instructions] at hf
  obtain hf | rfl := hf
  · cases (kind_of_place ((h.placed.child f _).2 hf)).symm.trans hfunction
  · cases h.block.symm.trans hfunction

theorem erasesBlock : s.ErasesBlock s' b insts null into where
  gone v hv := by
    obtain hv | hv := hv
    · obtain ⟨k, hk⟩ := h.kind_member hv
      exact ⟨isLive_iff_kind.2 ⟨k, wiring_of_layout hk⟩, isLive_eq_false.2 (h.dead_member hv)⟩
    · obtain ⟨d, hd, -⟩ := Edit.isBlockAddress_iff.1 hv.1
      exact ⟨isLive_iff_kind.2 ⟨_, kind_wiring hd⟩, isLive_eq_false.2 (h.dead_address hv)⟩
  merged v hv hv' hnot hc := by
    obtain ⟨d, hd⟩ := Option.isSome_iff_exists.1 hv
    obtain ⟨hk, htrails⟩ := h.merged (kind_wiring hd) (isLive_eq_false.1 hv') hnot hc
    exact ⟨Query.kind_ok.2 ⟨d, hd, hk⟩, htrails⟩
  created v hv hv' := by
    obtain ⟨k, hk⟩ := isLive_iff_kind.1 hv'
    exact h.created (isLive_eq_false.1 hv) hk
  nullified c hc := ⟨h.nullifies.nulled c hc, h.null_after hc⟩
  follows w v hv hw := h.follows hv hw
  stays v _ hv' := by
    obtain ⟨k, hk⟩ := isLive_iff_kind.1 hv'
    exact (h.kind_after hk).2.2.2
  unmerged v hv := h.unmerged hv
  operands u os hu hos := by
    obtain ⟨d', hd'⟩ := Option.isSome_iff_exists.1 hu
    obtain ⟨-, rfl⟩ := Query.operands_ok.1 hos
    exact Query.operands_ok.2 ⟨⟨d', hd'⟩, h.targets (kind_wiring hd')⟩
  kept v hv hv' := by
    obtain ⟨d, hd⟩ := Option.isSome_iff_exists.1 hv
    obtain ⟨d', hd'⟩ := Option.isSome_iff_exists.1 hv'
    obtain ⟨hkind, hname, hhash⟩ := h.named hd hd'
    refine ⟨?_, ?_, ?_, h.seated (h.not_mem_of_kind (kind_wiring hd'))⟩
    · rw [Query.kind_ok.2 ⟨d, hd, rfl⟩, Query.kind_ok.2 ⟨d', hd', hkind⟩]
    · rw [Query.name_ok.2 ⟨d, hd, rfl⟩, Query.name_ok.2 ⟨d', hd', hname⟩]
    · rw [Query.nameHash_ok.2 ⟨d, hd, rfl⟩, Query.nameHash_ok.2 ⟨d', hd', hhash⟩]
  children p hp := h.children fun v hv => by
    obtain ⟨k, hk⟩ := isLive_iff_kind.1 (hp v hv)
    exact h.not_mem_of_kind hk
  tables := h.delisted

end Demolishes

end Store

namespace Edit

variable {B : ValueId → Prop} {s : Store} {b : ValueId} {total : Prop}

theorem ends_eraseBlock_erases (hs : Coherent B s) (hc : s.layout.Consistent total) :
    Ends (eraseBlock b) s (fun _ s' => ∃ insts null into, Query.blockInstructions b s = .ok insts ∧
      s.ErasesBlock s' b insts null into) fun _ _ => True := by
  refine ((ends_eraseBlock_loses hs hc).and (ends_eraseBlock_uproots hs.settled hc)).mono ?_
    fun _ _ _ => trivial
  rintro _ s' ⟨⟨hb, p, q, null, into, hp, hequips, hnull, htraits, hloses⟩, -, L, -, hu, -, hlayout⟩
  have hdemolishes : s.Demolishes p q s' b (s.layout.children (.instructions b)) null into :=
    ⟨hc.placed, hs.wrapsLive, hb, rfl, hp, hequips, hnull, hloses, htraits, L, hu, hlayout⟩
  exact ⟨_, null, into, Query.blockInstructions_ok.2 ⟨hb, rfl⟩, hdemolishes.erasesBlock⟩

end Edit

namespace Command

open Edit

/-- Commands of which none has stopped while it erased a container, then the erasure of a block. If
that is not refused, then the block goes with its instructions and with its addresses, wrappers that
trail those merge, and everything else stays. -/
theorem erasesBlock_afterAll (hash : String → UInt64) (config : Config) {cs : List Command}
    {b : ValueId} {s' : Store} (h : unbroken { hash, config } cs = true)
    (hok : Edit.eraseBlock b (afterAll { hash, config } cs) = .ok () s') :
    let s := afterAll { hash, config } cs
    ∃ insts null into, Query.blockInstructions b s = .ok insts ∧
      s.ErasesBlock s' b insts null into := by
  obtain ⟨-, hc, -⟩ := afterAll_withTeardown config.verifyScopeTeardown h
    (Store.settled_empty hash config) (consistent_empty hash config)
  exact (ends_eraseBlock_erases (coherent_afterAll hash config cs) hc).of_ok hok

theorem exists_of_outcome_eraseBlock {s : Store} {b : ValueId}
    (h : (outcome s (.eraseBlock b)).isOk = true) : ∃ s', Edit.eraseBlock b s = .ok () s' := by
  cases hrun : Edit.eraseBlock b s with
  | ok _ s' => exact ⟨s', rfl⟩
  | error x s' =>
    have herror : Command.run (.eraseBlock b) s = .error x s' := by
      change EStateM.bind (Edit.eraseBlock b) _ s = _
      rw [EStateM.bind, hrun]
    rw [outcome, herror] at h
    cases h

/-- The address of a block and a null constant are operands in metadata that is wrapped twice. An
instruction uses the address and its wrapper. -/
def addressedBlock : List Command :=
  [.createModule "m", .internType (.int 32), .internType (.function ⟨0⟩ []),
    .createFunction ⟨0⟩ "f" ⟨1⟩, .createBlock ⟨0⟩ "a", .createBlock ⟨0⟩ "b",
    .buildInstruction "add" ⟨0⟩ [] (some "x") (.append ⟨2⟩), .blockAddress ⟨0⟩ ⟨2⟩, .constNull ⟨3⟩,
    .valueNode ⟨4⟩, .valueNode ⟨5⟩, .wrapperValue ⟨0⟩, .wrapperValue ⟨1⟩,
    .buildInstruction "use" ⟨0⟩ [some ⟨4⟩, some ⟨6⟩] none (.append ⟨1⟩)]

theorem erasesBlock_addressedBlock : unbroken { config := {} } addressedBlock = true ∧
    ∃ s', Edit.eraseBlock ⟨2⟩ (afterAll { config := {} } addressedBlock) = .ok () s' ∧
      ∃ insts null into,
        Query.blockInstructions ⟨2⟩ (afterAll { config := {} } addressedBlock) = .ok insts ∧
        (afterAll { config := {} } addressedBlock).ErasesBlock s' ⟨2⟩ insts null into := by
  have hunbroken : unbroken { config := {} } addressedBlock = true := by decide +kernel
  have hok : (outcome (afterAll { config := {} } addressedBlock) (.eraseBlock ⟨2⟩)).isOk = true := by
    decide +kernel
  obtain ⟨s', hs'⟩ := exists_of_outcome_eraseBlock hok
  exact ⟨hunbroken, s', hs', erasesBlock_afterAll nameHash {} hunbroken hs'⟩

/-- The instruction comes to use the null constant and the wrapper into which its own has merged. -/
example : Query.operands ⟨8⟩ (afterAll { config := {} } (addressedBlock ++ [.eraseBlock ⟨2⟩])) =
    .ok [some ⟨5⟩, some ⟨7⟩] := by
  decide +kernel

end Command

end ShaderIR
