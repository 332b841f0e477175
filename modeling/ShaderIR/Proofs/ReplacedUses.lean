import ShaderIR.Proofs.CommandCoherence

/-! What a replacement leaves of the value that it replaces. Its uses have moved, and they stay
where they moved to unless the merge of two nodes takes a wrapper along. -/

namespace ShaderIR

namespace Store

variable {s s' s'' : Store} {r r' : Location → Option NodeId} {t old new : ValueId}

theorem Retains.unused (h : s.Retains s' t) (hs : s.core.Sound r) (hs' : s'.core.Sound r')
    (hu : s.uses.useList t = []) : s'.uses.useList t = [] := by
  rw [List.eq_nil_iff_forall_not_mem]
  intro e he
  have ht := hs'.graph.getElem?_of_target ((hs'.graph.lists.mem t e).1 he)
  obtain ⟨hlive, -⟩ := hs'.graph.live_of_targets ht
  exact hs.graph.ne_of_useList hu ((h.operands _ (isLive_iff.2 hlive)).1 ht) rfl

/-- What replacing one value by another is to do: the old one lives on without uses, and the new
one is wherever it was. -/
structure Supersedes (s s' : Store) (old new : ValueId) : Prop where
  live : s'.isLive old
  unused : Query.uses old s' = .ok []
  moved : ∀ {user slot}, Query.operand user slot s = .ok (some old) → s'.isLive user →
    Query.operand user slot s' = .ok (some new)

/-- Whether replacing one value by another merges the nodes that wrap them while one of the values
is a wrapper itself, so that it may go in the merge. -/
def MergesItself (s : Store) (old new : ValueId) : Prop :=
  (∃ n, s.metadata.nodeOf[old]? = some n) ∧ (∃ n, s.metadata.nodeOf[new]? = some n) ∧
    ∃ v d, (v = old ∨ v = new) ∧ s.values.get? v = some d ∧ d.kind = .metadata

end Store

open Store

namespace Edit

variable {s s' : Store} {L : Layout} {old new : ValueId}

theorem Replaces.retains (h : Replaces L old new s s') (hs : s.Settled)
    (hmerge : ¬ s.MergesItself old new) : ∃ p,
      s.EdgesMoved p s.core.held old new (s.uses.useList old) [] ∧ p.Retains s' old ∧
        p.Retains s' new := by
  obtain ⟨q, r', hq, hs', hstay⟩ := h.moved
  obtain ⟨p, hp, -, hsp, hcalm⟩ := hq.moved
  obtain ⟨dold, dnew, hold, hnew, hty⟩ := Query.expectSameType_ok.1 h.sameType
  have hold' : p.values.get? old = some dold := hp.values ▸ hold
  have hnew' : p.values.get? new = some dnew := hp.values ▸ hnew
  refine ⟨p, hp, ?_⟩
  by_cases ha : s.types.IsAddressable dold.ty
  · -- Block addresses may fold, but these values are none, and no wrappers.
    have hspares : p.Spares (fun p => ¬ p.IsMergeable) s' :=
      hsp.trans (hs'.merged.spares.mono fun _ hp hk => hp (.inl hk))
    exact ⟨hspares.retains hold' (not_isMergeable hs hold ha),
      hspares.retains hnew' (not_isMergeable hs hnew (hty ▸ ha))⟩
  · obtain rfl := hcalm dold hold ha
    by_cases hkind : dold.kind ≠ .metadata ∧ dnew.kind ≠ .metadata
    · exact ⟨hs'.merged.spares.retains hold' hkind.1, hs'.merged.spares.retains hnew' hkind.2⟩
    · have hmetadata : q.metadata = s.metadata := by
        obtain ⟨g, rfl⟩ := hp.uses
        rfl
      have halone : q.metadata.nodeOf[old]? = none ∨ q.metadata.nodeOf[new]? = none := by
        rw [hmetadata]
        by_contra hboth
        obtain ⟨hno, hnn⟩ := not_or.1 hboth
        refine hmerge ⟨Option.ne_none_iff_exists'.1 hno, Option.ne_none_iff_exists'.1 hnn, ?_⟩
        obtain hk | hk := not_and_or.1 hkind
        · exact ⟨old, dold, .inl rfl, hold, not_not.1 hk⟩
        · exact ⟨new, dnew, .inr rfl, hnew, not_not.1 hk⟩
      obtain ⟨hvalues, huses⟩ := hstay halone
      exact ⟨retains_of_eq hvalues huses, retains_of_eq hvalues huses⟩

theorem Replaces.supersedes (h : Replaces L old new s s') (hs : s.Settled)
    (hmerge : ¬ s.MergesItself old new) : s.Supersedes s' old new := by
  obtain ⟨p, hp, hold, hnew⟩ := h.retains hs hmerge
  obtain ⟨dold, -, hget, -⟩ := Query.expectSameType_ok.1 h.sameType
  have hlive : s'.isLive old := by
    refine hold.live ?_
    rw [isLive, hp.values, hget, Option.isSome_some]
  refine ⟨hlive, ?_, fun {user slot} hslot hu => ?_⟩
  · obtain ⟨d, hd⟩ := Option.isSome_iff_exists.1 hlive
    simp [Query.uses, hd, hold.unused hp.sound h.settled.1 hp.unused]
  · obtain ⟨-, hslot⟩ := Query.operand_ok.1 hslot
    refine Query.operand_ok.2 ⟨Option.isSome_iff_exists.1 hu, (hnew.operands slot hu).2 ?_⟩
    rw [targets_edgesMoved hp hs, List.getElem?_map, hslot, Option.map_some, if_pos rfl]

end Edit

namespace Command

/-- Replacing a value in a store that commands leave does all that it is to do, unless nodes merge
that wrap the values and one of these wraps a node. -/
theorem replaceAllUses_afterAll (hash : String → UInt64) (config : Config) (cs : List Command)
    {old new : ValueId} (hne : old ≠ new)
    (hty : Query.expectSameType old new (afterAll { hash, config } cs) = .ok ())
    (hmerge : ¬ (afterAll { hash, config } cs).MergesItself old new) :
    ∃ s', Edit.replaceAllUses old new (afterAll { hash, config } cs) = .ok () s' ∧
      (afterAll { hash, config } cs).Supersedes s' old new := by
  have hc := coherent_afterAll hash config cs
  have hends := Edit.ends_replaceAllUses ⟨hc.settled, rfl⟩ hc.keyed hne
  cases hrun : Edit.replaceAllUses old new (afterAll { hash, config } cs) with
  | ok _ s' => exact ⟨s', rfl, (hends.of_ok hrun).supersedes hc.settled hmerge⟩
  | error _ s' => exact absurd hty (hends.of_error hrun).2

/-- Nodes wrap two constants, and an instruction uses the first of them. -/
def wrappedConstants : List Command :=
  [.internType .metadata, .constInt ⟨0⟩ 1, .constInt ⟨0⟩ 2, .valueNode ⟨0⟩, .valueNode ⟨1⟩,
    .buildInstruction "add" ⟨0⟩ [some ⟨0⟩] none .floating]

theorem replaceAllUses_wrappedConstants :
    (⟨0⟩ : ValueId) ≠ ⟨1⟩ ∧
      Query.expectSameType ⟨0⟩ ⟨1⟩ (afterAll { config := {} } wrappedConstants) = .ok () ∧
      ¬ (afterAll { config := {} } wrappedConstants).MergesItself ⟨0⟩ ⟨1⟩ ∧
      ∃ s', Edit.replaceAllUses ⟨0⟩ ⟨1⟩ (afterAll { config := {} } wrappedConstants) = .ok () s' ∧
        (afterAll { config := {} } wrappedConstants).Supersedes s' ⟨0⟩ ⟨1⟩ := by
  have hty : Query.expectSameType ⟨0⟩ ⟨1⟩ (afterAll { config := {} } wrappedConstants) = .ok () := by
    decide +kernel
  have hkind (v : ValueId) (hv : v = ⟨0⟩ ∨ v = ⟨1⟩) :
      ((afterAll { config := {} } wrappedConstants).values.get? v).map Value.kind =
        some .constant := by
    obtain rfl | rfl := hv <;> decide +kernel
  have hmerge : ¬ (afterAll { config := {} } wrappedConstants).MergesItself ⟨0⟩ ⟨1⟩ := by
    rintro ⟨-, -, v, d, hv, hd, hk⟩
    have hkind := hkind v hv
    rw [hd, Option.map_some, hk] at hkind
    cases hkind
  exact ⟨by decide, hty, hmerge, replaceAllUses_afterAll nameHash {} wrappedConstants (by decide)
    hty hmerge⟩

/-- A value wraps the node of a constant and is wrapped by another node, and an instruction uses the
value that wraps that. -/
def wrappedWrapper : List Command :=
  [.internType .metadata, .constInt ⟨0⟩ 1, .constInt ⟨0⟩ 2, .valueNode ⟨1⟩, .wrapperValue ⟨0⟩,
    .valueNode ⟨0⟩, .replaceAllUses ⟨0⟩ ⟨2⟩, .wrapperValue ⟨1⟩,
    .buildInstruction "add" ⟨0⟩ [some ⟨3⟩] none .floating]

/-- When the nodes merge, the old value takes over the uses of the other wrapper. -/
theorem replaceAllUses_wrappedWrapper :
    Query.expectSameType ⟨2⟩ ⟨1⟩ (afterAll {} wrappedWrapper) = .ok () ∧
      ∃ s', Edit.replaceAllUses ⟨2⟩ ⟨1⟩ (afterAll {} wrappedWrapper) = .ok () s' ∧
        ¬ (afterAll {} wrappedWrapper).Supersedes s' ⟨2⟩ ⟨1⟩ := by
  have hty : Query.expectSameType ⟨2⟩ ⟨1⟩ (afterAll {} wrappedWrapper) = .ok () := by
    decide +kernel
  have huses : Query.uses ⟨2⟩ (after (afterAll {} wrappedWrapper) (.replaceAllUses ⟨2⟩ ⟨1⟩)) =
      .ok [⟨⟨4⟩, 0⟩] := by
    decide +kernel
  have hc := coherent_afterAll nameHash {} wrappedWrapper
  cases hrun : Edit.replaceAllUses ⟨2⟩ ⟨1⟩ (afterAll {} wrappedWrapper) with
  | ok u s' =>
    have hs' : after (afterAll {} wrappedWrapper) (.replaceAllUses ⟨2⟩ ⟨1⟩) = s' := by
      simp only [after, run, quiet, bind, EStateM.bind, hrun]
      rfl
    refine ⟨hty, s', rfl, fun h => ?_⟩
    rw [hs', h.unused] at huses
    cases huses
  | error _ s' =>
    have hends := (Edit.ends_replaceAllUses ⟨hc.settled, rfl⟩ hc.keyed (by decide)).of_error hrun
    exact absurd hty hends.2

end Command

end ShaderIR
