import ShaderIR.Proofs.TemporaryForwarding
import ShaderIR.Proofs.TupleRewrites

/-! Making a temporary tuple uniqued. If a uniqued tuple has its content already, everything that
held the temporary one comes to hold that, and the temporary one goes; the tuple that remains has
the content with itself in the place of the temporary one. So it is rewritten when the temporary
tuple held itself, and may come to equal another: then it is the other that is uniqued. -/

open ShaderIR.Core

namespace ShaderIR

open Store Edit

namespace Edit

variable {s p : Store} {temp n m : NodeId} {v w : ValueId} {d : Node}

def HasTuple (n : NodeId) (s : Store) : Prop :=
  s.ledger.Interned ∧ ∃ d, s.ledger.nodes.get? n = some d ∧ d.content.kind = .tuple

theorem HasTuple.ne (h : HasTuple n s) (hm : s.ledger.nodeOf[v]? = some m) : m ≠ n := by
  rintro rfl
  obtain ⟨hi, d, hd, hk⟩ := h
  obtain ⟨d', hd', hc⟩ := Ledger.valueOf_eq_some.1 ((hi.wrapped v m).1 hm)
  obtain rfl := Option.some.inj (hd.symm.trans hd')
  rw [hc] at hk
  cases hk

theorem robust_hasTuple : Robust Store.ledger (fun _ _ => False) (HasTuple n) where
  view h hs := by rwa [HasTuple, h]
  operand {t i m} s hs := by
    refine ((carries_retargetOperand_interned s hs.1).and
      (ends_retargetOperand_reinterns hs.1)).mono ?_ fun _ _ _ => False.elim
    rintro _ s' ⟨hi, d, k, hd, -, hself, hothers, -⟩
    obtain ⟨dn, hdn, hc⟩ := hs.2
    by_cases hnt : n = t
    · subst hnt
      obtain rfl := Option.some.inj (hd.symm.trans hdn)
      exact ⟨hi, _, hself, (d.withOperand_kind i m).trans hc⟩
    · exact ⟨hi, dn, (hothers n hnt).trans hdn, hc⟩
  node {s old new t} hs hold hnew := by
    have hne := hs.ne hold
    obtain ⟨dt, hdt, -⟩ := Ledger.valueOf_eq_some.1 ((hs.1.wrapped old t).1 hold)
    refine ((robust_interned.node hs.1 hold hnew).and (?_ : Ends _ s (fun _ s' =>
      s'.metadata.nodes.get? n = s.metadata.nodes.get? n) fun _ _ => True)).mono
      (fun _ _ h => ⟨h.1, ?_⟩) fun _ _ _ => False.elim
    · rw [ends_bind, ends_modify]
      refine (ends_modifyNode (d := dt) ?_ _).2 ?_
      · exact hdt
      · exact (Arena.get?_modify ..).trans (if_neg hne)
    · obtain ⟨dn, hdn, hc⟩ := hs.2
      exact ⟨dn, h.2.trans hdn, hc⟩
  drop {v} s hs := by
    refine ((keeps_dropValueNode_interned s hs.1).and (?_ : Ends _ s (fun _ s' =>
      s'.metadata.nodes.get? n = s.metadata.nodes.get? n) fun _ _ => False)).mono
      (fun _ _ h => ⟨h.1, ?_⟩) fun _ _ h => h.2.elim
    · unfold dropValueNode
      rw [ends_bind, ends_get]
      split
      · rfl
      next t ht => exact (Arena.get?_erase ..).trans (if_neg (hs.ne ht))
    · obtain ⟨dn, hdn, hc⟩ := hs.2
      exact ⟨dn, h.2.trans hdn, hc⟩
  erase := .modify fun s hs => ⟨hs.1.congr rfl rfl rfl, hs.2⟩

theorem ends_eraseTemporary_store : Ends (eraseTemporary n) s (fun _ s' => ∃ t, s' =
    (s.withTracker t).modifyMetadata fun md => { md with nodes := md.nodes.erase n })
    fun _ _ => True := by
  refine ends_bind.2 (ends_lift.2 ⟨fun _ _ => ?_, fun _ _ => trivial⟩)
  rw [ends_bind, ends_get]
  dsimp only
  split
  · trivial
  rw [untrackOperands, bind_assoc]
  refine ends_bind.2 (ends_lift.2 ⟨fun ops _ => ?_, fun _ _ => trivial⟩)
  have huntrack : Ends (ops.zipIdx.forM fun op => untrackOption (.operand n op.2) op.1) s
      (fun _ p => ∃ t, p = s.withTracker t) fun _ _ => True := by
    refine ends_forM (fun _ p => ∃ t, p = s.withTracker t) ?_ _ _ ⟨s.metadata.tracker, rfl⟩
    rintro op rest _ ⟨t, rfl⟩
    exact ends_untrackOption_any.weaken fun _ _ h => h
  refine Ends.bind huntrack ?_
  rintro _ _ ⟨t, rfl⟩
  exact ⟨((s.withTracker t).metadata.tracker.resolve n).2, rfl⟩

end Edit

namespace Store

variable {s p s' : Store} {temp n m : NodeId} {l : Location}

/-- What making a temporary node uniqued comes to, if a certain node remains: the node itself, or
one that takes its place everywhere. Either way it has the content that the node had, but where
the node held itself. Then it may have come to equal another node, which is the uniqued one. -/
structure MakesUniqued (s s' : Store) (temp n : NodeId) : Prop where
  tuple : Query.nodeKind n s' = .ok .tuple
  erased : n ≠ temp → s'.isNodeLive temp = false
  vacated : n ≠ temp → ∀ l, ¬ s'.Holds l temp
  held : ∀ l, s.Holds l temp → (n ≠ temp → (∀ i, l ≠ .operand temp i) ∧
    ∀ w e, l = .wrapper w → ¬ s.Holds (.wrapper e) n) → s'.Holds l n
  merged : n ≠ temp → ∀ w e, s.Holds (.wrapper w) temp → s.Holds (.wrapper e) n →
    s'.isLive w = false ∧ ∀ user slot, s'.isLive user = true →
      Query.operand user slot s = .ok (some w) → Query.operand user slot s' = .ok (some e)
  content : s.wrapsPlainly = true → ∀ d, Query.node temp s = .ok d → ∃ d',
    Query.node n s' = .ok d' ∧ d'.content = d.content.redirect temp n ∧
      (d'.storage = .uniqued ∨ n ≠ temp ∧ some temp ∈ d.content.operands ∧
        d'.storage = .distinct ∧ ∃ m dm, m ≠ n ∧ Query.node m s' = .ok dm ∧
          dm.storage = .uniqued ∧ dm.content = d'.content)

structure LosesNode (s s' : Store) (n : NodeId) : Prop where
  values : s'.values = s.values
  uses : s'.uses = s.uses
  handles : s'.metadata.handles = s.metadata.handles
  nodes : s'.metadata.nodes = s.metadata.nodes.erase n

namespace LosesNode

variable (h : s.LosesNode s' n)

include h

theorem get?_of_ne (hmn : m ≠ n) : s'.metadata.nodes.get? m = s.metadata.nodes.get? m := by
  rw [h.nodes, Arena.get?_erase, if_neg hmn.symm]

theorem get?_self : s'.metadata.nodes.get? n = none := by
  rw [h.nodes, Arena.get?_erase, if_pos rfl]

theorem holds_iff : s'.Holds l m ↔ s.Holds l m ∧ ∀ i, l ≠ .operand n i := by
  constructor
  · rintro (@⟨t, _, _, _, i, hd, hc, ho⟩ | ⟨hd, hp⟩ | ⟨hh⟩ | ⟨hd, ha⟩)
    · have htn : t ≠ n := by
        rintro rfl
        cases h.get?_self.symm.trans hd
      exact ⟨.operand ((h.get?_of_ne htn).symm.trans hd) hc ho,
        fun j hj => htn (Location.operand.inj hj).1⟩
    · exact ⟨.wrapper (h.values ▸ hd) hp, by simp⟩
    · exact ⟨.handle (h.handles ▸ hh), by simp⟩
    · exact ⟨.attachment (h.values ▸ hd) ha, by simp⟩
  · rintro ⟨@⟨t, _, _, _, i, hd, hc, ho⟩ | ⟨hd, hp⟩ | ⟨hh⟩ | ⟨hd, ha⟩, hl⟩
    · have htn : t ≠ n := fun heq => hl i (heq ▸ rfl)
      exact .operand ((h.get?_of_ne htn).trans hd) hc ho
    · exact .wrapper (h.values.symm ▸ hd) hp
    · exact .handle (h.handles.symm ▸ hh)
    · exact .attachment (h.values.symm ▸ hd) ha

end LosesNode

variable {d dm : Node}

theorem makesUniqued_of_forwards (hd : s.metadata.nodes.get? temp = some d)
    (htemporary : d.storage = .temporary) (hdm : s.metadata.nodes.get? m = some dm)
    (huniqued : dm.storage = .uniqued) (hequal : dm.content = d.content) (hne : m ≠ temp)
    (hf : s.Forwards p temp m) (htuple : HasTuple m p)
    (hrewords : s.WrapsPlain → s.Rewords (Content.redirect temp m) temp p ∧
      (temp ≠ m → ∀ l, p.core.held l ≠ some temp))
    (hl : p.LosesNode s' temp) : s.MakesUniqued s' temp m where
  tuple := by
    obtain ⟨-, dp, hdp, hk⟩ := htuple
    exact Query.nodeKind_ok.2 ⟨dp, (hl.get?_of_ne hne).trans hdp, hk⟩
  erased _ := by rw [isNodeLive, hl.get?_self, Option.isSome_none]
  vacated _ l h := hf.vacated l (hl.holds_iff.1 h).1
  held l hh hother := by
    obtain ⟨hop, hw⟩ := hother hne
    exact hl.holds_iff.2 ⟨hf.moved l hh hw, hop⟩
  merged _ w e hw he := by
    have hlive (u : ValueId) : s'.isLive u = p.isLive u := by rw [isLive, hl.values, isLive]
    obtain ⟨hdead, hslots⟩ := hf.merged w e hw he
    refine ⟨(hlive w).trans hdead, fun u i hu hi => ?_⟩
    obtain ⟨⟨du, hdu⟩, hslot⟩ := Query.operand_ok.1 (hslots u i ((hlive u).symm.trans hu) hi)
    exact Query.operand_ok.2 ⟨⟨du, hl.values.symm ▸ hdu⟩, hl.uses.symm ▸ hslot⟩
  content hplain d₀ hd₀ := by
    obtain rfl := Option.some.inj (hd.symm.trans (Query.node_ok.1 hd₀))
    obtain ⟨hrewords, hfree⟩ := hrewords (wrapsPlainly_iff.1 hplain)
    obtain ⟨d', hd', hc, hk⟩ := hrewords.replaced hfree hdm
    refine ⟨d', Query.node_ok.2 ((hl.get?_of_ne hne).trans hd'), hequal ▸ hc, ?_⟩
    refine hk.imp (fun heq => heq.trans huniqued) ?_
    rintro ⟨-, hdistinct, hmem, x, dx, hxm, hdx, hux, hcx⟩
    have hxtemp : x ≠ temp := by
      rintro rfl
      obtain ⟨dt, hdt, -, hkt | ⟨hut, -⟩⟩ := hrewords.replaced hfree hd
      · obtain rfl := Option.some.inj (hdx.symm.trans hdt)
        cases hux.symm.trans (hkt.trans htemporary)
      · cases htemporary.symm.trans hut
    exact ⟨hne, hequal ▸ hmem, hdistinct, x, dx, hxm,
      Query.node_ok.2 ((hl.get?_of_ne hxtemp).trans hdx), hux, hcx⟩

structure SettlesInPlace (s s' : Store) (n : NodeId) (d : Node) : Prop where
  self : s'.metadata.nodes.get? n = some { d with storage := .uniqued }
  others : ∀ m, m ≠ n → s'.metadata.nodes.get? m = s.metadata.nodes.get? m
  values : s'.values = s.values
  handles : s'.metadata.handles = s.metadata.handles

theorem makesUniqued_of_inPlace {ops : List (Option NodeId)}
    (hd : s.metadata.nodes.get? temp = some d) (hops : d.content = .tuple ops)
    (h : s.SettlesInPlace s' temp d) : s.MakesUniqued s' temp temp where
  tuple := Query.nodeKind_ok.2 ⟨_, h.self, by rw [hops]; rfl⟩
  erased hne := absurd rfl hne
  vacated hne := absurd rfl hne
  held l hl _ := by
    cases hl with
    | @operand t _ dt os i hdt hc ho =>
      by_cases ht : t = temp
      · subst ht
        obtain rfl := Option.some.inj (hd.symm.trans hdt)
        exact .operand h.self hc ho
      · exact .operand ((h.others t ht).trans hdt) hc ho
    | wrapper hdv hp => exact .wrapper (h.values.symm ▸ hdv) hp
    | handle hh => exact .handle (h.handles.symm ▸ hh)
    | attachment hdv ha => exact .attachment (h.values.symm ▸ hdv) ha
  merged hne := absurd rfl hne
  content _ d₀ hd₀ := by
    obtain rfl := Option.some.inj (hd.symm.trans (Query.node_ok.1 hd₀))
    exact ⟨_, Query.node_ok.2 h.self, Content.redirect_self.symm, .inl rfl⟩

end Store

namespace Edit

variable {B : ValueId → Prop} {s : Store} {temp : NodeId} {d : Node}

theorem ends_replaceWithUniqued (hs : Coherent B s) (hd : s.metadata.nodes.get? temp = some d)
    (htemporary : d.storage = .temporary) : Ends (replaceWithUniqued temp) s
      (fun n s' => s.MakesUniqued s' temp n) fun _ _ => True := by
  obtain ⟨ops, hops⟩ := hs.settled.consistent.temporary hd htemporary
  have hexpected : Query.expectTemporary temp s = .ok () :=
    Query.expectTemporary_ok.2 ⟨d, hd, htemporary⟩
  unfold replaceWithUniqued
  rw [ends_bind, ends_lift_ok hexpected, ends_bind, ends_lift_ok (Query.node_ok.2 hd), ends_bind,
    ends_get]
  split
  next m hm =>
    obtain ⟨dm, hdm, huniqued, hequal⟩ := Ledger.contentOf_eq_some.1 ((hs.wrapping.entered _ m).1 hm)
    have hkind : dm.content.kind = .tuple := by
      rw [hequal, hops]
      rfl
    have hne : m ≠ temp := by
      rintro rfl
      obtain rfl := Option.some.inj (hd.symm.trans hdm)
      cases huniqued.symm.trans htemporary
    have hforwards := ends_replaceNode_forwards hs.settled hd htemporary hdm
      (hkind ▸ by decide) hne.symm
    have htuple := robust_hasTuple.carries_replaceNode (n := temp) (m := m) s
      ⟨hs.wrapping.toInterned, dm, hdm, hkind⟩
    have hrewords : Ends (replaceNode temp m) s (fun _ p => s.WrapsPlain →
        s.Rewords (Content.redirect temp m) temp p ∧ (temp ≠ m → ∀ l, p.core.held l ≠ some temp))
        fun _ _ => True := by
      by_cases hplain : s.WrapsPlain
      · exact (ends_replaceNode_rewords hs.settled hs.wrapping.toInterned hplain).mono
          (fun _ _ h _ => h) fun _ _ h => h
      · exact (ends_true _ _).mono (fun _ _ _ h => absurd h hplain) fun _ _ h => h
    refine Ends.bind ((hforwards.and (htuple.and hrewords)).mono (fun _ _ h => h)
      fun _ _ _ => trivial) ?_
    rintro _ p ⟨hf, ht, hr⟩
    refine Ends.bind ends_eraseTemporary_store ?_
    rintro _ _ ⟨t, rfl⟩
    exact makesUniqued_of_forwards hd htemporary hdm huniqued hequal hne hf ht hr ⟨rfl, rfl, rfl, rfl⟩
  next hnone =>
    unfold settle
    rw [ends_bind, ends_bind, ends_modifyNode hd, ends_bind, ends_get, setTracker, ends_modify,
      ends_bind, ends_modify, ends_pure]
    refine makesUniqued_of_inPlace hd hops ⟨?_, fun m hm => ?_, rfl, rfl⟩
    · exact (Arena.get?_modify ..).trans ((if_pos rfl).trans (congrArg (Option.map _) hd))
    · exact (Arena.get?_modify ..).trans (if_neg hm.symm)

end Edit

namespace Command

/-- Whatever commands have been run, a live temporary node can be made uniqued. It becomes so
itself or gives way to a tuple that had its content, and if no node wraps a value that wraps a
node, then the tuple that remains still has it, but where the temporary node held itself. -/
theorem makesUniqued_afterAll (hash : String → UInt64) (config : Config) (cs : List Command)
    {temp : NodeId}
    (htemporary : Query.storage temp (afterAll { hash, config } cs) = .ok .temporary) :
    ∃ n s', Edit.replaceWithUniqued temp (afterAll { hash, config } cs) = .ok n s' ∧
      (afterAll { hash, config } cs).MakesUniqued s' temp n := by
  have hs := coherent_afterAll hash config cs
  obtain ⟨d, hd, hstorage⟩ := Query.storage_ok.1 htemporary
  obtain ⟨n, s', hrun, -⟩ := (ends_replaceWithUniqued_temporary hs hd hstorage).exists_ok
  exact ⟨n, s', hrun, (ends_replaceWithUniqued hs hd hstorage).of_ok hrun⟩

/-- A temporary node and a uniqued one hold a string and the temporary node. Both have wrappers, and
that of the temporary node is an operand of a call. -/
def equalTuples : List Command :=
  [.stringNode "x", .temporaryTuple [some ⟨0⟩, none], .setNodeOperand ⟨1⟩ 1 (some ⟨1⟩),
    .tuple [some ⟨0⟩, some ⟨1⟩], .wrapperValue ⟨1⟩, .wrapperValue ⟨2⟩, .internType .void,
    .buildInstruction "call" ⟨1⟩ [some ⟨0⟩] none .floating]

theorem makesUniqued_equalTuples :
    Query.storage ⟨1⟩ (afterAll { config := {} } equalTuples) = .ok .temporary ∧
      ∃ n s', Edit.replaceWithUniqued ⟨1⟩ (afterAll { config := {} } equalTuples) = .ok n s' ∧
        (afterAll { config := {} } equalTuples).MakesUniqued s' ⟨1⟩ n := by
  have htemporary : Query.storage ⟨1⟩ (afterAll { config := {} } equalTuples) = .ok .temporary := by
    decide +kernel
  exact ⟨htemporary, makesUniqued_afterAll nameHash {} equalTuples htemporary⟩

/-- A temporary node holds itself, a uniqued tuple holds the temporary node, and another one holds
that tuple. -/
def ringedTuples : List Command :=
  [.temporaryTuple [none], .setNodeOperand ⟨0⟩ 0 (some ⟨0⟩), .tuple [some ⟨0⟩], .tuple [some ⟨1⟩]]

/-- The first tuple comes to hold itself, and so to equal the second. It is answered, but it is
uniqued no longer. -/
theorem distinct_ringedTuples :
    Query.storage ⟨0⟩ (afterAll { config := {} } ringedTuples) = .ok .temporary ∧
      (afterAll { config := {} } ringedTuples).wrapsPlainly = true ∧
      Ends (Edit.replaceWithUniqued ⟨0⟩) (afterAll { config := {} } ringedTuples) (fun n s' =>
        n = ⟨1⟩ ∧ Query.storage n s' = .ok .distinct ∧
          Query.nodeOperands n s' = Query.nodeOperands ⟨2⟩ s' ∧
          Query.storage ⟨2⟩ s' = .ok .uniqued) fun _ _ => False := by
  exact ⟨by decide +kernel, by decide +kernel, by decide +kernel⟩

end Command

end ShaderIR
