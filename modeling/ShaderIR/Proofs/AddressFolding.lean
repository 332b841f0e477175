import ShaderIR.Proofs.ConstantInterning

/-! Replacing values where constants are interned. The block addresses whose operands move are
interned anew, one after the other; one that comes to equal another is folded into it. Nothing of
this can fail. -/

open ShaderIR.Core

namespace ShaderIR

structure Store.Folds (s s' : Store) (c : ValueId) : Prop where
  types : s'.types = s.types
  constants : s'.constants = s.constants
  spares : s.Spares (fun p => ¬ p.IsMergeable) s'
  others : ∀ {v d}, v ≠ c → s.values.get? v = some d → d.kind ≠ .metadata →
    ∃ d', s'.values.get? v = some d'
  gone : s'.values.get? c = none

namespace Store

variable {s s' : Store} {r : Location → Option NodeId} {c old new v : ValueId} {dold dnew : Value}
variable {es rest : List EdgeId}

theorem Folds.keyOf (h : s.Folds s' c) (hs : s.core.Sound r) (hf : s.Filled) :
    s'.keyOf = Function.update s.keyOf c none := by
  funext v
  rw [Function.update_apply]
  split
  next hvc => exact keyOf_of_dead (hvc ▸ h.gone)
  next hvc =>
    cases hd' : s'.values.get? v with
    | some d' => exact hf.keyOf_spares hs h.spares h.types hd'
    | none =>
      rw [keyOf_of_dead hd']
      cases hd : s.values.get? v with
      | none => exact (keyOf_of_dead hd).symm
      | some d =>
        refine (keyOf_of_kind hd fun hk => ?_).symm
        obtain ⟨d'', hd''⟩ := h.others hvc hd (by rw [hk]; decide)
        cases hd'.symm.trans hd''

section Moved

variable (h : s.EdgesMoved s' r old new es rest)

include h

theorem EdgesMoved.values : s'.values = s.values := by
  obtain ⟨g, rfl⟩ := h.uses
  rfl

theorem EdgesMoved.types : s'.types = s.types := by
  obtain ⟨g, rfl⟩ := h.uses
  rfl

theorem EdgesMoved.constants : s'.constants = s.constants := by
  obtain ⟨g, rfl⟩ := h.uses
  rfl

theorem EdgesMoved.targets (v : ValueId) : s'.uses.targets v = (s.uses.slotsOf v).map fun e =>
    if e ∈ es ∧ e ∉ rest then some new else (s.uses.edge e).target := by
  rw [UseGraph.targets, h.slots]
  exact List.map_congr_left fun e _ => h.target e

theorem EdgesMoved.targets_eq (hs : s.core.Sound r)
    (hv : ∀ e, e ∈ es → e ∉ rest → (s.uses.edge e).user ≠ v) :
    s'.uses.targets v = s.uses.targets v := by
  rw [h.targets]
  refine List.map_congr_left fun e he => if_neg ?_
  rintro ⟨hes, hrest⟩
  exact hv e hes hrest (hs.graph.mem_slots he).2.1

theorem EdgesMoved.keyOf_eq (hs : s.core.Sound r)
    (hv : ∀ e, e ∈ es → e ∉ rest → (s.uses.edge e).user ≠ v) : s'.keyOf v = s.keyOf v := by
  rw [keyOf, keyOf, h.targets_eq hs hv, h.values]

theorem EdgesMoved.keyOf_of_not_isBlockAddress (hv : ¬ s.isBlockAddress v) :
    s'.keyOf v = s.keyOf v := by
  rw [keyOf, keyOf, h.values]
  refine ConstantKey.of_congr (fun ty hty => hv ?_) _ _
  obtain ⟨d, hd, hc⟩ := Option.bind_eq_some_iff.1 hty
  exact Edit.isBlockAddress_iff.2 ⟨d, hd, (Value.constant?_eq_address.1 hc).2⟩

theorem EdgesMoved.slotless (hl : s.Slotless) : s'.Slotless := by
  intro c d hd hk ha
  have hslots : s.uses.slotsOf c = [] := List.map_eq_nil_iff.1 (hl c d (h.values ▸ hd) hk ha)
  rw [h.targets, hslots, List.map_nil]

variable (ht : ∀ e ∈ es, (s.uses.edge e).target = some old)
variable (hold : s.values.get? old = some dold) (hnew : s.values.get? new = some dnew)
variable (hty : dnew.ty = dold.ty)

include ht hold hnew hty

theorem EdgesMoved.addresses {f b : ValueId} (hc : s.Addresses c f b) :
    ∃ f' b', s'.Addresses c f' b' ∧ (f' = f ∨ f' = new) ∧ (b' = b ∨ b' = new) := by
  obtain ⟨df, result, params, hdf, htf⟩ := hc.function
  obtain ⟨db, hdb, htb⟩ := hc.block
  obtain ⟨x, y, hxy⟩ : ∃ x y, s.uses.slotsOf c = [x, y] := by
    have hlen : (s.uses.slotsOf c).length = 2 := by
      rw [← List.length_map, ← UseGraph.targets, hc.targets]
      rfl
    exact List.length_eq_two.1 hlen
  have htargets := hc.targets
  rw [UseGraph.targets, hxy] at htargets
  obtain ⟨hx, hy, -⟩ : (s.uses.edge x).target = some f ∧ (s.uses.edge y).target = some b ∧ True := by
    simpa using htargets
  have hnow := h.targets c
  rw [hxy, List.map_cons, List.map_singleton, hx, hy] at hnow
  have hfunction (hf : f = old) : ∃ d result params, s'.values.get? new = some d ∧
      s'.types.get? d.ty = some (.function result params) := by
    obtain rfl := Option.some.inj (hold.symm.trans (hf ▸ hdf))
    exact ⟨dnew, result, params, h.values ▸ hnew, by rw [h.types, hty, htf]⟩
  have hblock (hb : b = old) : ∃ d, s'.values.get? new = some d ∧
      s'.types.get? d.ty = some .label := by
    obtain rfl := Option.some.inj (hold.symm.trans (hb ▸ hdb))
    exact ⟨dnew, h.values ▸ hnew, by rw [h.types, hty, htb]⟩
  have hfirst : ∃ f', (if x ∈ es ∧ x ∉ rest then some new else some f) = some f' ∧
      (f' = f ∨ f' = new) ∧ ∃ d result params, s'.values.get? f' = some d ∧
        s'.types.get? d.ty = some (.function result params) := by
    split
    next hmoved =>
      exact ⟨new, rfl, .inr rfl, hfunction (Option.some.inj (hx.symm.trans (ht x hmoved.1)))⟩
    next => exact ⟨f, rfl, .inl rfl, df, result, params, h.values ▸ hdf, by rw [h.types, htf]⟩
  have hsecond : ∃ b', (if y ∈ es ∧ y ∉ rest then some new else some b) = some b' ∧
      (b' = b ∨ b' = new) ∧ ∃ d, s'.values.get? b' = some d ∧
        s'.types.get? d.ty = some .label := by
    split
    next hmoved =>
      exact ⟨new, rfl, .inr rfl, hblock (Option.some.inj (hy.symm.trans (ht y hmoved.1)))⟩
    next => exact ⟨b, rfl, .inl rfl, db, h.values ▸ hdb, by rw [h.types, htb]⟩
  obtain ⟨f', hf', hff', hfty⟩ := hfirst
  obtain ⟨b', hb', hbb', hbty⟩ := hsecond
  exact ⟨f', b', ⟨by rw [hnow, hf', hb'], hfty, hbty⟩, hff', hbb'⟩

theorem EdgesMoved.filled (hf : s.Filled) : s'.Filled := by
  intro c d hd ha
  obtain ⟨f, b, hc⟩ := hf c d (h.values ▸ hd) ha
  obtain ⟨f', b', hc', -⟩ := h.addresses ht hold hnew hty hc
  exact ⟨f', b', hc'⟩

end Moved

theorem Addresses.ne {f b : ValueId} (h : s.Addresses c f b) : f ≠ b := by
  rintro rfl
  obtain ⟨df, result, params, hdf, htf⟩ := h.function
  obtain ⟨db, hdb, htb⟩ := h.block
  obtain rfl := Option.some.inj (hdf.symm.trans hdb)
  rw [htf] at htb
  cases htb

theorem Addresses.mentions {f b : ValueId} {e : EdgeId} (h : s.Addresses c f b)
    (hs : s.core.Sound r) (ht : (s.uses.edge e).target = some old)
    (hu : (s.uses.edge e).user = c) : ConstantKey.Mentions old (.blockAddress f b) := by
  have hmem : some old ∈ s.uses.targets c :=
    hu ▸ List.mem_of_getElem? (hs.graph.getElem?_of_target ht)
  rw [h.targets] at hmem
  simpa [ConstantKey.Mentions, eq_comm] using hmem

/-- One slot of a block address holds a value at most, so it does not refer to a value once a use
of that value there has moved. -/
theorem EdgesMoved.not_mentions (h : s.EdgesMoved s' r old new es []) (hs : s.core.Sound r)
    (ht : ∀ e ∈ es, (s.uses.edge e).target = some old) (hne : old ≠ new) {f b : ValueId}
    {e : EdgeId} (hc : s.Addresses c f b) (he : e ∈ es) (hu : (s.uses.edge e).user = c)
    {f' b' : ValueId} (hc' : s'.Addresses c f' b') : f' ≠ old ∧ b' ≠ old := by
  -- A slot that holds the old value still is another one that held it before.
  have hslot {i : Nat} (hi : (s'.uses.targets c)[i]? = some (some old)) :
      (s.uses.targets c)[i]? = some (some old) ∧ i ≠ (s.uses.edge e).slot := by
    rw [h.targets, List.getElem?_map, Option.map_eq_some_iff] at hi
    obtain ⟨x, hx, hxt⟩ := hi
    split at hxt
    · exact absurd (Option.some.inj hxt).symm hne
    next hx' =>
      refine ⟨by rw [UseGraph.getElem?_targets, hx, Option.map_some, hxt], fun hi => hx' ?_⟩
      obtain ⟨-, -, hslot⟩ := hs.graph.slot hx
      have hxe : x = e := Option.some.inj ((hi ▸ hx).symm.trans
        (hu ▸ (hs.graph.slot_of_target (ht e he)).2))
      exact ⟨hxe ▸ he, by simp⟩
  have hold : (s.uses.targets c)[(s.uses.edge e).slot]? = some (some old) :=
    hu ▸ hs.graph.getElem?_of_target (ht e he)
  have hne' := hc.ne
  rw [hc.targets] at hold hslot
  rw [hc'.targets] at hslot
  constructor
  · rintro rfl
    obtain ⟨hf, h0⟩ := hslot (i := 0) rfl
    have hf : f = f' := by simpa using hf
    rcases hi : (s.uses.edge e).slot with _ | _ | n
    · exact h0 hi.symm
    · rw [hi] at hold
      exact hne' (hf.trans (by simpa using hold.symm))
    · simp [hi] at hold
  · rintro rfl
    obtain ⟨hb, h1⟩ := hslot (i := 1) rfl
    have hb : b = b' := by simpa using hb
    rcases hi : (s.uses.edge e).slot with _ | _ | n
    · rw [hi] at hold
      exact hne' ((by simpa using hold : f = b').trans hb.symm)
    · exact h1 hi.symm
    · simp [hi] at hold

/-- Block addresses and the content that they had when a use of a value by them moved first. -/
structure Noted (s : Store) (done : EdgeId → Prop) (noted : List (ValueId × ConstantKey)) :
    Prop where
  nodup : (noted.map Prod.fst).Nodup
  key : ∀ c ∈ noted, s.keyOf c.1 = some c.2
  moved : ∀ c ∈ noted, s.isBlockAddress c.1 ∧ ∃ e, done e ∧ (s.uses.edge e).user = c.1
  all : ∀ e, done e → s.isBlockAddress (s.uses.edge e).user →
    (s.uses.edge e).user ∈ noted.map Prod.fst

/-- A replacement that interns block addresses anew: the rest of them is entered under content
that refers to the old value, and refers to it no longer. All other constants are entered under
their content. -/
structure Rekeying (L : Layout) (k : Nat) (old : ValueId) (s s' : Store)
    (key : ValueId → Option ConstantKey) (rest : List (ValueId × ConstantKey)) : Prop where
  settled : s'.SettledIn L k
  filled : s'.Filled
  types : s'.types = s.types
  spares : s.Spares (fun p => ¬ p.IsMergeable) s'
  entered : Indexes s'.constants key
  current : ∀ {v}, v ∉ rest.map Prod.fst → key v = s'.keyOf v
  nodup : (rest.map Prod.fst).Nodup
  pending : ∀ c ∈ rest, key c.1 = some c.2 ∧ c.2.Mentions old ∧ s'.isBlockAddress c.1 ∧
    ∀ k, s'.keyOf c.1 = some k → ¬ k.Mentions old

theorem Rekeying.keyed {L : Layout} {k : Nat} {key : ValueId → Option ConstantKey}
    (h : Rekeying L k old s s' key []) (hs : s.Slotless) : s'.Keyed := by
  refine ⟨h.filled, ?_, hs.spares h.spares⟩
  have hkey : key = s'.keyOf := funext fun v => h.current (by simp)
  exact hkey ▸ h.entered

theorem Rekeying.entry {L : Layout} {k : Nat} {p : Store} {e : ValueId}
    {key : ValueId → Option ConstantKey} {before after : ConstantKey}
    {rest : List (ValueId × ConstantKey)} (h : Rekeying L k old p s key ((c, before) :: rest))
    (hafter : s.keyOf c = some after) (he : (s.constants.erase before)[after]? = some e) :
    e ≠ c ∧ e ∉ rest.map Prod.fst ∧ s.keyOf e = some after := by
  obtain ⟨hbefore, -, -, hfresh⟩ := h.pending _ (List.mem_cons_self ..)
  have hke : Function.update key c none e = some after := ((h.entered.erase hbefore) _ _).1 he
  have hec : e ≠ c := by
    rintro rfl
    rw [Function.update_self] at hke
    cases hke
  rw [Function.update_of_ne hec] at hke
  -- What is still to come is entered under content that refers to the old value.
  have herest : e ∉ rest.map Prod.fst := fun hmem => by
    obtain ⟨x, hx, rfl⟩ := List.mem_map.1 hmem
    obtain ⟨hkx, hmentions, -⟩ := h.pending x (List.mem_cons_of_mem _ hx)
    rw [hke] at hkx
    exact hfresh _ hafter (Option.some.inj hkx ▸ hmentions)
  refine ⟨hec, herest, ?_⟩
  rwa [← h.current (by simpa [hec] using herest)]

end Store

open Store

namespace Edit

variable {s s' : Store} {L : Layout} {k : Nat} {c e old new : ValueId} {dc de dold dnew : Value}

theorem ends_fold (h : s.SettledIn L k) (hf : s.Filled) (hc : s.values.get? c = some dc)
    (hac : dc.IsAddress) (he : s.values.get? e = some de) (hae : de.IsAddress) (hne : c ≠ e)
    (hentry : ∀ key, s.keyOf c = some key → s.constants[key]? ≠ some c) :
    Ends (do replaceWithin (k + 1) c e; destroyValue c) s
      (fun _ s' => s'.SettledIn L k ∧ s.Folds s' c) fun _ _ => False := by
  have hwell {v : ValueId} {d : Value} (hd : s.values.get? v = some d) : d.bare.WellTyped s.types :=
    h.settled.typed.values (by rw [Store.get?_core, hd]; rfl)
  have hptr {v : ValueId} {d : Value} (hd : s.values.get? v = some d) (ha : d.IsAddress) :
      s.types.get? d.ty = some .ptr := (hwell hd).address (Value.bare_payload_constant.2 ha)
  have hty : de.ty = dc.ty :=
    TypeTable.get?_inj h.settled.typed.distinct (hptr he hae) (hptr hc hac)
  have hk : dc.kind = .constant := by rw [Value.kind, hac]; rfl
  have hunaddressed (d : Value) (hd : s.values.get? c = some d) : ¬ s.types.IsAddressable d.ty := by
    obtain rfl := Option.some.inj (hc.symm.trans hd)
    exact (hwell hc).not_isAddressable (.inr (Value.bare_payload_constant.2 hac))
  have hentered : ¬ s.IsEntered c := not_isEntered_of_kind h.settled hc (by rw [hk]; decide)
  refine Ends.bind (Ends.mono (ends_replaceStep (mergesWrappers_replaceWithin k) h.settled hne
    hunaddressed hentered h.wrappers) (fun _ _ h => h) fun _ _ hx =>
      hx.2.2 (Query.expectSameType_ok.2 ⟨dc, de, hc, he, hty⟩)) ?_
  rintro _ q ⟨p, r', hp, hq, hu, hnode⟩
  have hspares : s.Spares (fun p => ¬ p.IsMergeable) q := by
    refine Spares.trans ?_ (hq.merged.spares.mono fun _ hp hk => hp (.inl hk))
    have hsp : s.Spares (fun p => ¬ p.IsMergeable) { s with uses := p.uses } :=
      spares_withUses hc he (not_not_intro (.inr hac)) (not_not_intro (.inr hae))
        (targets_edgesMoved hp h.settled)
    obtain ⟨g, rfl⟩ := hp.uses
    exact hsp
  have hsettled : q.SettledIn L k := by
    have hp' := settledIn_of_uses h hp
    obtain ⟨g, rfl⟩ := hp.uses
    exact settledIn_of_settles hp' hq
  have htypes : q.types = s.types := hq.merged.types.trans hp.types
  have hconstants : q.constants = s.constants := hq.merged.constants.trans hp.constants
  have hlive {v : ValueId} {d : Value} (hd : s.values.get? v = some d) (hk : d.kind ≠ .metadata) :
      ∃ d', q.values.get? v = some d' ∧ d'.unattached = d.unattached :=
    hq.merged.spares.value (hp.values ▸ hd) hk
  obtain ⟨dq, hdq, heq⟩ := hlive hc (by rw [hk]; decide)
  have haq : dq.IsAddress := (payload_of_unattached heq).trans hac
  have hkq : dq.kind = .constant := by rw [Value.kind, haq]; rfl
  have hfilled := hf.spares h.settled hspares htypes
  have hkey := hfilled.constantKey hdq
  rw [hf.keyOf_spares h.settled hspares htypes hdq] at hkey
  refine ((ends_destroyAddress hsettled fun d hd => ?_).and (ends_destroyUnused hsettled.settled hdq
    (by rw [hkq]; rfl) hu hnode hkey fun key hkey' => hconstants ▸ hentry key hkey')).mono ?_
    fun _ _ hx => hx.2
  · exact Option.some.inj (hdq.symm.trans hd) ▸ haq
  · rintro _ s' ⟨⟨hs', -⟩, t, ws, rfl, -, -, -⟩
    have hget (v : ValueId) : (q.without c t ws).values.get? v =
        if c = v then none else q.values.get? v := Arena.get?_erase ..
    refine ⟨hs', htypes, hconstants, hspares.trans (spares_without hsettled.settled.graph hdq
      (not_not_intro (.inr haq)) hnode), fun hvc hd hk => ?_, (hget c).trans (if_pos rfl)⟩
    obtain ⟨d', hd', -⟩ := hlive hd hk
    exact ⟨d', (hget _).trans ((if_neg (Ne.symm hvc)).trans hd')⟩

theorem ends_rekey {key : ValueId → Option ConstantKey} {before : ConstantKey}
    {rest : List (ValueId × ConstantKey)} {p : Store}
    (h : Rekeying L k old p s key ((c, before) :: rest)) :
    Ends (internBlockAddress (replaceWithin (k + 1)) c before) s
      (fun _ s' => ∃ key', Rekeying L k old p s' key' rest) fun _ _ => False := by
  obtain ⟨hbefore, hstale, hblock, hfresh⟩ := h.pending _ (List.mem_cons_self ..)
  obtain ⟨dc, hdc, hac⟩ := isBlockAddress_iff.1 hblock
  obtain ⟨f, b, hfb⟩ := h.filled c dc hdc hac
  have hkey := hfb.keyOf hdc hac
  obtain ⟨hc, hnodup⟩ := List.nodup_cons.1 h.nodup
  -- The old entry goes first.
  let s₁ : Store := { s with constants := s.constants.erase before }
  have hs₁ : s₁.SettledIn L k := settledIn_withConstants h.settled _
  have hsp₁ : s.Spares (fun p => ¬ p.IsMergeable) s₁ := spares_of_eq rfl rfl id
  have hf₁ : s₁.Filled := h.filled.spares h.settled.settled hsp₁ rfl
  have hentered₁ : Indexes s₁.constants (Function.update key c none) := h.entered.erase hbefore
  have hrest {x : ValueId × ConstantKey} (hx : x ∈ rest) : x.1 ≠ c := fun hxc =>
    hc (List.mem_map.2 ⟨x, hx, hxc⟩)
  have hcurrent {v : ValueId} (hvc : v ≠ c) (hv : v ∉ rest.map Prod.fst) : key v = s.keyOf v :=
    h.current (by simpa [hvc] using hv)
  unfold internBlockAddress forgetConstant
  rw [ends_bind, ends_modify, if_pos ((h.entered before c).2 hbefore), ends_bind,
    ends_lift_ok (hf₁.constantKey hdc)]
  rw [show s₁.keyOf c = some (.blockAddress f b) from hkey]
  dsimp only
  rw [ends_bind, ends_get]
  split
  next hnone =>
    refine ⟨Function.update (Function.update key c none) c (some (.blockAddress f b)),
      settledIn_withConstants hs₁ _, hf₁.spares hs₁.settled (spares_of_eq rfl rfl id) rfl, h.types,
      h.spares.trans (spares_of_eq rfl rfl id), hentered₁.insert hnone (Function.update_self ..),
      fun {v} hv => ?_, hnodup, fun x hx => ?_⟩
    · by_cases hvc : v = c
      · rw [hvc, Function.update_self]
        exact hkey.symm
      · rw [Function.update_of_ne hvc, Function.update_of_ne hvc]
        exact hcurrent hvc hv
    · rw [Function.update_of_ne (hrest hx), Function.update_of_ne (hrest hx)]
      exact h.pending x (List.mem_cons_of_mem _ hx)
  next e he =>
    obtain ⟨hec, -, hke⟩ := h.entry hkey he
    obtain ⟨de, hde, hae⟩ := of_keyOf_blockAddress hke
    rw [if_pos hec]
    refine Ends.weaken (ends_fold hs₁ hf₁ hdc hac hde hae (Ne.symm hec) fun key' hkey' => ?_) ?_
    · obtain rfl := Option.some.inj (hkey.symm.trans hkey')
      rw [he]
      exact fun heq => hec (Option.some.inj heq)
    · rintro _ s' ⟨hs', hfold⟩
      have hkeys : s'.keyOf = Function.update s.keyOf c none := hfold.keyOf hs₁.settled hf₁
      refine ⟨Function.update key c none, hs', hf₁.spares hs₁.settled hfold.spares hfold.types,
        hfold.types.trans h.types, h.spares.trans (hsp₁.trans hfold.spares),
        hfold.constants ▸ hentered₁, fun {v} hv => ?_, hnodup, fun x hx => ?_⟩
      · rw [hkeys, Function.update_apply, Function.update_apply]
        split
        · rfl
        next hvc => exact hcurrent hvc hv
      · obtain ⟨hkx, hmentions, hblock, hfresh'⟩ := h.pending x (List.mem_cons_of_mem _ hx)
        rw [hkeys, Function.update_of_ne (hrest hx), Function.update_of_ne (hrest hx)]
        refine ⟨hkx, hmentions, ?_, hfresh'⟩
        obtain ⟨dx, hdx, hax⟩ := isBlockAddress_iff.1 hblock
        have hkd : dx.kind ≠ .metadata := by rw [Value.kind, hax]; decide
        obtain ⟨dx', hdx'⟩ := hfold.others (hrest hx) hdx hkd
        obtain ⟨d, hd, -, hconst⟩ := hfold.spares.sort hdx'
        obtain rfl := Option.some.inj (hdx.symm.trans hd)
        exact isBlockAddress_iff.2 ⟨dx', hdx', isAddress_of_constant? hconst.symm hax⟩

section Noting

variable {r : Location → Option NodeId} {es rest : List EdgeId} {x : EdgeId}
variable {noted : List (ValueId × ConstantKey)} (hs : s.core.Sound r)

include hs

theorem ends_noteBlockAddress_moved (h : s.EdgesMoved s' r old new es (x :: rest))
    (hf : s'.Filled) (hn : s.Noted (fun e => e ∈ es ∧ e ∉ x :: rest) noted) :
    Ends (noteBlockAddress x noted) s' (fun noted' s'' => s'' = s' ∧
      s.Noted (fun e => e ∈ es ∧ e ∉ rest) noted') fun _ _ => False := by
  have hdone (e : EdgeId) : e ∈ es ∧ e ∉ rest ↔ (e ∈ es ∧ e ∉ x :: rest) ∨ e = x := by
    have hx := h.sub (List.mem_cons_self ..)
    have hrest := (List.nodup_cons.1 h.nodup).1
    by_cases hex : e = x
    · simp [hex, hx, hrest]
    · simp [hex]
  have hblock (v : ValueId) : s'.isBlockAddress v = s.isBlockAddress v := by
    rw [isBlockAddress, h.values, isBlockAddress]
  have hany : (noted.any fun c => c.1 = (s.uses.edge x).user) = true ↔
      (s.uses.edge x).user ∈ noted.map Prod.fst := by simp
  unfold noteBlockAddress
  rw [ends_bind, ends_get, h.user]
  dsimp only
  rw [ends_bind, ends_get, hblock]
  split
  next hif =>
    obtain ⟨haddr, hnew⟩ := Bool.and_eq_true_iff.1 hif
    have hnew : (s.uses.edge x).user ∉ noted.map Prod.fst := fun hm => by
      rw [hany.2 hm] at hnew
      cases hnew
    have hunmoved : ∀ e, e ∈ es → e ∉ x :: rest → (s.uses.edge e).user ≠ (s.uses.edge x).user := by
      intro e he he' heq
      exact hnew (heq ▸ hn.all e ⟨he, he'⟩ (heq ▸ haddr))
    obtain ⟨d, hd, ha⟩ := isBlockAddress_iff.1 ((hblock _).trans haddr)
    obtain ⟨f, b, hfb⟩ := hf _ d hd ha
    have hkey := hf.constantKey hd
    rw [hfb.keyOf hd ha] at hkey
    rw [ends_bind, ends_lift_ok hkey]
    refine ⟨rfl, ?_, fun c hc => ?_, fun c hc => ?_, fun e he hb => ?_⟩
    · rw [List.map_append, List.map_singleton, List.nodup_append]
      refine ⟨hn.nodup, List.nodup_singleton _, fun a ha b hb hab => hnew ?_⟩
      rwa [hab, List.mem_singleton.1 hb] at ha
    · obtain hc | hc := List.mem_append.1 hc
      · exact hn.key c hc
      · obtain rfl := List.mem_singleton.1 hc
        rw [← h.keyOf_eq hs hunmoved, hfb.keyOf hd ha]
    · obtain hc | hc := List.mem_append.1 hc
      · obtain ⟨hb, e, he, hu⟩ := hn.moved c hc
        exact ⟨hb, e, (hdone e).2 (.inl he), hu⟩
      · obtain rfl := List.mem_singleton.1 hc
        exact ⟨haddr, x, (hdone x).2 (.inr rfl), rfl⟩
    · rw [List.map_append, List.map_singleton, List.mem_append, List.mem_singleton]
      obtain he | rfl := (hdone e).1 he
      · exact .inl (hn.all e he hb)
      · exact .inr rfl
  next hif =>
    refine ⟨rfl, hn.nodup, hn.key, fun c hc => ?_, fun e he hb => ?_⟩
    · obtain ⟨hb, e, he, hu⟩ := hn.moved c hc
      exact ⟨hb, e, (hdone e).2 (.inl he), hu⟩
    · obtain he | rfl := (hdone e).1 he
      · exact hn.all e he hb
      · exact hany.1 (by simpa [hb] using hif)

theorem ends_gather_noted (hf : s.Filled) (hes : es.Nodup)
    (ht : ∀ e ∈ es, (s.uses.edge e).target = some old) (hne : old ≠ new)
    (hold : s.values.get? old = some dold) (hnew : s.values.get? new = some dnew)
    (hty : dnew.ty = dold.ty) : Ends (gather new es) s
      (fun noted s' => s.EdgesMoved s' r old new es [] ∧ s.Noted (· ∈ es) noted)
      fun _ _ => False := by
  refine Ends.mono (ends_foldlM (fun rest (noted : List (ValueId × ConstantKey)) s' =>
    s.EdgesMoved s' r old new es rest ∧ s.Noted (fun e => e ∈ es ∧ e ∉ rest) noted) ?_ es [] s ?_)
    ?_ fun _ _ hx => hx
  · rintro e rest noted s' ⟨h, hn⟩
    refine Ends.bind (Ends.weaken (ends_noteBlockAddress_moved hs h
      (h.filled ht hold hnew hty hf) hn) fun _ _ h => h) ?_
    rintro noted' _ ⟨rfl, hn'⟩
    refine Ends.bind (Ends.weaken (ends_moveEdge h hne hold hnew hty) fun _ _ h => h) ?_
    exact fun _ _ h' => ⟨h', hn'⟩
  · refine ⟨edgesMoved_refl hs hes ht, List.nodup_nil, by simp, by simp, ?_⟩
    exact fun e he => absurd he.1 he.2
  · rintro noted s' ⟨h, hn⟩
    simpa only [List.not_mem_nil, not_false_eq_true, and_true] using And.intro h hn

end Noting

structure Moves (L : Layout) (k : Nat) (old new : ValueId) (es : List EdgeId) (s s' : Store) :
    Prop where
  settled : s'.SettledIn L k
  keyed : s'.Keyed
  moved : ∃ p, s.EdgesMoved p s.core.held old new es [] ∧ s'.types = p.types ∧
    p.Spares (fun p => ¬ p.IsMergeable) s' ∧
    ∀ d, s.values.get? old = some d → ¬ s.types.IsAddressable d.ty → s' = p

theorem rekeying_noted (h : s.SettledIn L k) (hk : s.Keyed) {es : List EdgeId}
    (ht : ∀ e ∈ es, (s.uses.edge e).target = some old) (hne : old ≠ new)
    (hold : s.values.get? old = some dold) (hnew : s.values.get? new = some dnew)
    (hty : dnew.ty = dold.ty) {p : Store} (hp : s.EdgesMoved p s.core.held old new es [])
    {noted : List (ValueId × ConstantKey)} (hn : s.Noted (· ∈ es) noted) :
    Rekeying L k old p p s.keyOf noted := by
  have hs := h.settled
  have hblock (v : ValueId) : p.isBlockAddress v = s.isBlockAddress v := by
    rw [isBlockAddress, hp.values, isBlockAddress]
  refine ⟨settledIn_of_uses h hp, hp.filled ht hold hnew hty hk.filled, rfl, .refl p,
    hp.constants ▸ hk.entered, fun {v} hv => ?_, hn.nodup, fun c hc => ?_⟩
  · by_cases hb : s.isBlockAddress v
    · refine (hp.keyOf_eq hs fun e he _ hu => hv ?_).symm
      rw [← hu] at hb ⊢
      exact hn.all e he hb
    · exact (hp.keyOf_of_not_isBlockAddress hb).symm
  · obtain ⟨hb, e, he, hu⟩ := hn.moved c hc
    obtain ⟨d, hd, ha⟩ := isBlockAddress_iff.1 hb
    obtain ⟨f, b, hfb⟩ := hk.filled _ d hd ha
    obtain ⟨f', b', hfb', -⟩ := hp.addresses ht hold hnew hty hfb
    have hkey := hn.key c hc
    refine ⟨hkey, ?_, (hblock _).trans hb, fun key hkey' hm => ?_⟩
    · rw [Option.some.inj (hkey.symm.trans (hfb.keyOf hd ha))]
      exact hfb.mentions hs (ht e he) hu
    · obtain rfl := Option.some.inj (hkey'.symm.trans (hfb'.keyOf (hp.values ▸ hd) ha))
      obtain ⟨hf', hb'⟩ := hp.not_mentions hs ht hne hfb he hu hfb'
      exact hm.elim hf' hb'

theorem ends_moveEdges_keyed (h : s.SettledIn L k) (hk : s.Keyed) {es : List EdgeId}
    (hes : es.Nodup) (ht : ∀ e ∈ es, (s.uses.edge e).target = some old) (hne : old ≠ new)
    (hty : Query.expectSameType old new s = .ok ()) :
    Ends (moveEdges (replaceWithin (k + 1)) new es) s (fun _ s' => Moves L k old new es s s')
      fun _ _ => False := by
  obtain ⟨dold, dnew, hold, hnew, hty⟩ := Query.expectSameType_ok.1 hty
  have hs := h.settled
  rw [moveEdges_eq]
  refine Ends.bind (ends_gather_noted hs hk.filled hes ht hne hold hnew hty) ?_
  rintro noted p ⟨hp, hn⟩
  have hstart := rekeying_noted h hk ht hne hold hnew hty hp hn
  have hslotless : p.Slotless := hp.slotless hk.slotless
  cases noted with
  | nil => exact ⟨hstart.settled, hstart.keyed hslotless, p, hp, rfl, .refl p, fun _ _ _ => rfl⟩
  | cons c rest =>
    -- What can be noted refers to the old value, so its type is that of a function or a block.
    have haddr : s.types.IsAddressable dold.ty := by
      obtain ⟨hb, e, he, hu⟩ := hn.moved c (List.mem_cons_self ..)
      obtain ⟨d, hd, ha⟩ := isBlockAddress_iff.1 hb
      obtain ⟨dt, hdt, haddr⟩ := hs.typed.address (d := d.bare) (ht e he)
        (by rw [show (s.core.uses.edge e).user = c.1 from hu, Store.get?_core, hd]; rfl)
        (Value.bare_payload_constant.2 ha)
      rw [Store.get?_core, hold] at hdt
      obtain rfl := Option.some.inj hdt
      exact haddr
    refine Ends.mono (ends_forM (fun rest s' => ∃ key, Rekeying L k old p s' key rest)
      (fun _ _ _ h => h.elim fun _ h => ends_rekey h) _ p ⟨_, hstart⟩) ?_ fun _ _ hx => hx
    rintro _ s' ⟨key, h⟩
    refine ⟨h.settled, h.keyed hslotless, p, hp, h.types, h.spares, fun d hd ha => absurd haddr ?_⟩
    rwa [Option.some.inj (hold.symm.trans hd)]

theorem Moves.live {es : List EdgeId} (h : Moves L k old new es s s') (hs : s.core.Sound r)
    (hold : s.values.get? old = some dold) (hnew : s.values.get? new = some dnew)
    (hty : dnew.ty = dold.ty) : ∃ d, s'.values.get? new = some d := by
  obtain ⟨p, hp, -, hsp, hstay⟩ := h.moved
  by_cases ha : s.types.IsAddressable dold.ty
  · obtain ⟨d, hd, -⟩ := hsp.value (hp.values ▸ hnew) (not_isMergeable hs hnew (hty ▸ ha))
    exact ⟨d, hd⟩
  · exact ⟨dnew, by rw [hstay _ hold ha, hp.values, hnew]⟩

theorem Moves.wrapsLive {es : List EdgeId} (h : Moves L k old new es s s') (hw : s.WrapsLive) :
    s'.WrapsLive := by
  obtain ⟨p, hp, -, hsp, -⟩ := h.moved
  refine hsp.wrapped ?_
  obtain ⟨g, rfl⟩ := hp.uses
  exact hw

structure Replaces (L : Layout) (old new : ValueId) (s s' : Store) : Prop where
  settled : s'.SettledWith L
  keyed : s'.Keyed
  sameType : Query.expectSameType old new s = .ok ()
  unwrapped : s'.metadata.nodeOf[old]? = none
  moved : ∃ q r', Moves L s.values.size old new (s.uses.useList old) s q ∧
    q.Settles s' q.core.held r' ∧
    (q.metadata.nodeOf[old]? = none ∨ q.metadata.nodeOf[new]? = none →
      s'.values = q.values ∧ s'.uses = q.uses)

theorem Replaces.wrapsLive (h : Replaces L old new s s') (hw : s.WrapsLive) : s'.WrapsLive := by
  obtain ⟨q, r', hq, hs', -⟩ := h.moved
  exact hs'.merged.spares.wrapped (hq.wrapsLive hw)

theorem ends_replaceAllUses_of {R : Store → Prop} {Q : Unit → Store → Prop}
    {E : Fault → Store → Prop} (hne : old ≠ new)
    (hedges : Query.expectSameType old new s = .ok () →
      Ends (moveEdges (replaceWithin (s.values.size + 1)) new (s.uses.useList old)) s
        (fun _ => R) E)
    (hnode : ∀ q, Query.expectSameType old new s = .ok () → R q →
      Ends (moveValueNode (replaceWithin (s.values.size + 1)) old new) q Q E)
    (hx : ∀ x, Query.expectSameType old new s ≠ .ok () → E x s) :
    Ends (replaceAllUses old new) s Q E := by
  unfold replaceAllUses
  rw [ends_bind, ends_get]
  change Ends (replaceStep (replaceWithin (s.values.size + 1)) old new) s _ _
  unfold replaceStep
  rw [if_neg hne]
  refine ends_bind.2 (ends_lift.2 ⟨fun u hu => ?_, fun x h => hx x (by simp [h])⟩)
  obtain ⟨dold, -, hold, -⟩ := Query.expectSameType_ok.1 hu
  rw [ends_bind, ends_lift_ok (Query.useList_ok.2 ⟨⟨dold, hold⟩, rfl⟩)]
  exact Ends.bind (hedges hu) fun _ q hq => hnode q hu hq

theorem ends_replaceAllUses (hs : s.SettledWith L) (hk : s.Keyed) (hne : old ≠ new) :
    Ends (replaceAllUses old new) s (fun _ s' => Replaces L old new s s')
      fun _ s' => s' = s ∧ Query.expectSameType old new s ≠ .ok () := by
  have h : s.SettledIn L s.values.size := hs.bounded (Nat.le_refl _)
  have hg : s.uses.Sound s.core.IsLive := hs.1.graph
  refine ends_replaceAllUses_of (R := Moves L s.values.size old new (s.uses.useList old) s) hne
    (fun hu => (ends_moveEdges_keyed h hk (hg.lists.nodup old) (fun e => (hg.lists.mem old e).1)
      hne hu).weaken fun _ _ h => h) (fun q hu hq => ?_) fun _ hx => ⟨rfl, hx⟩
  obtain ⟨dold, dnew, hold, hnew, hty⟩ := Query.expectSameType_ok.1 hu
  have hmoved : Ends (moveValueNode (replaceWithin (s.values.size + 1)) old new) q
      (fun _ s' => (∃ r', q.Settles s' q.core.held r') ∧ s'.metadata.nodeOf[old]? = none)
      fun _ _ => False :=
    ends_moveValueNode (mergesWrappers_replaceWithin (s.values.size + 1)) hq.settled.settled
      (Nat.le_succ_of_le hq.settled.wrappers) hne (hq.live hs.1 hold hnew hty)
  have halone : Ends (moveValueNode (replaceWithin (s.values.size + 1)) old new) q
      (fun _ s' => q.metadata.nodeOf[old]? = none ∨ q.metadata.nodeOf[new]? = none →
        s'.values = q.values ∧ s'.uses = q.uses) fun _ _ => True := by
    by_cases h : q.metadata.nodeOf[old]? = none ∨ q.metadata.nodeOf[new]? = none
    · exact (ends_moveValueNode_alone hq.settled.settled h).mono (fun _ _ h _ => h) fun _ _ h => trivial
    · exact hmoved.mono (fun _ _ _ h' => absurd h' h) fun _ _ h => trivial
  refine (hmoved.and halone).mono ?_ fun _ _ hx => hx.1.elim
  rintro _ s' ⟨⟨⟨r', hs'⟩, hnone⟩, hstay⟩
  have hkeyed := hq.keyed.spares hq.settled.settled hs'.merged.spares hs'.merged.types
    hs'.merged.constants
  exact ⟨(settledIn_of_settles hq.settled hs').settledWith, hkeyed, hu, hnone, q, r', hq, hs', hstay⟩

theorem replaceAllUses_self (s : Store) (v : ValueId) :
    Ends (replaceAllUses v v) s (fun _ s' => s' = s) fun _ _ => False := by
  unfold replaceAllUses
  rw [ends_bind, ends_get]
  change Ends (replaceStep (replaceWithin (s.values.size + 1)) v v) s _ _
  unfold replaceStep
  rw [if_pos rfl]
  rfl

theorem ends_replaceUsesIf_of {σ : Type} {ask : σ → Use → Bool × σ} {st : σ} {Q : Store → Prop}
    {E : Fault → Store → Prop} (hne : old ≠ new)
    (hedges : ∀ es, es.Sublist (s.uses.useList old) → Query.expectSameType old new s = .ok () →
      Ends (moveEdges (replaceWithin (s.values.size + 2)) new es) s (fun _ => Q) E)
    (hx : ∀ x, E x s) : Ends (replaceUsesIf old new ask st) s (fun _ => Q) E := by
  unfold replaceUsesIf
  rw [if_neg hne]
  refine ends_bind.2 (ends_lift.2 ⟨fun u hu => ?_, fun _ _ => hx _⟩)
  refine ends_bind.2 (ends_lift.2 ⟨fun es hes => ?_, fun _ _ => hx _⟩)
  obtain ⟨-, rfl⟩ := Query.useList_ok.1 hes
  rw [ends_bind, ends_get]
  dsimp only
  rw [ends_bind, ends_get]
  have hsub := pick_sublist (fun st e => ask st (s.uses.use e)) st (s.uses.useList old)
  exact Ends.bind (hedges _ hsub hu) fun _ _ h => h

theorem ends_replaceUsesIf (hs : s.SettledWith L) (hk : s.Keyed) (hne : old ≠ new)
    {σ : Type} {ask : σ → Use → Bool × σ} {st : σ} : Ends (replaceUsesIf old new ask st) s
      (fun _ s' => ∃ es, Moves L (s.values.size + 1) old new es s s') fun _ s' => s' = s := by
  have h : s.SettledIn L (s.values.size + 1) := hs.bounded (Nat.le_succ _)
  have hg : s.uses.Sound s.core.IsLive := hs.1.graph
  exact ends_replaceUsesIf_of hne (fun es hsub hu => Ends.weaken (ends_moveEdges_keyed h hk
    ((hg.lists.nodup old).sublist hsub) (fun e he => (hg.lists.mem old e).1 (hsub.subset he)) hne
    hu) fun _ _ h => ⟨es, h⟩) fun _ => rfl

theorem ends_replaceNode {n m : NodeId} (hs : s.SettledWith L) (hk : s.Keyed) :
    Ends (replaceNode n m) s (fun _ s' => s'.SettledWith L ∧ s'.Keyed ∧
      (s.WrapsLive → s'.WrapsLive)) fun _ s' => s' = s := by
  have h : s.SettledIn L s.values.size := hs.bounded (Nat.le_refl _)
  unfold replaceNode
  rw [ends_bind, ends_get]
  refine (ends_replaceNodeStep (mergesWrappers_replaceWithin _) hs.1
    (Nat.le_trans h.wrappers (Nat.le_add_right _ 2))).mono ?_ fun _ _ h => h.2.1
  rintro _ s' ⟨r', hs'⟩
  exact ⟨(settledIn_of_settles h hs').settledWith,
    hk.spares hs.1 hs'.merged.spares hs'.merged.types hs'.merged.constants,
    hs'.merged.spares.wrapped⟩

end Edit

end ShaderIR
