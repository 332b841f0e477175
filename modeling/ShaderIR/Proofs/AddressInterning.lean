import ShaderIR.Proofs.ReplacementWiring
import ShaderIR.Proofs.UseTransfer

/-! Block addresses after their operands have moved. Each of them is interned anew: it is folded
into an equal one that was there before, or lives on under its new content. No other constant is
touched, though several wait to be interned anew at a time. -/

open ShaderIR.Core

namespace ShaderIR

open Wiring

namespace Store

variable {s p q s' : Store} {r : Location → Option NodeId} {v c e old new f b g d : ValueId}
variable {L : Layout} {k : Nat} {es : List EdgeId} {rest noted : List (ValueId × ConstantKey)}
variable {gone : ValueId → Prop} {into : ValueId → ValueId} {dold dnew : Value}

/-- Constants have been folded. Each that is gone had the content of the one in its place, which is
not to be interned anew. -/
structure Collapses (p s : Store) (rest : List (ValueId × ConstantKey)) (gone : ValueId → Prop)
    (into : ValueId → ValueId) : Prop where
  absorbs : p.wiring.Absorbs s.wiring gone into
  dead : ∀ {c}, gone c → s.wiring.kind c = none
  constant : ∀ {c}, gone c → p.wiring.kind c = some .constant
  equal : ∀ {c}, gone c → p.keyOf (into c) = p.keyOf c
  behind : ∀ {c}, gone c → into c ∉ rest.map Prod.fst
  kept : ∀ {v}, p.wiring.kind v = some .constant → ¬ gone v → s.wiring.kind v = some .constant

theorem collapses_refl (p : Store) (rest : List (ValueId × ConstantKey)) :
    p.Collapses p rest (fun _ => False) id :=
  ⟨.refl _, False.elim, False.elim, False.elim, False.elim, fun h _ => h⟩

theorem Collapses.skip {x : ValueId × ConstantKey} (h : p.Collapses s (x :: rest) gone into)
    (hw : s'.wiring = s.wiring) : p.Collapses s' rest gone into := by
  refine ⟨hw ▸ h.absorbs, fun hc => hw ▸ h.dead hc, h.constant, h.equal, fun hc hm => ?_,
    fun hv hg => hw ▸ h.kept hv hg⟩
  exact h.behind hc (List.mem_cons_of_mem _ hm)

theorem Collapses.fold {before : ConstantKey} {into' : ValueId → ValueId}
    (h : p.Collapses s ((c, before) :: rest) gone into) (hs : s.core.Sound r)
    (hfold : s.wiring.Absorbs s'.wiring (· = c) into') (hsame : into' c = into' e)
    (hdead : s'.wiring.kind c = none) (hc : s.wiring.kind c = some .constant)
    (he : s.wiring.kind e = some .constant) (hec : e ≠ c) (hrest : e ∉ rest.map Prod.fst)
    (hkey : p.keyOf e = p.keyOf c) :
    p.Collapses s' rest (fun v => gone v ∨ v = c) (into' ∘ into) := by
  have hfixed {v : ValueId} (hv : s.wiring.kind v = some .constant) (hvc : v ≠ c) :
      into' v = v ∧ s'.wiring.kind v = some .constant := fixed_of_absorbs hfold hs hv (by decide) hvc
  have hnot : ¬ gone c := fun hg => by
    cases hc.symm.trans (h.dead hg)
  have hself : (into' ∘ into) c = e := by
    have hstay : into c = c := (h.absorbs.survives hc).2 hnot
    rw [Function.comp_apply, hstay, hsame, (hfixed he hec).1]
  -- What has gone before is in a place that stays.
  have hbefore {v : ValueId} (hv : gone v) : (into' ∘ into) v = into v := by
    refine (hfixed (h.absorbs.lands (h.constant hv)) fun hvc => ?_).1
    exact h.behind hv (hvc ▸ List.mem_cons_self ..)
  refine ⟨h.absorbs.trans hfold, fun {v} hv => ?_, fun {v} hv => ?_, fun {v} hv => ?_,
    fun {v} hv => ?_, fun {v} hv hg => ?_⟩
  · obtain hv | rfl := hv
    · exact hfold.dead (h.dead hv)
    · exact hdead
  · obtain hv | rfl := hv
    · exact h.constant hv
    · exact (h.absorbs.survives hc).1
  · obtain hv | rfl := hv
    · rw [hbefore hv, h.equal hv]
    · rw [hself, hkey]
  · obtain hv | rfl := hv
    · rw [hbefore hv]
      exact fun hm => h.behind hv (List.mem_cons_of_mem _ hm)
    · rwa [hself]
  · obtain ⟨hg, hvc⟩ := not_or.1 hg
    exact (hfixed (h.kept hv hg) hvc).2

def moved (us : List Use) (new user : ValueId) (slot : Nat) (v : ValueId) : ValueId :=
  if ⟨user, slot⟩ ∈ us then new else v

/-- Some uses have moved to a value, and the block addresses among their users have been interned
anew: each is folded into the one that had its new content before, or is entered under it. All other
constants stay, with their operands. -/
structure Readdresses (s s' : Store) (new : ValueId) (us : List Use) : Prop where
  addresses : ∀ c, s.isBlockAddress c → (∃ u ∈ us, u.user = c) → ∃ f b,
    Query.operands c s = .ok [some f, some b] ∧
    (∀ e, e ≠ c → s.isBlockAddress e →
      Query.operands e s = .ok [some (moved us new c 0 f), some (moved us new c 1 b)] →
      s'.isLive c = false ∧ ∀ user slot, Query.operand user slot s = .ok (some c) →
        s'.isLive user → Query.operand user slot s' = .ok (some e)) ∧
    ((∀ e, e ≠ c → s.isBlockAddress e →
      Query.operands e s ≠ .ok [some (moved us new c 0 f), some (moved us new c 1 b)]) →
      s'.isBlockAddress c ∧
      Query.operands c s' = .ok [some (moved us new c 0 f), some (moved us new c 1 b)] ∧
      s'.constants[ConstantKey.blockAddress (moved us new c 0 f) (moved us new c 1 b)]? = some c)
  others : ∀ v, Query.kind v s = .ok .constant →
    ¬ (s.isBlockAddress v ∧ ∃ u ∈ us, u.user = v) →
    Query.kind v s' = .ok .constant ∧ Query.operands v s' = Query.operands v s

theorem mem_noted_iff (hn : s.Noted (· ∈ es) noted) : c ∈ noted.map Prod.fst ↔
    s.isBlockAddress c ∧ ∃ u ∈ es.map s.uses.use, u.user = c := by
  constructor
  · intro hc
    obtain ⟨x, hx, rfl⟩ := List.mem_map.1 hc
    obtain ⟨hb, e, he, hu⟩ := hn.moved x hx
    exact ⟨hb, _, List.mem_map_of_mem he, hu⟩
  · rintro ⟨hb, u, hu, rfl⟩
    obtain ⟨e, he, rfl⟩ := List.mem_map.1 hu
    exact hn.all e he hb

section Moved

variable (hs : s.core.Sound r) (ht : ∀ e ∈ es, (s.uses.edge e).target = some old)

include hs ht

theorem getElem?_of_mem_uses {i : Nat} (hu : ⟨c, i⟩ ∈ es.map s.uses.use) :
    (s.uses.targets c)[i]? = some (some old) := by
  obtain ⟨e, he, huse⟩ := List.mem_map.1 hu
  obtain ⟨rfl, rfl⟩ := Use.mk.inj huse
  have hg : s.uses.Sound s.core.IsLive := hs.graph
  exact hg.getElem?_of_target (ht e he)

theorem moved_of_ne {i : Nat} (hv : (s.uses.targets c)[i]? = some (some v)) (hne : v ≠ old) :
    moved (es.map s.uses.use) new c i v = v := by
  refine if_neg fun hu => hne ?_
  have hold := getElem?_of_mem_uses hs ht hu
  exact Option.some.inj (Option.some.inj (hv.symm.trans hold))

theorem Addresses.eq_or_eq (h : s.Addresses c f b)
    (hu : ∃ u ∈ es.map s.uses.use, u.user = c) : f = old ∨ b = old := by
  obtain ⟨⟨_, i⟩, hu, rfl⟩ := hu
  have hold := getElem?_of_mem_uses hs ht hu
  rw [h.targets] at hold
  rcases i with _ | _ | i
  · exact .inl (by simpa using hold)
  · exact .inr (by simpa using hold)
  · simp at hold

theorem Addresses.ne_of_use (h : s.Addresses c f b) (hc : s.isBlockAddress c)
    (hu : ∃ u ∈ es.map s.uses.use, u.user = c) : c ≠ old := by
  obtain ⟨dc, hdc, hac⟩ := Edit.isBlockAddress_iff.1 hc
  obtain ⟨df, result, params, hdf, htf⟩ := h.function
  obtain ⟨db, hdb, htb⟩ := h.block
  rintro rfl
  refine not_isMergeable hs hdc ?_ (.inr hac)
  obtain rfl | rfl := h.eq_or_eq hs ht hu
  · obtain rfl := Option.some.inj (hdc.symm.trans hdf)
    exact .inr ⟨result, params, htf⟩
  · obtain rfl := Option.some.inj (hdc.symm.trans hdb)
    exact .inl htb

theorem Addresses.eq_of_moved (hc : s.Addresses c f b) (he : s.Addresses e g d)
    (huc : ∃ u ∈ es.map s.uses.use, u.user = c) (hue : ∃ u ∈ es.map s.uses.use, u.user = e)
    (hfirst : moved (es.map s.uses.use) new c 0 f = moved (es.map s.uses.use) new e 0 g)
    (hsecond : moved (es.map s.uses.use) new c 1 b = moved (es.map s.uses.use) new e 1 d) :
    f = g ∧ b = d := by
  have hstay {c f b : ValueId} (h : s.Addresses c f b) :
      (f = old → moved (es.map s.uses.use) new c 1 b = b) ∧
        (b = old → moved (es.map s.uses.use) new c 0 f = f) := by
    constructor
    · rintro rfl
      exact moved_of_ne hs ht (by rw [h.targets]; rfl) (Ne.symm h.ne)
    · rintro rfl
      exact moved_of_ne hs ht (by rw [h.targets]; rfl) h.ne
  -- The old value is a function in both of them or a block in both.
  have htypes {c f b e g : ValueId} (hc : s.Addresses c f b) (he : s.Addresses e g f) : False := by
    obtain ⟨df, result, params, hdf, htf⟩ := hc.function
    obtain ⟨db, hdb, htb⟩ := he.block
    obtain rfl := Option.some.inj (hdf.symm.trans hdb)
    rw [htf] at htb
    cases htb
  rcases hc.eq_or_eq hs ht huc with rfl | rfl <;> rcases he.eq_or_eq hs ht hue with rfl | rfl
  · rw [(hstay hc).1 rfl, (hstay he).1 rfl] at hsecond
    exact ⟨rfl, hsecond⟩
  · exact (htypes hc he).elim
  · exact (htypes he hc).elim
  · rw [(hstay hc).2 rfl, (hstay he).2 rfl] at hfirst
    exact ⟨hfirst, rfl⟩

theorem Addresses.moved (hold : s.values.get? old = some dold)
    (hnew : s.values.get? new = some dnew) (hty : dnew.ty = dold.ty)
    (hp : s.EdgesMoved p r old new es []) (h : s.Addresses c f b) : p.Addresses c
      (moved (es.map s.uses.use) new c 0 f) (moved (es.map s.uses.use) new c 1 b) := by
  obtain ⟨f', b', h', -⟩ := hp.addresses ht hold hnew hty h
  have hslot {i : Nat} {x y : ValueId} (hx : (s.uses.targets c)[i]? = some (some x))
      (hy : (p.uses.targets c)[i]? = some (some y)) :
      y = Store.moved (es.map s.uses.use) new c i x := by
    rw [Edit.getElem?_targets_edgesMoved hp hs ht c i, hx] at hy
    rw [Store.moved]
    split at hy
    next hu => rw [if_pos hu, Option.some.inj (Option.some.inj hy)]
    next hu => rw [if_neg hu, Option.some.inj (Option.some.inj hy)]
  have hf := hslot (i := 0) (by rw [h.targets]; rfl) (by rw [h'.targets]; rfl)
  have hb := hslot (i := 1) (by rw [h.targets]; rfl) (by rw [h'.targets]; rfl)
  rwa [← hf, ← hb]

end Moved

/-- Constants have been folded while everything else went its way: those that are not gone are
entered under the content that they had when the uses had moved. -/
structure Refolded (p s' : Store) (gone : ValueId → Prop) (into : ValueId → ValueId) : Prop where
  keyed : s'.Keyed
  kept : ∀ {v}, p.wiring.kind v = some .constant → ¬ gone v →
    s'.wiring.kind v = some .constant ∧ s'.keyOf v = p.keyOf v
  dead : ∀ {v}, gone v → s'.isLive v = false
  placed : ∀ {v}, gone v → ¬ gone (into v) ∧ p.wiring.kind (into v) = some .constant ∧
    p.keyOf (into v) = p.keyOf v
  slots : ∀ {u v} {i : Nat}, gone v → s'.isLive u → (p.uses.targets u)[i]? = some (some v) →
    (s'.uses.targets u)[i]? = some (some (into v))

theorem Collapses.refolded {key : ValueId → Option ConstantKey}
    (hc : p.Collapses q [] gone into) (hq : Rekeying L k old p q key []) (hp : p.core.Sound r)
    (hf : p.Filled) (hsp : q.Spares (fun p => p.kind ≠ .metadata) s') (hty : s'.types = q.types)
    (hkeyed : s'.Keyed) : p.Refolded s' gone into := by
  have hsp' : q.Spares (fun p => ¬ p.IsMergeable) s' := hsp.mono fun _ hp hk => hp (.inl hk)
  have hstay {v : ValueId} (hv : q.wiring.kind v = some .constant) :
      s'.wiring.kind v = some .constant ∧ s'.keyOf v = p.keyOf v ∧
        ∃ d, q.values.get? v = some d ∧ d.payload.kind ≠ .metadata := by
    obtain ⟨d, hd, hk⟩ := Option.map_eq_some_iff.1 hv
    have hkind : d.payload.kind ≠ .metadata := by
      rw [show d.payload.kind = .constant from hk]
      decide
    obtain ⟨d', hd', hsame⟩ := hsp.value hd hkind
    refine ⟨(kind_wiring hd').trans (congrArg _ ?_), ?_, d, hd, hkind⟩
    · rw [← hk, Value.kind, payload_of_unattached hsame]
      rfl
    · rw [hq.filled.keyOf_spares hq.settled.settled hsp' hty hd',
        hf.keyOf_spares hp hq.spares hq.types hd]
  refine ⟨hkeyed, fun hv hg => ?_, fun {v} hg => ?_, fun hg => ?_, fun {u v i} hg hu hi => ?_⟩
  · obtain ⟨hkind, hkey, -⟩ := hstay (hc.kept hv hg)
    exact ⟨hkind, hkey⟩
  · have hv : q.values.get? v = none := Option.map_eq_none_iff.1 (hc.dead hg)
    rw [isLive, hsp.gone hv, Option.isSome_none]
  · have hlands := hc.absorbs.lands (hc.constant hg)
    refine ⟨fun hg' => ?_, (hc.absorbs.survives hlands).1, hc.equal hg⟩
    cases hlands.symm.trans (hc.dead hg')
  · obtain ⟨d', hd'⟩ := Option.isSome_iff_exists.1 hu
    obtain ⟨du, hdu, -⟩ := hsp.sort hd'
    obtain ⟨-, -, d, hd, hkind⟩ := hstay (hc.absorbs.lands (hc.constant hg))
    refine (hsp.operands i hd' hd hkind).2 ?_
    have htargets : q.uses.targets u = (p.uses.targets u).map (Option.map into) :=
      hc.absorbs.targets (kind_wiring hdu)
    rw [htargets, List.getElem?_map, hi]
    rfl

theorem operands_of_keyOf (hk : s.Keyed) (h : s.keyOf c = some (.blockAddress f b)) :
    s.isBlockAddress c ∧ Query.operands c s = .ok [some f, some b] := by
  obtain ⟨d, hd, ha⟩ := of_keyOf_blockAddress h
  obtain ⟨f', b', hc⟩ := hk.filled c d hd ha
  obtain ⟨rfl, rfl⟩ := ConstantKey.blockAddress.inj (Option.some.inj ((hc.keyOf hd ha).symm.trans h))
  exact ⟨Edit.isBlockAddress_iff.2 ⟨d, hd, ha⟩, Query.operands_ok.2 ⟨⟨d, hd⟩, hc.targets⟩⟩

theorem keyOf_of_operands (hc : s.isBlockAddress c)
    (h : Query.operands c s = .ok [some f, some b]) : s.keyOf c = some (.blockAddress f b) := by
  obtain ⟨d, hd, ha⟩ := Edit.isBlockAddress_iff.1 hc
  rw [keyOf_of_get? hd, Value.constant?_eq_address.2 ⟨rfl, ha⟩, (Query.operands_ok.1 h).2]
  rfl

theorem targets_of_keyOf (hk : s.Keyed) (hk' : s'.Keyed) (hv : s.wiring.kind v = some .constant)
    (hv' : s'.wiring.kind v = some .constant) (h : s'.keyOf v = s.keyOf v) :
    Query.operands v s' = Query.operands v s := by
  obtain ⟨d, hd, hkd⟩ := Option.map_eq_some_iff.1 hv
  obtain ⟨d', hd', hkd'⟩ := Option.map_eq_some_iff.1 hv'
  by_cases ha : d.IsAddress
  · obtain ⟨f, b, hc⟩ := hk.filled v d hd ha
    have hkey := hc.keyOf hd ha
    rw [(operands_of_keyOf hk hkey).2, (operands_of_keyOf hk' (h.trans hkey)).2]
  · have ha' : ¬ d'.IsAddress := fun ha' => by
      obtain ⟨f, b, hc⟩ := hk'.filled v d' hd' ha'
      obtain ⟨x, hx, hax⟩ := of_keyOf_blockAddress (h ▸ hc.keyOf hd' ha')
      exact ha (Option.some.inj (hd.symm.trans hx) ▸ hax)
    rw [Query.operands_ok.2 ⟨⟨d, hd⟩, hk.slotless v d hd hkd ha⟩,
      Query.operands_ok.2 ⟨⟨d', hd'⟩, hk'.slotless v d' hd' hkd' ha'⟩]

/-- What has the new content of a block address before does not refer to the old value, so it is not
interned anew. -/
theorem Rekeying.not_mem_noted {key : ConstantKey} (h : Rekeying L k old p p s.keyOf noted)
    (hc : c ∈ noted.map Prod.fst) (hckey : p.keyOf c = some key) (hekey : s.keyOf e = some key) :
    e ∉ noted.map Prod.fst := by
  intro he
  obtain ⟨x, hx, rfl⟩ := List.mem_map.1 he
  obtain ⟨y, hy, rfl⟩ := List.mem_map.1 hc
  obtain ⟨hxkey, hmentions, -⟩ := h.pending x hx
  obtain ⟨-, -, -, hfresh⟩ := h.pending y hy
  rw [hekey] at hxkey
  exact hfresh _ hckey (Option.some.inj hxkey ▸ hmentions)

theorem eq_of_noted {key : ConstantKey} (hs : s.core.Sound r) (hk : s.Keyed)
    (ht : ∀ e ∈ es, (s.uses.edge e).target = some old)
    (hold : s.values.get? old = some dold) (hnew : s.values.get? new = some dnew)
    (hty : dnew.ty = dold.ty) (hp : s.EdgesMoved p r old new es []) (hn : s.Noted (· ∈ es) noted)
    (hc : c ∈ noted.map Prod.fst) (he : e ∈ noted.map Prod.fst) (hckey : p.keyOf c = some key)
    (hekey : p.keyOf e = some key) : c = e := by
  have hmoved {v : ValueId} (hv : v ∈ noted.map Prod.fst) (hkey : p.keyOf v = some key) :
      ∃ f b, s.Addresses v f b ∧ s.keyOf v = some (.blockAddress f b) ∧
        (∃ u ∈ es.map s.uses.use, u.user = v) ∧ key = .blockAddress
          (moved (es.map s.uses.use) new v 0 f) (moved (es.map s.uses.use) new v 1 b) := by
    obtain ⟨hb, hu⟩ := (mem_noted_iff hn).1 hv
    obtain ⟨d, hd, ha⟩ := Edit.isBlockAddress_iff.1 hb
    obtain ⟨f, b, hfb⟩ := hk.filled v d hd ha
    have hkey' := (hfb.moved hs ht hold hnew hty hp).keyOf (hp.values ▸ hd) ha
    exact ⟨f, b, hfb, hfb.keyOf hd ha, hu, Option.some.inj (hkey.symm.trans hkey')⟩
  obtain ⟨f, b, hfb, hcs, huc, rfl⟩ := hmoved hc hckey
  obtain ⟨g, d, hgd, hes, hue, heq⟩ := hmoved he hekey
  obtain ⟨hfirst, hsecond⟩ := ConstantKey.blockAddress.inj heq
  obtain ⟨rfl, rfl⟩ := hfb.eq_of_moved hs ht hgd huc hue hfirst hsecond
  exact hk.entered.inj hcs hes

theorem Refolded.readdresses (h : p.Refolded s' gone into) (hs : s.Settled) (hk : s.Keyed)
    (ht : ∀ e ∈ es, (s.uses.edge e).target = some old)
    (hold : s.values.get? old = some dold) (hnew : s.values.get? new = some dnew)
    (hty : dnew.ty = dold.ty) (hp : s.EdgesMoved p s.core.held old new es [])
    (hn : s.Noted (· ∈ es) noted) (hstart : Rekeying L k old p p s.keyOf noted)
    (hgone : ∀ v, gone v → v ∈ noted.map Prod.fst) :
    s.Readdresses s' new (es.map s.uses.use) := by
  have hkind (v : ValueId) : p.wiring.kind v = s.wiring.kind v := by
    rw [wiring, hp.values, wiring]
  have hwaiting {v : ValueId} (hv : v ∉ noted.map Prod.fst) : p.keyOf v = s.keyOf v :=
    (hstart.current hv).symm
  refine ⟨fun c hc huc => ?_, fun v hv hother => ?_⟩
  · obtain ⟨dc, hdc, hac⟩ := Edit.isBlockAddress_iff.1 hc
    obtain ⟨f, b, hfb⟩ := hk.filled c dc hdc hac
    have hckey := (hfb.moved hs ht hold hnew hty hp).keyOf (hp.values ▸ hdc) hac
    have hckind : p.wiring.kind c = some .constant :=
      (hkind c).trans ((kind_wiring hdc).trans (congrArg _ hac.kind))
    have hcnoted : c ∈ noted.map Prod.fst := (mem_noted_iff hn).2 ⟨hc, huc⟩
    have hcold : c ≠ old := hfb.ne_of_use hs ht hc huc
    refine ⟨f, b, Query.operands_ok.2 ⟨⟨dc, hdc⟩, hfb.targets⟩, fun e hec hbe he => ?_,
      fun hnone => ?_⟩
    · have hekey := keyOf_of_operands hbe he
      have henoted : e ∉ noted.map Prod.fst := hstart.not_mem_noted hcnoted hckey hekey
      obtain ⟨de, hde, hae⟩ := Edit.isBlockAddress_iff.1 hbe
      have hekind : p.wiring.kind e = some .constant :=
        (hkind e).trans ((kind_wiring hde).trans (congrArg _ hae.kind))
      obtain ⟨-, hekey'⟩ := h.kept hekind fun hg => henoted (hgone e hg)
      rw [hwaiting henoted, hekey] at hekey'
      -- The two cannot both be entered under the same content.
      have hg : gone c := by
        by_contra hg
        obtain ⟨-, hckey'⟩ := h.kept hckind hg
        exact hec (h.keyed.entered.inj hekey' (hckey'.trans hckey))
      obtain ⟨hstay, hikind, hikey⟩ := h.placed hg
      have hinto : into c = e :=
        h.keyed.entered.inj ((h.kept hikind hstay).2.trans (hikey.trans hckey)) hekey'
      refine ⟨h.dead hg, fun user slot hslot huser => ?_⟩
      obtain ⟨-, hslot⟩ := Query.operand_ok.1 hslot
      have hslot' : (p.uses.targets user)[slot]? = some (some c) := by
        rw [Edit.getElem?_targets_edgesMoved hp hs ht, if_neg, hslot]
        intro hu
        have hsold := getElem?_of_mem_uses hs ht hu
        exact hcold (Option.some.inj (Option.some.inj (hslot.symm.trans hsold)))
      exact Query.operand_ok.2 ⟨Option.isSome_iff_exists.1 huser, hinto ▸ h.slots hg huser hslot'⟩
    · have hg : ¬ gone c := fun hg => by
        obtain ⟨hstay, -, hikey⟩ := h.placed hg
        have hne : into c ≠ c := fun heq => hstay (heq.symm ▸ hg)
        by_cases hnoted : into c ∈ noted.map Prod.fst
        · exact hne (eq_of_noted hs hk ht hold hnew hty hp hn hnoted hcnoted
            (hikey.trans hckey) hckey)
        · have hikey' := (hwaiting hnoted).symm.trans (hikey.trans hckey)
          obtain ⟨hbi, hoperands⟩ := operands_of_keyOf hk hikey'
          exact hnone _ hne hbi hoperands
      obtain ⟨-, hckey'⟩ := h.kept hckind hg
      obtain ⟨hb, hoperands⟩ := operands_of_keyOf h.keyed (hckey'.trans hckey)
      exact ⟨hb, hoperands, (h.keyed.entered _ _).2 (hckey'.trans hckey)⟩
  · obtain ⟨d, hd, hkd⟩ := Query.kind_ok.1 hv
    have hkind' : s.wiring.kind v = some .constant := (kind_wiring hd).trans (congrArg _ hkd)
    have hnoted : v ∉ noted.map Prod.fst := fun hm => hother ((mem_noted_iff hn).1 hm)
    obtain ⟨hkept, hkey⟩ := h.kept ((hkind v).trans hkind') fun hg => hnoted (hgone v hg)
    refine ⟨?_, targets_of_keyOf hk h.keyed hkind' hkept (hkey.trans (hwaiting hnoted))⟩
    obtain ⟨d', hd', hkd'⟩ := Option.map_eq_some_iff.1 hkept
    exact Query.kind_ok.2 ⟨d', hd', hkd'⟩

end Store

open Store

namespace Edit

variable {s p q s' : Store} {r : Location → Option NodeId} {v c e old new f b g d : ValueId}
variable {L : Layout} {k : Nat} {es : List EdgeId} {rest noted : List (ValueId × ConstantKey)}
variable {gone : ValueId → Prop} {into : ValueId → ValueId} {dold dnew : Value}

theorem ends_internBlockAddress_collapses {key : ValueId → Option ConstantKey}
    {before : ConstantKey} (h : Rekeying L k old p s key ((c, before) :: rest))
    (hp : p.core.Sound r) (hf : p.Filled) (hc : p.Collapses s ((c, before) :: rest) gone into) :
    Ends (internBlockAddress (replaceWithin (k + 1)) c before) s
      (fun _ s' => ∃ gone' into', p.Collapses s' rest gone' into' ∧
        ∀ v, gone' v → gone v ∨ v = c) fun _ _ => True := by
  obtain ⟨hbefore, -, hblock, -⟩ := h.pending _ (List.mem_cons_self ..)
  obtain ⟨dc, hdc, hac⟩ := isBlockAddress_iff.1 hblock
  obtain ⟨f, b, hfb⟩ := h.filled c dc hdc hac
  have hkey := hfb.keyOf hdc hac
  let s₁ : Store := { s with constants := s.constants.erase before }
  have hs₁ : s₁.SettledIn L k := settledIn_withConstants h.settled _
  have hf₁ : s₁.Filled := h.filled.spares h.settled.settled (spares_of_eq rfl rfl id) rfl
  have hkeys {v : ValueId} (hv : ∃ d, s.values.get? v = some d) : s.keyOf v = p.keyOf v := by
    obtain ⟨d, hd⟩ := hv
    exact hf.keyOf_spares hp h.spares h.types hd
  unfold internBlockAddress forgetConstant
  rw [ends_bind, ends_modify, if_pos ((h.entered before c).2 hbefore), ends_bind,
    ends_lift_ok (hf₁.constantKey hdc), show s₁.keyOf c = some (.blockAddress f b) from hkey]
  dsimp only
  rw [ends_bind, ends_get]
  split
  next => exact ⟨gone, into, hc.skip rfl, fun _ => .inl⟩
  next e he =>
    obtain ⟨hec, hrest, hke⟩ := h.entry hkey he
    obtain ⟨de, hde, hae⟩ := of_keyOf_blockAddress hke
    have hkc : s.wiring.kind c = some .constant := (kind_wiring hdc).trans (congrArg _ hac.kind)
    have hkd : s.wiring.kind e = some .constant := (kind_wiring hde).trans (congrArg _ hae.kind)
    rw [if_pos hec]
    refine (ends_supplant hs₁.settled hs₁.wrappers hdc hac hkd (Ne.symm hec)).mono ?_
      fun _ _ _ => trivial
    rintro _ s' ⟨into', hfold, hsame, hdead⟩
    refine ⟨_, _, hc.fold h.settled.settled hfold hsame hdead hkc hkd hec hrest ?_, fun _ h => h⟩
    rw [← hkeys ⟨de, hde⟩, ← hkeys ⟨dc, hdc⟩, hke, hkey]

theorem ends_moveEdges_collapses (h : s.SettledIn L k) (hk : s.Keyed) (hes : es.Nodup)
    (ht : ∀ e ∈ es, (s.uses.edge e).target = some old) (hne : old ≠ new)
    (hty : Query.expectSameType old new s = .ok ()) :
    Ends (moveEdges (replaceWithin (k + 1)) new es) s (fun _ q => ∃ p noted gone into key,
      s.EdgesMoved p s.core.held old new es [] ∧ s.Noted (· ∈ es) noted ∧
      Rekeying L k old p q key [] ∧ p.Collapses q [] gone into ∧
      ∀ v, gone v → v ∈ noted.map Prod.fst) fun _ _ => False := by
  obtain ⟨dold, dnew, hold, hnew, hty⟩ := Query.expectSameType_ok.1 hty
  rw [moveEdges_eq]
  refine Ends.bind (ends_gather_noted h.settled hk.filled hes ht hne hold hnew hty) ?_
  rintro noted p ⟨hp, hn⟩
  have hfilled := hp.filled ht hold hnew hty hk.filled
  let I (rest : List (ValueId × ConstantKey)) (q : Store) : Prop :=
    rest ⊆ noted ∧ ∃ key, Rekeying L k old p q key rest ∧ ∃ gone into,
      p.Collapses q rest gone into ∧ ∀ v, gone v → v ∈ noted.map Prod.fst
  have hstart : I noted p := ⟨List.Subset.refl _, _, rekeying_noted h hk ht hne hold hnew hty hp hn,
    _, _, collapses_refl p noted, fun _ => False.elim⟩
  refine (ends_forM I ?_ noted p hstart).mono ?_ fun _ _ hx => hx
  · rintro ⟨c, before⟩ rest q ⟨hsub, key, hq, gone, into, hc, hgone⟩
    obtain ⟨hmem, hsub⟩ := List.cons_subset.1 hsub
    refine ((ends_rekey hq).and (ends_internBlockAddress_collapses hq hp.sound hfilled hc)).mono ?_
      fun _ _ hx => hx.1
    rintro _ q' ⟨⟨key', hq'⟩, gone', into', hc', hgone'⟩
    refine ⟨hsub, key', hq', gone', into', hc', fun v hv => ?_⟩
    obtain hv | rfl := hgone' v hv
    · exact hgone v hv
    · exact List.mem_map_of_mem hmem
  · rintro _ q ⟨-, key, hq, gone, into, hc, hgone⟩
    exact ⟨p, noted, gone, into, key, hp, hn, hq, hc, hgone⟩

section Replacing

variable (hs : s.SettledWith L) (hk : s.Keyed) (hne : old ≠ new)
variable (hty : Query.expectSameType old new s = .ok ())

include hs hk hne hty

theorem ends_replaceUsesIf_readdresses {σ : Type} (ask : σ → Use → Bool × σ) (st : σ) :
    Ends (replaceUsesIf old new ask st) s (fun _ s' =>
      s.Readdresses s' new (sift ask st (s.uses.useMap old)).1) fun _ _ => False := by
  have hg : s.uses.Sound s.core.IsLive := hs.1.graph
  obtain ⟨dold, dnew, hold, hnew, htypes⟩ := Query.expectSameType_ok.1 hty
  refine (ends_replaceUsesIf_sifted (Q := fun _ s' => s.Readdresses s' new
    (sift ask st (s.uses.useMap old)).1) ask st hne hty fun es hsub hmap => ?_).weaken
      fun _ _ h => h.2
  have ht : ∀ e ∈ es, (s.uses.edge e).target = some old :=
    fun e he => (hg.lists.mem old e).1 (hsub.subset he)
  have h : s.SettledIn L (s.values.size + 1) := hs.bounded (Nat.le_succ _)
  apply (ends_moveEdges_collapses h hk ((hg.lists.nodup old).sublist hsub) ht hne hty).weaken
  rintro _ s' ⟨p, noted, gone, into, key, hp, hn, hq, hc, hgone⟩
  have hkeyed : s'.Keyed := hq.keyed (hp.slotless hk.slotless)
  have hfilled : p.Filled := hp.filled ht hold hnew htypes hk.filled
  have hrefolded : p.Refolded s' gone into :=
    hc.refolded hq hp.sound hfilled (.refl s') rfl hkeyed
  rw [← hmap]
  exact hrefolded.readdresses hs.1 hk ht hold hnew htypes hp hn
    (rekeying_noted h hk ht hne hold hnew htypes hp hn) hgone

theorem ends_replaceAllUses_readdresses :
    Ends (replaceAllUses old new) s (fun _ s' => s.Readdresses s' new (s.uses.useMap old))
      fun _ _ => False := by
  have hg : s.uses.Sound s.core.IsLive := hs.1.graph
  obtain ⟨dold, dnew, hold, hnew, htypes⟩ := Query.expectSameType_ok.1 hty
  have ht : ∀ e ∈ s.uses.useList old, (s.uses.edge e).target = some old :=
    fun e he => (hg.lists.mem old e).1 he
  have h : s.SettledIn L s.values.size := hs.bounded (Nat.le_refl _)
  have hmoves := (ends_moveEdges_collapses h hk (hg.lists.nodup old) ht hne hty).and
    (ends_moveEdges_keyed h hk (hg.lists.nodup old) ht hne hty)
  apply ends_replaceAllUses_of hne (fun _ => hmoves.mono (fun _ _ h => h) fun _ _ hx => hx.1) _
    fun _ hx => hx hty
  rintro q - ⟨⟨p, noted, gone, into, key, hp, hn, hq, hc, hgone⟩, hmoved⟩
  have hfilled : p.Filled := hp.filled ht hold hnew htypes hk.filled
  apply (ends_moveValueNode (mergesWrappers_replaceWithin _) hq.settled.settled
    (Nat.le_succ_of_le hq.settled.wrappers) hne (hmoved.live hs.1 hold hnew htypes)).weaken
  rintro _ s' ⟨⟨r', hs'⟩, -⟩
  have hkeyed : s'.Keyed := (hq.keyed (hp.slotless hk.slotless)).spares hq.settled.settled
    hs'.merged.spares hs'.merged.types hs'.merged.constants
  have hrefolded : p.Refolded s' gone into :=
    hc.refolded hq hp.sound hfilled hs'.merged.spares hs'.merged.types hkeyed
  exact hrefolded.readdresses hs.1 hk ht hold hnew htypes hp hn
    (rekeying_noted h hk ht hne hold hnew htypes hp hn) hgone

end Replacing

end Edit

namespace Command

open Edit

/-- Replacing uses of a value in a store that commands leave interns the block addresses anew that
come to refer to another value. -/
theorem readdresses_afterAll (hash : String → UInt64) (config : Config) (cs : List Command)
    {old new : ValueId} {us : List Use} (hne : old ≠ new)
    (hty : Query.expectSameType old new (afterAll { hash, config } cs) = .ok ())
    (hus : Query.uses old (afterAll { hash, config } cs) = .ok us) :
    let s := afterAll { hash, config } cs
    (∃ s', Edit.replaceAllUses old new s = .ok () s' ∧ s.Readdresses s' new us) ∧
    ∀ {σ : Type} (ask : σ → Use → Bool × σ) (st : σ), ∃ n s',
      Edit.replaceUsesIf old new ask st s = .ok n s' ∧
        s.Readdresses s' new (sift ask st us).1 := by
  intro s
  have hc : Coherent (fun _ => False) s := coherent_afterAll hash config cs
  obtain ⟨-, rfl⟩ := Query.uses_ok.1 hus
  constructor
  · obtain ⟨_, s', hrun, hs'⟩ :=
      (ends_replaceAllUses_readdresses ⟨hc.settled, rfl⟩ hc.keyed hne hty).exists_ok
    exact ⟨s', hrun, hs'⟩
  · intro σ ask st
    exact (ends_replaceUsesIf_readdresses ⟨hc.settled, rfl⟩ hc.keyed hne hty ask st).exists_ok

/-- Two functions share a block. Its address in one of them comes to equal another when a second
block takes its place. -/
def sharedBlock : List Command :=
  [.createModule "m", .internType (.int 32), .internType (.function ⟨0⟩ []),
    .createFunction ⟨0⟩ "f" ⟨1⟩, .createFunction ⟨0⟩ "g" ⟨1⟩, .createBlock ⟨0⟩ "a",
    .createBlock ⟨0⟩ "b", .blockAddress ⟨0⟩ ⟨2⟩, .blockAddress ⟨0⟩ ⟨3⟩, .blockAddress ⟨1⟩ ⟨2⟩,
    .buildInstruction "use" ⟨0⟩ [some ⟨4⟩, some ⟨6⟩] none .floating]

theorem readdresses_sharedBlock :
    (⟨2⟩ : ValueId) ≠ ⟨3⟩ ∧
      Query.expectSameType ⟨2⟩ ⟨3⟩ (afterAll { config := {} } sharedBlock) = .ok () ∧
      Query.uses ⟨2⟩ (afterAll { config := {} } sharedBlock) = .ok [⟨⟨6⟩, 1⟩, ⟨⟨4⟩, 1⟩] ∧
      ∃ s', Edit.replaceAllUses ⟨2⟩ ⟨3⟩ (afterAll { config := {} } sharedBlock) = .ok () s' ∧
        (afterAll { config := {} } sharedBlock).Readdresses s' ⟨3⟩ [⟨⟨6⟩, 1⟩, ⟨⟨4⟩, 1⟩] := by
  have hty : Query.expectSameType ⟨2⟩ ⟨3⟩ (afterAll { config := {} } sharedBlock) = .ok () := by
    decide +kernel
  have hus : Query.uses ⟨2⟩ (afterAll { config := {} } sharedBlock) =
      .ok [⟨⟨6⟩, 1⟩, ⟨⟨4⟩, 1⟩] := by
    decide +kernel
  exact ⟨by decide, hty, hus, (readdresses_afterAll nameHash {} sharedBlock (by decide) hty hus).1⟩

end Command

end ShaderIR
