import ShaderIR.Proofs.ReferenceEdits
import ShaderIR.Proofs.RenamedValues

/-! Names and symbol tables. A value that is attached gets a name that is free in its scope, and
what detaches it takes the name out of the table again. -/

namespace ShaderIR

/-- The same table but for the entries of some values. -/
structure SymbolTable.Delisted (t t' : SymbolTable) (vs : List ValueId) : Prop where
  separator : t'.separator = t.separator
  lastUnique : t'.lastUnique = t.lastUnique
  find? : ∀ k v, t'.find? k = some v ↔ t.find? k = some v ∧ v ∉ vs

theorem SymbolTable.Delisted.congr {t t' : SymbolTable} {vs ws : List ValueId}
    (h : t.Delisted t' vs) (hvs : ∀ v, v ∈ ws ↔ v ∈ vs) : t.Delisted t' ws :=
  ⟨h.separator, h.lastUnique, fun k v => by rw [h.find?, hvs]⟩

namespace Layout

variable {L L' L'' : Layout} {v : ValueId} {vs ws xs : List ValueId} {total : Prop}

inductive Strikes (L : Layout) (v : ValueId) : Layout → Prop
  | nothing : (∀ {sc t h}, L.symbol v = some h → L.scope v = some sc → L.tables sc = some t →
      t.find? h ≠ some v) → Strikes L v L
  | entry {sc : Scope} {t : SymbolTable} {h : UInt64} : L.symbol v = some h →
      L.scope v = some sc → L.tables sc = some t → t.find? h = some v →
      Strikes L v { L with tables := Function.update L.tables sc (some (t.erase h)) }

/-- Of the tables only those of the scopes of some values have changed, and of these only the
entries of the values are gone. -/
structure Delisted (L L' : Layout) (vs : List ValueId) : Prop where
  elsewhere : ∀ sc, (∀ v ∈ vs, L.scope v ≠ some sc) → L'.tables sc = L.tables sc
  tables : ∀ {sc t}, L.tables sc = some t → ∃ t', L'.tables sc = some t' ∧ t.Delisted t' vs

theorem Delisted.refl (L : Layout) : L.Delisted L [] where
  elsewhere _ _ := rfl
  tables {_ t} ht := ⟨t, ht, rfl, rfl, fun _ _ => by simp⟩

theorem Delisted.trans (h : L.Delisted L' vs) (h' : L'.Delisted L'' ws) (hs : L'.scope = L.scope) :
    L.Delisted L'' (vs ++ ws) where
  elsewhere sc hsc := by
    have hnot (v : ValueId) (hv : v ∈ ws) : L'.scope v ≠ some sc := by
      rw [hs]
      exact hsc v (List.mem_append_right vs hv)
    rw [h'.elsewhere sc hnot, h.elsewhere sc fun v hv => hsc v (List.mem_append_left ws hv)]
  tables ht := by
    obtain ⟨t', ht', hfirst⟩ := h.tables ht
    obtain ⟨t'', ht'', hsecond⟩ := h'.tables ht'
    refine ⟨t'', ht'', hsecond.separator.trans hfirst.separator,
      hsecond.lastUnique.trans hfirst.lastUnique, fun k v => ?_⟩
    rw [hsecond.find?, hfirst.find?, List.mem_append, not_or, and_assoc]

namespace Strikes

variable (h : L.Strikes v L')

include h

theorem renamed : L.Renamed L' := by
  cases h <;> exact ⟨rfl, rfl, rfl, rfl, rfl⟩

theorem eq_withTables : ∃ tables, L' = { L with tables := tables } := by
  cases h <;> exact ⟨_, rfl⟩

theorem elsewhere {sc : Scope} (hsc : L.scope v ≠ some sc) : L'.tables sc = L.tables sc := by
  cases h with
  | nothing => rfl
  | entry _ hscope =>
    refine Function.update_of_ne ?_ ..
    rintro rfl
    exact hsc hscope

theorem named (hL : L.Named total xs) : L'.Named total (v :: xs) := by
  cases h with
  | nothing hv => exact hL.pend hv
  | entry hn hsc ht hf => exact hL.erase hn hsc ht hf

theorem delisted (hL : L.Named total xs) : L.Delisted L' [v] := by
  refine ⟨fun sc hsc => h.elsewhere (hsc v (List.mem_singleton_self v)), fun {sc t} ht => ?_⟩
  cases h with
  | nothing hv =>
    refine ⟨t, ht, rfl, rfl, fun k w => ?_⟩
    rw [List.mem_singleton, iff_self_and]
    rintro hf rfl
    obtain ⟨-, hn, hsc⟩ := hL.owned ht hf
    exact hv hn hsc ht hf
  | @entry sc' t' k' hn hsc ht' hf' =>
    by_cases hs : sc = sc'
    · subst hs
      obtain rfl := Option.some.inj (ht.symm.trans ht')
      refine ⟨t.erase k', Function.update_self .., rfl, rfl, fun k w => ?_⟩
      rw [SymbolTable.find?_erase, List.mem_singleton]
      split
      next hk =>
        refine iff_of_false (by simp) fun ⟨hf, hne⟩ => hne ?_
        exact Option.some.inj (hf.symm.trans (hk ▸ hf'))
      next hk =>
        rw [iff_self_and]
        rintro hf rfl
        exact hk (Option.some.inj (hn.symm.trans (hL.owned ht hf).2.1))
    · refine ⟨t, (Function.update_of_ne hs ..).trans ht, rfl, rfl, fun k w => ?_⟩
      rw [List.mem_singleton, iff_self_and]
      rintro hf rfl
      exact hs (Option.some.inj ((hL.owned ht hf).2.2.symm.trans hsc))

end Strikes

end Layout

namespace Store

variable {s s' : Store} {v : ValueId} {k : ValueKind} {xs : List ValueId} {total : Prop}

theorem hash_modifyValue (s : Store) (v : ValueId) (g : Value → Value) :
    (s.modifyValue v g).hash = s.hash := rfl

theorem layout_rename {d : Value} (hd : s.values.get? v = some d) (hk : d.kind.isResident = true)
    {g : Value → Value} (hg : (g d).payload = d.payload) : (s.modifyValue v g).layout =
      { s.layout with symbol := Function.update s.layout.symbol v (g d).symbol } := by
  rw [layout_modifyValue hd (congrArg Payload.kind hg) hk, hg, ← layout_place hd, ← layout_blocks hd,
    ← layout_position hd, ← layout_arguments hd]
  simp only [Function.update_eq_self]
  rw [(Function.update_eq_self_iff ..).2 (layout_instructions hd).symm]

/-- The name of a value is entered in the table of its scope, where it may be changed. -/
inductive Enters (s : Store) (v : ValueId) : Store → Prop
  | nothing {d : Value} : s.values.get? v = some d → d.name = none ∨ s.layout.scope v = none →
      Enters s v s
  | entry {d : Value} {sc : Scope} {t t' : SymbolTable} {text text' : String} :
      s.values.get? v = some d → d.name = some text → s.layout.scope v = some sc →
      s.layout.tables sc = some t → t.claim s.hash text v = (some text', t') →
      Enters s v ((s.setTable sc t').modifyValue v fun d =>
        { d with name := some text', nameHash := s.hash text' })

inductive Unnames (s : Store) (v : ValueId) : Store → Prop
  | mk {d : Value} {sc : Scope} {t t' : SymbolTable} {text : String} :
      s.values.get? v = some d → d.name = some text → s.layout.scope v = some sc →
      s.layout.tables sc = some t → t.claim s.hash text v = (none, t') →
      Unnames s v ((s.setTable sc t').modifyValue v fun d => { d with name := none })

theorem Enters.renamed (h : s.Enters v s') : s.layout.Renamed s'.layout := by
  cases h with
  | nothing => exact .refl _
  | @entry d sc t t' text text' hd hname hscope ht hclaim =>
    have hd' : (s.setTable sc t').values.get? v = some d := hd
    rw [layout_rename hd' (isResident_of_scope hscope hd) rfl, layout_setTable ht]
    exact ⟨rfl, rfl, rfl, rfl, rfl⟩

theorem Enters.named (h : s.Enters v s') (hn : s.layout.Named total (v :: xs)) (hv : v ∉ xs) :
    s'.layout.Named total xs := by
  cases h with
  | nothing hd hnone =>
    refine hn.settle (hnone.imp_left fun hname => ?_)
    cases hsymbol : s.layout.symbol v with
    | none => rfl
    | some h =>
      have hh := layout_symbol_eq_some hsymbol hd
      rw [Value.symbol, hname] at hh
      cases hh
  | @entry d sc t t' text text' hd hname hscope ht hclaim =>
    obtain ⟨hfree, hfind⟩ := SymbolTable.find?_of_claim hclaim
    have hd' : (s.setTable sc t').values.get? v = some d := hd
    rw [layout_rename hd' (isResident_of_scope hscope hd) rfl, layout_setTable ht]
    have hnamed := hn.rename (List.mem_cons_self ..) (some (s.hash text'))
    have hself : Function.update s.layout.symbol v (some (s.hash text')) v =
        some (s.hash text') := Function.update_self ..
    exact hnamed.enter hv hself hscope ht hfree hfind

theorem Unnames.named (h : s.Unnames v s') (hn : s.layout.Named total (v :: xs)) :
    s.layout.Renamed s'.layout ∧ s'.layout.Named total xs := by
  cases h with
  | @mk d sc t t' text hd hname hscope ht hclaim =>
    have hd' : (s.setTable sc t').values.get? v = some d := hd
    rw [layout_rename hd' (isResident_of_scope hscope hd) rfl, layout_setTable ht]
    have hnamed := hn.rename (List.mem_cons_self ..) none
    exact ⟨⟨rfl, rfl, rfl, rfl, rfl⟩,
      (hnamed.retable ht (SymbolTable.find?_of_claim_none hclaim)).settle
        (.inl (Function.update_self ..))⟩

end Store

namespace Edit

open Store Layout

variable {s : Store} {v : ValueId} {k : ValueKind} {xs : List ValueId} {text : String}
variable {α β : Type} {e : Edit α} {f : α → Edit β} {total : Prop}

/-- An edit that keeps a consistent layout consistent. Where the agreement of names and tables is
total, it may use up the counters of a scope. -/
def Arranges (total : Prop) (e : Edit α) : Prop :=
  Carries (fun x _ => total → x ≠ .counterExhausted) (fun s => s.layout.Consistent total) e

section Arranges

theorem Arranges.of_keeps (h : Keeps (fun s => s.layout.Consistent total) e) : Arranges total e :=
  h.carries

theorem Arranges.of_fixes (h : Fixes Store.layout e) : Arranges total e :=
  .of_keeps (h.keeps (Layout.Consistent · total))

theorem Arranges.pure (a : α) : Arranges total (Pure.pure a : Edit α) := Carries.pure a

theorem Arranges.lift (q : Query α) : Arranges total (liftM q : Edit α) := Carries.lift q

theorem Arranges.bind (he : Arranges total e) (hf : ∀ a, Arranges total (f a)) :
    Arranges total (e >>= f) :=
  Carries.bind he hf

theorem Arranges.map (he : Arranges total e) (g : α → β) : Arranges total (g <$> e) :=
  Carries.map he g

theorem Arranges.guard {p : Prop} [Decidable p] {d : Edit Unit} {k : Unit → Edit β}
    (hd : Arranges total d) (hk : Arranges total (k ())) :
    Arranges total (if p then d >>= k else k ()) :=
  Carries.guard hd hk

end Arranges

theorem renamed_symbol (L : Layout) (symbol : ValueId → Option UInt64) :
    L.Renamed { L with symbol := symbol } := ⟨rfl, rfl, rfl, rfl, rfl⟩

section Register

theorem ends_unregisterName (s : Store) (v : ValueId) : Ends (unregisterName v) s
    (fun _ s' => s.layout.Strikes v s'.layout)
    fun _ s' => s' = s ∧ (s.layout.Placed → s.layout.kind v = none) := by
  unfold unregisterName
  refine ends_bind.2 (ends_lift.2 ⟨fun d hd => ?_, fun x hx => ⟨rfl, fun _ => ?_⟩⟩)
  · rw [Query.value_ok] at hd
    split
    next hname =>
      refine .nothing fun hn => ?_
      have hsymbol := layout_symbol_eq_some hn hd
      rw [Value.symbol, Option.isNone_iff_eq_none.1 hname] at hsymbol
      cases hsymbol
    next hname =>
      refine ends_bind.2 (ends_lift.2 ⟨fun o ho => ?_, fun x hx => ⟨rfl, fun hp => ?_⟩⟩)
      · have hscope := Query.scope_of_scopeOf_ok ho
        cases o with
        | none =>
          refine .nothing fun _ hsc => ?_
          rw [hscope] at hsc
          cases hsc
        | some sc =>
          dsimp only
          refine ends_bind.2 (ends_lift.2 ⟨fun t ht => ?_, fun x hx => ⟨rfl, fun hp => ?_⟩⟩)
          · rw [Query.symbols_ok] at ht
            split
            next hf =>
              rw [ends_modify, layout_setTable ht]
              refine .entry ?_ hscope ht hf
              rw [Bool.not_eq_true, Option.isNone_eq_false_iff, Option.isSome_iff_exists] at hname
              obtain ⟨x, hx⟩ := hname
              rw [layout_symbol hd (isResident_of_scope hscope hd), Value.symbol, hx,
                Option.map_some]
            next hf =>
              refine .nothing fun hn hsc ht' => ?_
              obtain rfl := Option.some.inj (hscope.symm.trans hsc)
              obtain rfl := Option.some.inj (ht.symm.trans ht')
              obtain ⟨_, -, rfl⟩ := Option.map_eq_some_iff.1 (layout_symbol_eq_some hn hd)
              exact hf
          · obtain ⟨t, ht⟩ := table_of_scope hp hscope
            rw [Query.symbols_ok.2 ht] at hx
            cases hx
      · rw [Query.scopeOf_ok hp hd] at hx
        cases hx
  · refine kind_of_stale fun d hd => ?_
    rw [Query.value_ok.2 hd] at hx
    cases hx

/-- Entering the name of a value stops only if the counters of its scope are used up, and the value
is left without a name then. -/
theorem ends_registerName_enters (hp : s.layout.Placed) (hk : s.layout.kind v = some k) :
    Ends (registerName v) s (fun _ s' => s.Enters v s') fun x s' =>
      x = .counterExhausted ∧ s.Unnames v s' := by
  obtain ⟨hres, d, hd, rfl⟩ := layout_kind.1 hk
  unfold registerName
  rw [ends_bind, ends_lift_ok (Query.scopeOf_ok hp hd)]
  cases hscope : s.layout.scope v with
  | none => exact .nothing hd (.inr hscope)
  | some sc =>
    dsimp only
    rw [ends_bind, ends_lift_ok (Query.name_ok.2 ⟨d, hd, rfl⟩)]
    cases hname : d.name with
    | none => exact .nothing hd (.inl hname)
    | some text =>
      dsimp only
      obtain ⟨t, ht⟩ := table_of_scope hp hscope
      rw [ends_bind]
      refine (ends_modifyValue hd _).2 ?_
      have ht₁ : (s.modifyValue v fun d => { d with name := none }).layout.tables sc = some t := by
        rw [layout_rename hd hres rfl]
        exact ht
      rw [ends_bind, ends_lift_ok (Query.symbols_ok.2 ht₁), ends_bind, ends_get]
      simp only [hash_modifyValue]
      cases hclaim : t.claim s.hash text v with
      | mk claimed t' =>
        dsimp only
        rw [ends_bind, ends_modify]
        cases claimed with
        | none => exact ⟨rfl, .mk hd hname hscope ht hclaim⟩
        | some text' =>
          have hd₂ : ((s.modifyValue v fun d => { d with name := none }).setTable sc t').values.get? v =
              some { d with name := none } := by
            simp only [Store.setTable, Store.modifyValue, Arena.get?_modify, if_true, hd,
              Option.map_some]
          have hentry := Enters.entry hd hname hscope ht hclaim
          refine (ends_modifyValue hd₂ _).2 ?_
          simp only [Store.setTable, Store.modifyValue, Arena.modify_modify] at hentry ⊢
          exact hentry

theorem ends_registerName (hp : s.layout.Placed) (hn : s.layout.Named total (v :: xs)) (hv : v ∉ xs)
    (hk : s.layout.kind v = some k) : Ends (registerName v) s
      (fun _ s' => s.layout.Renamed s'.layout ∧ s'.layout.Named total xs)
      fun x s' => x = .counterExhausted ∧ s.layout.Renamed s'.layout ∧ s'.layout.Named total xs :=
  (ends_registerName_enters hp hk).mono (fun _ _ h => ⟨h.renamed, h.named hn hv⟩) fun _ _ h =>
    ⟨h.1, h.2.named hn⟩

theorem ends_registerNames (hp : s.layout.Placed) (hn : s.layout.Named total xs) (hxs : xs.Nodup)
    (hk : ∀ v ∈ xs, ∃ k, s.layout.kind v = some k) : Ends (xs.forM registerName) s
      (fun _ s' => s.layout.Renamed s'.layout ∧ s'.layout.Named total [])
      fun x s' => x = .counterExhausted ∧ s.layout.Renamed s'.layout ∧
        ∃ ys, s'.layout.Named total ys := by
  suffices h : Ends (xs.forM registerName) s (fun _ s' => s.layout.Renamed s'.layout ∧
      s'.layout.Named total [] ∧ ([] : List ValueId).Nodup ∧ ∀ v ∈ ([] : List ValueId), v ∈ xs)
      fun x s' => x = .counterExhausted ∧ s.layout.Renamed s'.layout ∧
        ∃ ys, s'.layout.Named total ys from
    h.mono (fun _ _ h => ⟨h.1, h.2.1⟩) fun _ _ h => h
  refine ends_forM (fun rest s' => s.layout.Renamed s'.layout ∧ s'.layout.Named total rest ∧
    rest.Nodup ∧ ∀ v ∈ rest, v ∈ xs) ?_ xs s ⟨.refl _, hn, hxs, fun _ hv => hv⟩
  rintro v rest s' ⟨hr, hn', hnodup, hsub⟩
  obtain ⟨hv, hrest⟩ := List.nodup_cons.1 hnodup
  obtain ⟨k, hkv⟩ := hk v (hsub v (List.mem_cons_self ..))
  refine (ends_registerName (hr.placed hp) hn' hv (by rw [hr.kind]; exact hkv)).mono ?_
    fun _ _ h => ⟨h.1, hr.trans h.2.1, _, h.2.2⟩
  rintro _ s'' ⟨hr', hn''⟩
  exact ⟨hr.trans hr', hn'', hrest, fun w hw => hsub w (List.mem_cons_of_mem _ hw)⟩

theorem ends_unregisterNames (hp : s.layout.Placed) (hn : s.layout.Named total [])
    (vs : List ValueId) (hk : ∀ v ∈ vs, ∃ k, s.layout.kind v = some k) : Ends (vs.forM unregisterName) s
      (fun _ s' => s.layout.Renamed s'.layout ∧ s.layout.Delisted s'.layout vs ∧
        ∃ xs, (∀ v, v ∈ xs ↔ v ∈ vs) ∧ s'.layout.Named total xs)
      fun _ _ => False := by
  refine (ends_forM_visited vs (fun done s' => s.layout.Renamed s'.layout ∧
    s.layout.Delisted s'.layout done ∧ ∃ xs, (∀ v, v ∈ xs ↔ v ∈ done) ∧ s'.layout.Named total xs)
    ?_ s ⟨.refl _, .refl _, [], by simp, hn⟩).mono (fun _ _ h => h) fun _ _ h => h
  rintro done v rest s' hvs ⟨hr, hd, xs, hxs, hn'⟩
  obtain ⟨k, hkv⟩ := hk v (by simp [hvs])
  refine (ends_unregisterName s' v).mono ?_ ?_
  · rintro _ s'' hstrikes
    refine ⟨hr.trans hstrikes.renamed, hd.trans (hstrikes.delisted hn') hr.scope, v :: xs,
      fun w => ?_, hstrikes.named hn'⟩
    rw [List.mem_cons, List.mem_append, List.mem_singleton, hxs]
    exact or_comm
  · rintro _ _ ⟨-, hnone⟩
    have hdead := hnone (hr.placed hp)
    rw [hr.kind, hkv] at hdead
    cases hdead

end Register

section Naming

theorem ends_rename (s : Store) (v : ValueId) {g : Value → Value}
    (hg : ∀ d, (g d).payload = d.payload) : Ends (modifyValue v g) s
      (fun _ s' => ∃ o, s'.layout = { s.layout with
        symbol := Function.update s.layout.symbol v o } ∧ ((∀ d, (g d).symbol = none) → o = none))
      fun _ s' => s' = s ∧ s.layout.kind v = none := by
  refine ends_bind.2 (ends_lift.2 ⟨fun d hd => ?_, fun x hx => ⟨rfl, ?_⟩⟩)
  · rw [Query.value_ok] at hd
    rw [ends_modify]
    cases hres : d.kind.isResident with
    | true => exact ⟨_, layout_rename hd hres (hg d), fun ho => ho d⟩
    | false =>
      have hsymbol : s.layout.symbol v = none := by
        simp [layout, resident?, hd, Value.resident?_eq_none hres]
      refine ⟨none, ?_, fun _ => rfl⟩
      rw [(Function.update_eq_self_iff ..).2 hsymbol.symm]
      refine layout_congr rfl rfl (fun _ _ => rfl) (fun _ => rfl) fun w => ?_
      rw [resident?_modifyValue]
      split
      next hw =>
        have hres' : (g d).kind.isResident = false := by rw [Value.kind, hg]; exact hres
        rw [← hw, resident?, hd, Option.bind_some, Option.bind_some,
          Value.resident?_eq_none hres, Value.resident?_eq_none hres']
      next => rfl
  · refine kind_of_stale fun d hd => ?_
    rw [Query.value_ok.2 hd] at hx
    cases hx

theorem ends_writeName (hn : s.layout.Named total xs) (hv : v ∈ xs)
    (hk : s.layout.kind v = some k) : Ends (writeName v text) s
      (fun _ s' => s.layout.Renamed s'.layout ∧ s'.layout.Named total xs)
      fun _ _ => False := by
  unfold writeName
  split
  · exact ⟨.refl _, hn⟩
  · rw [ends_bind, ends_get]
    refine Ends.mono (ends_rename s v ?_) ?_ fun _ _ hx => by simp [hk] at hx
    · exact fun _ => rfl
    · rintro _ s' ⟨o, hlayout, -⟩
      rw [hlayout]
      exact ⟨renamed_symbol _ _, hn.rename hv o⟩

theorem ends_unname (hs : s.layout.Consistent total) (hk : s.layout.kind v = some k) :
    Ends (do unregisterName v; modifyValue v fun d => { d with name := none, nameHash := 0 }) s
      (fun _ s' => s.layout.Renamed s'.layout ∧ s'.layout.Named total [v] ∧
        s'.layout.symbol v = none)
      fun _ _ => False := by
  refine Ends.bind ((ends_unregisterName s v).mono (fun _ _ h => h) fun _ _ hx => ?_) ?_
  · simp [hk] at hx
    exact hx.2 hs.placed
  rintro _ s₁ hstrikes
  have hk₁ : s₁.layout.kind v = some k := by rw [hstrikes.renamed.kind]; exact hk
  refine Ends.mono (ends_rename s₁ v ?_) ?_ fun _ _ hx => by simp [hk₁] at hx
  · exact fun _ => rfl
  · rintro _ s₂ ⟨o, hlayout₂, ho⟩
    obtain rfl := ho fun _ => rfl
    rw [hlayout₂]
    exact ⟨hstrikes.renamed.trans (renamed_symbol _ _),
      (hstrikes.named hs.named).rename (List.mem_singleton_self v) none, Function.update_self ..⟩

theorem arranges_setName : Arranges total (setName v text) := by
  intro s hs
  refine ends_bind.2 (ends_lift.2 ⟨fun kind hkind => ?_, fun _ _ _ => hs⟩)
  obtain ⟨d, hd, rfl⟩ := Query.kind_ok.1 hkind
  split
  · exact fun _ => hs
  next hne =>
    have hk : s.layout.kind v = some d.kind := by
      refine layout_kind.2 ⟨?_, d, hd, rfl⟩
      cases hdk : d.kind <;> simp_all [ValueKind.isResident]
    have hunname := ends_unname hs hk
    rw [ends_bind] at hunname
    refine ends_bind.2 (Ends.weaken hunname fun _ s' hs' => ?_)
    refine Ends.bind (Ends.weaken hs' fun _ _ h => h) ?_
    rintro _ s₁ ⟨hr₁, hn₁, -⟩
    refine Ends.bind (Ends.weaken (ends_writeName hn₁ (List.mem_singleton_self v)
      (hr₁.kind ▸ hk)) fun _ _ h => h) ?_
    rintro _ s₂ ⟨hr₂, hn₂⟩
    have hr := hr₁.trans hr₂
    refine (ends_registerName (hr.placed hs.placed) hn₂ List.not_mem_nil (hr.kind ▸ hk)).mono ?_
      fun _ _ hx _ => ⟨(hr.trans hx.2.1).placed hs.placed, hx.2.2⟩
    rintro _ s₃ ⟨hr₃, hn₃⟩
    exact ⟨(hr.trans hr₃).placed hs.placed, hn₃⟩

theorem arranges_takeName : Arranges total (takeName v) := by
  intro s hs
  refine Ends.bind ((ends_unregisterName s v).mono (fun _ _ h => h) fun _ _ hx _ => hx.1 ▸ hs) ?_
  rintro _ s₁ hstrikes
  have hr₁ : s.layout.Renamed s₁.layout := hstrikes.renamed
  -- Without a name the value is not pending.
  have hsettle {s' : Store} (hr : s₁.layout.Renamed s'.layout) (hn : s'.layout.Named total [v])
      (hv : s'.layout.symbol v = none) : s'.layout.Consistent total :=
    ⟨(hr₁.trans hr).placed hs.placed, hn.settle (.inl hv)⟩
  have hn₁ := hstrikes.named hs.named
  refine ends_bind.2 (ends_lift.2 ⟨fun o ho => ?_, fun x hx _ => ?_⟩)
  · refine Ends.bind (Ends.mono (ends_rename s₁ v ?_) (fun _ _ h => h) ?_) ?_
    · exact fun _ => rfl
    · rintro _ _ ⟨rfl, hk⟩ -
      exact hsettle (.refl _) hn₁ (symbol_of_kind hk)
    · rintro _ s₂ ⟨o', hlayout₂, ho'⟩
      obtain rfl := ho' fun _ => rfl
      have hr₂ : s₁.layout.Renamed s₂.layout := hlayout₂ ▸ renamed_symbol _ _
      refine hsettle hr₂ ?_ (hlayout₂ ▸ Function.update_self ..)
      rw [hlayout₂]
      exact hn₁.rename (List.mem_singleton_self v) none
  · refine hsettle (.refl _) hn₁ (symbol_of_kind (kind_of_stale fun d hd => ?_))
    rw [Query.name_ok.2 ⟨d, hd, rfl⟩] at hx
    cases hx

end Naming

end Edit

end ShaderIR
