import ShaderIR.Proofs.BlockTransfer

/-! Names that come back. What leaves a scope takes its own entries out of the table and no
others, so the hashes of its names are free when it returns and it is entered as it was. The
tables that come of this are the former ones, since what is entered in a table follows from the
names and scopes of the values. -/

namespace ShaderIR

def SymbolTable.emptied (t : SymbolTable) : SymbolTable := { t with entries := ∅ }

theorem SymbolTable.eq_of_emptied {t t' : SymbolTable} (h : t'.emptied = t.emptied)
    (hf : ∀ k, t'.find? k = t.find? k) : t' = t := by
  have hentries : t'.entries = t.entries := Std.ExtTreeMap.ext_getElem? fun k => hf k
  obtain ⟨hseparator, -, hlast⟩ := SymbolTable.mk.inj h
  cases t
  cases t'
  simp_all

namespace Layout

variable {L L₀ : Layout} {v : ValueId} {vs : List ValueId} {sc : Scope} {t : SymbolTable}
    {h : UInt64}

theorem Named.find?_eq_some_iff (hL : L.Named True []) (ht : L.tables sc = some t) :
    t.find? h = some v ↔ L.symbol v = some h ∧ L.scope v = some sc := by
  constructor
  · exact fun hf => (hL.owned ht hf).2
  · rintro ⟨hn, hsc⟩
    obtain ⟨t', ht', hf⟩ := hL.entered trivial List.not_mem_nil hn hsc
    obtain rfl := Option.some.inj (ht.symm.trans ht')
    exact hf

theorem Named.free (hL₀ : L₀.Named True []) (hL : L.Named True (v :: vs))
    (hsymbol : L.symbol = L₀.symbol) (hscope : L.scope = L₀.scope) (hn : L.symbol v = some h)
    (hsc : L.scope v = some sc) (ht : L.tables sc = some t) : t.find? h = none := by
  refine Option.eq_none_iff_forall_ne_some.2 fun w hw => ?_
  obtain ⟨hpending, hn', hsc'⟩ := hL.owned ht hw
  rw [hsymbol] at hn hn'
  rw [hscope] at hsc hsc'
  obtain ⟨t₀, ht₀, hv⟩ := hL₀.entered trivial List.not_mem_nil hn hsc
  rw [(hL₀.find?_eq_some_iff ht₀).2 ⟨hn', hsc'⟩] at hv
  exact hpending (Option.some.inj hv ▸ List.mem_cons_self ..)

end Layout

namespace Store

def registry (s : Store) : (Config × (String → UInt64)) × Std.ExtTreeMap Scope SymbolTable ×
    (Scope → Option SymbolTable) :=
  ((s.config, s.hash), s.scopes, s.layout.tables)

structure Retabled (s s' : Store) : Prop where
  config : s'.config = s.config
  hash : s'.hash = s.hash
  live : ∀ sc, s'.layout.tables sc = none ↔ s.layout.tables sc = none
  emptied : ∀ sc : Scope,
    s'.scopes[sc]?.map SymbolTable.emptied = s.scopes[sc]?.map SymbolTable.emptied
  dead : ∀ sc, s.layout.tables sc = none → s'.scopes[sc]? = s.scopes[sc]?

/-- Every name, the hash kept beside it, and every symbol table with its counter are the same. -/
structure KeepsNames (s s' : Store) : Prop where
  name : ∀ v, Query.name v s' = Query.name v s
  hash : ∀ v, Query.nameHash v s' = Query.nameHash v s
  symbols : ∀ sc t, Query.symbols sc s' = .ok t ↔ Query.symbols sc s = .ok t

variable {s s₁ s₂ s' : Store} {v : ValueId} {vs : List ValueId} {sc : Scope} {t t' : SymbolTable}
variable {k : ValueKind}

theorem Retabled.refl (s : Store) : s.Retabled s :=
  ⟨rfl, rfl, fun _ => Iff.rfl, fun _ => rfl, fun _ _ => rfl⟩

theorem Retabled.trans (h : s.Retabled s₁) (h' : s₁.Retabled s₂) : s.Retabled s₂ where
  config := h'.config.trans h.config
  hash := h'.hash.trans h.hash
  live sc := (h'.live sc).trans (h.live sc)
  emptied sc := (h'.emptied sc).trans (h.emptied sc)
  dead sc hsc := (h'.dead sc ((h.live sc).2 hsc)).trans (h.dead sc hsc)

theorem retabled_of_registry (h : s'.registry = s.registry) : s.Retabled s' := by
  obtain ⟨hsettings, hrest⟩ := Prod.mk.inj h
  obtain ⟨hconfig, hhash⟩ := Prod.mk.inj hsettings
  obtain ⟨hscopes, htables⟩ := Prod.mk.inj hrest
  exact ⟨hconfig, hhash, fun sc => by rw [htables], fun sc => by rw [hscopes],
    fun sc _ => by rw [hscopes]⟩

theorem Retabled.module {m : ModuleId} {dm : Module} (h : s.Retabled s')
    (hm : s.modules.get? m = some dm) : ∃ dm', s'.modules.get? m = some dm' := by
  cases ht : s'.layout.tables (.module m) with
  | some t => exact (tables_module.1 ht).1
  | none => cases ((h.live _).1 ht).symm.trans (tables_module.2 ⟨⟨dm, hm⟩, rfl⟩)

theorem table_of_tables (ht : s.layout.tables sc = some t) :
    s.scopes[sc]?.getD { separator := s.config.nameSeparator } = t := by
  cases sc with
  | function f => exact (tables_function.1 ht).2
  | module m => exact (tables_module.1 ht).2

theorem scopes_of_find? {h : UInt64} (ht : s.layout.tables sc = some t) (hf : t.find? h = some v) :
    s.scopes[sc]? = some t := by
  have htable := table_of_tables ht
  cases hsc : s.scopes[sc]? with
  | some u =>
    rw [hsc] at htable
    exact congrArg some htable
  | none =>
    rw [hsc] at htable
    subst htable
    simp [SymbolTable.find?] at hf

theorem retabled_setTable (ht : s.layout.tables sc = some t) (hsc : s.scopes[sc]? = some t)
    (he : t'.emptied = t.emptied) : s.Retabled (s.setTable sc t') where
  config := rfl
  hash := rfl
  live sc' := by
    rw [layout_setTable ht]
    by_cases hsc' : sc' = sc
    · simp [hsc', ht]
    · simp [Function.update_of_ne hsc']
  emptied sc' := by
    rw [setTable, getElem?_insert_eq_ite]
    split
    next hsc' => rw [← hsc', hsc, Option.map_some, Option.map_some, he]
    next => rfl
  dead sc' hdead := by
    rw [setTable, getElem?_insert_eq_ite, if_neg]
    rintro rfl
    cases hdead.symm.trans ht

theorem Retabled.tables_eq (h : s.Retabled s') (hn : s.layout.Named True [])
    (hn' : s'.layout.Named True []) (hsymbol : s'.layout.symbol = s.layout.symbol)
    (hscope : s'.layout.scope = s.layout.scope) : s'.layout.tables = s.layout.tables := by
  funext sc
  cases ht : s.layout.tables sc with
  | none => exact (h.live sc).2 ht
  | some t =>
    cases ht' : s'.layout.tables sc with
    | none => cases ((h.live sc).1 ht').symm.trans ht
    | some t' =>
      have hempty : t'.emptied = t.emptied := by
        have hemptied := h.emptied sc
        rw [← table_of_tables ht', ← table_of_tables ht, h.config]
        cases hsc : s.scopes[sc]? <;> cases hsc' : s'.scopes[sc]? <;> simp_all
      refine congrArg some (SymbolTable.eq_of_emptied hempty fun k => Option.ext fun w => ?_)
      rw [hn'.find?_eq_some_iff ht', hn.find?_eq_some_iff ht, hsymbol, hscope]

theorem Retabled.scopes_eq (h : s.Retabled s') (htables : s'.layout.tables = s.layout.tables) :
    s'.scopes = s.scopes := by
  refine Std.ExtTreeMap.ext_getElem? fun sc => ?_
  cases ht : s.layout.tables sc with
  | none => exact h.dead sc ht
  | some t =>
    have hemptied := h.emptied sc
    have hsame := (table_of_tables (htables ▸ ht)).trans (table_of_tables ht).symm
    cases hsc : s.scopes[sc]? <;> cases hsc' : s'.scopes[sc]? <;> simp_all

theorem registry_modifyValue {k : Value → Value} (h : ∀ d, (k d).kind = d.kind) :
    (s.modifyValue v k).registry = s.registry := by
  have hpayload (f : ValueId) : (s.modifyValue v k).payloadIs f isFunction =
      s.payloadIs f isFunction := by
    have hkind (d : Value) : isFunction (k d).payload = isFunction d.payload := by
      have hd : (k d).payload.kind = d.payload.kind := h d
      cases hp : (k d).payload <;> cases hp' : d.payload <;> simp_all [isFunction, Payload.kind]
    rw [payloadIs, modifyValue, Arena.get?_modify]
    split
    · simp only [payloadIs, Option.any_map, hkind]
    · rfl
  have htables : (s.modifyValue v k).table? = s.table? := by
    funext sc
    cases sc with
    | function f => simp only [table?, hpayload]; rfl
    | module m => rfl
  exact congrArg (fun tables => ((s.config, s.hash), s.scopes, tables)) htables

theorem registry_modifyModule {m : ModuleId} {k : Module → Module} :
    (s.modifyModule m k).registry = s.registry := by
  have hlive (m' : ModuleId) : (s.modifyModule m k).isModuleLive m' = s.isModuleLive m' := by
    rw [isModuleLive, modifyModule, Arena.get?_modify]
    split
    · rw [Option.isSome_map, isModuleLive]
    · rfl
  have htables : (s.modifyModule m k).table? = s.table? := by
    funext sc
    cases sc with
    | function f => rfl
    | module m' => simp only [table?, hlive]; rfl
  exact congrArg (fun tables => ((s.config, s.hash), s.scopes, tables)) htables

end Store

instance : Unplaced Store.registry where
  value _ _ k hb _ _ := Store.registry_modifyValue fun d => by
    rw [← Value.kind_bare, hb, Value.kind_bare]
  module _ _ _ _ := Store.registry_modifyModule

namespace Store

/-- Values are back in their scopes and wait to be entered. Everything else about names is as it was
before they left. -/
structure Awaits (s₀ s : Store) (vs : List ValueId) : Prop where
  placed : s.layout.Placed
  named : s.layout.Named True vs
  kind : s.layout.kind = s₀.layout.kind
  scope : s.layout.scope = s₀.layout.scope
  labels : s.labels = s₀.labels
  retabled : s₀.Retabled s

variable {s₀ s s' : Store} {v : ValueId} {vs : List ValueId} {sc : Scope} {t : SymbolTable}
variable {hash : String → UInt64}

theorem symbol_of_labels (hl : s'.labels = s.labels) (hk : s'.layout.kind = s.layout.kind) :
    s'.layout.symbol = s.layout.symbol := by
  have hsymbol (s : Store) (v : ValueId) : s.layout.symbol v =
      (s.layout.kind v).bind fun _ => (s.labels.get? v).bind fun l => l.1.map fun _ => l.2 := by
    rw [get?_labels]
    cases hd : s.values.get? v with
    | none => simp [layout, resident?, hd]
    | some d =>
      cases hr : d.kind.isResident with
      | true => simp [layout, resident?, hd, Value.resident?_of_kind hr]; rfl
      | false => simp [layout, resident?, hd, Value.resident?_eq_none hr]
  funext v
  rw [hsymbol, hsymbol, hl, hk]

theorem Hashed.of_labels (h : s.Hashed hash) (hl : s'.labels = s.labels)
    (hhash : s'.hash = s.hash) : s'.Hashed hash :=
  ⟨hhash.trans h.1, fun v l hv => h.2 v l (hl ▸ hv)⟩

theorem Awaits.free (h : s₀.Awaits s (v :: vs)) (hc : s₀.layout.Consistent True)
    (hh : s₀.Hashed hash)
    {d : Value} {text : String} (hd : s.values.get? v = some d) (hname : d.name = some text)
    (hsc : s.layout.scope v = some sc) (ht : s.layout.tables sc = some t) :
    d.nameHash = hash text ∧ t.find? (hash text) = none ∧ s.scopes[sc]? = some t := by
  have hsymbol := symbol_of_labels h.labels h.kind
  have hhash : d.nameHash = hash text := by
    rw [(hh.of_labels h.labels h.retabled.hash).value hd, hname]
    rfl
  have hv : s.layout.symbol v = some (hash text) := by
    rw [layout_symbol hd (isResident_of_scope hsc hd), Value.symbol, hname, Option.map_some, hhash]
  refine ⟨hhash, hc.named.free h.named hsymbol h.scope hv hsc ht, ?_⟩
  obtain ⟨t₀, ht₀, hf₀⟩ := hc.named.entered trivial List.not_mem_nil (hsymbol ▸ hv) (h.scope ▸ hsc)
  have hemptied := h.retabled.emptied sc
  rw [scopes_of_find? ht₀ hf₀] at hemptied
  have htable := table_of_tables ht
  cases hscopes : s.scopes[sc]? with
  | none =>
    rw [hscopes] at hemptied
    cases hemptied
  | some u =>
    rw [hscopes] at htable
    exact congrArg some htable

theorem Awaits.enters (h : s₀.Awaits s (v :: vs)) (hc : s₀.layout.Consistent True)
    (hh : s₀.Hashed hash) (hv : v ∉ vs) (he : s.Enters v s') :
    s₀.Awaits s' vs ∧ s.layout.Renamed s'.layout := by
  have hr := he.renamed
  have hn := he.named h.named hv
  suffices hsame : s'.labels = s.labels ∧ s.Retabled s' from
    ⟨⟨hr.placed h.placed, hn, hr.kind.trans h.kind, hr.scope.trans h.scope,
      hsame.1.trans h.labels, h.retabled.trans hsame.2⟩, hr⟩
  cases he with
  | nothing => exact ⟨rfl, .refl s⟩
  | @entry d sc t t' text text' hd hname hsc ht hclaim =>
    obtain rfl : s.hash = hash := h.retabled.hash.trans hh.1
    obtain ⟨hhash, hfree, hscopes⟩ := h.free hc hh hd hname hsc ht
    rw [SymbolTable.claim_of_free hfree] at hclaim
    cases hclaim
    have hself : (s.setTable sc (t.insert (s.hash text) v)).modifyValue v (fun d =>
        { d with name := some text, nameHash := s.hash text }) =
        s.setTable sc (t.insert (s.hash text) v) := by
      refine congrArg (fun values => { s.setTable sc _ with values := values })
        (Arena.modify_eq_self fun x hx => ?_)
      obtain rfl := Option.some.inj (hd.symm.trans hx)
      rw [← hname, ← hhash]
    rw [hself]
    exact ⟨rfl, retabled_setTable ht hscopes rfl⟩

theorem Awaits.not_unnames (h : s₀.Awaits s (v :: vs)) (hc : s₀.layout.Consistent True)
    (hh : s₀.Hashed hash) : ¬ s.Unnames v s' := by
  rintro ⟨hd, hname, hsc, ht, hclaim⟩
  obtain rfl : s.hash = hash := h.retabled.hash.trans hh.1
  rw [SymbolTable.claim_of_free (h.free hc hh hd hname hsc ht).2.1] at hclaim
  cases hclaim

theorem name_eq_of_labels (hl : s'.labels = s.labels) (v : ValueId) :
    Query.name v s' = Query.name v s ∧ Query.nameHash v s' = Query.nameHash v s := by
  have hlabel : (s'.values.get? v).map Value.label = (s.values.get? v).map Value.label := by
    rw [← get?_labels, ← get?_labels, hl]
  have hread {α : Type} (k : Option String × UInt64 → α) (s : Store) :
      (do return k (← Query.value v).label : Query α) s =
        ((s.values.get? v).map Value.label).elim (.error (.violation (.staleValue v)))
          fun l => .ok (k l) := by
    change Except.bind (Query.value v s) (fun d => .ok (k d.label)) = _
    rw [Query.value]
    cases s.values.get? v <;> rfl
  exact ⟨((hread Prod.fst s').trans (by rw [hlabel])).trans (hread Prod.fst s).symm,
    ((hread Prod.snd s').trans (by rw [hlabel])).trans (hread Prod.snd s).symm⟩

theorem keepsNames_of_labels (hl : s'.labels = s.labels)
    (ht : s'.layout.tables = s.layout.tables) : s.KeepsNames s' where
  name v := (name_eq_of_labels hl v).1
  hash v := (name_eq_of_labels hl v).2
  symbols sc t := by rw [Query.symbols_ok, Query.symbols_ok, ht]

theorem Awaits.keepsNames (h : s₀.Awaits s []) (hc : s₀.layout.Consistent True) :
    s₀.KeepsNames s :=
  keepsNames_of_labels h.labels
    (h.retabled.tables_eq hc.named h.named (symbol_of_labels h.labels h.kind) h.scope)

theorem Awaits.scopes_eq (h : s₀.Awaits s []) (hc : s₀.layout.Consistent True) :
    s.scopes = s₀.scopes :=
  h.retabled.scopes_eq
    (h.retabled.tables_eq hc.named h.named (symbol_of_labels h.labels h.kind) h.scope)

end Store

namespace Edit

open Store

variable {s₀ s : Store} {v : ValueId} {vs : List ValueId} {hash : String → UInt64}

theorem ends_registerNames_awaits (hc : s₀.layout.Consistent True) (hh : s₀.Hashed hash)
    (h : s₀.Awaits s vs) (hvs : vs.Nodup) (hk : ∀ v ∈ vs, ∃ k, s.layout.kind v = some k) :
    Ends (vs.forM registerName) s (fun _ s' => s₀.Awaits s' [] ∧ s.layout.Renamed s'.layout)
      fun _ _ => False := by
  induction vs generalizing s with
  | nil => exact ⟨h, .refl _⟩
  | cons v vs ih =>
    obtain ⟨hv, hvs⟩ := List.nodup_cons.1 hvs
    obtain ⟨k, hkv⟩ := hk v (List.mem_cons_self ..)
    change Ends (registerName v >>= fun _ => vs.forM registerName) s _ _
    refine Ends.bind ((ends_registerName_enters h.placed hkv).mono (fun _ _ h => h)
      fun _ _ hx => h.not_unnames hc hh hx.2) ?_
    intro _ s₁ henters
    obtain ⟨hawaits, hr⟩ := h.enters hc hh hv henters
    refine (ih hawaits hvs fun w hw => ?_).mono (fun _ _ h => ⟨h.1, hr.trans h.2⟩) fun _ _ h => h
    rw [hr.kind]
    exact hk w (List.mem_cons_of_mem v hw)

end Edit

end ShaderIR
