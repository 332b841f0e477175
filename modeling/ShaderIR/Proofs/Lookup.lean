import ShaderIR.Proofs.KeptHashes
import ShaderIR.Proofs.LayoutConsistency

/-! What names say. In a store that orderly commands leave a value is found under its name in its
scope, and nothing else is. -/

namespace ShaderIR

namespace Store

/-- Names, the hashes kept beside them and the symbol tables agree. -/
structure NamesAgree (hash : String → UInt64) (s : Store) : Prop where
  kept : ∀ {v d}, s.values.get? v = some d → d.nameHash = (d.name.map hash).getD 0
  scope : ∀ {v}, s.isLive v → ∃ o, Query.scopeOf v s = .ok o
  found : ∀ {v scope text}, Query.name v s = .ok (some text) → Query.scopeOf v s = .ok (some scope) →
    Query.valueByName scope text s = .ok (some v)
  distinct : ∀ {v w scope x y}, v ≠ w → Query.scopeOf v s = .ok (some scope) →
    Query.scopeOf w s = .ok (some scope) → Query.name v s = .ok (some x) →
    Query.name w s = .ok (some y) → hash x ≠ hash y
  owned : ∀ {scope t h v}, Query.symbols scope s = .ok t → t.find? h = some v →
    ∃ text, Query.name v s = .ok (some text) ∧ hash text = h ∧
      Query.scopeOf v s = .ok (some scope)

variable {s : Store} {v : ValueId} {text : String} {scope : Scope} {hash : String → UInt64}

theorem Hashed.symbol (h : s.Hashed hash) (hn : Query.name v s = .ok (some text))
    (hsc : s.layout.scope v = some scope) : s.layout.symbol v = some (hash text) := by
  obtain ⟨d, hd, hname⟩ := Query.name_ok.1 hn
  have hhash := h.value hd
  rw [hname] at hhash
  rw [layout_symbol hd (isResident_of_scope hsc hd), Value.symbol, hname, Option.map_some, hhash]
  rfl

theorem Hashed.entered (h : s.Hashed hash) (hc : s.layout.Consistent True)
    (hn : Query.name v s = .ok (some text)) (hsc : Query.scopeOf v s = .ok (some scope)) :
    ∃ t, Query.symbols scope s = .ok t ∧ t.find? (hash text) = some v := by
  have hscope := Query.scope_of_scopeOf_ok hsc
  obtain ⟨t, ht, hf⟩ := hc.named.entered trivial List.not_mem_nil (h.symbol hn hscope) hscope
  exact ⟨t, Query.symbols_ok.2 ht, hf⟩

theorem namesAgree (h : s.Hashed hash) (hc : s.layout.Consistent True) : s.NamesAgree hash := by
  refine ⟨h.value, fun hv => ?_, fun hn hsc => ?_, fun {v w scope x y} hne hsv hsw hx hy heq => hne ?_,
    fun {scope t k v} ht hf => ?_⟩
  · obtain ⟨d, hd⟩ := Option.isSome_iff_exists.1 hv
    exact ⟨_, Query.scopeOf_ok hc.placed hd⟩
  · obtain ⟨t, ht, hf⟩ := h.entered hc hn hsc
    have hlookup : t.lookup s.hash _ = some _ := h.1.symm ▸ hf
    exact Query.bind_ok.2 ⟨t, ht, Query.bind_ok.2 ⟨s, rfl, Query.pure_ok.2 hlookup⟩⟩
  · obtain ⟨t, ht, hv⟩ := h.entered hc hx hsv
    obtain ⟨t', ht', hw⟩ := h.entered hc hy hsw
    obtain rfl := Except.ok.inj (ht.symm.trans ht')
    rw [heq, hw] at hv
    exact (Option.some.inj hv).symm
  · obtain ⟨-, hsymbol, hscope⟩ := hc.named.owned (Query.symbols_ok.1 ht) hf
    cases hd : s.values.get? v with
    | none => simp [layout, resident?, hd] at hsymbol
    | some d =>
      obtain ⟨text, hname, hhash⟩ := Option.map_eq_some_iff.1 (layout_symbol_eq_some hsymbol hd)
      have hkept := h.value hd
      rw [hname] at hkept
      exact ⟨text, Query.name_ok.2 ⟨d, hd, hname⟩, hkept.symm.trans hhash,
        by rw [Query.scopeOf_ok hc.placed hd, hscope]⟩

end Store

namespace Command

variable {s : Store} {c : Command} {hash : String → UInt64}

theorem hashed_after (hs : s.Settled) (hc : s.layout.Consistent True) (hh : s.Hashed hash)
    (h : c.endsProperly s = true) : (after s c).Hashed hash := by
  have hconsistent := consistent_after hs hc h
  have hends := hashes_run c s hh
  unfold endsProperly at h
  unfold after at hconsistent ⊢
  cases hrun : c.run s with
  | ok a s' => exact hends.of_ok hrun
  | error x s' =>
    simp only [hrun, Bool.and_eq_true, Bool.not_eq_true', decide_eq_true_eq] at h hconsistent
    exact hends.of_error hrun ⟨h.2, hconsistent.placed⟩

theorem hashed_empty (hash : String → UInt64) (config : Config) :
    ({ hash, config } : Store).Hashed hash := by
  refine ⟨rfl, fun v l hl => ?_⟩
  simp [Store.get?_labels, Arena.get?_empty] at hl

theorem hashed_afterAll {cs : List Command} (h : orderly s cs = true) (hs : s.Settled)
    (hc : s.layout.Consistent True) (hh : s.Hashed hash) :
    (afterAll s cs).Hashed hash ∧ (afterAll s cs).layout.Consistent True := by
  induction cs generalizing s with
  | nil => exact ⟨hh, hc⟩
  | cons c cs ih =>
    rw [orderly, Bool.and_eq_true] at h
    exact ih h.2 (keeps_after (keeps_run c) hs) (consistent_after hs hc h.1)
      (hashed_after hs hc hh h.1)

/-- In the store that orderly commands leave every value is found under its name in its scope, and
no two values of a scope have names of one hash. -/
theorem namesAgree_afterAll (hash : String → UInt64) (config : Config) {cs : List Command}
    (h : orderly { hash, config } cs = true) :
    (afterAll { hash, config } cs).NamesAgree hash := by
  obtain ⟨hh, hc⟩ := hashed_afterAll h (Store.settled_empty hash config) (consistent_empty hash config)
    (hashed_empty hash config)
  exact Store.namesAgree hh hc

/-- Blocks of one name in one function, one of them moved to another function and renamed, and a
name taken back. -/
def sharedNames : List Command :=
  [.internType .void, .internType (.function ⟨0⟩ []), .createModule "m",
    .createFunction ⟨0⟩ "f" ⟨1⟩, .createFunction ⟨0⟩ "f" ⟨1⟩, .createBlock ⟨0⟩ "b",
    .createBlock ⟨0⟩ "b", .createBlock ⟨1⟩ "b", .moveBlockTo ⟨2⟩ ⟨1⟩, .setName ⟨3⟩ "b",
    .setName ⟨9⟩ "stale", .takeName ⟨0⟩]

theorem namesAgree_afterAll_sharedNames : orderly { config := {} } sharedNames = true ∧
    (afterAll { config := {} } sharedNames).NamesAgree nameHash := by
  have horderly : orderly { config := {} } sharedNames = true := by decide +kernel
  exact ⟨horderly, namesAgree_afterAll nameHash {} horderly⟩

/-- The block that has moved got a counter behind its name, and the other one its name back. -/
example : Query.valueByName (.function ⟨1⟩) "b.1" (afterAll { config := {} } sharedNames) =
      .ok (some ⟨2⟩) ∧
    Query.valueByName (.function ⟨0⟩) "b" (afterAll { config := {} } sharedNames) =
      .ok (some ⟨3⟩) := by
  decide +kernel

end Command

end ShaderIR
