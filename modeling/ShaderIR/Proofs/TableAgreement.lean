import ShaderIR.Proofs.CommandCoherence

/-! What the tables of every store say. The constants and nodes that commands leave are the only
ones of their content, and the tables hold them and nothing else. -/

namespace ShaderIR

namespace Store

open Edit

/-- The content of a live constant: its type and what it is, or what its operands hold now. -/
inductive HasContent (s : Store) (c : ValueId) : ConstantKey → Prop
  | scalar {d data} (live : s.values.get? c = some d) (constant : d.payload = .constant data)
      (scalar : data ≠ .blockAddress) : HasContent s c (.scalar d.ty data)
  | address {d f b} (live : s.values.get? c = some d) (constant : d.payload = .constant .blockAddress)
      (function : Query.operand c 0 s = .ok (some f)) (block : Query.operand c 1 s = .ok (some b)) :
      HasContent s c (.blockAddress f b)

/-- Constants are told apart by their content, and asking for one that exists makes no other. -/
structure ConstantsAgree (s : Store) : Prop where
  unique : ∀ {c c' key}, s.HasContent c key → s.HasContent c' key → c = c'
  filled : ∀ {c d}, s.values.get? c = some d → d.payload = .constant .blockAddress →
    ∃ f b, Query.operands c s = .ok [some f, some b]
  table : ∀ key c, s.constants[key]? = some c ↔ s.HasContent c key
  constInt : ∀ {ty x c}, s.HasContent c (.scalar ty (.int x)) → constInt ty x s = .ok c s
  constNull : ∀ {ty c}, s.HasContent c (.scalar ty .null) → constNull ty s = .ok c s
  constUndefined : ∀ {ty c}, s.HasContent c (.scalar ty .undefined) →
    constUndefined ty s = .ok c s
  blockAddress : ∀ {f b c df db}, s.HasContent c (.blockAddress f b) →
    s.values.get? f = some df → df.kind = .function → s.values.get? b = some db →
    db.kind = .block → blockAddress f b s = .ok c s

variable {s : Store} {c : ValueId} {key : ConstantKey}

theorem hasContent_iff (hf : s.Filled) : s.HasContent c key ↔ s.keyOf c = some key := by
  constructor
  · rintro (⟨hd, hp, hdata⟩ | ⟨hd, hp, hfunction, hblock⟩)
    · rw [keyOf_of_get? hd, Value.constant?_eq_some.2 ⟨rfl, hp⟩]
      rename_i d data
      cases data
      case blockAddress => exact absurd rfl hdata
      all_goals rfl
    · obtain ⟨f, b, hfb⟩ := hf c _ hd hp
      obtain ⟨-, hfunction⟩ := Query.operand_ok.1 hfunction
      obtain ⟨-, hblock⟩ := Query.operand_ok.1 hblock
      rw [hfb.targets] at hfunction hblock
      rw [hfb.keyOf hd hp]
      simp_all
  · intro hkey
    cases hd : s.values.get? c with
    | none => simp [keyOf_of_dead hd] at hkey
    | some d =>
      by_cases ha : d.IsAddress
      · obtain ⟨f, b, hfb⟩ := hf c d hd ha
        rw [hfb.keyOf hd ha] at hkey
        obtain rfl := Option.some.inj hkey
        exact .address hd ha (Query.operand_ok.2 ⟨⟨d, hd⟩, by rw [hfb.targets]; rfl⟩)
          (Query.operand_ok.2 ⟨⟨d, hd⟩, by rw [hfb.targets]; rfl⟩)
      · rw [keyOf_of_get? hd] at hkey
        cases hp : d.payload with
        | constant data =>
          have hdata : data ≠ .blockAddress := by
            rintro rfl
            exact ha hp
          rw [Value.constant?_eq_some.2 ⟨rfl, hp⟩] at hkey
          obtain rfl : ConstantKey.scalar d.ty data = key := by
            cases data
            case blockAddress => exact absurd rfl hdata
            all_goals exact Option.some.inj hkey
          exact .scalar hd hp hdata
        | _ =>
          rw [Value.constant?_eq_none.2 (by simp [Value.kind, hp, Payload.kind])] at hkey
          cases hkey

theorem internScalar_of_entered {ty : TypeId} {data : ConstantData}
    (h : s.constants[ConstantKey.scalar ty data]? = some c) : internScalar ty data s = .ok c s := by
  refine Ends.eq_ok ?_
  unfold internScalar
  rw [ends_bind, ends_get, h]
  exact ⟨rfl, rfl⟩

theorem Keyed.constantsAgree (h : s.Keyed) : s.ConstantsAgree := by
  have hiff {c : ValueId} {key : ConstantKey} : s.HasContent c key ↔ s.keyOf c = some key :=
    hasContent_iff h.filled
  have hentry {c : ValueId} {key : ConstantKey} (hc : s.HasContent c key) :
      s.constants[key]? = some c := (h.entered key c).2 (hiff.1 hc)
  refine ⟨fun hc hc' => h.entered.inj (hiff.1 hc) (hiff.1 hc'), fun {c d} hd hp => ?_,
    fun key c => (h.entered key c).trans hiff.symm, fun hc => internScalar_of_entered (hentry hc),
    fun hc => internScalar_of_entered (hentry hc), fun hc => internScalar_of_entered (hentry hc),
    fun {f b c df db} hc hdf hkf hdb hkb => ?_⟩
  · obtain ⟨f, b, hfb⟩ := h.filled c d hd hp
    exact ⟨f, b, Query.operands_ok.2 ⟨⟨d, hd⟩, hfb.targets⟩⟩
  · refine Ends.eq_ok ?_
    unfold Edit.blockAddress
    rw [ends_bind, ends_lift_ok (a := ()) (Query.expectKind_ok.2 ⟨df, hdf, hkf⟩), ends_bind,
      ends_lift_ok (a := ()) (Query.expectKind_ok.2 ⟨db, hdb, hkb⟩), ends_bind, ends_get, hentry hc]
    exact ⟨rfl, rfl⟩

/-- Nodes are told apart by their content if they are uniqued, and by what they wrap. -/
structure NodesAgree (s : Store) : Prop where
  unique : ∀ {n n' d d'}, s.metadata.nodes.get? n = some d → s.metadata.nodes.get? n' = some d' →
    d.storage = .uniqued → d'.storage = .uniqued → d.content = d'.content → n = n'
  uniqued : ∀ c n, s.metadata.uniqued[c]? = some n ↔
    ∃ d, s.metadata.nodes.get? n = some d ∧ d.storage = .uniqued ∧ d.content = c
  nodeOf : ∀ v n, s.metadata.nodeOf[v]? = some n ↔
    ∃ d, s.metadata.nodes.get? n = some d ∧ d.content = .value v
  wrapped : ∀ {v n}, s.metadata.nodeOf[v]? = some n → s.isLive v
  wrapperOf : ∀ n w, s.metadata.wrapperOf[n]? = some w ↔
    ∃ d, s.values.get? w = some d ∧ d.payload = .metadata n
  wrapper : ∀ {n w w' d d'}, s.values.get? w = some d → s.values.get? w' = some d' →
    d.payload = .metadata n → d'.payload = .metadata n → w = w'

theorem Settled.wrapperOf_iff (hs : s.Settled) (n : NodeId) (w : ValueId) :
    s.metadata.wrapperOf[n]? = some w ↔ ∃ d, s.values.get? w = some d ∧ d.payload = .metadata n := by
  have hheld : s.core.held (.wrapper w) = some n ↔
      ∃ d, s.values.get? w = some d ∧ d.payload = .metadata n := by
    rw [← holds_iff hs]
    constructor
    · rintro (_ | ⟨hd, hp⟩)
      exact ⟨_, hd, hp⟩
    · rintro ⟨d, hd, hp⟩
      exact .wrapper hd hp
  exact Iff.trans ⟨hs.recorded.wrapperOf, hs.recorded.wrapper⟩ hheld

theorem nodesAgree (hs : s.Settled) (hw : Wrapping s) : s.NodesAgree := by
  have hiff (c : Content) (n : NodeId) : s.metadata.uniqued[c]? = some n ↔
      ∃ d, s.metadata.nodes.get? n = some d ∧ d.storage = .uniqued ∧ d.content = c :=
    (hw.entered c n).trans Ledger.contentOf_eq_some
  refine ⟨fun {n n' d d'} hd hd' hu hu' hc => ?_, hiff,
    fun v n => (hw.wrapped v n).trans Ledger.valueOf_eq_some, fun {v n} hn => ?_,
    hs.wrapperOf_iff, fun {n w w' d d'} hd hd' hp hp' => ?_⟩
  · have hn := (hiff d.content n).2 ⟨d, hd, hu, rfl⟩
    have hn' := (hiff d.content n').2 ⟨d', hd', hu', hc.symm⟩
    exact Option.some.inj (hn.symm.trans hn')
  · have hlive : s.WrapsLive := wrapsLive_iff.2 hw.live
    obtain ⟨d, hd⟩ := hlive hn
    exact isLive_iff.2 (isLive_core.2 ⟨d, hd⟩)
  · have hw := (hs.wrapperOf_iff n w).2 ⟨d, hd, hp⟩
    have hw' := (hs.wrapperOf_iff n w').2 ⟨d', hd', hp'⟩
    exact Option.some.inj (hw.symm.trans hw')

end Store

namespace Command

/-- Commands keep constants interned, whichever of them fail. -/
theorem constantsAgree_afterAll (hash : String → UInt64) (config : Config) (cs : List Command) :
    (afterAll { hash, config } cs).ConstantsAgree :=
  (coherent_afterAll hash config cs).keyed.constantsAgree

/-- The block address of a function that an undefined value of its type replaces. -/
def undefinedFunction : List Command :=
  [.internType .void, .internType (.function ⟨0⟩ []), .createModule "m",
    .createFunction ⟨0⟩ "f" ⟨1⟩, .createBlock ⟨0⟩ "b", .blockAddress ⟨0⟩ ⟨1⟩,
    .constUndefined ⟨1⟩, .replaceAllUses ⟨0⟩ ⟨3⟩]

/-- A block address comes to refer to what is no function, so asking for it again fails. -/
theorem blockAddress_undefinedFunction :
    (afterAll {} undefinedFunction).HasContent ⟨2⟩ (.blockAddress ⟨3⟩ ⟨1⟩) ∧
      ∀ s, Edit.blockAddress ⟨3⟩ ⟨1⟩ (afterAll {} undefinedFunction) ≠ .ok ⟨2⟩ s := by
  have hlive : (afterAll {} undefinedFunction).values.get? ⟨2⟩ =
      some { ty := ⟨3⟩, payload := .constant .blockAddress } := by decide +kernel
  have htargets : (afterAll {} undefinedFunction).uses.targets ⟨2⟩ = [some ⟨3⟩, some ⟨1⟩] := by
    decide +kernel
  have hkind : ((afterAll {} undefinedFunction).values.get? ⟨3⟩).map Value.kind =
      some .constant := by decide +kernel
  refine ⟨.address hlive rfl (Query.operand_ok.2 ⟨⟨_, hlive⟩, by rw [htargets]; rfl⟩)
    (Query.operand_ok.2 ⟨⟨_, hlive⟩, by rw [htargets]; rfl⟩), fun s hs => ?_⟩
  have hends : Edit.Ends (Edit.blockAddress ⟨3⟩ ⟨1⟩) (afterAll {} undefinedFunction)
      (fun _ _ => False) fun _ _ => True := by
    refine Edit.ends_bind.2 (Edit.ends_lift.2 ⟨fun _ hf => ?_, fun _ _ => trivial⟩)
    obtain ⟨d, hd, hk⟩ := Query.expectKind_ok.1 hf
    rw [hd, Option.map_some, hk] at hkind
    cases hkind
  exact hends.of_ok hs

/-- Commands keep nodes interned and the values that wrap them and that they wrap known, whichever
of them fail. -/
theorem nodesAgree_afterAll (hash : String → UInt64) (config : Config) (cs : List Command) :
    (afterAll { hash, config } cs).NodesAgree :=
  Store.nodesAgree (coherent_afterAll hash config cs).settled (coherent_afterAll hash config cs).wrapping

end Command

end ShaderIR
