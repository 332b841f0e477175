import ShaderIR.Proofs.GlobalSlots
import ShaderIR.Proofs.LayoutConsistency
import ShaderIR.Proofs.LocationSafety
import ShaderIR.Proofs.NodeWalks
import ShaderIR.Proofs.TableAgreement

/-! Which nodes the text of a module refers to, and which it defines. -/

namespace ShaderIR

namespace Passage

variable {P Q : NodeId → Prop} {ns ns' : List NodeId} {ps ps' : Passage} {n : NodeId}

structure Names (ns : List NodeId) (P : NodeId → Prop) (ps : Passage) : Prop where
  defined : ps.definitions = ns
  referred : ∀ n ∈ ps.references, P n

namespace Names

theorem mono (h : ps.Names ns P) (hp : ∀ n, P n → Q n) : ps.Names ns Q :=
  ⟨h.defined, fun n hn => hp n (h.referred n hn)⟩

theorem nil : Names [] P [] := ⟨rfl, fun _ h => by cases h⟩

theorem plain (text : String) : Names [] P [.plain text] := ⟨rfl, fun _ h => by cases h⟩

theorem reference (hn : P n) : Names [] P [.reference n] :=
  ⟨rfl, fun _ hk => by
    obtain rfl := List.mem_singleton.1 hk
    exact hn⟩

theorem append (h : ps.Names ns P) (h' : ps'.Names ns' P) : Names (ns ++ ns') P (ps ++ ps') := by
  refine ⟨?_, fun n hn => ?_⟩
  · rw [definitions, List.filterMap_append]
    exact congrArg₂ _ h.defined h'.defined
  · rw [references, List.filterMap_append] at hn
    exact (List.mem_append.1 hn).elim (h.referred n) (h'.referred n)

theorem cons (text : String) (h : ps.Names ns P) : Names ns P (.plain text :: ps) :=
  (plain text).append h

theorem snoc (h : ps.Names ns P) (text : String) : Names ns P (ps ++ [.plain text]) := by
  have hsnoc := h.append (plain text)
  rwa [List.append_nil] at hsnoc

theorem definition (h : ps.Names [] P) : Names [n] P (.definition n :: ps) :=
  ⟨congrArg (n :: ·) h.defined, h.referred⟩

theorem flatten {α : Type} {as : List α} {pss : List Passage} {f : α → List NodeId}
    {P : α → NodeId → Prop} (h : List.Forall₂ (fun a ps => Names (f a) (P a) ps) as pss) :
    Names (as.flatMap f) (fun n => ∃ a ∈ as, P a n) pss.flatten := by
  induction h with
  | nil => exact nil
  | @cons a ps as pss ha _ ih =>
    apply append
    · exact ha.mono fun n hn => ⟨a, List.mem_cons_self, hn⟩
    · apply ih.mono
      rintro n ⟨b, hb, hn⟩
      exact ⟨b, List.mem_cons_of_mem a hb, hn⟩

theorem flatten_mem {pss : List Passage} (h : ∀ ps ∈ pss, ps.Names [] P) :
    Names [] P pss.flatten := by
  induction pss with
  | nil => exact nil
  | cons ps pss ih =>
    obtain ⟨hps, hpss⟩ := List.forall_mem_cons.1 h
    exact hps.append (ih hpss)

theorem separated {pss : List Passage} (separator : String) (h : ∀ ps ∈ pss, ps.Names [] P) :
    Names [] P (Passage.separated separator pss) := by
  unfold Passage.separated
  induction pss with
  | nil => exact nil
  | cons ps pss ih =>
    obtain ⟨hps, hpss⟩ := List.forall_mem_cons.1 h
    cases pss with
    | nil => simpa using hps
    | cons ps' pss =>
      rw [List.intercalate_cons_cons]
      exact (hps.append (plain separator)).append (ih hpss)

end Names

end Passage

namespace Store

def Attaches (s : Store) (v : ValueId) (n : NodeId) : Prop := ∃ tag, s.Holds (.attachment v tag) n

def Feeds (s : Store) (v : ValueId) (n : NodeId) : Prop :=
  ∃ slot w, Query.operand v slot s = .ok (some w) ∧ s.Holds (.wrapper w) n

/-- A function refers to a node: it is attached to the function or to an instruction of its blocks,
or an operand of an instruction wraps it. -/
inductive FunctionCites (s : Store) (f : ValueId) (n : NodeId) : Prop
  | attached (attached : s.Attaches f n)
  | instruction {b i} (block : b ∈ s.childrenAt (.blocks f))
      (member : i ∈ s.childrenAt (.instructions b)) (cited : s.Attaches i n ∨ s.Feeds i n)

def holders (s : Store) (m : ModuleId) (name : String) : List HandleId :=
  (((s.modules.get? m).bind fun d => d.named.find? (·.1 = name)).map Prod.snd).getD []

/-- A module refers to a node itself: it is attached to a global, a function refers to it, or it
stands under a name of the module. -/
inductive Cites (s : Store) (m : ModuleId) (n : NodeId) : Prop
  | global {g} (member : g ∈ s.childrenAt (.globals m)) (attached : s.Attaches g n)
  | function {f} (member : f ∈ s.childrenAt (.functions m)) (cited : s.FunctionCites f n)
  | named {name h} (member : h ∈ s.holders m name) (held : s.Holds (.handle h) n)

/-- A module reaches a node through the operands of nodes that it refers to itself. -/
def Reaches (s : Store) (m : ModuleId) (n : NodeId) : Prop := ∃ r, s.Cites m r ∧ s.Leads r n

/-- References that are not followed: in the initializer of a global, and in a node that wraps a
value which wraps another. -/
inductive Overlooks (s : Store) (m : ModuleId) (n : NodeId) : Prop
  | initializer {g w} (member : g ∈ s.childrenAt (.globals m))
      (used : Query.initializer g s = .ok (some w)) (wrapped : s.Holds (.wrapper w) n)
  | nested {k d w} (reached : s.Reaches m k) (live : s.metadata.nodes.get? k = some d)
      (value : d.content = .value w) (wrapped : s.Holds (.wrapper w) n)

/-- The text of a module defines the nodes that the module reaches, each on a line of its own and
in the order of their indices. So whatever it refers to is defined once, unless it refers to the
node only where that is not followed. -/
structure Resolves (s : Store) (m : ModuleId) (ps : Passage) : Prop where
  increasing : ps.definitions.Pairwise fun n k => n.index < k.index
  defined : ∀ n, n ∈ ps.definitions ↔ s.Reaches m n
  resolved : ∀ n ∈ ps.references, ps.definitions.count n = 1 ∨ s.Overlooks m n

/-- A global, a function or an instruction of a module. Each has a line of its own in the text. -/
inductive HasLine (s : Store) (m : ModuleId) (v : ValueId) : Prop
  | global (member : v ∈ s.childrenAt (.globals m))
  | function (member : v ∈ s.childrenAt (.functions m))
  | instruction {f b} (function : f ∈ s.childrenAt (.functions m))
      (block : b ∈ s.childrenAt (.blocks f)) (member : v ∈ s.childrenAt (.instructions b))

/-- A value that stands within a line: as an operand, in a node, or as the function of a block
address. -/
inductive Prints (s : Store) (m : ModuleId) : ValueId → Prop
  | operand {v slot w} (line : s.HasLine m v) (used : Query.operand v slot s = .ok (some w)) :
      Prints s m w
  | wrapped {n d w} (reached : s.Reaches m n) (live : s.metadata.nodes.get? n = some d)
      (value : d.content = .value w) : Prints s m w
  | address {c d f} (printed : Prints s m c) (live : s.values.get? c = some d)
      (address : d.IsAddress) (used : Query.operand c 0 s = .ok (some f)) : Prints s m f

/-- A type that is spelled out: of a global, an instruction, an argument or a constant, or of what a
function returns. -/
inductive Spells (s : Store) (m : ModuleId) : TypeId → Prop
  | line {v d} (line : s.HasLine m v) (live : s.values.get? v = some d) (kind : d.kind ≠ .function) :
      Spells s m d.ty
  | result {f d result params} (member : f ∈ s.childrenAt (.functions m))
      (live : s.values.get? f = some d)
      (shape : s.types.get? d.ty = some (.function result params)) : Spells s m result
  | argument {f v d} (member : f ∈ s.childrenAt (.functions m)) (argument : v ∈ s.layout.arguments f)
      (live : s.values.get? v = some d) : Spells s m d.ty
  | constant {c d data} (printed : s.Prints m c) (live : s.values.get? c = some d)
      (constant : d.payload = .constant data) (scalar : data ≠ .blockAddress) : Spells s m d.ty

/-- Why a module has no text: the index of a type that it spells out or of a tag in one of its lines
is unknown, a handle of its named metadata has been released, or a node that it reaches has been
erased. -/
inductive Unprintable (s : Store) (m : ModuleId) : Fault → Prop
  | unspelled {ty} (spelled : s.Spells m ty) (foreign : s.types.render ty = none) :
      Unprintable s m .unknownIndex
  | untagged {v d a} (line : s.HasLine m v) (live : s.values.get? v = some d)
      (attached : a ∈ d.attachments) (foreign : s.metadata.tags[a.1.index]? = none) :
      Unprintable s m .unknownIndex
  | released {name h} (member : h ∈ s.holders m name) (dead : s.metadata.handles.get? h = none) :
      Unprintable s m (.violation (.staleHandle h))
  | erased {n} (reached : s.Reaches m n) (dead : s.metadata.nodes.get? n = none) :
      Unprintable s m (.violation (.staleNode n))

theorem holds_wrapper {s : Store} {w : ValueId} {d : Value} {n : NodeId}
    (hd : s.values.get? w = some d) : s.Holds (.wrapper w) n ↔ d.payload = .metadata n := by
  constructor
  · intro hheld
    cases hheld with
    | wrapper hd' hp => exact Option.some.inj (hd.symm.trans hd') ▸ hp
  · exact .wrapper hd

theorem holds_handle {s : Store} {h : HandleId} {n : NodeId} :
    s.Holds (.handle h) n ↔ s.metadata.handles.get? h = some (some n) := by
  constructor
  · intro hheld
    cases hheld with
    | handle hlive => exact hlive
  · exact .handle

/-- What a text relies on. -/
structure Legible (s : Store) : Prop where
  settled : s.Settled
  placed : s.layout.Placed
  filled : ∀ {c d}, s.values.get? c = some d → d.payload = .constant .blockAddress →
    ∃ f b, Query.operands c s = .ok [some f, some b]
  wrapped : ∀ {n d v}, s.metadata.nodes.get? n = some d → d.content = .value v → s.isLive v
  slotted : s.SlotsGlobals fun _ => False

namespace Legible

variable {s : Store} {c v w : ValueId} {slot : Nat} {d : Value} {n : NodeId}

theorem kind (h : s.Legible) {p : Place} (hv : v ∈ s.childrenAt p) :
    s.layout.kind v = some p.childKind :=
  kind_of_place ((h.placed.child v p).2 hv)

theorem child (h : s.Legible) {p : Place} (hv : v ∈ s.childrenAt p) :
    ∃ d, s.values.get? v = some d ∧ d.kind = p.childKind :=
  (layout_kind.1 (h.kind hv)).2

theorem blockInstructions_eq (h : s.Legible) {f b : ValueId} (hb : b ∈ s.childrenAt (.blocks f)) :
    Query.blockInstructions b s = .ok (s.childrenAt (.instructions b)) := by
  have hkind : s.layout.kind b = some .block := h.kind hb
  exact Query.blockInstructions_ok.2 ⟨hkind, rfl⟩

theorem functionBlocks_eq (h : s.Legible) {m : ModuleId} {f : ValueId}
    (hf : f ∈ s.childrenAt (.functions m)) :
    Query.functionBlocks f s = .ok (s.childrenAt (.blocks f)) := by
  have hkind : s.layout.kind f = some .function := h.kind hf
  exact Query.functionBlocks_ok.2 ⟨hkind, rfl⟩

theorem argument (h : s.Legible) {f : ValueId} (hv : v ∈ s.layout.arguments f) :
    ∃ d, s.values.get? v = some d := by
  obtain ⟨k, hk⟩ := List.mem_iff_getElem?.1 hv
  obtain ⟨d, hd, -⟩ := get?_of_position ((h.placed.argument v f k).2 hk)
  exact ⟨d, hd⟩

theorem live_of_operand (h : s.Legible) (hw : Query.operand v slot s = .ok (some w)) :
    ∃ d, s.values.get? w = some d :=
  Option.isSome_iff_exists.1 (h.settled.usesAgree.target hw)

theorem not_mergeable_of_operand (h : s.Legible) {dc dw : Value} (hc : s.values.get? c = some dc)
    (hp : dc.payload = .constant .blockAddress) (hw : Query.operand c slot s = .ok (some w))
    (hd : s.values.get? w = some dw) : ¬ dw.payload.IsMergeable := by
  obtain ⟨-, e, hbehind, he⟩ := operand_ok.1 hw
  have huser : (s.uses.edge e).user = c := (h.settled.graph.slot hbehind).2.1
  have haddress : dc.bare.IsAddress := Value.bare_payload_constant.2 hp
  have hcore : s.core.values.get? (s.uses.edge e).user = some dc.bare := by
    rw [huser, get?_core, hc]
    rfl
  obtain ⟨dt, hdt, hty⟩ := h.settled.typed.address he hcore haddress
  rw [get?_core, hd, Option.map_some] at hdt
  obtain rfl := Option.some.inj hdt
  exact not_isMergeable h.settled hd hty

end Legible

end Store

namespace Query

open Store Passage

variable {s : Store} {m : ModuleId} {v w f b i g c : ValueId} {d : Value} {n : NodeId}
variable {E : Fault → Prop} {sign : String}

section Values

theorem gives_nameText (hd : s.values.get? v = some d) :
    Gives (nameText sign v) s (fun _ => True) E := by
  unfold nameText
  rw [gives_bind, gives_of_ok (name_ok.2 ⟨d, hd, rfl⟩)]
  split <;> exact trivial

theorem gives_typeText {ty : TypeId} (h : s.Spells m ty) :
    Gives (typeText ty) s (fun _ => True) (s.Unprintable m) := by
  cases hty : s.types.render ty with
  | some text =>
    have hok : typeText ty s = .ok text := by simp only [typeText, hty]
    exact (gives_of_ok hok).2 trivial
  | none =>
    have herror : typeText ty s = .error .unknownIndex := by simp only [typeText, hty]
    exact (gives_of_error herror).2 (.unspelled h hty)

theorem gives_shape {ty : TypeId} (h : s.Spells m ty) :
    Gives (shape ty) s (fun _ => True) (s.Unprintable m) := by
  cases hty : s.types.get? ty with
  | some sh => exact (gives_of_ok (shape_ok.2 hty)).2 trivial
  | none =>
    have herror : shape ty s = .error .unknownIndex := by simp only [shape, hty]
    refine (gives_of_error herror).2 (.unspelled h ?_)
    simp [TypeTable.render, TypeTable.renderWithin, hty]

theorem gives_tagName (hline : s.HasLine m v) (hd : s.values.get? v = some d) {a : TagId × NodeId}
    (ha : a ∈ d.attachments) : Gives (tagName a.1) s (fun _ => True) (s.Unprintable m) := by
  cases htag : s.metadata.tags[a.1.index]? with
  | some text =>
    have hok : tagName a.1 s = .ok text := by simp only [tagName, htag]
    exact (gives_of_ok hok).2 trivial
  | none =>
    have herror : tagName a.1 s = .error .unknownIndex := by simp only [tagName, htag]
    exact (gives_of_error herror).2 (.untagged hline hd ha htag)

theorem gives_attachmentsPassage (hline : s.HasLine m v) (hd : s.values.get? v = some d) :
    Gives (attachmentsPassage v) s (Names [] (s.Attaches v)) (s.Unprintable m) := by
  unfold attachmentsPassage
  rw [gives_bind, gives_of_ok (attachments_ok.2 ⟨d, hd, rfl⟩), gives_bind]
  have hmap : Gives (d.attachments.mapM fun a => do
      return [.plain (", !" ++ (← tagName a.1) ++ " "), .reference a.2]) s
      (fun pss => ∀ ps ∈ pss, Names [] (s.Attaches v) ps) (s.Unprintable m) := by
    refine Gives.mapM_mem fun a ha => (gives_tagName hline hd ha).bind fun text _ => ?_
    exact (Names.reference ⟨a.1, .attachment hd ha⟩).cons _
  exact hmap.mono (fun pss hpss => .flatten_mem hpss) fun _ hx => hx

end Values

section Operands

variable {data : ConstantData} {print : ValueId → Query Passage}

theorem gives_constantPassage (h : s.Legible) (hprinted : s.Prints m c)
    (hd : s.values.get? c = some d) (hp : d.payload = .constant data)
    (hprint : data = .blockAddress → ∀ f df, s.Prints m f → s.values.get? f = some df →
      ¬ df.payload.IsMergeable →
      Gives (print f) s (Names [] fun _ => False) (s.Unprintable m)) :
    Gives (constantPassage print c) s (Names [] fun _ => False) (s.Unprintable m) := by
  have hdata : constantData c s = .ok (some data) := by
    rw [constantData, bind_ok]
    exact ⟨d.payload, payload_ok.2 ⟨d, hd, rfl⟩, by rw [hp]; rfl⟩
  unfold constantPassage
  rw [gives_bind, gives_of_ok (typeOf_ok.2 ⟨d, hd, rfl⟩), gives_bind, gives_of_ok hdata]
  have htype (hdata : data ≠ .blockAddress) :
      Gives (typeText d.ty) s (fun _ => True) (s.Unprintable m) :=
    gives_typeText (.constant hprinted hd hp hdata)
  cases data with
  | int x => exact (htype (by simp)).bind fun text _ => .plain _
  | null => exact (htype (by simp)).bind fun text _ => .plain _
  | undefined => exact (htype (by simp)).bind fun text _ => .plain _
  | blockAddress =>
    obtain ⟨f, b, hfb⟩ := h.filled hd hp
    obtain ⟨-, htargets⟩ := operands_ok.1 hfb
    have hf : operand c 0 s = .ok (some f) := operand_ok.2 ⟨⟨d, hd⟩, by rw [htargets]; rfl⟩
    have hb : operand c 1 s = .ok (some b) := operand_ok.2 ⟨⟨d, hd⟩, by rw [htargets]; rfl⟩
    obtain ⟨df, hdf⟩ := h.live_of_operand hf
    obtain ⟨db, hdb⟩ := h.live_of_operand hb
    dsimp only
    rw [gives_bind, gives_of_ok hf]
    have hfunction := hprint rfl f df (.address hprinted hd hp hf) hdf
      (h.not_mergeable_of_operand hd hp hf hdf)
    refine hfunction.bind fun ps hps => ?_
    rw [gives_bind, gives_of_ok hb]
    exact (gives_nameText hdb).bind fun text _ => (hps.cons _).snoc _

/-- Block addresses are the only operands with operands of their own, none of which is a block
address. So constants nest twice at most. -/
theorem gives_operandPassageWithin (h : s.Legible) {depth : Nat} (hprinted : s.Prints m v)
    (hd : s.values.get? v = some d) (hdepth : 0 < depth)
    (haddress : d.payload = .constant .blockAddress → 1 < depth) :
    Gives (operandPassageWithin depth v) s (Names [] (s.Holds (.wrapper v)))
      (s.Unprintable m) := by
  induction depth generalizing v d with
  | zero => exact absurd hdepth (Nat.lt_irrefl 0)
  | succ depth ih =>
    have hname {f : String → String} {sign : String} : Gives (do
        return [.plain (f (← nameText sign v))]) s (Names [] (s.Holds (.wrapper v)))
        (s.Unprintable m) := (gives_nameText hd).bind fun text _ => .plain _
    have hkind : d.kind = d.payload.kind := rfl
    rw [operandPassageWithin, gives_bind, gives_of_ok (kind_ok.2 ⟨d, hd, rfl⟩), hkind]
    cases hp : d.payload with
    | argument => exact hname (f := id)
    | block => exact hname
    | function => exact hname (f := id)
    | global => exact hname (f := id)
    | instruction => exact hname (f := id)
    | metadata n =>
      have hwrapped : wrappedNode v s = .ok (some n) :=
        wrappedNode_ok.2 ⟨d, hd, Value.wrapped?_eq_some.2 hp⟩
      dsimp only [Payload.kind]
      rw [gives_bind, gives_of_ok hwrapped]
      exact (Names.reference (.wrapper hd hp)).cons _
    | constant data =>
      refine (gives_constantPassage h hprinted hd hp fun hdata f df hf hdf hmerge => ?_).mono
        (fun ps hps => hps.mono fun _ hn => hn.elim) fun _ hx => hx
      -- An operand of a block address wraps no node and is no block address itself.
      have hnested : d.payload = .constant .blockAddress := by rw [hp, hdata]
      have hdepth : 0 < depth := Nat.lt_of_succ_lt_succ (haddress hnested)
      refine (ih hf hdf hdepth fun haddr => absurd (.inr haddr) hmerge).mono
        (fun ps hps => hps.mono fun n hn => hmerge ?_) fun _ hx => hx
      exact .inl (congrArg Payload.kind ((holds_wrapper hdf).1 hn))

theorem gives_operandPassage (h : s.Legible) (hprinted : s.Prints m v)
    (hd : s.values.get? v = some d) :
    Gives (operandPassage v) s (Names [] (s.Holds (.wrapper v))) (s.Unprintable m) := by
  have hsize : 0 < s.values.size := Nat.zero_lt_of_lt (Arena.lt_size_of_get? hd)
  rw [operandPassage, gives_bind, gives_read]
  exact gives_operandPassageWithin h hprinted hd (Nat.succ_pos _) fun _ => Nat.succ_lt_succ hsize

theorem gives_slots (h : s.Legible) (hline : s.HasLine m v) (hd : s.values.get? v = some d) :
    Gives ((s.uses.targets v).mapM slotPassage) s (fun pss => ∀ ps ∈ pss, Names [] (s.Feeds v) ps)
      (s.Unprintable m) := by
  refine Gives.mapM_mem fun o ho => ?_
  cases o with
  | none => exact .plain _
  | some w =>
    obtain ⟨slot, hslot⟩ := List.mem_iff_getElem?.1 ho
    have hw : operand v slot s = .ok (some w) := operand_ok.2 ⟨⟨d, hd⟩, hslot⟩
    obtain ⟨dw, hdw⟩ := h.live_of_operand hw
    exact (gives_operandPassage h (.operand hline hw) hdw).mono
      (fun ps hps => hps.mono fun n hn => ⟨slot, w, hw, hn⟩) fun _ hx => hx

theorem gives_resultText (hline : s.HasLine m i) (hd : s.values.get? i = some d)
    (hk : d.kind = .instruction) : Gives (resultText i) s (fun _ => True) (s.Unprintable m) := by
  unfold resultText
  rw [gives_bind, gives_of_ok (typeOf_ok.2 ⟨d, hd, rfl⟩)]
  refine (gives_shape (.line hline hd (by simp [hk]))).bind fun sh _ => ?_
  cases sh with
  | void => exact trivial
  | _ => exact (gives_nameText hd).bind fun _ _ => trivial

theorem opcode_ok {text : String} : opcode i s = .ok text ↔
    ∃ d b, s.values.get? i = some d ∧ d.payload = .instruction b text := by
  simp only [opcode, bind_ok, payload_ok]
  constructor
  · rintro ⟨p, ⟨d, hd, rfl⟩, hp⟩
    cases hd' : d.payload <;> simp_all
  · rintro ⟨d, b, hd, hp⟩
    exact ⟨_, ⟨d, hd, hp⟩, by simp⟩

theorem gives_instructionPassage (h : s.Legible) (hline : s.HasLine m i)
    (hd : s.values.get? i = some d) (hk : d.kind = .instruction) : Gives (instructionPassage i) s
      (Names [] fun n => s.Attaches i n ∨ s.Feeds i n) (s.Unprintable m) := by
  obtain ⟨b, text, hp⟩ : ∃ b text, d.payload = .instruction b text := by
    have hkind : d.payload.kind = .instruction := hk
    cases hp : d.payload <;> simp_all [Payload.kind]
  unfold instructionPassage
  refine (gives_resultText hline hd hk).bind fun result _ => ?_
  rw [gives_bind, gives_of_ok (opcode_ok.2 ⟨d, b, hd, hp⟩), gives_bind,
    gives_of_ok (typeOf_ok.2 ⟨d, hd, rfl⟩)]
  refine (gives_typeText (.line hline hd (by simp [hk]))).bind fun tyText _ => ?_
  rw [gives_bind, gives_of_ok (operands_ok.2 ⟨⟨d, hd⟩, rfl⟩)]
  refine (gives_slots h hline hd).bind fun slots hslots => ?_
  refine (gives_attachmentsPassage hline hd).bind fun attached hattached => ?_
  have hoperands : Names [] (fun n => s.Attaches i n ∨ s.Feeds i n)
      (if slots.isEmpty then [] else .plain " " :: separated ", " slots) := by
    split
    · exact .nil
    · exact ((Names.separated _ hslots).mono fun n hn => .inr hn).cons _
  exact ((hoperands.cons _).append (hattached.mono fun n hn => .inl hn)).snoc _

end Operands

section Containers

theorem gives_blockPassage (h : s.Legible) (hf : f ∈ s.childrenAt (.functions m))
    (hb : b ∈ s.childrenAt (.blocks f)) : Gives (blockPassage b) s
      (Names [] fun n => ∃ i ∈ s.childrenAt (.instructions b), s.Attaches i n ∨ s.Feeds i n)
      (s.Unprintable m) := by
  obtain ⟨d, hd, -⟩ := h.child hb
  unfold blockPassage
  refine (gives_nameText hd).bind fun label _ => ?_
  rw [gives_bind, gives_of_ok (h.blockInstructions_eq hb)]
  refine Gives.bind (Gives.mapM_mem fun i hi => ?_) fun insts hinsts =>
    (Names.flatten_mem hinsts).cons _
  obtain ⟨di, hdi, hki⟩ := h.child hi
  exact (gives_instructionPassage h (.instruction hf hb hi) hdi hki).mono
    (fun ps hps => hps.mono fun n hn => ⟨i, hi, hn⟩) fun _ hx => hx

theorem gives_argumentText (hf : f ∈ s.childrenAt (.functions m)) (hv : v ∈ s.layout.arguments f)
    (hd : s.values.get? v = some d) : Gives (argumentText v) s (fun _ => True) (s.Unprintable m) := by
  unfold argumentText
  rw [gives_bind, gives_of_ok (typeOf_ok.2 ⟨d, hd, rfl⟩)]
  exact (gives_typeText (.argument hf hv hd)).bind fun _ _ =>
    (gives_nameText hd).bind fun _ _ => trivial

theorem gives_functionPassage (h : s.Legible) (hf : f ∈ s.childrenAt (.functions m)) :
    Gives (functionPassage f) s (Names [] (s.FunctionCites f)) (s.Unprintable m) := by
  obtain ⟨d, hd, hk⟩ := h.child hf
  have hkind : s.layout.kind f = some .function := h.kind hf
  obtain ⟨result, params, hty⟩ : ∃ result params,
      s.types.get? d.ty = some (.function result params) := by
    have hwell := h.settled.typed.values (d := d.bare) (by rw [get?_core, hd]; rfl)
    exact hwell.function ((Value.kind_bare d).trans hk)
  unfold functionPassage
  rw [gives_bind, gives_of_ok (typeOf_ok.2 ⟨d, hd, rfl⟩), gives_bind, gives_of_ok (shape_ok.2 hty)]
  dsimp only
  rw [gives_bind, gives_of_ok (h.functionBlocks_eq hf)]
  refine (gives_typeText (.result hf hd hty)).bind fun resultText _ => ?_
  refine (gives_nameText hd).bind fun name _ => ?_
  rw [gives_bind, gives_of_ok (functionArguments_ok.2 ⟨hkind, rfl⟩)]
  refine Gives.bind (Gives.mapM_mem (R := fun _ => True) fun v hv => ?_) fun arguments _ => ?_
  · obtain ⟨dv, hdv⟩ := h.argument hv
    exact gives_argumentText hf hv hdv
  refine (gives_attachmentsPassage (.function hf) hd).bind fun attached hattached => ?_
  have hhead := hattached.mono fun n hn => FunctionCites.attached hn
  split
  · exact (hhead.cons _).snoc _
  · have hblocks : Gives ((s.childrenAt (.blocks f)).mapM blockPassage) s
        (fun pss => ∀ ps ∈ pss, Names [] (s.FunctionCites f) ps) (s.Unprintable m) := by
      refine Gives.mapM_mem fun b hb => (gives_blockPassage h hf hb).mono
        (fun ps hps => hps.mono ?_) fun _ hx => hx
      rintro n ⟨i, hi, hn⟩
      exact .instruction hb hi hn
    exact hblocks.bind fun body hbody =>
      (((hhead.cons _).snoc _).append (Names.flatten_mem hbody)).snoc _

theorem exists_initializer (h : s.Legible) (hd : s.values.get? g = some d) (hk : d.kind = .global) :
    ∃ o, initializer g s = .ok o := by
  have hslots : s.uses.slotsOf g ≠ [] := (h.slotted g d hd hk).resolve_left id
  refine ⟨(s.uses.edge ((s.uses.slotsOf g).head hslots)).target, ?_⟩
  refine bind_ok.2 ⟨(), expectKind_ok.2 ⟨d, hd, hk⟩, operand_ok.2 ⟨⟨d, hd⟩, ?_⟩⟩
  rw [UseGraph.targets, List.getElem?_map, ← List.head?_eq_getElem?, List.head?_eq_some_head hslots]
  rfl

theorem gives_globalPassage (h : s.Legible) (hg : g ∈ s.childrenAt (.globals m)) :
    Gives (globalPassage g) s (Names [] fun n => s.Cites m n ∨ s.Overlooks m n)
      (s.Unprintable m) := by
  obtain ⟨d, hd, hk⟩ := h.child hg
  unfold globalPassage
  refine (gives_nameText hd).bind fun name _ => ?_
  obtain ⟨o, hinit⟩ := exists_initializer h hd hk
  rw [gives_bind, gives_of_ok (typeOf_ok.2 ⟨d, hd, rfl⟩), gives_bind, gives_of_ok hinit]
  have htype : Gives (typeText d.ty) s (fun _ => True) (s.Unprintable m) :=
    gives_typeText (.line (.global hg) hd (by simp [hk, Place.childKind]))
  have hend {content : Passage}
      (hcontent : Names [] (fun n => s.Cites m n ∨ s.Overlooks m n) content) :
      Gives (do return .plain name :: content ++ (← attachmentsPassage g) ++ [.plain "\n"]) s
        (Names [] fun n => s.Cites m n ∨ s.Overlooks m n) (s.Unprintable m) :=
    (gives_attachmentsPassage (.global hg) hd).bind fun attached hattached =>
      ((hcontent.cons _).append (hattached.mono fun n hn => .inl (.global hg hn))).snoc _
  cases o with
  | none => exact htype.bind fun tyText _ => hend (.plain _)
  | some w =>
    obtain ⟨-, -, ho⟩ := bind_ok.1 hinit
    obtain ⟨dw, hdw⟩ := h.live_of_operand ho
    refine htype.bind fun tyText _ => ?_
    refine (gives_operandPassage h (.operand (.global hg) ho) hdw).bind fun ps hps => hend ?_
    exact (hps.mono fun n hn => .inr (.initializer hg hinit hn)).cons _

end Containers

section Nodes

variable {k : NodeId} {dm : Module} {name : String}

theorem names_braced {P : NodeId → Prop} {nodes : List Piece}
    (h : ∀ p ∈ nodes, Names [] P [p]) : Names [] P (bracedPassage nodes) := by
  have hnodes : ∀ ps ∈ nodes.map fun p => [p], Names [] P ps := by
    intro ps hps
    obtain ⟨p, hp, rfl⟩ := List.mem_map.1 hps
    exact h p hp
  exact ((Names.separated _ hnodes).cons _).snoc _

theorem namedMetadataNames_ok {names : List String} : namedMetadataNames m s = .ok names ↔
    ∃ d, s.modules.get? m = some d ∧ d.named.map Prod.fst = names := by
  simp only [namedMetadataNames, bind_ok, module_ok, pure_ok]

theorem gives_namedMetadata (hm : s.modules.get? m = some dm) :
    Gives (namedMetadata m name) s
      (fun ns => ∀ n, n ∈ ns ↔ ∃ h ∈ s.holders m name, s.Holds (.handle h) n)
      (s.Unprintable m) := by
  unfold namedMetadata
  rw [gives_bind, gives_of_ok (module_ok.2 hm)]
  have hholders : s.holders m name = ((dm.named.find? (·.1 = name)).map Prod.snd).getD [] := by
    rw [holders, hm, Option.bind_some]
  cases hfind : dm.named.find? (·.1 = name) with
  | none =>
    rw [hfind] at hholders
    simp [hholders]
  | some entry =>
    rw [hfind] at hholders
    replace hholders : s.holders m name = entry.2 := hholders
    rw [hholders]
    refine (Gives.filterMap fun h hh => ?_).bind fun os hos => hos
    cases htarget : s.metadata.handles.get? h with
    | some o =>
      refine (gives_of_ok (handle_ok.2 htarget)).2 fun n => ?_
      rw [holds_handle, htarget, Option.some.injEq]
    | none =>
      have herror : handle h s = .error (.violation (.staleHandle h)) := by
        simp only [handle, htarget]
      exact (gives_of_error herror).2 (.released (hholders ▸ hh) htarget)

theorem gives_namedPassage (hm : s.modules.get? m = some dm) :
    Gives (namedPassage m name) s (Names [] (s.Cites m)) (s.Unprintable m) := by
  unfold namedPassage
  refine (gives_namedMetadata hm).bind fun ns hns => ?_
  have hnodes : ∀ p ∈ ns.map Piece.reference, Names [] (s.Cites m) [p] := by
    intro p hp
    obtain ⟨n, hn, rfl⟩ := List.mem_map.1 hp
    obtain ⟨h, hh, hheld⟩ := (hns n).1 hn
    exact .reference (.named hh hheld)
  exact ((names_braced hnodes).cons _).snoc _

theorem gives_nodePassage (h : s.Legible) (hn : s.Reaches m n) :
    Gives (nodePassage n) s (Names [n] fun k => s.Reaches m k ∨ s.Overlooks m k)
      (s.Unprintable m) := by
  unfold nodePassage
  cases hd : s.metadata.nodes.get? n with
  | none =>
    have herror : node n s = .error (.violation (.staleNode n)) := by simp only [node, hd]
    rw [gives_bind, gives_of_error herror]
    exact .erased hn hd
  | some d =>
    rw [gives_bind, gives_of_ok (node_ok.2 hd)]
    have hend {content : Passage}
        (hcontent : Names [] (fun k => s.Reaches m k ∨ s.Overlooks m k) content) :
        Names [n] (fun k => s.Reaches m k ∨ s.Overlooks m k)
          (.definition n :: content ++ [.plain "\n"]) := (hcontent.snoc _).definition
    cases hc : d.content with
    | string text => exact hend (.plain _)
    | value v =>
      obtain ⟨dv, hdv⟩ := Option.isSome_iff_exists.1 (h.wrapped hd hc)
      refine (gives_operandPassage h (.wrapped hn hd hc) hdv).bind fun ps hps => hend ?_
      exact ((hps.mono fun k hk => .inr (.nested hn hd hc hk)).cons _).snoc _
    | tuple ops =>
      obtain ⟨r, hr, hrn⟩ := hn
      have hops : ∀ p ∈ ops.map nodePiece, Names [] (s.Reaches m) [p] := by
        intro p hp
        obtain ⟨o, ho, rfl⟩ := List.mem_map.1 hp
        cases o with
        | none => exact .plain _
        | some k =>
          obtain ⟨slot, hslot⟩ := List.mem_iff_getElem?.1 ho
          exact .reference ⟨r, hr, hrn.tail ⟨slot, .operand hd hc hslot⟩⟩
      exact hend (((names_braced hops).mono fun k hk => .inl hk).cons _)

theorem gives_attachedNodes (hd : s.values.get? v = some d) :
    Gives (attachedNodes v) s (fun ns => ∀ n, n ∈ ns ↔ s.Attaches v n) E := by
  unfold attachedNodes
  rw [gives_bind, gives_of_ok (attachments_ok.2 ⟨d, hd, rfl⟩)]
  intro n
  constructor
  · intro hn
    obtain ⟨a, ha, rfl⟩ := List.mem_map.1 hn
    exact ⟨a.1, .attachment hd ha⟩
  · rintro ⟨tag, hheld⟩
    cases hheld with
    | attachment hd' ha =>
      obtain rfl := Option.some.inj (hd.symm.trans hd')
      exact List.mem_map.2 ⟨_, ha, rfl⟩

theorem gives_instructionNodes (h : s.Legible) (hd : s.values.get? i = some d) :
    Gives (instructionNodes i) s (fun ns => ∀ n, n ∈ ns ↔ s.Attaches i n ∨ s.Feeds i n) E := by
  unfold instructionNodes
  refine (gives_attachedNodes hd).bind fun attached hattached => ?_
  rw [gives_bind, gives_of_ok (operands_ok.2 ⟨⟨d, hd⟩, rfl⟩)]
  have hfed : ∀ n, (∃ o ∈ s.uses.targets i, ∃ w, o = some w ∧ s.Holds (.wrapper w) n) ↔
      s.Feeds i n := by
    intro n
    constructor
    · rintro ⟨-, ho, w, rfl, hw⟩
      obtain ⟨slot, hslot⟩ := List.mem_iff_getElem?.1 ho
      exact ⟨slot, w, operand_ok.2 ⟨⟨d, hd⟩, hslot⟩, hw⟩
    · rintro ⟨slot, w, hw, hn⟩
      exact ⟨some w, List.mem_of_getElem? (operand_ok.1 hw).2, w, rfl, hn⟩
  refine (Gives.filterMap (P := fun o n => ∃ w, o = some w ∧ s.Holds (.wrapper w) n)
    fun o ho => ?_).bind fun os hos => ?_
  · cases o with
    | none => exact fun n => by simp
    | some w =>
      obtain ⟨slot, hslot⟩ := List.mem_iff_getElem?.1 ho
      obtain ⟨dw, hdw⟩ := h.live_of_operand (operand_ok.2 ⟨⟨d, hd⟩, hslot⟩)
      refine (gives_of_ok (wrappedNode_ok.2 ⟨dw, hdw, rfl⟩)).2 fun n => ?_
      rw [Value.wrapped?_eq_some]
      simp only [Option.some.injEq, exists_eq_left', holds_wrapper hdw]
  · intro n
    rw [List.mem_append, hattached, hos, hfed]

theorem gives_functionNodes (h : s.Legible) (hf : f ∈ s.childrenAt (.functions m)) :
    Gives (functionNodes f) s (fun ns => ∀ n, n ∈ ns ↔ s.FunctionCites f n) E := by
  obtain ⟨d, hd, -⟩ := h.child hf
  unfold functionNodes
  refine (gives_attachedNodes hd).bind fun attached hattached => ?_
  rw [gives_bind, gives_of_ok (h.functionBlocks_eq hf)]
  refine (Gives.flatten (P := fun b n => ∃ i ∈ s.childrenAt (.instructions b),
    s.Attaches i n ∨ s.Feeds i n) fun b hb => ?_).bind fun bodies hbodies => ?_
  · rw [gives_bind, gives_of_ok (h.blockInstructions_eq hb)]
    refine Gives.bind (Gives.flatten fun i hi => ?_) fun ns hns => hns
    obtain ⟨di, hdi, -⟩ := h.child hi
    exact gives_instructionNodes h hdi
  · intro n
    rw [List.mem_append, hattached, hbodies]
    constructor
    · rintro (hn | ⟨b, hb, i, hi, hn⟩)
      · exact .attached hn
      · exact .instruction hb hi hn
    · rintro (hn | ⟨hb, hi, hn⟩)
      · exact .inl hn
      · exact .inr ⟨_, hb, _, hi, hn⟩

theorem gives_moduleNodes (h : s.Legible) (hm : s.modules.get? m = some dm) :
    Gives (moduleNodes m) s (fun ns => ∀ n, n ∈ ns ↔ s.Cites m n) (s.Unprintable m) := by
  have hglobals : s.childrenAt (.globals m) = dm.globals := layout_globals hm
  have hfunctions : s.childrenAt (.functions m) = dm.functions := layout_functions hm
  unfold moduleNodes
  rw [gives_bind, gives_of_ok (module_ok.2 hm), ← hglobals, ← hfunctions]
  refine (Gives.flatten (P := s.Attaches) fun g hg => ?_).bind fun globals hg => ?_
  · obtain ⟨d, hd, -⟩ := h.child hg
    exact gives_attachedNodes hd
  refine (Gives.flatten fun f hf => gives_functionNodes h hf).bind fun functions hf => ?_
  rw [gives_bind, gives_of_ok (namedMetadataNames_ok.2 ⟨dm, hm, rfl⟩)]
  refine (Gives.flatten fun name _ => gives_namedMetadata hm).bind fun named hn => ?_
  intro n
  rw [List.mem_append, List.mem_append, hg, hf, hn]
  constructor
  · rintro ((⟨g, hg, hn⟩ | ⟨f, hf, hn⟩) | ⟨name, -, h, hh, hn⟩)
    · exact .global hg hn
    · exact .function hf hn
    · exact .named hh hn
  · rintro (⟨hg, hn⟩ | ⟨hf, hn⟩ | @⟨name, h, hh, hn⟩)
    · exact .inl (.inl ⟨_, hg, hn⟩)
    · exact .inl (.inr ⟨_, hf, hn⟩)
    · -- A name with handles under it is among the names of the module.
      refine .inr ⟨name, ?_, h, hh, hn⟩
      rw [holders, hm, Option.bind_some] at hh
      cases hfind : dm.named.find? (·.1 = name) with
      | none => simp [hfind] at hh
      | some entry =>
        have hname : entry.1 = name := by simpa using List.find?_some hfind
        exact List.mem_map.2 ⟨entry, List.mem_of_find?_eq_some hfind, hname⟩

theorem resolves_of_names {ns : List NodeId} {ps : Passage}
    (hsorted : ns.Pairwise fun n k => n.index < k.index) (hreach : ∀ n, n ∈ ns ↔ s.Reaches m n)
    (h : Names ns (fun n => s.Reaches m n ∨ s.Overlooks m n) ps) : s.Resolves m ps := by
  have hnodup : ns.Nodup := by
    rw [List.nodup_iff_pairwise_ne]
    refine hsorted.imp fun {n k} hlt heq => ?_
    rw [heq] at hlt
    exact Nat.lt_irrefl _ hlt
  rw [← h.defined] at hsorted hreach hnodup
  refine ⟨hsorted, hreach, fun n hn => ?_⟩
  rcases h.referred n hn with hr | ho
  · exact .inl (List.count_eq_one_of_mem hnodup ((hreach n).2 hr))
  · exact .inr ho

theorem gives_modulePassage (h : s.Legible) (hm : s.modules.get? m = some dm) :
    Gives (modulePassage m) s (s.Resolves m) (s.Unprintable m) := by
  have hglobals : s.childrenAt (.globals m) = dm.globals := layout_globals hm
  have hfunctions : s.childrenAt (.functions m) = dm.functions := layout_functions hm
  have hcites {n : NodeId} (hn : s.Cites m n) : s.Reaches m n ∨ s.Overlooks m n :=
    .inl ⟨n, hn, .refl⟩
  unfold modulePassage
  rw [gives_bind, gives_of_ok (module_ok.2 hm), ← hglobals, ← hfunctions]
  -- Each part defines nothing before the lines of the nodes, which define what the walk has found.
  refine (Gives.mapM_mem fun g hg => gives_globalPassage h hg).bind fun globals hg => ?_
  have hfunction : ∀ f ∈ s.childrenAt (.functions m), Gives (do
      return .plain "\n" :: (← functionPassage f)) s (Names [] (s.Cites m)) (s.Unprintable m) :=
    fun f hf => (gives_functionPassage h hf).bind fun ps hps =>
      (hps.mono fun n hn => .function hf hn).cons _
  refine (Gives.mapM_mem hfunction).bind fun functions hf => ?_
  rw [gives_bind, gives_of_ok (namedMetadataNames_ok.2 ⟨dm, hm, rfl⟩)]
  refine (Gives.mapM_mem fun name _ => gives_namedPassage hm).bind fun named hn => ?_
  refine ((gives_reachableNodes (gives_moduleNodes h hm)).mono (fun _ h => h) ?_).bind
    fun ns hns => ?_
  · rintro x (hx | ⟨n, hreached, hdead, rfl⟩)
    · exact hx
    · exact .erased hreached hdead
  refine (Gives.mapM fun n hn => gives_nodePassage h ((hns.2 n).1 hn)).bind fun nodes hnodes => ?_
  apply resolves_of_names hns.1 hns.2
  have hglobals := (Names.flatten_mem hg).mono fun n hn => hn.elim hcites .inr
  have hfunctions := (Names.flatten_mem hf).mono fun n hn => hcites hn
  have hnamed := (Names.flatten_mem hn).mono fun n hn => hcites hn
  have hlines := (Names.flatten hnodes).mono fun k ⟨n, _, hk⟩ => hk
  rw [List.flatMap_singleton'] at hlines
  have hbreak (b : Bool) : Names [] (fun n => s.Reaches m n ∨ s.Overlooks m n)
      (if b then [] else [.plain "\n"]) := by
    cases b
    · exact .plain _
    · exact .nil
  exact (((((hglobals.cons _).append hfunctions).append (hbreak _)).append hnamed).append
    (hbreak _)).append hlines

end Nodes

end Query

namespace Command

open Query

/-- In a store that orderly commands leave, each module has a text that defines what it refers to,
but for references that are not followed, unless something that the text needs is unknown or
gone. -/
theorem printModule_afterAll (hash : String → UInt64) (config : Config) {cs : List Command}
    (h : orderly { hash, config } cs = true) {m : ModuleId}
    (hm : (afterAll { hash, config } cs).isModuleLive m = true) :
    (∃ ps, modulePassage m (afterAll { hash, config } cs) = .ok ps ∧
      printModule m (afterAll { hash, config } cs) = .ok (Text.trimEnd ps.text) ∧
      (afterAll { hash, config } cs).Resolves m ps) ∨
    ∃ x, printModule m (afterAll { hash, config } cs) = .error x ∧
      (afterAll { hash, config } cs).Unprintable m x := by
  obtain ⟨hsettled, hlayout⟩ :=
    sound_afterAll h List.prefix_rfl (Store.settled_empty hash config) (consistent_empty hash config)
  have hcoherent := coherent_afterAll hash config cs
  have hnodes := Store.nodesAgree hcoherent.settled hcoherent.wrapping
  have hlegible : (afterAll { hash, config } cs).Legible :=
    ⟨hsettled, hlayout.placed, hcoherent.keyed.constantsAgree.filled,
      fun hd hc => hnodes.wrapped ((hnodes.nodeOf _ _).2 ⟨_, hd, hc⟩),
      slotsGlobals_afterAll hash config cs⟩
  obtain ⟨dm, hm⟩ := Option.isSome_iff_exists.1 hm
  have hgives := gives_modulePassage hlegible hm
  unfold Gives at hgives
  cases hps : modulePassage m (afterAll { hash, config } cs) with
  | ok ps =>
    rw [hps] at hgives
    exact .inl ⟨ps, rfl, bind_ok.2 ⟨ps, hps, rfl⟩, hgives⟩
  | error x =>
    rw [hps] at hgives
    have herror : printModule m (afterAll { hash, config } cs) = .error x := by
      simp only [printModule, bind, ReaderT.bind, hps, Except.bind]
    exact .inr ⟨x, herror, hgives⟩

/-- A call refers to a string. A distinct node, which is attached to the call and stands under a
name, refers to itself and to a node that wraps a constant. -/
def cyclicNode : List Command :=
  [.internType .void, .internType (.function ⟨0⟩ []), .internType (.int 32), .createModule "m",
    .createFunction ⟨0⟩ "f" ⟨1⟩, .createBlock ⟨0⟩ "entry", .constInt ⟨2⟩ 7, .valueNode ⟨2⟩,
    .stringNode "x", .wrapperValue ⟨1⟩, .distinctTuple [some ⟨0⟩, none],
    .setNodeOperand ⟨2⟩ 1 (some ⟨2⟩),
    .buildInstruction "call" ⟨0⟩ [some ⟨3⟩] none (.append ⟨1⟩), .internTag "dbg",
    .setMetadata ⟨4⟩ ⟨0⟩ (some ⟨2⟩), .addNamedMetadata ⟨0⟩ "all" ⟨2⟩, .stringNode "y"]

theorem printModule_cyclicNode : orderly {} cyclicNode = true ∧
    (afterAll {} cyclicNode).isModuleLive ⟨0⟩ = true ∧
    ∃ ps, modulePassage ⟨0⟩ (afterAll {} cyclicNode) = .ok ps ∧
      printModule ⟨0⟩ (afterAll {} cyclicNode) = .ok (Text.trimEnd ps.text) ∧
      ps.definitions = [⟨0⟩, ⟨1⟩, ⟨2⟩] ∧ (afterAll {} cyclicNode).Resolves ⟨0⟩ ps := by
  have horderly : orderly {} cyclicNode = true := by decide +kernel
  have hlive : (afterAll {} cyclicNode).isModuleLive ⟨0⟩ = true := by decide +kernel
  have hlines : (modulePassage ⟨0⟩ (afterAll {} cyclicNode)).map Passage.definitions =
      .ok [⟨0⟩, ⟨1⟩, ⟨2⟩] := by decide +kernel
  refine ⟨horderly, hlive, ?_⟩
  rcases printModule_afterAll nameHash {} horderly hlive with ⟨ps, hps, htext, hresolves⟩ | ⟨x, hx, -⟩
  · rw [hps] at hlines
    exact ⟨ps, hps, htext, Except.ok.inj hlines, hresolves⟩
  · cases hps : modulePassage ⟨0⟩ (afterAll {} cyclicNode) with
    | ok ps =>
      have htext : printModule ⟨0⟩ (afterAll {} cyclicNode) = .ok (Text.trimEnd ps.text) :=
        bind_ok.2 ⟨ps, hps, rfl⟩
      rw [hx] at htext
      cases htext
    | error y =>
      rw [hps] at hlines
      cases hlines

/-- A global is initialised with the wrapper of a string. -/
def wrapperInitializer : List Command :=
  [.internType .metadata, .createModule "m", .stringNode "x", .wrapperValue ⟨0⟩,
    .createGlobal ⟨0⟩ "g" ⟨0⟩ (some ⟨0⟩)]

/-- The text refers to the string in the initializer and does not define it. -/
theorem printModule_wrapperInitializer : allAnswer {} wrapperInitializer = true ∧
    printModule ⟨0⟩ (afterAll {} wrapperInitializer) =
      .ok "; module m\n@g = global metadata metadata !0" := by
  decide +kernel

end Command

end ShaderIR
