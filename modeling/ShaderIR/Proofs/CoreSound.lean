import ShaderIR.Proofs.Answers
import ShaderIR.Proofs.EdgeOwnership
import ShaderIR.Proofs.TrackerLaws

/-! What holds of the core of every store. A record says for each location which node the tracker
believes it to hold. Between two commands that is what the location does hold; while a replacement
runs, the locations that it has still to visit hold a node and are not recorded. -/

namespace ShaderIR

def Value.IsAddress (d : Value) : Prop := d.payload = .constant .blockAddress

structure Value.WellTyped (types : TypeTable) (d : Value) : Prop where
  block : d.kind = .block → types.get? d.ty = some .label
  function : d.kind = .function → ∃ result params,
    types.get? d.ty = some (.function result params)
  wrapper : d.kind = .metadata → types.get? d.ty = some .metadata
  address : d.IsAddress → types.get? d.ty = some .ptr

structure Value.SameSort (d d' : Value) : Prop where
  ty : d'.ty = d.ty
  kind : d'.kind = d.kind
  address : d'.IsAddress ↔ d.IsAddress

def TypeTable.IsAddressable (types : TypeTable) (ty : TypeId) : Prop :=
  types.get? ty = some .label ∨ ∃ result params, types.get? ty = some (.function result params)

def Node.IsReplaceable (d : Node) : Prop := d.storage = .temporary ∨ ∃ v, d.content = .value v

structure Metadata.Consistent (md : Metadata) : Prop where
  replaceable : ∀ n, md.tracker.isReplaceable n ↔
    ∃ d, md.nodes.get? n = some d ∧ d.IsReplaceable
  value : ∀ {n d v}, md.nodes.get? n = some d → d.content = .value v → d.storage = .uniqued
  temporary : ∀ {n d}, md.nodes.get? n = some d → d.storage = .temporary →
    ∃ ops, d.content = .tuple ops
  nodeOf : ∀ v n, md.nodeOf[v]? = some n ↔
    ∃ d, md.nodes.get? n = some d ∧ d.content = .value v

structure Value.WellAttached (d : Value) : Prop where
  tags : (d.attachments.map Prod.fst).Nodup
  wrapper : d.kind = .metadata → d.attachments = []

namespace Core

def IsLive (c : Core) (v : ValueId) : Prop := ∃ d, c.values.get? v = some d

def held (c : Core) : Location → Option NodeId
  | .operand n position =>
    (c.metadata.nodes.get? n).bind fun d => d.content.operands[position]?.join
  | .wrapper v => (c.values.get? v).bind Value.wrapped?
  | .handle h => (c.metadata.handles.get? h).join
  | .attachment v tag =>
    (c.values.get? v).bind fun d => (d.attachments.find? (·.1 = tag)).map Prod.snd

/-- Types are interned, values have the types of their kinds, and block addresses refer to values
of types that no block address and no wrapper has. -/
structure Typed (c : Core) : Prop where
  distinct : c.types.shapes.Nodup
  values : ∀ {v d}, c.values.get? v = some d → d.WellTyped c.types
  address : ∀ {e t d}, (c.uses.edge e).target = some t →
    c.values.get? (c.uses.edge e).user = some d → d.IsAddress →
    ∃ dt, c.values.get? t = some dt ∧ c.types.IsAddressable dt.ty

/-- The tracker follows a record of what the locations hold. -/
structure Recorded (c : Core) (r : Location → Option NodeId) : Prop where
  follows : c.metadata.tracker.Follows r
  held : ∀ {l n}, r l = some n → c.held l = some n
  wrapperOf : ∀ {n w}, c.metadata.wrapperOf[n]? = some w → c.held (.wrapper w) = some n
  wrapper : ∀ {w n}, r (.wrapper w) = some n → c.metadata.wrapperOf[n]? = some w
  bound : ∀ {l n}, c.held l = some n → n.index < c.metadata.nodes.size

structure Sound (c : Core) (r : Location → Option NodeId) : Prop where
  graph : c.uses.Sound c.IsLive
  typed : c.Typed
  consistent : c.metadata.Consistent
  attached : ∀ {v d}, c.values.get? v = some d → d.WellAttached
  recorded : c.Recorded r

end Core

/-- Between two commands the record is what the locations hold. -/
def Store.Settled (s : Store) : Prop := s.core.Sound s.core.held

theorem Store.get?_core (s : Store) (v : ValueId) :
    s.core.values.get? v = (s.values.get? v).map Value.bare :=
  Arena.get?_map ..

theorem Store.isLive_core {s : Store} {v : ValueId} :
    s.core.IsLive v ↔ ∃ d, s.values.get? v = some d := by
  simp [Core.IsLive, get?_core]

theorem Store.held_core (s : Store) : s.core.held = s.held? := by
  funext l
  cases l with
  | operand n position => rfl
  | wrapper v =>
    simp only [Core.held, held?, get?_core, Option.bind_map]
    rcases s.values.get? v with _ | ⟨_, p, _, _, _⟩
    · rfl
    · cases p <;> rfl
  | handle h => rfl
  | attachment v tag =>
    simp only [Core.held, held?, get?_core, Option.bind_map]
    rfl

@[simp] theorem Arena.get?_empty {α : Type} {e : Entity} (i : Index e) :
    ({} : Arena e α).get? i = none :=
  get?_eq_none_of_size_le (Nat.zero_le _)

theorem Metadata.consistent_empty : Consistent {} := by
  refine ⟨fun n => ?_, by simp, by simp, fun v n => ?_⟩
  · simp [Tracker.isReplaceable_iff]
  · simp

theorem Store.settled_empty (hash : String → UInt64) (config : Config) :
    Settled { hash, config } := by
  have hv (v : ValueId) : ({ hash, config } : Store).core.values.get? v = none := by
    rw [get?_core, show ({ hash, config } : Store).values = {} from rfl]
    rfl
  have hheld : ({ hash, config } : Store).core.held = fun _ => none := by
    rw [held_core]
    funext l
    cases l <;> simp [held?]
  refine ⟨UseGraph.sound_empty _, ⟨List.nodup_nil, ?_, ?_⟩, Metadata.consistent_empty, ?_, ?_⟩
  · simp [hv]
  · simp [hv]
  · simp [hv]
  · rw [hheld]
    refine ⟨Tracker.follows_empty _, by simp, fun {n w} hw => ?_, by simp, by simp [hheld]⟩
    change (∅ : Std.ExtTreeMap NodeId ValueId)[n]? = some w at hw
    simp at hw

end ShaderIR
