import ShaderIR.Proofs.CommandFaults
import ShaderIR.Proofs.LayoutConsistency

/-! Scopes that go away. As long as nothing has stopped while it erased a container, each entry of a
table stands for a value of the scope, whether or not each name has found an entry. So a scope whose
values are gone is empty, and whether it is verified does not show. -/

namespace ShaderIR

namespace Command

open Edit

def outcome (s : Store) (c : Command) : Except Fault Reply :=
  match c.run s with
  | .ok r _ => .ok r
  | .error x _ => .error x

def outcomes : Store → List Command → List (Except Fault Reply)
  | _, [] => []
  | s, c :: cs => outcome s c :: outcomes (after s c) cs

/-- Whether none of some commands stops while it erases a container. Any other command may stop. -/
def unbroken : Store → List Command → Bool
  | _, [] => true
  | s, c :: cs => (!c.erasesContainer || (outcome s c).isOk) && unbroken (after s c) cs

variable {s : Store} {c : Command} {total : Prop}

theorem after_of_mapStore {φ : Store → Store} (h : c.run (φ s) = mapStore φ (c.run s)) :
    after (φ s) c = φ (after s c) := by
  unfold after
  rw [h]
  cases c.run s <;> rfl

theorem outcome_of_mapStore {φ : Store → Store} (h : c.run (φ s) = mapStore φ (c.run s)) :
    outcome (φ s) c = outcome s c := by
  unfold outcome
  rw [h]
  cases c.run s <;> rfl

theorem ends_contained (c : Command) (hs : s.Settled) (hc : s.layout.Consistent total) :
    Ends c.run s (fun _ _ => True) fun x _ => ¬ x.IsLeak := by
  by_cases h : c.tearsDown
  · cases c with
    | eraseModule =>
      exact (ends_quiet (ends_eraseModule hs hc)).mono (fun _ _ _ => trivial) fun _ _ h => h
    | eraseFunction =>
      exact (ends_quiet (ends_eraseFunction hs hc)).mono (fun _ _ _ => trivial) fun _ _ h => h
    | _ => exact absurd h (by simp [tearsDown])
  · have hregular : Regular Fault.IsContained c.run :=
      regular_run c (fun _ => inferInstance) fun hd => absurd hd h
    exact hregular.ends s

theorem run_withTeardown (c : Command) (b : Bool) (hs : s.Settled)
    (hc : s.layout.Consistent total) :
    c.run (s.withTeardown b) = mapStore (Store.withTeardown b) (c.run s) := by
  have hregular : Regular Fault.IsAny c.run := regular_run c (fun _ => inferInstance) fun _ => rfl
  -- Neither the invariant nor the layout mentions the configuration.
  have hs' : (s.withTeardown b).Settled := hs
  have hc' : (s.withTeardown b).layout.Consistent total := hc
  exact (hregular.blind b).eq_of_ends (ends_contained c hs hc) (ends_contained c hs' hc')

/-- No table gains an entry that stands for nothing unless erasing a container stops. -/
theorem owned_after (hs : s.Settled) (hc : s.layout.Consistent False)
    (h : c.erasesContainer = false ∨ (outcome s c).isOk) : (after s c).layout.Consistent False := by
  have hends := preserves c hs hc
  unfold outcome at h
  unfold after
  cases hrun : c.run s with
  | ok => exact hends.of_ok hrun
  | error =>
    rw [hrun] at h
    exact hends.of_error hrun (h.resolve_right Bool.noConfusion) False.elim

theorem afterAll_withTeardown {cs : List Command} (b : Bool) (h : unbroken s cs = true)
    (hs : s.Settled) (hc : s.layout.Consistent False) :
    (afterAll s cs).Settled ∧ (afterAll s cs).layout.Consistent False ∧
      afterAll (s.withTeardown b) cs = (afterAll s cs).withTeardown b ∧
      outcomes (s.withTeardown b) cs = outcomes s cs := by
  induction cs generalizing s with
  | nil => exact ⟨hs, hc, rfl, rfl⟩
  | cons c cs ih =>
    rw [unbroken, Bool.and_eq_true, Bool.or_eq_true, Bool.not_eq_true'] at h
    have hrun := run_withTeardown c b hs hc
    have hafter := after_of_mapStore hrun
    obtain ⟨hs', hc', hstore, houtcomes⟩ := ih h.2 (keeps_after (keeps_run c) hs)
      (owned_after hs hc h.1)
    refine ⟨hs', hc', ?_, ?_⟩
    · rw [afterAll, List.foldl_cons, hafter]
      exact hstore
    · rw [outcomes, outcomes, outcome_of_mapStore hrun, hafter, houtcomes]

/-- Commands of which none has stopped while it erased a container, then any command: it finds no
name left in a scope that goes away, not even where such scopes are verified. With scopes verified
or not, the commands answer the same and leave the same store, and so does the last one, even if it
stops. -/
theorem not_leaks_afterAll (hash : String → UInt64) (config : Config) {cs : List Command}
    (h : unbroken { hash, config } cs = true) :
    let s := afterAll { hash, config } cs
    (∀ c : Command, ¬ Stops Fault.IsLeak c.run s) ∧
      ∀ b : Bool,
        let start : Store := { hash, config := { config with verifyScopeTeardown := b } }
        let s' := afterAll start cs
        s' = s.withTeardown b ∧ outcomes start cs = outcomes { hash, config } cs ∧
          ∀ c : Command, ¬ Stops Fault.IsLeak c.run s' ∧
            c.run s' = mapStore (Store.withTeardown b) (c.run s) := by
  have hrun (b : Bool) := afterAll_withTeardown b h (Store.settled_empty hash config)
    (consistent_empty hash config)
  have hcontained {s : Store} (hs : s.Settled) (hc : s.layout.Consistent False) (c : Command) :
      ¬ Stops Fault.IsLeak c.run s := fun hstops =>
    stops_iff.1 hstops (ends_contained c hs hc)
  obtain ⟨hs, hc, -⟩ := hrun config.verifyScopeTeardown
  refine ⟨hcontained hs hc, fun b => ?_⟩
  intro start s'
  obtain ⟨-, -, hstore, houtcomes⟩ := hrun b
  have hstore : s' = (afterAll { hash, config } cs).withTeardown b := hstore
  refine ⟨hstore, houtcomes, fun c => ?_⟩
  rw [hstore]
  exact ⟨hcontained (s := Store.withTeardown b _) hs hc c, run_withTeardown c b hs hc⟩

/-- Blocks, an argument and an instruction of a function get one name, and another function one of
the blocks; an edit of a stale value stops; one function goes, and the other is left to go. -/
def sharedScope : List Command :=
  [.createModule "m", .internType (.int 32), .internType (.function ⟨0⟩ [⟨0⟩]),
    .createFunction ⟨0⟩ "f" ⟨1⟩, .createFunction ⟨0⟩ "f" ⟨1⟩, .createBlock ⟨0⟩ "x",
    .createBlock ⟨0⟩ "x", .setName ⟨1⟩ "x", .buildInstruction "add" ⟨0⟩ [] (some "x") (.append ⟨4⟩),
    .moveBlockTo ⟨5⟩ ⟨2⟩, .setOperand ⟨9⟩ 0 none, .eraseFunction ⟨0⟩]

theorem not_leaks_afterAll_sharedScope : unbroken { config := {} } sharedScope = true ∧
    (∀ c : Command, ¬ Stops Fault.IsLeak c.run (afterAll { config := {} } sharedScope)) ∧
      outcomes { config := { verifyScopeTeardown := false } } sharedScope =
        outcomes { config := {} } sharedScope := by
  have hunbroken : unbroken { config := {} } sharedScope = true := by decide +kernel
  obtain ⟨hcontained, hblind⟩ := not_leaks_afterAll nameHash {} hunbroken
  exact ⟨hunbroken, hcontained, (hblind false).2.1⟩

end Command

end ShaderIR
