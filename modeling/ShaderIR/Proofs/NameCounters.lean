import ShaderIR.Proofs.RenamedValues

/-! Values that come to a table. A name of which the hash is free is kept. One that is taken gets
the least counter that makes a free name of it, and nothing but a free name ends the count. Whatever
comes, the entries that are there stay. -/

namespace ShaderIR.SymbolTable

variable {hash : String → UInt64} {t t' : SymbolTable} {text name : String} {v w : ValueId}
variable {n k : Nat} {h : UInt64} {cs : List Call}

/-- Counting on behind a name: a counter that makes a taken name of it is passed over, and the first
one that makes a free name is where the count ends. -/
inductive CountsTo (hash : String → UInt64) (t : SymbolTable) (text : String) : Nat → Nat → Prop
  | free {n : Nat} : n + 1 < counterLimit → t.lookup hash (t.candidate text (n + 1)) = none →
      CountsTo hash t text n (n + 1)
  | taken {n k : Nat} : n + 1 < counterLimit → t.lookup hash (t.candidate text (n + 1)) ≠ none →
      CountsTo hash t text (n + 1) k → CountsTo hash t text n k

/-- A table has one entry more, under a hash that was free. -/
structure Adds (t : SymbolTable) (h : UInt64) (v : ValueId) (t' : SymbolTable) : Prop where
  separator : t'.separator = t.separator
  free : t.find? h = none
  find? : ∀ k, t'.find? k = if h = k then some v else t.find? k

def left (hash : String → UInt64) (t : SymbolTable) (cs : List Call) : SymbolTable :=
  cs.foldl (fun t c => (perform hash t c).2) t

section Counting

theorem CountsTo.bounds (h : CountsTo hash t text n k) : n < k ∧ k < counterLimit := by
  induction h with
  | free hlimit => exact ⟨Nat.lt_succ_self _, hlimit⟩
  | taken _ _ _ ih => exact ⟨Nat.lt_of_succ_lt ih.1, ih.2⟩

theorem CountsTo.lookup_eq_none (h : CountsTo hash t text n k) :
    t.lookup hash (t.candidate text k) = none := by
  induction h with
  | free _ hfree => exact hfree
  | taken _ _ _ ih => exact ih

theorem CountsTo.lookup_ne_none (h : CountsTo hash t text n k) {m : Nat} (hm : n < m) (hk : m < k) :
    t.lookup hash (t.candidate text m) ≠ none := by
  induction h with
  | free => omega
  | @taken n k _ htaken _ ih =>
    by_cases heq : m = n + 1
    · exact heq ▸ htaken
    · exact ih (by omega) hk

theorem countsTo_of_least (hn : n < k) (hk : k < counterLimit)
    (hfree : t.lookup hash (t.candidate text k) = none)
    (hleast : ∀ m, n < m → m < k → t.lookup hash (t.candidate text m) ≠ none) :
    CountsTo hash t text n k := by
  -- By induction on how many counters have to be passed over.
  obtain ⟨d, rfl⟩ := Nat.exists_eq_add_of_lt hn
  induction d generalizing n with
  | zero => exact .free hk hfree
  | succ d ih =>
    have hsum : n + (d + 1) + 1 = n + 1 + d + 1 := by omega
    rw [hsum] at hk hfree hleast ⊢
    have htaken := hleast (n + 1) (by omega) (by omega)
    exact .taken (by omega) htaken (ih (by omega) hk hfree fun m hm => hleast m (by omega))

theorem isNextCounter_iff_countsTo :
    IsNextCounter hash t text n ↔ CountsTo hash t text t.lastUnique n := by
  constructor
  · intro h
    exact countsTo_of_least h.above h.below h.free h.least
  · intro h
    exact ⟨h.bounds.1, h.bounds.2, h.lookup_eq_none, fun m => h.lookup_ne_none⟩

end Counting

section Entering

theorem adds_of_claim (hclaim : t.claim hash text v = (some name, t')) :
    t.Adds (hash name) v t' := by
  obtain ⟨hfree, hfind⟩ := find?_of_claim hclaim
  have hadvances : t.Advances (t.claim hash text v).2 := advances_claim t text v
  rw [hclaim] at hadvances
  exact ⟨hadvances.separator, hfree, hfind⟩

theorem perform_of_claim (hclaim : t.claim hash text v = (some name, t')) :
    perform hash t (.createName text v) = (.created name, t') ∧
      perform hash t (.reinsert text v) = (.reinserted name (hash name), t') := by
  simp only [perform, hclaim]
  exact ⟨rfl, rfl⟩

theorem find?_claim (hk : t.find? h = some w) : (t.claim hash text v).2.find? h = some w := by
  cases hclaim : t.claim hash text v with
  | mk claimed t' =>
    cases claimed with
    | none => exact (find?_of_claim_none hclaim h).trans hk
    | some name =>
      have hadds := adds_of_claim hclaim
      -- The new entry has come under a free hash, and this one is taken.
      have hne : hash name ≠ h := by
        rintro rfl
        cases hadds.free.symm.trans hk
      rw [hadds.find?, if_neg hne, hk]

theorem find?_perform {c : Call} (hc : c ≠ .remove h) (hk : t.find? h = some w) :
    (perform hash t c).2.find? h = some w := by
  cases c with
  | createName text v => exact find?_claim hk
  | reinsert text v => exact find?_claim hk
  | remove h' =>
    have hne : h' ≠ h := fun heq => hc (heq ▸ rfl)
    exact (t.find?_erase h' h).trans ((if_neg hne).trans hk)

theorem find?_left (hcs : .remove h ∉ cs) (hk : t.find? h = some w) :
    (left hash t cs).find? h = some w := by
  induction cs generalizing t with
  | nil => exact hk
  | cons c cs ih =>
    rw [List.mem_cons, not_or] at hcs
    exact ih hcs.2 (find?_perform (Ne.symm hcs.1) hk)

/-- A value that comes to a table gets the name that is asked for, if that is free; otherwise it
gets the name with the least counter above those handed out that makes a free one, which the count
reaches wherever there is one below the limit. Either way there is one entry more, and no entry that
is there is replaced, whatever calls follow. -/
theorem entering_leastCounter (hash : String → UInt64) (t : SymbolTable) (text : String)
    (v : ValueId) :
    (t.lookup hash text = none → ∃ t', t.Adds (hash text) v t' ∧ t'.lastUnique = t.lastUnique ∧
      perform hash t (.createName text v) = (.created text, t') ∧
      perform hash t (.reinsert text v) = (.reinserted text (hash text), t')) ∧
    (t.lookup hash text ≠ none →
      (∃ n, t.lastUnique < n ∧ n < counterLimit ∧ t.lookup hash (t.candidate text n) = none) →
      ∃ n name t', CountsTo hash t text t.lastUnique n ∧ IsNextCounter hash t text n ∧
        name = text ++ t.separator ++ toString n ∧ t.Adds (hash name) v t' ∧ t'.lastUnique = n ∧
        perform hash t (.createName text v) = (.created name, t') ∧
        perform hash t (.reinsert text v) = (.reinserted name (hash name), t')) ∧
    ∀ cs h w, t.find? h = some w → .remove h ∉ cs → (left hash t cs).find? h = some w := by
  refine ⟨fun hfree => ?_, fun htaken hleft => ?_, fun cs h w hk hcs => find?_left hcs hk⟩
  · have hclaim := claim_of_free hfree v
    exact ⟨_, adds_of_claim hclaim, rfl, perform_of_claim hclaim⟩
  · rcases claim_cases hash t text v with ⟨hfree, -⟩ | ⟨-, n, hn, hclaim⟩ | ⟨-, hnone, -⟩
    · exact absurd hfree htaken
    · have hcount := isNextCounter_iff_countsTo.1 hn
      have hadds := adds_of_claim hclaim
      have hperform := perform_of_claim hclaim
      exact ⟨n, t.candidate text n, _, hcount, hn, rfl, hadds, rfl, hperform⟩
    · obtain ⟨n, habove, hbelow, hfree⟩ := hleft
      exact absurd hfree (hnone n habove hbelow)

/-- Where names of one length have one hash, the first counters are all taken. -/
theorem entering_leastCounter_skippedCounters :
    let t := left lengthHash { separator := "." } [.createName "ab" ⟨0⟩, .createName "cd" ⟨1⟩]
    t.lookup lengthHash "ef" ≠ none ∧
      (∃ n, t.lastUnique < n ∧ n < counterLimit ∧
        t.lookup lengthHash (t.candidate "ef" n) = none) ∧
      (∃ n name t', CountsTo lengthHash t "ef" t.lastUnique n ∧ IsNextCounter lengthHash t "ef" n ∧
        name = "ef" ++ t.separator ++ toString n ∧ t.Adds (lengthHash name) ⟨2⟩ t' ∧
        t'.lastUnique = n ∧
        perform lengthHash t (.createName "ef" ⟨2⟩) = (.created name, t') ∧
        perform lengthHash t (.reinsert "ef" ⟨2⟩) = (.reinserted name (lengthHash name), t')) ∧
      (perform lengthHash t (.createName "ef" ⟨2⟩)).1 = .created "ef.10" := by
  intro t
  have htaken : t.lookup lengthHash "ef" ≠ none := by decide +kernel
  have hleft : ∃ n, t.lastUnique < n ∧ n < counterLimit ∧
      t.lookup lengthHash (t.candidate "ef" n) = none := ⟨10, by decide +kernel⟩
  exact ⟨htaken, hleft, (entering_leastCounter lengthHash t "ef" ⟨2⟩).2.1 htaken hleft,
    by decide +kernel⟩

end Entering

end ShaderIR.SymbolTable
