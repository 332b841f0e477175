import ShaderIR.SymbolTable

/-! Renamed values. A name that is taken gets a separator and a counter behind it. No counter is
used twice and the digits at the end of a name tell its counter, so names that are made this way
differ, whatever names go out of the table in between. -/

namespace ShaderIR.SymbolTable

variable {hash : String → UInt64} {t t' : SymbolTable} {text text' : String} {v : ValueId}

section Digits

def trailingDigits (text : String) : List Char :=
  (text.toList.reverse.takeWhile Char.isDigit).reverse

/-- A separator that ends in something else than a digit; digits that follow it stand apart. -/
def Delimits (separator : String) : Prop :=
  ∃ c, separator.toList.getLast? = some c ∧ c.isDigit = false

theorem trailingDigits_candidate (h : Delimits t.separator) (text : String) (n : Nat) :
    trailingDigits (t.candidate text n) = Nat.toDigits 10 n := by
  obtain ⟨c, hlast, hc⟩ := h
  obtain ⟨front, hfront⟩ := List.getLast?_eq_some_iff.1 hlast
  have hdigits : ∀ d ∈ (Nat.toDigits 10 n).reverse, d.isDigit = true := by
    intro d hd
    exact Nat.isDigit_of_mem_toDigits (by decide) (by decide) (List.mem_reverse.1 hd)
  have htext : (t.candidate text n).toList.reverse =
      (Nat.toDigits 10 n).reverse ++ c :: (text.toList ++ front).reverse := by
    simp [candidate, hfront, Nat.toString_eq_repr, Nat.toList_repr]
  rw [trailingDigits, htext, List.takeWhile_append_of_pos hdigits, List.takeWhile_cons_of_neg]
  · rw [List.append_nil, List.reverse_reverse]
  · rw [hc]
    decide

theorem candidate_inj (h : Delimits t.separator) {m n : Nat}
    (heq : t.candidate text m = t.candidate text' n) : m = n := by
  have hdigits : Nat.toDigits 10 m = Nat.toDigits 10 n := by
    rw [← trailingDigits_candidate h text m, heq, trailingDigits_candidate h]
  have hnumber (k : Nat) : Nat.ofDigitChars 10 (Nat.toDigits 10 k) 0 = k :=
    Nat.ofDigitChars_toDigits (by decide) (by decide)
  rw [← hnumber m, hdigits, hnumber]

end Digits

section Counters

theorem freeCounter?_eq_some_iff {tries n k : Nat} :
    t.freeCounter? hash text tries n = some k ↔
      n < k ∧ k ≤ n + tries ∧ t.lookup hash (t.candidate text k) = none ∧
        ∀ m, n < m → m < k → t.lookup hash (t.candidate text m) ≠ none := by
  induction tries generalizing n with
  | zero =>
    rw [freeCounter?]
    constructor
    · exact nofun
    · rintro ⟨hlt, hle, -⟩
      omega
  | succ tries ih =>
    rw [freeCounter?]
    split
    next hfree =>
      constructor
      · rintro ⟨⟩
        exact ⟨by omega, by omega, hfree, fun m hlt hgt => by omega⟩
      · rintro ⟨hlt, -, -, hleast⟩
        have hge : ¬ n + 1 < k := fun h => hleast (n + 1) (by omega) h hfree
        rw [show k = n + 1 by omega]
    next w htaken =>
      -- a counter that is taken joins those that the rest of the search has to pass over
      have hstep : t.lookup hash (t.candidate text (n + 1)) ≠ none := by
        rw [lookup, htaken]
        exact nofun
      rw [ih]
      constructor
      · rintro ⟨hlt, hle, hfree, hleast⟩
        refine ⟨by omega, by omega, hfree, fun m hm hk => ?_⟩
        by_cases heq : m = n + 1
        · exact heq ▸ hstep
        · exact hleast m (by omega) hk
      · rintro ⟨hlt, hle, hfree, hleast⟩
        have hne : k ≠ n + 1 := fun h => hstep (h ▸ hfree)
        exact ⟨by omega, by omega, hfree, fun m hm hk => hleast m (by omega) hk⟩

theorem freeCounter?_eq_none_iff {tries n : Nat} :
    t.freeCounter? hash text tries n = none ↔
      ∀ m, n < m → m ≤ n + tries → t.lookup hash (t.candidate text m) ≠ none := by
  constructor
  · intro h
    induction tries generalizing n with
    | zero =>
      intro m hlt hle
      omega
    | succ tries ih =>
      rw [freeCounter?] at h
      split at h
      next => cases h
      next w htaken =>
        intro m hlt hle
        by_cases heq : m = n + 1
        · rw [heq, lookup, htaken]
          exact nofun
        · exact ih h m (by omega) (by omega)
  · intro h
    apply Option.eq_none_iff_forall_ne_some.2
    intro k hk
    obtain ⟨hlt, hle, hfree, -⟩ := freeCounter?_eq_some_iff.1 hk
    exact h k hlt hle hfree

/-- The counter that is due behind a name that is taken: the least one above those handed out that
makes a free name of it. -/
structure IsNextCounter (hash : String → UInt64) (t : SymbolTable) (text : String) (n : Nat) :
    Prop where
  above : t.lastUnique < n
  below : n < counterLimit
  free : t.lookup hash (t.candidate text n) = none
  least : ∀ m, t.lastUnique < m → m < n → t.lookup hash (t.candidate text m) ≠ none

theorem claim_cases (hash : String → UInt64) (t : SymbolTable) (text : String) (v : ValueId) :
    (t.lookup hash text = none ∧ t.claim hash text v = (some text, t.insert (hash text) v)) ∨
    (t.lookup hash text ≠ none ∧ ∃ n, IsNextCounter hash t text n ∧
      t.claim hash text v = (some (t.candidate text n),
        { t.insert (hash (t.candidate text n)) v with lastUnique := n })) ∨
    (t.lookup hash text ≠ none ∧ (∀ n, t.lastUnique < n → n < counterLimit →
        t.lookup hash (t.candidate text n) ≠ none) ∧
      t.claim hash text v =
        (none, { t with lastUnique := max t.lastUnique (counterLimit - 1) })) := by
  cases hname : t.find? (hash text) with
  | none => exact .inl ⟨hname, by simp only [claim, hname]⟩
  | some w =>
    have htaken : t.lookup hash text ≠ none := by
      rw [lookup, hname]
      exact nofun
    cases hcounter : t.freeCounter? hash text (counterLimit - 1 - t.lastUnique) t.lastUnique with
    | some n =>
      obtain ⟨habove, hle, hfree, hleast⟩ := freeCounter?_eq_some_iff.1 hcounter
      have hnext : IsNextCounter hash t text n := ⟨habove, by omega, hfree, hleast⟩
      exact .inr (.inl ⟨htaken, n, hnext, by simp only [claim, hname, hcounter]⟩)
    | none =>
      have hnone := freeCounter?_eq_none_iff.1 hcounter
      refine .inr (.inr ⟨htaken, fun n habove hbelow => hnone n habove (by omega), ?_⟩)
      simp only [claim, hname, hcounter]

theorem claim_of_free (h : t.lookup hash text = none) (v : ValueId) :
    t.claim hash text v = (some text, t.insert (hash text) v) := by
  rw [lookup] at h
  simp only [claim, h]

theorem find?_of_claim (h : t.claim hash text v = (some text', t')) :
    t.find? (hash text') = none ∧
      ∀ k, t'.find? k = if hash text' = k then some v else t.find? k := by
  rcases claim_cases hash t text v with ⟨hfree, heq⟩ | ⟨-, n, hn, heq⟩ | ⟨-, -, heq⟩
  · obtain ⟨⟨⟩, rfl⟩ := Prod.mk.inj (heq.symm.trans h)
    exact ⟨hfree, t.find?_insert _ v⟩
  · obtain ⟨⟨⟩, rfl⟩ := Prod.mk.inj (heq.symm.trans h)
    exact ⟨hn.free, t.find?_insert _ v⟩
  · cases heq.symm.trans h

theorem find?_of_claim_none (h : t.claim hash text v = (none, t')) (k : UInt64) :
    t'.find? k = t.find? k := by
  rcases claim_cases hash t text v with ⟨-, heq⟩ | ⟨-, n, -, heq⟩ | ⟨-, -, heq⟩
  · cases heq.symm.trans h
  · cases heq.symm.trans h
  · cases heq.symm.trans h
    rfl

theorem candidate_ne_empty (t : SymbolTable) (text : String) (n : Nat) :
    t.candidate text n ≠ "" := by
  intro h
  have hdigits : (t.candidate text n).toList = [] := by rw [h]; rfl
  simp only [candidate, String.toList_append, List.append_eq_nil_iff, Nat.toString_eq_repr,
    Nat.toList_repr] at hdigits
  exact Nat.toDigits_ne_nil hdigits.2

theorem claim_ne_empty (h : t.claim hash text v = (some text', t')) (htext : text ≠ "") :
    text' ≠ "" := by
  rcases claim_cases hash t text v with ⟨-, heq⟩ | ⟨-, n, -, heq⟩ | ⟨-, -, heq⟩
  · cases heq.symm.trans h
    exact htext
  · cases heq.symm.trans h
    exact t.candidate_ne_empty text n
  · cases heq.symm.trans h

theorem claim_of_taken (htaken : t.lookup hash text ≠ none)
    (hleft : ∃ n, t.lastUnique < n ∧ n < counterLimit ∧
      t.lookup hash (t.candidate text n) = none) (v : ValueId) :
    ∃ n, (t.claim hash text v).1 = some (t.candidate text n) ∧ t.lastUnique < n ∧
      (t.claim hash text v).2.lastUnique = n := by
  rcases claim_cases hash t text v with ⟨hfree, -⟩ | ⟨-, n, hn, heq⟩ | ⟨-, hnone, -⟩
  · exact absurd hfree htaken
  · exact ⟨n, by rw [heq], hn.above, by rw [heq]⟩
  · obtain ⟨n, habove, hbelow, hfree⟩ := hleft
    exact absurd hfree (hnone n habove hbelow)

end Counters

section Runs

inductive Call
  | createName (proposed : String) (v : ValueId)
  | reinsert (name : String) (v : ValueId)
  | remove (h : UInt64)

def Call.name? : Call → Option String
  | .createName text _ => some text
  | .reinsert text _ => some text
  | .remove _ => none

inductive Answer
  | created (name : String)
  | reinserted (name : String) (h : UInt64)
  | removed (v : Option ValueId)
  /-- Every counter is used up. -/
  | exhausted
  deriving DecidableEq

def Answer.name? : Answer → Option String
  | .created text => some text
  | .reinserted text _ => some text
  | .removed _ => none
  | .exhausted => none

def perform (hash : String → UInt64) (t : SymbolTable) : Call → Answer × SymbolTable
  | .createName text v =>
    ((t.claim hash text v).1.elim .exhausted .created, (t.claim hash text v).2)
  | .reinsert text v =>
    ((t.claim hash text v).1.elim .exhausted fun name => .reinserted name (hash name),
      (t.claim hash text v).2)
  | .remove h => (.removed (t.find? h), t.erase h)

structure Event where
  table : SymbolTable
  call : Call

def events (hash : String → UInt64) : SymbolTable → List Call → List Event
  | _, [] => []
  | t, c :: cs => ⟨t, c⟩ :: events hash (perform hash t c).2 cs

namespace Event

def answer (hash : String → UInt64) (e : Event) : Answer := (perform hash e.table e.call).1

/-- The name that is asked for is taken, and a counter is left to put behind it. -/
def Renames (hash : String → UInt64) (e : Event) : Prop :=
  ∃ text, e.call.name? = some text ∧ e.table.lookup hash text ≠ none ∧
    ∃ n, e.table.lastUnique < n ∧ n < counterLimit ∧
      e.table.lookup hash (e.table.candidate text n) = none

end Event

structure Advances (t t' : SymbolTable) : Prop where
  separator : t'.separator = t.separator
  lastUnique : t.lastUnique ≤ t'.lastUnique

theorem Advances.refl (t : SymbolTable) : t.Advances t := ⟨rfl, Nat.le_refl _⟩

theorem Advances.trans {t₁ t₂ t₃ : SymbolTable} (h : t₁.Advances t₂) (h' : t₂.Advances t₃) :
    t₁.Advances t₃ :=
  ⟨h'.separator.trans h.separator, Nat.le_trans h.lastUnique h'.lastUnique⟩

theorem advances_claim (t : SymbolTable) (text : String) (v : ValueId) :
    t.Advances (t.claim hash text v).2 := by
  rcases claim_cases hash t text v with ⟨-, heq⟩ | ⟨-, n, hn, heq⟩ | ⟨-, -, heq⟩
  · rw [heq]
    exact ⟨rfl, Nat.le_refl _⟩
  · rw [heq]
    exact ⟨rfl, Nat.le_of_lt hn.above⟩
  · rw [heq]
    exact ⟨rfl, Nat.le_max_left ..⟩

theorem advances_perform (t : SymbolTable) (c : Call) : t.Advances (perform hash t c).2 := by
  cases c with
  | createName text v => exact advances_claim t text v
  | reinsert text v => exact advances_claim t text v
  | remove h => exact ⟨rfl, Nat.le_refl _⟩

theorem advances_of_mem_events {cs : List Call} {e : Event} (h : e ∈ events hash t cs) :
    t.Advances e.table := by
  induction cs generalizing t with
  | nil => cases h
  | cons c cs ih =>
    rcases List.mem_cons.1 h with rfl | h
    · exact .refl t
    · exact (advances_perform t c).trans (ih h)

theorem perform_eq_claim {c : Call} (h : c.name? = some text) :
    ∃ v, (perform hash t c).1.name? = (t.claim hash text v).1 ∧
      (perform hash t c).2 = (t.claim hash text v).2 := by
  cases c with
  | createName proposed v =>
    cases h
    refine ⟨v, ?_, rfl⟩
    rw [perform]
    cases (t.claim hash text v).1 <;> rfl
  | reinsert name v =>
    cases h
    refine ⟨v, ?_, rfl⟩
    rw [perform]
    cases (t.claim hash text v).1 <;> rfl
  | remove k => cases h

theorem Event.Renames.name {e : Event} (h : e.Renames hash) :
    ∃ text n, (e.answer hash).name? = some (e.table.candidate text n) ∧ e.table.lastUnique < n ∧
      (perform hash e.table e.call).2.lastUnique = n := by
  obtain ⟨text, hname, htaken, hleft⟩ := h
  obtain ⟨v, hanswer, htable⟩ := perform_eq_claim hname
  obtain ⟨n, hclaim, habove, hlast⟩ := claim_of_taken htaken hleft v
  exact ⟨text, n, hanswer.trans hclaim, habove, htable ▸ hlast⟩

/-- Any two calls that have to rename give different names, whatever is removed in between. -/
theorem renamed_pairwise_ne (hsep : Delimits t.separator) (cs : List Call) :
    (events hash t cs).Pairwise fun x y => x.Renames hash → y.Renames hash →
      ∃ a b, (x.answer hash).name? = some a ∧ (y.answer hash).name? = some b ∧ a ≠ b := by
  induction cs generalizing t with
  | nil => exact .nil
  | cons c cs ih =>
    have hstep : t.Advances (perform hash t c).2 := advances_perform t c
    have hrest : Delimits (perform hash t c).2.separator := hstep.separator.symm ▸ hsep
    refine List.pairwise_cons.2 ⟨fun e he hx hy => ?_, ih hrest⟩
    obtain ⟨text, m, hm, -, hlast⟩ := hx.name
    obtain ⟨text', n, hn, habove, -⟩ := hy.name
    have hlater := advances_of_mem_events he
    have hsame : e.table.separator = t.separator := (hstep.trans hlater).separator
    refine ⟨_, _, hm, hn, fun heq => ?_⟩
    -- the later counter is above the one that the first call left
    have hlt : m < n := Nat.lt_of_le_of_lt (hlast ▸ hlater.lastUnique) habove
    have hinj : m = n := candidate_inj hsep (heq.trans (by rw [candidate, candidate, hsame]))
    exact Nat.ne_of_lt hlt hinj

/-- Names of one length have one hash. -/
def lengthHash (name : String) : UInt64 := UInt64.ofNat name.utf8ByteSize

/-- Two names are renamed on account of the first one, and the second name is gone before the third
one comes. -/
def collidingNames : List Call :=
  [.createName "ab" ⟨0⟩, .createName "cd" ⟨1⟩, .remove (lengthHash "cd.1"), .reinsert "ef" ⟨2⟩,
    .createName "ab" ⟨3⟩]

theorem renamed_pairwise_ne_collidingNames :
    let t : SymbolTable := { separator := "." }
    Delimits t.separator ∧
      (events lengthHash t collidingNames).map (Event.answer lengthHash) =
        [.created "ab", .created "cd.1", .removed (some ⟨1⟩), .reinserted "ef.2" 4,
          .created "ab.10"] ∧
      (events lengthHash t collidingNames).Pairwise fun x y =>
        x.Renames lengthHash → y.Renames lengthHash →
          ∃ a b, (x.answer lengthHash).name? = some a ∧ (y.answer lengthHash).name? = some b ∧
            a ≠ b := by
  intro t
  have hsep : Delimits t.separator := ⟨'.', by decide +kernel, by decide⟩
  exact ⟨hsep, by decide +kernel, renamed_pairwise_ne hsep collidingNames⟩

end Runs

end ShaderIR.SymbolTable
