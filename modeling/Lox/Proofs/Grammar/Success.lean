import Lox.Proofs.Grammar.Surface
import Lox.Proofs.Outcomes

/-! # When a rule succeeds

Each rule of the grammar is read here as an equivalence: what the tokens must look like for the rule
to answer a given result and leave given tokens. The equivalences are used in both directions, to
find the derivation behind a result and to find the result of a derivation.

* **`Stops`** — the next token exists and is of none of the given kinds;
* **`Rule.accept_bind_eq_ok_iff`** — a token that may be left out, and what follows;
* **`Rule.expect_bind_eq_ok_iff`** — a token that must be there, and what follows. -/

namespace Lox

open Surface

/-- The next token exists and is of none of the given kinds. -/
def Stops (kinds : List TokenKind) : List Token → Prop
  | [] => False
  | t :: _ => t.kind ∉ kinds

@[simp] theorem stops_nil (kinds : List TokenKind) : ¬ Stops kinds [] := id

@[simp] theorem stops_cons (kinds : List TokenKind) (t : Token) (rest : List Token) :
    Stops kinds (t :: rest) ↔ t.kind ∉ kinds := Iff.rfl

/-- A token of a kind is in the way of that kind. -/
theorem not_stops_mark {kind : TokenKind} (m : Mark kind) (rest : List Token) :
    ¬ Stops [kind] (m.token :: rest) := by
  rw [stops_cons, m.kind_token]
  exact fun h => h (List.mem_singleton_self _)

namespace Rule

variable {α : Type} {ts rest : List Token}

/-- A rule that stops at a token does not succeed. -/
@[simp] theorem reject_ne_ok (t : Token) (kind : SyntaxErrorKind) (a : α) :
    (reject t kind : Rule α) ts ≠ .ok a rest := by
  intro h
  cases h

/-! ## Single tokens -/

/-- Looking at the next token requires one and leaves it. -/
theorem peek_bind_eq_ok_iff {f : Token → Rule α} {a : α} :
    (peek >>= f) ts = .ok a rest ↔ ∃ t more, ts = t :: more ∧ f t ts = .ok a rest := by
  rw [bind_eq_ok_iff]
  cases ts with
  | nil => simp
  | cons t more =>
    constructor
    · rintro ⟨t', mid, ht, h⟩
      cases ht
      exact ⟨t, more, rfl, h⟩
    · rintro ⟨t', more', hts, h⟩
      cases hts
      exact ⟨t, t :: more, rfl, h⟩

/-- Looking at the next token answers it. -/
theorem peek_bind_cons {t : Token} {f : Token → Rule α} :
    (peek >>= f) (t :: rest) = f t (t :: rest) := rfl

/-- Passing a token that is not the end token leaves the rest. -/
theorem skip_bind_cons {t : Token} {f : Unit → Rule α} (h : t.kind ≠ .endOfInput) :
    (skip >>= f) (t :: rest) = f () rest := by
  show EStateM.bind skip f (t :: rest) = _
  simp [EStateM.bind, skip, h]

/-- Looking for a token of one kind requires a token and leaves it. -/
theorem check_mark_bind_eq_ok_iff {kind : TokenKind} (hend : kind ≠ .endOfInput)
    {f : Bool → Rule α} {a : α} :
    (check (· = kind) >>= f) ts = .ok a rest ↔
      ∃ t more, ts = t :: more ∧ f (decide (t.kind = kind)) ts = .ok a rest := by
  -- the end token is not of that kind, so ruling it out first changes nothing
  have hkind : ∀ t : Token,
      (decide (t.kind ≠ .endOfInput) && decide (t.kind = kind)) = decide (t.kind = kind) := by
    intro t
    by_cases h : t.kind = kind
    · simp [h, hend]
    · simp [h]
  rw [bind_eq_ok_iff]
  unfold check
  simp only [peek_bind_eq_ok_iff, pure_eq_ok_iff, hkind]
  constructor
  · rintro ⟨b, mid, ⟨t, more, hts, rfl, rfl⟩, h⟩
    exact ⟨t, more, hts, h⟩
  · rintro ⟨t, more, hts, h⟩
    exact ⟨_, ts, ⟨t, more, hts, rfl, rfl⟩, h⟩

/-- A token that may be left out is either passed, or the next token is none of its kinds. -/
theorem accept_bind_eq_ok_iff {wanted : TokenKind → Bool} {kinds : List TokenKind}
    (hwanted : ∀ k, wanted k = true ↔ k ∈ kinds) (hend : TokenKind.endOfInput ∉ kinds)
    {f : Option Token → Rule α} {a : α} :
    (accept wanted >>= f) ts = .ok a rest ↔
      (∃ t : Terminal kinds, ∃ more, ts = t.token :: more ∧ f (some t.token) more = .ok a rest) ∨
        (Stops kinds ts ∧ f none ts = .ok a rest) := by
  rw [bind_eq_ok_iff]
  cases ts with
  | nil => simp [accept]
  | cons t more =>
    -- the kind of the next token decides which side of the disjunction is left
    by_cases hmem : t.kind ∈ kinds
    · have hne : t.kind ≠ .endOfInput := fun h => hend (h ▸ hmem)
      have haccept : accept wanted (t :: more) = .ok (some t) more := by
        simp [accept, hne, (hwanted _).2 hmem]
      rw [haccept]
      constructor
      · rintro ⟨b, mid, hb, hf⟩
        cases hb
        exact .inl ⟨⟨t, hmem⟩, more, rfl, hf⟩
      · rintro (⟨t', more', hts, hf⟩ | ⟨hstop, -⟩)
        · cases hts
          exact ⟨_, _, rfl, hf⟩
        · exact absurd hmem hstop
    · have hno : wanted t.kind = false := by
        rw [← Bool.not_eq_true, hwanted]
        exact hmem
      have haccept : accept wanted (t :: more) = .ok none (t :: more) := by
        simp [accept, hno]
      rw [haccept]
      constructor
      · rintro ⟨b, mid, hb, hf⟩
        cases hb
        exact .inr ⟨hmem, hf⟩
      · rintro (⟨t', more', hts, hf⟩ | ⟨-, hf⟩)
        · cases hts
          exact absurd t'.kind_mem hmem
        · exact ⟨_, _, rfl, hf⟩

/-- The kind of an optional mark is tested by equality. -/
theorem accept_mark_bind_eq_ok_iff {kind : TokenKind} (hend : kind ≠ .endOfInput)
    {f : Option Token → Rule α} {a : α} :
    (accept (· = kind) >>= f) ts = .ok a rest ↔
      (∃ m : Mark kind, ∃ more, ts = m.token :: more ∧ f (some m.token) more = .ok a rest) ∨
        (Stops [kind] ts ∧ f none ts = .ok a rest) :=
  accept_bind_eq_ok_iff (by simp) (by simpa using hend.symm)

/-- A token that must be there is passed. -/
theorem expect_bind_eq_ok_iff {kind : TokenKind} (hend : kind ≠ .endOfInput)
    {otherwise : SyntaxErrorKind} {f : Token → Rule α} {a : α} :
    (expect kind otherwise >>= f) ts = .ok a rest ↔
      ∃ m : Mark kind, ∃ more, ts = m.token :: more ∧ f m.token more = .ok a rest := by
  rw [bind_eq_ok_iff]
  unfold expect
  simp only [accept_mark_bind_eq_ok_iff hend, pure_eq_ok_iff, peek_bind_eq_ok_iff, reject_ne_ok,
    and_false, exists_false, or_false]
  constructor
  · rintro ⟨b, mid, ⟨m, more, hts, rfl, rfl⟩, h⟩
    exact ⟨m, more, hts, h⟩
  · rintro ⟨m, more, hts, h⟩
    exact ⟨_, _, ⟨m, more, hts, rfl, rfl⟩, h⟩

end Rule

end Lox
