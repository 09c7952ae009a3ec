import Lox.Proofs.Grammar.Success
import Lox.Proofs.Lines

/-! # How far a rule looks

A rule looks at no token behind the one it stops at. So tokens that begin alike are answered alike,
as long as the rule stops in what they share; and lines are passed on, not looked at.

* **`Rule.Agree`** — two answers that are the same up to lines, and to what lies behind the tokens
  shared; a rejected rule has passed tokens of which a condition holds;
* **`Rule.Follows`** — a rule answers like another one, wherever the tokens ahead meet a condition;
* **`Rule.follows_bind`**, **`Rule.follows_of_opens`** — one rule after the other, and a rule by the
  token it meets first. -/

namespace Lox

open Surface

/-- The tokens that a rule leaves where it is rejected: those from the token it blames on, or only
those behind that one, if it is an equals sign, which is passed before its target is blamed. -/
def SyntaxError.left (e : SyntaxError) (back : List Token) : List Token :=
  if e.kind = .invalidAssignmentTarget then back else e.token :: back

/-- What is left says what lies behind the token blamed. -/
theorem SyntaxError.left_injective (e : SyntaxError) {back back' : List Token}
    (h : e.left back = e.left back') : back = back' := by
  unfold left at h
  split at h
  · exact h
  · exact List.tail_eq_of_cons_eq h

/-- What is left, on other lines. -/
theorem SyntaxError.map_left (e : SyntaxError) (f : Int → Int) (back : List Token) :
    (e.left back).map (Token.moved f) = (e.moved f).left (back.map (Token.moved f)) := by
  unfold left
  rw [apply_ite (List.map (Token.moved f))]
  rfl

namespace Rule

variable {f : Int → Int} {α β γ δ : Type}

/-! ## Answers that agree -/

/-- **Two answers agree**, the first one to the tokens `seen ++ back`, the other one to `seen` on
other lines in front of `back'`. If the first rule stops in front of `back`, so does the other one,
and it answers the same. A rule that was rejected passed tokens that meet the condition `P`, up to
the one it blames. -/
def Agree (f : Int → Int) (m : α → β) (P : List Token → Prop) (seen back back' : List Token) :
    EStateM.Result Rejection (List Token) α → EStateM.Result Rejection (List Token) β → Prop
  | .ok a rest, r' => (∃ front, seen ++ back = front ++ rest) ∧ ∀ t more,
      rest = t :: (more ++ back) →
        r' = .ok (m a) ((t :: more).map (Token.moved f) ++ back')
  | .error (.error e) rest, r' => ∃ front left, seen ++ back = front ++ e.token :: left ∧
      rest = e.left left ∧ P front ∧ ∀ more, left = more ++ back →
        r' = .error (.error (e.moved f))
          ((e.moved f).left (more.map (Token.moved f) ++ back'))
  | .error .endOfTokens _, _ => True

variable {m : α → β} {P P' : List Token → Prop} {front seen back back' mid : List Token}
  {r : EStateM.Result Rejection (List Token) α} {r' : EStateM.Result Rejection (List Token) β}

/-- The condition on the tokens passed may be weakened. -/
theorem Agree.mono (h : Agree f m P seen back back' r r') (hP : ∀ front, P front → P' front) :
    Agree f m P' seen back back' r r' := by
  match r, h with
  | .ok a rest, h => exact h
  | .error (.error e) rest, ⟨front, left, hsplit, hrest, hfront, hsame⟩ =>
    exact ⟨front, left, hsplit, hrest, hP front hfront, hsame⟩
  | .error .endOfTokens rest, _ => trivial

/-- Answers agree behind tokens that both rules have passed. -/
theorem Agree.behind (h : Agree f m (fun more => P (front ++ more)) mid back back' r r') :
    Agree f m P (front ++ mid) back back' r r' := by
  match r, h with
  | .ok a rest, ⟨⟨more, hmore⟩, hsame⟩ =>
    exact ⟨⟨front ++ more, by rw [List.append_assoc, hmore, List.append_assoc]⟩, hsame⟩
  | .error (.error e) rest, ⟨more, left, hsplit, hrest, hmore, hsame⟩ =>
    exact ⟨front ++ more, left, by rw [List.append_assoc, hsplit, List.append_assoc], hrest,
      hmore, hsame⟩
  | .error .endOfTokens rest, _ => trivial

/-- Nothing is asked of the other answer if the first rule goes on behind the tokens shared. -/
theorem Agree.of_unseen {back'' : List Token} {r'' : EStateM.Result Rejection (List Token) β}
    (h : Agree f m (fun more => P (front ++ more)) [] mid back'' r r'')
    (hsplit : seen ++ back = front ++ mid) (hlen : mid.length ≤ back.length) :
    Agree f m P seen back back' r r' := by
  match r, h with
  | .ok a rest, ⟨⟨more, hmore⟩, _⟩ =>
    rw [List.nil_append] at hmore
    refine ⟨⟨front ++ more, by rw [hsplit, hmore, List.append_assoc]⟩, ?_⟩
    rintro t others rfl
    -- what is left is no longer than what it was left of
    rw [hmore, List.length_append, List.length_cons, List.length_append] at hlen
    omega
  | .error (.error e) rest, ⟨more, left, hmore, hrest, hP, _⟩ =>
    rw [List.nil_append] at hmore
    refine ⟨front ++ more, left, by rw [hsplit, hmore, List.append_assoc], hrest, hP, ?_⟩
    rintro others rfl
    rw [hmore, List.length_append, List.length_cons, List.length_append] at hlen
    omega
  | .error .endOfTokens rest, _ => trivial

/-! ## Rules that follow one another -/

/-- **A rule answers like another one** wherever the tokens ahead meet the condition `L`; the other
one has tokens ahead for which there is room. -/
def Follows (f : Int → Int) (room : Nat) (L P : List Token → Prop) (m : α → β) (x : Rule α)
    (x' : Rule β) : Prop :=
  ∀ seen back back' : List Token, L (seen ++ back) → seen.length + back'.length ≤ room →
    Agree f m P seen back back' (x (seen ++ back)) (x' (seen.map (Token.moved f) ++ back'))

variable {room room' : Nat} {L L' : List Token → Prop} {x : Rule α} {x' x'' : Rule β}

/-- Conditions may be changed: fewer tokens ahead, and more tokens passed. -/
theorem Follows.mono (h : Follows f room L P m x x') (hroom : room' ≤ room)
    (hL : ∀ ts, L' ts → L ts) (hP : ∀ ts, L' ts → ∀ front, P front → P' front) :
    Follows f room' L' P' m x x' :=
  fun seen back back' hts hlen =>
    (h seen back back' (hL _ hts) (Nat.le_trans hlen hroom)).mono (hP _ hts)

/-- Where there is no room, no token is shared, and nothing is asked of the other rule. -/
theorem Follows.of_no_room (h : Follows f 0 L P m x x'') : Follows f 0 L P m x x' := by
  intro seen back back' hts hlen
  obtain rfl : seen = [] := List.length_eq_zero_iff.1 (by omega)
  have hagree := h [] back back' hts hlen
  exact hagree.of_unseen (List.nil_append _).symm (Nat.le_refl _)

/-- A rule that runs out of tokens. -/
theorem follows_endOfTokens : Follows f room L P m (throw .endOfTokens) x' :=
  fun _ _ _ _ _ => trivial

/-- A result at hand. -/
theorem follows_pure {a : α} {b : β} (h : b = m a) :
    Follows f room L P m (pure a) (pure b) := by
  intro seen back back' _ _
  refine ⟨⟨[], rfl⟩, fun t more hrest => ?_⟩
  rw [← List.cons_append] at hrest
  rw [List.append_cancel_right hrest, h]
  rfl

/-- **One rule after the other.** The second one starts behind the tokens that the first one
passed. -/
theorem follows_bind {m' : γ → δ} {k : α → Rule γ} {k' : β → Rule δ}
    (hx : Follows f room L P m x x')
    (hk : ∀ a front, Follows f (room - front.length)
      (fun mid => L (front ++ mid) ∧ x (front ++ mid) = .ok a mid)
      (fun more => P (front ++ more)) m' (k a) (k' (m a))) :
    Follows f room L P m' (x >>= k) (x' >>= k') := by
  intro seen back back' hts hlen
  have hagree := hx seen back back' hts hlen
  show Agree f m' P seen back back' (EStateM.bind x k _) (EStateM.bind x' k' _)
  unfold EStateM.bind
  cases hres : x (seen ++ back) with
  | ok a mid =>
    rw [hres] at hagree
    obtain ⟨⟨front, hfront⟩, hsame⟩ := hagree
    have hmid : L (front ++ mid) ∧ x (front ++ mid) = .ok a mid := by
      rw [← hfront]
      exact ⟨hts, hres⟩
    show Agree f m' P seen back back' (k a mid) _
    -- the first rule stops in front of `back`, or it goes on behind it
    by_cases hback : mid.length ≤ back.length
    · have hunseen := hk a front [] mid [] hmid (Nat.zero_le _)
      exact hunseen.of_unseen hfront hback
    · obtain ⟨t, more, rfl, rfl⟩ : ∃ t more, mid = t :: (more ++ back) ∧
          seen = front ++ t :: more := by
        rcases List.append_eq_append_iff.1 hfront with ⟨c, hc, hc'⟩ | ⟨c, hc, hc'⟩
        · rw [hc', List.length_append] at hback
          omega
        · cases c with
          | nil =>
            rw [hc', List.nil_append] at hback
            exact absurd (Nat.le_refl _) hback
          | cons t more => exact ⟨t, more, hc', hc⟩
      rw [hsame t more rfl]
      refine (hk a front (t :: more) back back' hmid ?_).behind
      rw [List.length_append] at hlen
      omega
  | error e mid =>
    rw [hres] at hagree
    cases e with
    | endOfTokens => trivial
    | error e =>
      obtain ⟨front, left, hsplit, hrest, hP, hsame⟩ := hagree
      refine ⟨front, left, hsplit, hrest, hP, fun more hmore => ?_⟩
      rw [hsame more hmore]

/-- Work on a result. -/
theorem follows_map {m' : γ → δ} {g : α → γ} {g' : β → δ} (hx : Follows f room L P m x x')
    (hg : ∀ a, g' (m a) = m' (g a)) : Follows f room L P m' (g <$> x) (g' <$> x') := by
  rw [map_eq_pure_bind, map_eq_pure_bind]
  exact follows_bind hx fun a front => follows_pure (hg a)

/-- A result that is there. -/
theorem follows_some (hx : Follows f room L P m x x') :
    Follows f room L P (Option.map m) (some <$> x) (some <$> x') :=
  follows_map hx fun _ => rfl

/-! ## First tokens -/

/-- What a rule does when it meets a token: it passes it and goes on, it goes on in front of it, or
it is rejected and blames it. The other rule does the same with the token on its other line. -/
inductive Opens (f : Int → Int) (room : Nat) (L P : List Token → Prop) (m : α → β) (x : Rule α)
    (x' : Rule β) (t : Token) : Prop
  | passes {y : Rule α} {z : Rule β} (hx : ∀ rest, x (t :: rest) = y rest)
      (hx' : ∀ rest, x' (t.moved f :: rest) = z rest)
      (h : Follows f (room - 1) (fun rest => L (t :: rest)) (fun front => P (t :: front)) m y z)
  | looks {y : Rule α} {z : Rule β} (hx : ∀ rest, x (t :: rest) = y (t :: rest))
      (hx' : ∀ rest, x' (t.moved f :: rest) = z (t.moved f :: rest))
      (h : Follows f room (fun ts => L ts ∧ ∃ rest, ts = t :: rest) P m y z)
  | blames (kind : SyntaxErrorKind)
      (hx : ∀ rest, x (t :: rest) = .error (.error ⟨t, kind⟩) (SyntaxError.left ⟨t, kind⟩ rest))
      (hx' : ∀ rest, x' (t.moved f :: rest) =
        .error (.error ⟨t.moved f, kind⟩) (SyntaxError.left ⟨t.moved f, kind⟩ rest))
      (hP : P [])

section Opens

variable {t : Token} {rest : List Token} {y : Rule α} {z : Rule β}

/-- A rule that passes the token it meets answers as it goes on behind it. -/
theorem agree_of_passes (hx : ∀ rest, x (t :: rest) = y rest)
    (hx' : ∀ rest, x' (t.moved f :: rest) = z rest)
    (h : Follows f (room - 1) (fun rest => L (t :: rest)) (fun front => P (t :: front)) m y z)
    (hts : L (t :: rest)) (hlen : seen.length + back'.length ≤ room)
    (htokens : seen ++ back = t :: rest) :
    Agree f m P seen back back' (x (t :: rest)) (x' (seen.map (Token.moved f) ++ back')) := by
  rw [hx]
  cases seen with
  | nil =>
    -- the token passed is not shared
    have hunseen := h [] rest [] hts (Nat.zero_le _)
    refine hunseen.of_unseen (show [] ++ back = [t] ++ rest from htokens) ?_
    rw [List.nil_append] at htokens
    rw [htokens]
    exact Nat.le_succ _
  | cons t' seen =>
    obtain ⟨rfl, rfl⟩ := List.cons.inj htokens
    rw [List.map_cons, List.cons_append, hx']
    have hbehind : Agree f m (fun more => P ([t'] ++ more)) seen back back' (y (seen ++ back))
        (z (seen.map (Token.moved f) ++ back')) :=
      h seen back back' hts (by rw [List.length_cons] at hlen; omega)
    exact hbehind.behind

/-- A rule that goes on in front of the token it meets. -/
theorem agree_of_looks (hx : ∀ rest, x (t :: rest) = y (t :: rest))
    (hx' : ∀ rest, x' (t.moved f :: rest) = z (t.moved f :: rest))
    (h : Follows f room (fun ts => L ts ∧ ∃ rest, ts = t :: rest) P m y z)
    (hts : L (t :: rest)) (hlen : seen.length + back'.length ≤ room)
    (htokens : seen ++ back = t :: rest) :
    Agree f m P seen back back' (x (t :: rest)) (x' (seen.map (Token.moved f) ++ back')) := by
  rw [hx, ← htokens]
  cases seen with
  | nil =>
    have hunseen := h [] back [] ⟨htokens ▸ hts, _, htokens⟩ (Nat.zero_le _)
    exact hunseen.of_unseen (List.nil_append _).symm (Nat.le_refl _)
  | cons t' seen =>
    obtain ⟨rfl, rfl⟩ := List.cons.inj htokens
    have hsame := hx' (seen.map (Token.moved f) ++ back')
    rw [← List.cons_append, ← List.map_cons] at hsame
    rw [hsame]
    exact h (t' :: seen) back back' ⟨hts, _, rfl⟩ hlen

/-- A rule that blames the token it meets. -/
theorem agree_of_blames {kind : SyntaxErrorKind}
    (hx : ∀ rest, x (t :: rest) = .error (.error ⟨t, kind⟩) (SyntaxError.left ⟨t, kind⟩ rest))
    (hx' : ∀ rest, x' (t.moved f :: rest) =
      .error (.error ⟨t.moved f, kind⟩) (SyntaxError.left ⟨t.moved f, kind⟩ rest))
    (hP : P []) (htokens : seen ++ back = t :: rest) :
    Agree f m P seen back back' (x (t :: rest)) (x' (seen.map (Token.moved f) ++ back')) := by
  rw [hx]
  refine ⟨[], rest, htokens, rfl, hP, ?_⟩
  rintro more rfl
  cases seen with
  | nil =>
    have hlength := congrArg List.length htokens
    simp only [List.nil_append, List.length_cons, List.length_append] at hlength
    omega
  | cons t' seen =>
    obtain ⟨rfl, hseen⟩ := List.cons.inj htokens
    obtain rfl := List.append_cancel_right hseen
    rw [List.map_cons, List.cons_append, hx']
    rfl

end Opens

/-- **A rule by the token it meets first.** Without one it runs out of tokens. -/
theorem follows_of_opens (hnil : x [] = .error .endOfTokens [])
    (h : ∀ t rest, L (t :: rest) → Opens f room L P m x x' t) : Follows f room L P m x x' := by
  intro seen back back' hts hlen
  cases htokens : seen ++ back with
  | nil =>
    rw [hnil]
    trivial
  | cons t rest =>
    rw [htokens] at hts
    cases h t rest hts with
    | passes hx hx' h => exact agree_of_passes hx hx' h hts hlen htokens
    | looks hx hx' h => exact agree_of_looks hx hx' h hts hlen htokens
    | blames kind hx hx' hP => exact agree_of_blames hx hx' hP htokens

/-! ## Single tokens -/

/-- A token that is wanted is passed. -/
theorem accept_bind_cons_of_wanted {wanted : TokenKind → Bool} {k : Option Token → Rule α}
    {t : Token} (h : (t.kind ≠ .endOfInput && wanted t.kind) = true) (rest : List Token) :
    (accept wanted >>= k) (t :: rest) = k (some t) rest := by
  show EStateM.bind (accept wanted) k _ = _
  unfold EStateM.bind accept
  simp only [if_pos h]

/-- A token that is not wanted stays. -/
theorem accept_bind_cons_of_not_wanted {wanted : TokenKind → Bool} {k : Option Token → Rule α}
    {t : Token} (h : ¬ (t.kind ≠ .endOfInput && wanted t.kind) = true) (rest : List Token) :
    (accept wanted >>= k) (t :: rest) = k none (t :: rest) := by
  show EStateM.bind (accept wanted) k _ = _
  unfold EStateM.bind accept
  simp only [if_neg h]

/-- A token that may be left out. -/
theorem follows_accept_bind {kind : TokenKind} {k : Option Token → Rule α}
    {k' : Option Token → Rule β}
    (hsome : ∀ mark : Mark kind, Follows f (room - 1) (fun rest => L (mark.token :: rest))
      (fun front => P (mark.token :: front)) m (k (some mark.token))
      (k' (some (mark.token.moved f))))
    (hnone : Follows f room L P m (k none) (k' none)) :
    Follows f room L P m (accept (· = kind) >>= k) (accept (· = kind) >>= k') := by
  refine follows_of_opens rfl fun t rest hts => ?_
  by_cases h : (t.kind ≠ .endOfInput && decide (t.kind = kind)) = true
  · have hkind : t.kind = kind := of_decide_eq_true (Bool.and_eq_true _ _ ▸ h).2
    exact .passes (accept_bind_cons_of_wanted h) (accept_bind_cons_of_wanted h)
      (hsome (.ofKind hkind))
  · exact .looks (accept_bind_cons_of_not_wanted h) (accept_bind_cons_of_not_wanted h)
      (hnone.mono (Nat.le_refl _) (fun _ hts => hts.1) fun _ _ _ hfront => hfront)

/-- A token of another kind is blamed where one must be. -/
theorem expect_bind_cons_of_ne {kind : TokenKind} {otherwise : SyntaxErrorKind}
    {k : Token → Rule α} {t : Token} (h : t.kind ≠ kind)
    (hotherwise : otherwise ≠ .invalidAssignmentTarget) (rest : List Token) :
    (expect kind otherwise >>= k) (t :: rest) =
      .error (.error ⟨t, otherwise⟩) (SyntaxError.left ⟨t, otherwise⟩ rest) := by
  have hwanted : ¬ (t.kind ≠ .endOfInput && decide (t.kind = kind)) = true := by simp [h]
  rw [expect, bind_assoc, accept_bind_cons_of_not_wanted hwanted, SyntaxError.left,
    if_neg hotherwise]
  rfl

/-- A token that must be there. -/
theorem follows_expect_bind {kind : TokenKind} {otherwise : SyntaxErrorKind}
    {k : Token → Rule α} {k' : Token → Rule β} (hend : kind ≠ .endOfInput)
    (hotherwise : otherwise ≠ .invalidAssignmentTarget) (hP : ∀ ts, L ts → P [])
    (hk : ∀ mark : Mark kind, Follows f (room - 1) (fun rest => L (mark.token :: rest))
      (fun front => P (mark.token :: front)) m (k mark.token) (k' (mark.token.moved f))) :
    Follows f room L P m (expect kind otherwise >>= k) (expect kind otherwise >>= k') := by
  refine follows_of_opens rfl fun t rest hts => ?_
  by_cases h : t.kind = kind
  · have hwanted : (t.kind ≠ .endOfInput && decide (t.kind = kind)) = true := by simp [h, hend]
    refine .passes (fun rest => ?_) (fun rest => ?_) (hk (.ofKind h))
    · rw [expect, bind_assoc, accept_bind_cons_of_wanted hwanted]
      rfl
    · rw [expect, bind_assoc, accept_bind_cons_of_wanted hwanted]
      rfl
  · exact .blames _ (expect_bind_cons_of_ne h hotherwise) (expect_bind_cons_of_ne h hotherwise)
      (hP _ hts)

end Rule

end Lox
