import ExprLang.Proofs.Lexer.Segment
import ExprLang.Proofs.Parser.Depth

/-! What is read depends on the tokens alone, and on where they stand only in so far as it tells
whether a prefix, its colon and the name are written without gaps. It is read too where a closing
parenthesis follows. What is read closes the braces that it opens. -/

namespace ExprLang.Parser

open ExprLang.Lexer (depthAfter)

/-! ## Tokens that are spaced alike -/

/-- A name, a colon and a name stand here without gaps, and an opening parenthesis after them. -/
def prefixAhead : List Lexeme → Bool
  | ⟨.name _, first⟩ :: ⟨.symbol .colon, colon⟩ :: ⟨.name _, second⟩ :: ⟨.symbol .lParen, _⟩ :: _ =>
    colon.start = first.stop ∧ second.start = colon.stop
  | _ => false

/-- A closing parenthesis, if its place is given. -/
def closing : Option Span → List Lexeme
  | none => []
  | some span => [⟨.symbol .rParen, span⟩]

/-- The same tokens, with prefixes at the same places. After the second ones a closing parenthesis
stands, if its place is given. -/
inductive Respaced (last : Option Span) : List Lexeme → List Lexeme → Prop
  | nil : Respaced last [] (closing last)
  | cons {t t' : Lexeme} {ts ts' : List Lexeme} (token : t.token = t'.token)
      (rest : Respaced last ts ts')
      (prefixed : prefixAhead (t :: ts) = prefixAhead (t' :: ts')) :
      Respaced last (t :: ts) (t' :: ts')

variable {α β : Type} {last : Option Span} {ts ts' us rest rest' : List Lexeme} {i j k : Nat}

namespace Respaced

theorem refl (ts : List Lexeme) : Respaced none ts ts := by
  induction ts with
  | nil => exact .nil
  | cons t ts ih => exact .cons rfl ih rfl

theorem of_nil (h : Respaced last [] us) : us = closing last := by
  cases h
  rfl

/-- The token at the front stands at the front of both. -/
theorem cons_left {token : Token} {span : Span} (h : Respaced last (⟨token, span⟩ :: ts) us) :
    ∃ span' ts', us = ⟨token, span'⟩ :: ts' ∧ Respaced last ts ts' := by
  cases h with
  | @cons _ t' _ ts' ht hts _ => exact ⟨t'.span, ts', by rw [show token = t'.token from ht], hts⟩

/-- A token of the second ones is one of the first, or the parenthesis after them. -/
theorem cons_right {token : Token} {span : Span} (h : Respaced last us (⟨token, span⟩ :: ts')) :
    (∃ span' ts, us = ⟨token, span'⟩ :: ts ∧ Respaced last ts ts') ∨
      token = .symbol .rParen ∧ ts' = [] := by
  generalize hcons : (⟨token, span⟩ :: ts' : List Lexeme) = us' at h
  cases h with
  | nil =>
    cases last with
    | none => cases hcons
    | some span =>
      cases hcons
      exact .inr ⟨rfl, rfl⟩
  | @cons t _ ts _ ht hts _ =>
    cases hcons
    exact .inl ⟨t.span, ts, by rw [← show t.token = token from ht], hts⟩

theorem other_right {token : Token} {span : Span} (h : Respaced last us (⟨token, span⟩ :: ts'))
    (hne : token ≠ .symbol .rParen) :
    ∃ span' ts, us = ⟨token, span'⟩ :: ts ∧ Respaced last ts ts' :=
  h.cons_right.resolve_right fun hlast => hne hlast.1

end Respaced

theorem prefixAhead_shift (k : Nat) (ts : List Lexeme) :
    prefixAhead (ts.map (·.shift k)) = prefixAhead ts := by
  fun_cases prefixAhead ts with
  | case1 => simp [prefixAhead, Lexeme.shift, Span.shift]
  | case2 ts hother =>
    refine prefixAhead.eq_2 _ ?_
    intro n first colon m second paren rest h
    rcases ts with _ | ⟨⟨_, _⟩, _ | ⟨⟨_, _⟩, _ | ⟨⟨_, _⟩, _ | ⟨⟨_, _⟩, _⟩⟩⟩⟩ <;>
      simp [Lexeme.shift] at h
    obtain ⟨⟨rfl, -⟩, ⟨rfl, -⟩, ⟨rfl, -⟩, ⟨rfl, -⟩, -⟩ := h
    exact hother _ _ _ _ _ _ _ rfl

theorem prefixAhead_closing (last : Option Span) (ts : List Lexeme) :
    prefixAhead (ts ++ closing last) = prefixAhead ts := by
  cases last with
  | none => rw [closing, List.append_nil]
  | some span =>
    fun_cases prefixAhead ts with
    | case1 => rfl
    | case2 ts hother =>
      refine prefixAhead.eq_2 _ ?_
      intro n first colon m second paren rest h
      rcases ts with _ | ⟨⟨_, _⟩, _ | ⟨⟨_, _⟩, _ | ⟨⟨_, _⟩, _ | ⟨⟨_, _⟩, _⟩⟩⟩⟩ <;>
        simp [closing] at h
      obtain ⟨⟨rfl, -⟩, ⟨rfl, -⟩, ⟨rfl, -⟩, ⟨rfl, -⟩, -⟩ := h
      exact hother _ _ _ _ _ _ _ rfl

/-- The same tokens at later places. -/
theorem respaced_shift (last : Option Span) (k : Nat) (ts : List Lexeme) :
    Respaced last ts (ts.map (·.shift k) ++ closing last) := by
  induction ts with
  | nil => exact .nil
  | cons t ts ih =>
    refine .cons rfl ih ?_
    rw [← prefixAhead_shift k (t :: ts), ← prefixAhead_closing last]
    rfl

/-- The same tokens at earlier places. -/
theorem respaced_unshift (k : Nat) (ts : List Lexeme) : Respaced none (ts.map (·.shift k)) ts := by
  induction ts with
  | nil => exact .nil
  | cons t ts ih => exact .cons rfl ih (prefixAhead_shift k (t :: ts))

theorem closesHeader_eq (h : Respaced last ts ts') : closesHeader ts = closesHeader ts' := by
  fun_cases closesHeader ts with
  | case1 =>
    obtain ⟨_, _, rfl, h₁⟩ := h.cons_left
    obtain ⟨_, _, rfl, h₂⟩ := h₁.cons_left
    rfl
  | case2 ts hother =>
    refine (closesHeader.eq_2 _ ?_).symm
    rintro _ _ _ rfl
    -- The arrow comes after the parenthesis, so this is not the last one.
    rcases h.cons_right with ⟨_, _, rfl, h₁⟩ | ⟨-, hnil⟩
    · obtain ⟨_, _, rfl, _⟩ := h₁.other_right nofun
      exact hother _ _ _ rfl
    · cases hnil

theorem namesAhead_eq (h : Respaced last ts ts') : namesAhead ts = namesAhead ts' := by
  fun_induction namesAhead ts generalizing ts' with
  | case1 _ _ _ rest ih =>
    obtain ⟨_, _, rfl, h₁⟩ := h.cons_left
    obtain ⟨_, _, rfl, h₂⟩ := h₁.cons_left
    rw [namesAhead]
    exact ih h₂
  | case2 ts hother =>
    rw [closesHeader_eq h, namesAhead.eq_2]
    rintro _ _ _ _ rfl
    obtain ⟨_, _, rfl, h₁⟩ := h.other_right nofun
    obtain ⟨_, _, rfl, _⟩ := h₁.other_right nofun
    exact hother _ _ _ _ rfl

theorem lambdaAhead_eq (h : Respaced last ts ts') : lambdaAhead ts = lambdaAhead ts' := by
  fun_cases lambdaAhead ts with
  | case1 =>
    obtain ⟨_, _, rfl, h₁⟩ := h.cons_left
    obtain ⟨_, _, rfl, h₂⟩ := h₁.cons_left
    rfl
  | case2 =>
    obtain ⟨_, _, rfl, h₁⟩ := h.cons_left
    obtain ⟨_, _, rfl, h₂⟩ := h₁.cons_left
    exact namesAhead_eq h₂
  | case3 _ rest hother =>
    obtain ⟨_, us, rfl, h₁⟩ := h.cons_left
    rw [lambdaAhead.eq_3]
    · exact closesHeader_eq h₁
    · rintro _ _ _ rfl
      obtain ⟨_, _, rfl, _⟩ := h₁.other_right nofun
      exact hother _ _ _ rfl
  | case4 ts hname hparams hparen =>
    refine (lambdaAhead.eq_4 _ ?_ ?_ ?_).symm
    · rintro _ _ _ _ rfl
      obtain ⟨_, _, rfl, h₁⟩ := h.other_right nofun
      obtain ⟨_, _, rfl, _⟩ := h₁.other_right nofun
      exact hname _ _ _ _ rfl
    · rintro _ _ _ _ rfl
      obtain ⟨_, _, rfl, h₁⟩ := h.other_right nofun
      obtain ⟨_, _, rfl, _⟩ := h₁.other_right nofun
      exact hparams _ _ _ _ rfl
    · rintro _ _ rfl
      obtain ⟨_, _, rfl, _⟩ := h.other_right nofun
      exact hparen _ _ rfl

/-! ## Braces -/

/-- Where `i` braces are open before these tokens, `j` are open before the rest of them, and no
brace between is closed that was open before. -/
def Passes (i j : Nat) (ts rest : List Lexeme) : Prop :=
  ∀ d, depthAfter (d + i) ts = depthAfter (d + j) rest

/-- How the number of open braces changes over a sign. -/
def Moves : Symbol → Nat → Nat → Prop
  | .lBrace, i, j => j = i + 1
  | .rBrace, i, j => i = j + 1
  | _, i, j => i = j

theorem Moves.same {s : Symbol} (hl : s ≠ .lBrace) (hr : s ≠ .rBrace) : Moves s i i := by
  cases s <;> first | rfl | contradiction

namespace Passes

theorem refl (i : Nat) (ts : List Lexeme) : Passes i i ts ts := fun _ => rfl

theorem trans (h : Passes i j ts rest) (h' : Passes j k rest rest') : Passes i k ts rest' :=
  fun d => (h d).trans (h' d)

theorem deeper (h : Passes i j ts rest) (k : Nat) : Passes (k + i) (k + j) ts rest := fun d => by
  rw [← Nat.add_assoc, ← Nat.add_assoc]
  exact h (d + k)

theorem symbol {s : Symbol} (hs : Moves s i j) (span : Span) (ts : List Lexeme) :
    Passes i j (⟨.symbol s, span⟩ :: ts) ts := by
  intro d
  cases s <;> cases hs <;> rfl

theorem word (t : Token) (ht : ∀ s, t ≠ .symbol s) (span : Span) (ts : List Lexeme) :
    Passes i i (⟨t, span⟩ :: ts) ts := by
  intro d
  simp only [depthAfter, if_neg (ht _)]

end Passes

/-- Two readings that started alike, the first one before `ts`, came to tokens that are alike, where
`j` braces are open that were not open at the start. -/
structure Reached (last : Option Span) (ts : List Lexeme) (j : Nat) (rest rest' : List Lexeme) :
    Prop where
  respaced : Respaced last rest rest'
  passes : Passes 0 j ts rest

namespace Reached

theorem start (h : Respaced last ts ts') : Reached last ts 0 ts ts' := ⟨h, .refl 0 ts⟩

/-- A sign stands next in both. -/
theorem symbol {s : Symbol} {span : Span} (h : Reached last ts i (⟨.symbol s, span⟩ :: rest) us)
    (hs : Moves s i j) :
    ∃ span' rest', us = ⟨.symbol s, span'⟩ :: rest' ∧ Reached last ts j rest rest' := by
  obtain ⟨span', rest', rfl, hr⟩ := h.respaced.cons_left
  exact ⟨span', rest', rfl, hr, h.passes.trans (.symbol hs span rest)⟩

/-- A token that is no sign stands next in both. -/
theorem word {t : Token} {span : Span} (h : Reached last ts i (⟨t, span⟩ :: rest) us)
    (ht : ∀ s, t ≠ .symbol s) :
    ∃ span' rest', us = ⟨t, span'⟩ :: rest' ∧ Reached last ts i rest rest' := by
  obtain ⟨span', rest', rfl, hr⟩ := h.respaced.cons_left
  exact ⟨span', rest', rfl, hr, h.passes.trans (.word t ht span rest)⟩

theorem follow (h : Reached last ts i rest rest') {r r' : List Lexeme}
    (h' : Reached last rest 0 r r') : Reached last ts i r r' :=
  ⟨h'.respaced, h.passes.trans (h'.passes.deeper i)⟩

end Reached

/-! ## Readings that are alike -/

theorem eat_bind (s : Symbol) (x y : Reader β) (ts : List Lexeme) :
    (eat s >>= fun taken => if taken then x else y) ts =
      match ts with
      | [] => y []
      | t :: rest => if t.token = .symbol s then x rest else y (t :: rest) := by
  cases ts with
  | nil => rfl
  | cons t rest =>
    show Reader.bind (eat s) _ (t :: rest) = _
    by_cases ht : t.token = .symbol s
    · simp only [Reader.bind, eat, ht, if_true]
    · simp only [Reader.bind, eat, ht, if_false]
      rfl

/-- What the first reading finds, the second one finds as well, and they come to tokens that are
related. -/
inductive Reading.Alike (q : List Lexeme → List Lexeme → Prop) : Reading α → Reading α → Prop
  | found {a : α} {rest rest' : List Lexeme} (h : q rest rest') :
      Alike q (.found a rest) (.found a rest')
  | refused {e : SyntaxError} {r : Reading α} : Alike q (.refused e) r
  | exhausted {r : Reading α} : Alike q .exhausted r

/-- The reading finds nothing. -/
def Reading.Fails (r : Reading α) : Prop := ∀ a rest, r ≠ .found a rest

theorem Reading.Fails.bind {x : Reader α} {f : α → Reader β} (h : (x ts).Fails) :
    ((x >>= f) ts).Fails := by
  show (Reader.bind x f ts).Fails
  unfold Reader.bind
  cases hx : x ts with
  | found a rest => exact absurd hx (h a rest)
  | refused => exact nofun
  | exhausted => exact nofun

open ExprLang.Parser.Reading (Alike Fails)

namespace Reading.Alike

variable {p q : List Lexeme → List Lexeme → Prop} {eof eof' : Span}

theorem mono {r r' : Reading α} (h : Alike p r r') (hpq : ∀ us us', p us us' → q us us') :
    Alike q r r' := by
  cases h with
  | found h => exact .found (hpq _ _ h)
  | refused => exact .refused
  | exhausted => exact .exhausted

theorem bind {x x' : Reader α} {f f' : α → Reader β} (h : Alike p (x ts) (x' ts'))
    (hf : ∀ a us us', p us us' → Alike q (f a us) (f' a us')) :
    Alike q ((x >>= f) ts) ((x' >>= f') ts') := by
  show Alike q (Reader.bind x f ts) (Reader.bind x' f' ts')
  unfold Reader.bind
  generalize x ts = r at h
  generalize x' ts' = r' at h
  cases h with
  | found h => exact hf _ _ _ h
  | refused => exact .refused
  | exhausted => exact .exhausted

theorem pure {a : α} (h : q ts ts') :
    Alike q ((pure a : Reader α) ts) ((Pure.pure a : Reader α) ts') :=
  .found h

theorem of_fails {r r' : Reading α} (h : r.Fails) : Alike q r r' := by
  cases r with
  | found a rest => exact absurd rfl (h a rest)
  | refused => exact .refused
  | exhausted => exact .exhausted

theorem unexpected (what : String) (ts : List Lexeme) {r : Reading α} :
    Alike q (Parser.unexpected eof what ts) r := by
  cases ts <;> exact .refused

/-- A sign that may stand next. A parenthesis after the second tokens is taken for it only where the
first reading fails. -/
theorem eatClosing {s : Symbol} {x x' y y' : Reader β} (h : Reached last ts i rest rest')
    (hs : Moves s i j) (hend : s = .rParen → (y []).Fails)
    (hx : ∀ us us', Reached last ts j us us' → Alike q (x us) (x' us'))
    (hy : Alike q (y rest) (y' rest')) :
    Alike q ((Parser.eat s >>= fun taken => if taken then x else y) rest)
      ((Parser.eat s >>= fun taken => if taken then x' else y') rest') := by
  rw [eat_bind, eat_bind]
  rcases rest with _ | ⟨⟨token, span⟩, us⟩
  · obtain rfl := h.respaced.of_nil
    cases last with
    | none => exact hy
    | some span =>
      dsimp only [closing]
      by_cases ht : s = .rParen
      · exact .of_fails (hend ht)
      · rw [if_neg fun heq => ht (Token.symbol.inj heq).symm]
        exact hy
  · by_cases ht : token = .symbol s
    · subst ht
      obtain ⟨_, us', rfl, hus⟩ := h.symbol hs
      dsimp only
      rw [if_pos rfl, if_pos rfl]
      exact hx us us' hus
    · obtain ⟨_, us', rfl, _⟩ := h.respaced.cons_left
      dsimp only
      rw [if_neg ht, if_neg ht]
      exact hy

/-- A sign that may stand next, and is no closing parenthesis. -/
theorem eat {s : Symbol} {x x' y y' : Reader β} (h : Reached last ts i rest rest')
    (hs : Moves s i j) (hne : s ≠ .rParen)
    (hx : ∀ us us', Reached last ts j us us' → Alike q (x us) (x' us'))
    (hy : Alike q (y rest) (y' rest')) :
    Alike q ((Parser.eat s >>= fun taken => if taken then x else y) rest)
      ((Parser.eat s >>= fun taken => if taken then x' else y') rest') :=
  eatClosing h hs (fun heq => absurd heq hne) hx hy

/-- A sign that may stand next, and stays. -/
theorem at? {s : Symbol} {x x' y y' : Reader β} (h : Respaced last ts ts') (hne : s ≠ .rParen)
    (hx : Alike q (x ts) (x' ts')) (hy : Alike q (y ts) (y' ts')) :
    Alike q ((Parser.at? s >>= fun next => if next then x else y) ts)
      ((Parser.at? s >>= fun next => if next then x' else y') ts') := by
  refine .bind (p := fun us us' => us = ts ∧ us' = ts') ?_ fun next us us' hus => ?_
  · cases h with
    | nil =>
      cases last with
      | none => exact .found ⟨rfl, rfl⟩
      | some span =>
        have hother : (Token.symbol .rParen == .symbol s) = false :=
          beq_eq_false_iff_ne.mpr fun heq => hne (Token.symbol.inj heq).symm
        simp only [Parser.at?, closing, hother]
        exact .found ⟨rfl, rfl⟩
    | cons ht _ _ =>
      simp only [Parser.at?, ht]
      exact .found ⟨rfl, rfl⟩
  · obtain ⟨rfl, rfl⟩ := hus
    cases next with
    | true => exact hx
    | false => exact hy

theorem here {f f' : Span → Reader β} (h : ∀ span span', Alike q (f span ts) (f' span' ts')) :
    Alike q ((Parser.here eof >>= f) ts) ((Parser.here eof' >>= f') ts') :=
  h _ _

theorem expect {s : Symbol} {x x' : Reader β} (h : Reached last ts i rest rest') (hs : Moves s i j)
    (hx : ∀ us us', Reached last ts j us us' → Alike q (x us) (x' us')) :
    Alike q ((Parser.expect eof s >>= fun _ => x) rest)
      ((Parser.expect eof' s >>= fun _ => x') rest') := by
  refine .bind (p := Reached last ts j) ?_ fun _ us us' hus => hx us us' hus
  rcases rest with _ | ⟨⟨token, span⟩, us⟩
  · exact .refused
  · by_cases ht : token = .symbol s
    · subst ht
      obtain ⟨_, us', rfl, hus⟩ := h.symbol hs
      unfold Parser.expect
      dsimp only
      rw [if_pos rfl, if_pos rfl]
      exact .found hus
    · simp only [Parser.expect, if_neg ht]
      exact .unexpected _ _

theorem expectName {f f' : String → Reader β} (h : Reached last ts i rest rest')
    (hf : ∀ name us us', Reached last ts i us us' → Alike q (f name us) (f' name us')) :
    Alike q ((Parser.expectName eof >>= f) rest) ((Parser.expectName eof' >>= f') rest') := by
  refine .bind (p := Reached last ts i) ?_ hf
  unfold Parser.expectName
  split
  · obtain ⟨_, us', rfl, hus⟩ := h.word (fun _ => Token.noConfusion)
    exact .found hus
  · exact .unexpected _ _

/-- Both see the same operator, which is no closing parenthesis. -/
theorem peek {γ : Type} {operator? : Token → Option γ} {f f' : Option Token → Reader β}
    (h : Respaced last ts ts') (hlast : operator? (.symbol .rParen) = none)
    (hf : ∀ token token', token = ts.head?.map Lexeme.token →
      token'.bind operator? = token.bind operator? → Alike q (f token ts) (f' token' ts')) :
    Alike q ((Parser.peek >>= f) ts) ((Parser.peek >>= f') ts') := by
  refine hf (ts.head?.map Lexeme.token) (ts'.head?.map Lexeme.token) rfl ?_
  cases h with
  | nil =>
    cases last with
    | none => rfl
    | some span => exact hlast
  | cons ht _ _ => exact congrArg operator? ht.symm

/-- The token that an operator was seen in, which is no brace. -/
theorem skip {γ : Type} {operator? : Token → Option γ} {op : γ} {x x' : Reader β}
    (h : Reached last ts i rest rest')
    (hop : (rest.head?.map Lexeme.token).bind operator? = some op)
    (hl : operator? (.symbol .lBrace) = none) (hr : operator? (.symbol .rBrace) = none)
    (hx : ∀ us us', Reached last ts i us us' → Alike q (x us) (x' us')) :
    Alike q ((Parser.skip >>= fun _ => x) rest) ((Parser.skip >>= fun _ => x') rest') := by
  rcases rest with _ | ⟨⟨token, span⟩, us⟩
  · cases hop
  · have hnext : ∃ span' us', rest' = ⟨token, span'⟩ :: us' ∧ Reached last ts i us us' := by
      cases token with
      | symbol s =>
        refine h.symbol (.same ?_ ?_) <;> rintro rfl
        · exact nomatch hl.symm.trans hop
        · exact nomatch hr.symm.trans hop
      | _ => exact h.word fun _ => Token.noConfusion
    obtain ⟨_, us', rfl, hus⟩ := hnext
    exact hx us us' hus

end Reading.Alike

section Header
variable {eof eof' : Span}

theorem moreParams_alike (h : Reached last ts i rest rest') :
    Alike (Reached last ts i) (moreParams eof rest) (moreParams eof' rest') := by
  induction rest using namesAhead.induct generalizing rest' with
  | case1 comma name span rest ih =>
    obtain ⟨_, _, rfl, h₁⟩ := h.symbol (j := i) rfl
    obtain ⟨_, _, rfl, h₂⟩ := h₁.word fun _ => Token.noConfusion
    rw [moreParams_cons, moreParams_cons]
    exact .bind (ih h₂) fun more us us' hus => .pure hus
  | case2 rest hother =>
    by_cases hcomma : ∃ span us, rest = ⟨.symbol .comma, span⟩ :: us
    · obtain ⟨_, us, rfl⟩ := hcomma
      rw [moreParams.eq_2]
      · exact .unexpected _ _
      · rintro _ _ _ rfl
        exact hother _ _ _ _ rfl
    · rw [moreParams.eq_3, moreParams.eq_3]
      · exact .found h
      · rintro _ _ _ _ rfl
        obtain ⟨_, _, rfl, h₁⟩ := h.respaced.other_right (by decide)
        exact hcomma ⟨_, _, rfl⟩
      · rintro _ _ rfl
        obtain ⟨_, _, rfl, _⟩ := h.respaced.other_right (by decide)
        exact hcomma ⟨_, _, rfl⟩
      · rintro _ _ _ _ rfl
        exact hcomma ⟨_, _, rfl⟩
      · rintro _ _ rfl
        exact hcomma ⟨_, _, rfl⟩

theorem lambdaHeader_alike (h : Respaced last ts ts') :
    Alike (Reached last ts 0) (lambdaHeader eof ts) (lambdaHeader eof' ts') := by
  dsimp only [lambdaHeader]
  refine .eat (.start h) (j := 0) rfl nofun (fun us₁ us₁' h₁ => ?_) ?_
  · refine .eatClosing h₁ (j := 0) rfl (fun _ => nofun) (fun us₂ us₂' h₂ => ?_) ?_
    · exact .expect h₂ (j := 0) rfl fun us₃ us₃' h₃ => .pure h₃
    · refine .expectName h₁ fun first us₂ us₂' h₂ => ?_
      refine .bind (moreParams_alike h₂) fun more us₃ us₃' h₃ => ?_
      refine .expect h₃ (j := 0) rfl fun us₄ us₄' h₄ => ?_
      exact .expect h₄ (j := 0) rfl fun us₅ us₅' h₅ => .pure h₅
  · refine .expectName (.start h) fun only us₁ us₁' h₁ => ?_
    exact .expect h₁ (j := 0) rfl fun us₂ us₂' h₂ => .pure h₂

end Header

/-! ## Phrases -/

/-- Phrases that differ at most in where the brace stands that they belong to. -/
inductive Phrase.Like : {α : Type} → Phrase α → Phrase α → Prop
  | refl {α : Type} (p : Phrase α) : Like p p
  | moreMembers (opening opening' : Span) : Like (.moreMembers opening) (.moreMembers opening')
  | moreEntries (opening opening' : Span) : Like (.moreEntries opening) (.moreEntries opening')

/-- Two ways to read phrases that read tokens alike that are spaced alike. The first one finds
nothing where no token is left for a phrase that takes one. -/
structure CallsAlike (last : Option Span) (call call' : {α : Type} → Phrase α → Reader α) :
    Prop where
  alike : ∀ {α : Type} {p p' : Phrase α} {ts ts' : List Lexeme}, p.Like p' →
    Respaced last ts ts' → Alike (Reached last ts 0) (call p ts) (call' p' ts')
  fails : ∀ {α : Type} (p : Phrase α), p.least = 1 → (call p []).Fails

section Step
variable {eof eof' : Span} {call call' : {α : Type} → Phrase α → Reader α}

theorem CallsAlike.like (h : CallsAlike last call call') {p p' : Phrase α} (hp : p.Like p')
    (hr : Reached last ts i rest rest') :
    Alike (Reached last ts i) (call p rest) (call' p' rest') :=
  (h.alike hp hr.respaced).mono fun _ _ => hr.follow

theorem CallsAlike.phrase (h : CallsAlike last call call') (p : Phrase α)
    (hr : Reached last ts i rest rest') : Alike (Reached last ts i) (call p rest) (call' p rest') :=
  h.like (.refl p) hr

theorem sequence_alike (h : CallsAlike last call call') (hts : Respaced last ts ts') :
    Alike (Reached last ts 0) (step eof call .sequence ts) (step eof' call' .sequence ts') := by
  refine .bind (h.phrase .assignment (.start hts)) fun first us₁ us₁' h₁ => ?_
  exact h.phrase (.sequenceTail first) h₁

theorem sequenceTail_alike (h : CallsAlike last call call') (hts : Respaced last ts ts')
    (first : Node) :
    Alike (Reached last ts 0) (step eof call (.sequenceTail first) ts)
      (step eof' call' (.sequenceTail first) ts') := by
  refine .eat (.start hts) rfl nofun (fun us₁ us₁' h₁ => ?_) (.pure (.start hts))
  refine .bind (h.phrase .assignment h₁) fun second us₂ us₂' h₂ => ?_
  exact h.phrase (.sequenceTail (.sequence first second)) h₂

theorem assignment_alike (h : CallsAlike last call call') (hts : Respaced last ts ts') :
    Alike (Reached last ts 0) (assignment call ts) (assignment call' ts') := by
  unfold assignment
  rw [lambdaAhead_eq hts]
  split
  · exact h.phrase .lambda (.start hts)
  · refine .bind (h.phrase .choice (.start hts)) fun target us₁ us₁' h₁ => ?_
    refine .eat h₁ rfl nofun (fun us₂ us₂' h₂ => ?_) (.pure h₁)
    exact .bind (h.phrase .assignment h₂) fun value us₃ us₃' h₃ => .pure h₃

theorem lambda_alike (h : CallsAlike last call call') (hts : Respaced last ts ts') :
    Alike (Reached last ts 0) (lambda eof call ts) (lambda eof' call' ts') := by
  refine .bind (lambdaHeader_alike hts) fun params us₁ us₁' h₁ => ?_
  have hbody : Alike (Reached last ts 0) (lambdaBody call us₁) (lambdaBody call' us₁') := by
    unfold lambdaBody
    rw [lambdaAhead_eq h₁.respaced]
    split
    · exact h.phrase .lambda h₁
    · exact h.phrase .choice h₁
  exact .bind hbody fun body us₂ us₂' h₂ => .pure h₂

theorem choice_alike (h : CallsAlike last call call') (hts : Respaced last ts ts') :
    Alike (Reached last ts 0) (choice eof call ts) (choice eof' call' ts') := by
  refine .bind (h.phrase (.binary .or) (.start hts)) fun c us₁ us₁' h₁ => ?_
  have hright : ∀ op us us', Reached last ts 0 us us' → Alike (Reached last ts 0)
      ((do let right ← call .choice; pure (.binary op c right) : Reader Node) us)
      ((do let right ← call' .choice; pure (.binary op c right) : Reader Node) us') :=
    fun op us us' hus => .bind (h.phrase .choice hus) fun b us₂ us₂' h₂ => .pure h₂
  refine .eat h₁ rfl nofun (fun us₂ us₂' h₂ => ?_) ?_
  · refine .bind (h.phrase .choice h₂) fun a us₃ us₃' h₃ => ?_
    refine .expect h₃ rfl fun us₄ us₄' h₄ => ?_
    exact .bind (h.phrase .choice h₄) fun b us₅ us₅' h₅ => .pure h₅
  · refine .eat h₁ rfl nofun (hright .elvis) ?_
    exact .eat h₁ rfl nofun (hright .coalesce) (.pure h₁)

theorem binary_alike (h : CallsAlike last call call') (hts : Respaced last ts ts') (level : Level) :
    Alike (Reached last ts 0) (step eof call (.binary level) ts)
      (step eof' call' (.binary level) ts') := by
  refine .bind (h.phrase level.operand (.start hts)) fun left us₁ us₁' h₁ => ?_
  exact h.phrase (.binaryTail level left) h₁

theorem binaryTail_alike (h : CallsAlike last call call') (hts : Respaced last ts ts')
    (level : Level) (left : Node) :
    Alike (Reached last ts 0) (binaryTail call level left ts)
      (binaryTail call' level left ts') := by
  have hlast : level.operator? (.symbol .rParen) = none := by cases level <;> rfl
  refine .peek hts hlast fun token token' ht hsame => ?_
  dsimp only
  rw [hsame]
  cases hop : token.bind level.operator? with
  | none => exact .pure (.start hts)
  | some op =>
    refine .skip (.start hts) (ht ▸ hop) (by cases level <;> rfl) (by cases level <;> rfl)
      fun us₁ us₁' h₁ => ?_
    refine .bind (h.phrase level.operand h₁) fun right us₂ us₂' h₂ => ?_
    exact h.phrase (.binaryTail level (.binary op left right)) h₂

theorem unary_alike (h : CallsAlike last call call') (hts : Respaced last ts ts') :
    Alike (Reached last ts 0) (unary call ts) (unary call' ts') := by
  have hlast : unaryOperator? (.symbol .rParen) = none := rfl
  refine .peek hts hlast fun token token' ht hsame => ?_
  dsimp only
  rw [hsame]
  cases hop : token.bind unaryOperator? with
  | none => exact h.phrase .value (.start hts)
  | some op =>
    refine .skip (.start hts) (ht ▸ hop) rfl rfl fun us₁ us₁' h₁ => ?_
    exact .bind (h.phrase .unary h₁) fun a us₂ us₂' h₂ => .pure h₂

theorem value_alike (h : CallsAlike last call call') (hts : Respaced last ts ts') :
    Alike (Reached last ts 0) (step eof call .value ts) (step eof' call' .value ts') := by
  refine .bind (h.phrase .primary (.start hts)) fun base us₁ us₁' h₁ => ?_
  refine .bind (h.phrase .steps h₁) fun ss us₂ us₂' h₂ => ?_
  cases ss with
  | nil => exact .pure h₂
  | cons s ss => exact .pure h₂

theorem stepsAfter_alike (h : CallsAlike last call call') (hr : Reached last ts i rest rest')
    (selector : Selector) :
    Alike (Reached last ts i) (stepsAfter call selector rest)
      (stepsAfter call' selector rest') := by
  have hmore : ∀ args us us', Reached last ts i us us' → Alike (Reached last ts i)
      ((do let more ← call .steps; pure (.mk selector args :: more) : Reader (List Step)) us)
      ((do let more ← call' .steps; pure (.mk selector args :: more) : Reader (List Step)) us') :=
    fun args us us' hus => .bind (h.phrase .steps hus) fun more us₁ us₁' h₁ => .pure h₁
  dsimp only [stepsAfter]
  refine .at? hr.respaced nofun ?_ ?_
  · refine .bind (p := Reached last ts i) ?_ hmore
    exact .bind (h.phrase .arguments hr) fun args us us' hus => .pure hus
  · exact .bind (.pure hr) hmore

theorem steps_alike (h : CallsAlike last call call') (hts : Respaced last ts ts') :
    Alike (Reached last ts 0) (steps eof call ts) (steps eof' call' ts') := by
  refine .eat (.start hts) rfl nofun (fun us₁ us₁' h₁ => ?_) ?_
  · exact .expectName h₁ fun name us₂ us₂' h₂ => stepsAfter_alike h h₂ (.field name)
  · refine .eat (.start hts) rfl nofun (fun us₁ us₁' h₁ => ?_) (.pure (.start hts))
    refine .bind (h.phrase .sequence h₁) fun index us₂ us₂' h₂ => ?_
    exact .expect h₂ rfl fun us₃ us₃' h₃ => stepsAfter_alike h h₃ (.index index)

theorem moreItems_alike (h : CallsAlike last call call') (hts : Respaced last ts ts') :
    Alike (Reached last ts 0) (step eof call .moreItems ts) (step eof' call' .moreItems ts') := by
  refine .eat (.start hts) rfl nofun (fun us₁ us₁' h₁ => ?_) (.pure (.start hts))
  refine .bind (h.phrase .sequence h₁) fun item us₂ us₂' h₂ => ?_
  exact .bind (h.phrase .moreItems h₂) fun more us₃ us₃' h₃ => .pure h₃

theorem enclosed_alike (h : CallsAlike last call call') (hts : Respaced last ts ts')
    {opening closing : Symbol} (ho : Moves opening 0 j) (hc : Moves closing j 0) :
    Alike (Reached last ts 0) (enclosed eof call opening closing ts)
      (enclosed eof' call' opening closing ts') := by
  refine .expect (.start hts) ho fun us₁ us₁' h₁ => ?_
  refine .eatClosing h₁ hc (fun _ => .bind (h.fails .sequence rfl)) (fun us₂ us₂' h₂ => .pure h₂) ?_
  refine .bind (h.phrase .sequence h₁) fun first us₂ us₂' h₂ => ?_
  refine .bind (h.phrase .moreItems h₂) fun more us₃ us₃' h₃ => ?_
  exact .expect h₃ hc fun us₄ us₄' h₄ => .pure h₄

theorem calls_alike (h : CallsAlike last call call') (hts : Respaced last ts ts') :
    Alike (Reached last ts 0) (step eof call .calls ts) (step eof' call' .calls ts') := by
  refine .at? hts nofun ?_ (.pure (.start hts))
  refine .bind (h.phrase .arguments (.start hts)) fun first us₁ us₁' h₁ => ?_
  exact .bind (h.phrase .calls h₁) fun more us₂ us₂' h₂ => .pure h₂

theorem enclosedLambda_alike (h : CallsAlike last call call') (hts : Respaced last ts ts') :
    Alike (Reached last ts 0) (enclosedLambda eof call ts) (enclosedLambda eof' call' ts') := by
  refine .expect (.start hts) rfl fun us₁ us₁' h₁ => ?_
  refine .bind (h.phrase .lambda h₁) fun lambda us₂ us₂' h₂ => ?_
  refine .expect h₂ rfl fun us₃ us₃' h₃ => ?_
  refine .bind (h.phrase .calls h₃) fun calls us₄ us₄' h₄ => ?_
  cases lambda <;> exact .pure h₄

/-- A prefix is seen in both or in neither. -/
theorem nameOrCall_alike (h : CallsAlike last call call') (hts : Respaced last ts ts') :
    Alike (Reached last ts 0) (nameOrCall eof call ts) (nameOrCall eof' call' ts') := by
  unfold nameOrCall
  split
  · rename_i n span rest
    obtain ⟨span', rest', rfl, h₁⟩ := (Reached.start hts).word fun _ => Token.noConfusion
    dsimp only
    split
    · obtain ⟨_, _, rfl, _⟩ := h₁.symbol (j := 0) rfl
      exact .bind (h.phrase .calls h₁) fun calls us us' hus => .pure hus
    · rename_i colon m after paren rest
      obtain ⟨colon', _, rfl, h₂⟩ := h₁.symbol (j := 0) rfl
      obtain ⟨after', _, rfl, h₃⟩ := h₂.word fun _ => Token.noConfusion
      obtain ⟨paren', _, rfl, _⟩ := h₃.symbol (j := 0) rfl
      have hgaps : (colon.start = span.stop ∧ after.start = colon.stop) ↔
          (colon'.start = span'.stop ∧ after'.start = colon'.stop) := by
        cases hts with
        | cons _ _ hp => exact decide_eq_decide.mp hp
      dsimp only
      split <;> rename_i hadjacent
      · rw [if_pos (hgaps.mp hadjacent)]
        exact .bind (h.phrase .calls h₃) fun calls us us' hus => .pure hus
      · rw [if_neg (mt hgaps.mpr hadjacent)]
        exact .found h₁
    · rename_i hcall hprefixed
      split
      · obtain ⟨_, _, rfl, _⟩ := h₁.respaced.other_right nofun
        exact (hcall _ _ rfl).elim
      · obtain ⟨_, _, rfl, h₂⟩ := h₁.respaced.other_right nofun
        obtain ⟨_, _, rfl, h₃⟩ := h₂.other_right nofun
        obtain ⟨_, _, rfl, _⟩ := h₃.other_right nofun
        exact (hprefixed _ _ _ _ _ rfl).elim
      · exact .found h₁
  · exact .unexpected _ _

theorem moreMembers_alike (h : CallsAlike last call call') (hts : Respaced last ts ts')
    (opening opening' : Span) :
    Alike (Reached last ts 0) (moreMembers eof call opening ts)
      (moreMembers eof' call' opening' ts') := by
  refine .eat (.start hts) rfl nofun (fun us₁ us₁' h₁ => ?_) (.pure (.start hts))
  refine .bind (h.phrase .sequence h₁) fun item us₂ us₂' h₂ => ?_
  refine .at? h₂.respaced nofun (.here fun span span' => .refused) ?_
  exact .bind (h.like (.moreMembers opening opening') h₂) fun more us₃ us₃' h₃ => .pure h₃

theorem moreEntries_alike (h : CallsAlike last call call') (hts : Respaced last ts ts')
    (opening opening' : Span) :
    Alike (Reached last ts 0) (moreEntries eof call opening ts)
      (moreEntries eof' call' opening' ts') := by
  refine .eat (.start hts) rfl nofun (fun us₁ us₁' h₁ => ?_) (.pure (.start hts))
  refine .bind (h.phrase .sequence h₁) fun key us₂ us₂' h₂ => ?_
  refine .eat h₂ rfl nofun (fun us₃ us₃' h₃ => ?_) (.here fun span span' => .refused)
  refine .bind (h.phrase .sequence h₃) fun value us₄ us₄' h₄ => ?_
  exact .bind (h.like (.moreEntries opening opening') h₄) fun more us₅ us₅' h₅ => .pure h₅

theorem setOrMap_alike (h : CallsAlike last call call') (hts : Respaced last ts ts') :
    Alike (Reached last ts 0) (setOrMap eof call ts) (setOrMap eof' call' ts') := by
  refine .here fun opening opening' => ?_
  refine .expect (.start hts) rfl fun us₁ us₁' h₁ => ?_
  refine .eat h₁ rfl nofun (fun us₂ us₂' h₂ => .pure h₂) ?_
  refine .bind (h.phrase .sequence h₁) fun first us₂ us₂' h₂ => ?_
  refine .eat h₂ rfl nofun (fun us₃ us₃' h₃ => ?_) ?_
  · refine .bind (h.phrase .sequence h₃) fun value us₄ us₄' h₄ => ?_
    refine .bind (h.like (.moreEntries opening opening') h₄) fun more us₅ us₅' h₅ => ?_
    exact .expect h₅ rfl fun us₆ us₆' h₆ => .pure h₆
  · refine .bind (h.like (.moreMembers opening opening') h₂) fun more us₃ us₃' h₃ => ?_
    exact .expect h₃ rfl fun us₄ us₄' h₄ => .pure h₄

theorem primary_alike (h : CallsAlike last call call') (hts : Respaced last ts ts') :
    Alike (Reached last ts 0) (primary eof call ts) (primary eof' call' ts') := by
  rcases ts with _ | ⟨⟨token, span⟩, us⟩
  · cases hts
    exact .refused
  · obtain ⟨span', us', rfl, -⟩ := hts.cons_left
    cases token with
    | symbol s =>
      cases s with
      | lParen =>
        obtain ⟨_, _, hcons, h₁⟩ := (Reached.start hts).symbol (j := 0) rfl
        cases hcons
        dsimp only [primary]
        rw [lambdaAhead_eq h₁.respaced]
        split
        · exact enclosedLambda_alike h hts
        · refine .bind (h.phrase .sequence h₁) fun inner us₂ us₂' h₂ => ?_
          exact .expect h₂ rfl fun us₃ us₃' h₃ => .pure h₃
      | lBracket => exact .bind (enclosed_alike h hts rfl rfl) fun items us₁ us₁' h₁ => .pure h₁
      | lBrace => exact setOrMap_alike h hts
      | _ => exact .refused
    | keyword word =>
      obtain ⟨_, _, hcons, h₁⟩ := (Reached.start hts).word fun _ => Token.noConfusion
      cases hcons
      cases word <;> first | exact .found h₁ | exact .refused
    | name n =>
      dsimp only [primary]
      exact nameOrCall_alike h hts
    | _ =>
      obtain ⟨_, _, hcons, h₁⟩ := (Reached.start hts).word fun _ => Token.noConfusion
      cases hcons
      exact .found h₁

/-- One phrase is read alike from tokens that are spaced alike, when the phrases inside it are. -/
theorem step_alike {p p' : Phrase α} (hp : p.Like p') (h : CallsAlike last call call')
    (hts : Respaced last ts ts') :
    Alike (Reached last ts 0) (step eof call p ts) (step eof' call' p' ts') := by
  cases hp with
  | moreMembers opening opening' => exact moreMembers_alike h hts opening opening'
  | moreEntries opening opening' => exact moreEntries_alike h hts opening opening'
  | refl p =>
    cases p with
    | sequence => exact sequence_alike h hts
    | sequenceTail first => exact sequenceTail_alike h hts first
    | assignment => exact assignment_alike h hts
    | lambda => exact lambda_alike h hts
    | choice => exact choice_alike h hts
    | binary level => exact binary_alike h hts level
    | binaryTail level left => exact binaryTail_alike h hts level left
    | unary => exact unary_alike h hts
    | value => exact value_alike h hts
    | steps => exact steps_alike h hts
    | primary => exact primary_alike h hts
    | arguments => exact enclosed_alike h hts rfl rfl
    | calls => exact calls_alike h hts
    | moreItems => exact moreItems_alike h hts
    | moreMembers opening => exact moreMembers_alike h hts opening opening
    | moreEntries opening => exact moreEntries_alike h hts opening opening

/-- Without a token no phrase is found that takes one. -/
theorem step_fails (h : ∀ {α : Type} (p : Phrase α), p.least = 1 → (call p []).Fails) (p : Phrase α)
    (hp : p.least = 1) : (step eof call p []).Fails := by
  cases p with
  | sequence => exact .bind (h .assignment rfl)
  | assignment => exact .bind (x := call .choice) (h .choice rfl)
  | lambda =>
    have hheader : (lambdaHeader eof []).Fails := nofun
    exact .bind hheader
  | choice => exact .bind (h (.binary .or) rfl)
  | binary level => exact .bind (h level.operand (by cases level <;> rfl))
  | unary => exact h .value rfl
  | value => exact .bind (h .primary rfl)
  | primary => exact nofun
  | arguments => exact nofun
  | _ => cases hp

theorem run_alike (last : Option Span) (depth : Nat) :
    CallsAlike last (fun {_} => run eof depth) (fun {_} => run eof' depth) := by
  induction depth with
  | zero => exact ⟨fun _ _ => .exhausted, fun _ _ => nofun⟩
  | succ depth ih => exact ⟨fun hp hts => step_alike hp ih hts, step_fails ih.fails⟩

/-- What is read from tokens is read too from tokens that are spaced alike. -/
theorem read_alike (p : Phrase α) (hts : Respaced last ts ts') :
    Alike (Reached last ts 0) (read eof p ts) (read eof' p ts') := by
  have hread (eof : Span) (us : List Lexeme) {d : Nat} (hd : p.weight us < d) :
      read eof p us = run eof d p us := (run_same p (Nat.lt_succ_self _) hd).eq
  rw [hread eof ts (d := p.weight ts + p.weight ts' + 1) (by omega),
    hread eof' ts' (d := p.weight ts + p.weight ts' + 1) (by omega)]
  exact (run_alike last _).alike (.refl p) hts

end Step

end ExprLang.Parser

namespace ExprLang

open ExprLang.Parser (Respaced Reached read read_alike)
open ExprLang.Parser.Reading (Alike)

variable {ts ts' : List Lexeme} {eof : Span} {n : Node}

theorem parseTokens_alike (hts : Respaced none ts ts') (h : parseTokens ts eof = .ok n)
    (eof' : Span) : parseTokens ts' eof' = .ok n ∧ Lexer.depthAfter 0 ts = some 0 := by
  have halike : Alike (Reached none ts 0) (read eof .sequence ts) (read eof' .sequence ts') :=
    read_alike .sequence hts
  rw [read_of_parseTokens h] at halike
  generalize hr : read eof' .sequence ts' = r at halike
  cases halike with
  | found hreached =>
    rw [hreached.respaced.of_nil] at hr
    exact ⟨parseTokens_found hr, hreached.passes 0⟩

/-- Tokens that are spaced alike make up the same tree. -/
theorem parseTokens_respaced (hts : Respaced none ts ts') (h : parseTokens ts eof = .ok n)
    (eof' : Span) : parseTokens ts' eof' = .ok n :=
  (parseTokens_alike hts h eof').1

/-- The tokens of a tree close the braces that they open, and no other. -/
theorem depthAfter_of_parseTokens (h : parseTokens ts eof = .ok n) :
    Lexer.depthAfter 0 ts = some 0 :=
  (parseTokens_alike (.refl ts) h eof).2

end ExprLang
