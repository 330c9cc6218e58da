import ExprLang.Proofs.Parser.Spacing

/-! Where refusals point. The same tokens at a later place are refused there where they are refused
at the earlier one, also if a closing brace follows the earlier ones that closes nothing. -/

namespace ExprLang.Parser

open ExprLang.Lexer (depthAfter)

/-! ## Tokens and their copies -/

/-- The place of the first token, or else the end of the expression. -/
def placeOf (eof : Span) : List Lexeme → Span
  | [] => eof
  | t :: _ => t.span

/-- How places of tokens and of their copies at a later place belong together. -/
structure Copying where
  distance : Nat
  /-- What stands behind the tokens, and not behind their copies. -/
  tail : List Lexeme
  eof : Span
  eof' : Span
  Pairs : Span → Span → Prop
  merge : ∀ {a b a' b' : Span}, Pairs a a' → Pairs b b' → Pairs (a.merge b) (a'.merge b')
  edge : Pairs (placeOf eof tail) eof'
  brace : ∀ t ts, tail = t :: ts → t.token = .symbol .rBrace

variable {c : Copying} {α β : Type} {d i j : Nat} {us us' : List Lexeme}

/-- Tokens before the tail, and their copies. The braces of the tokens close those `d` that are open
before them, so that the tail closes none of these. -/
structure Beside (c : Copying) (d : Nat) (us us' : List Lexeme) : Prop where
  copied : ∃ ts, us = ts ++ c.tail ∧ us' = ts.map (·.shift c.distance) ∧
    (∀ t ∈ ts, c.Pairs t.span (t.span.shift c.distance)) ∧
    (c.tail = [] ∨ depthAfter d ts = some 0)

/-- A token in front of tokens that takes the number of open braces from `i` to `j`. -/
def Token.Moves (t : Token) (i j : Nat) : Prop :=
  match t with
  | .symbol s => Parser.Moves s i j
  | _ => i = j

theorem Token.Moves.ne_rBrace {t : Token} (h : Token.Moves t d d) : t ≠ .symbol .rBrace := by
  rintro rfl
  exact Nat.succ_ne_self d (Eq.symm h)

theorem Token.Moves.same {t : Token} (hl : t ≠ .symbol .lBrace) (hr : t ≠ .symbol .rBrace) :
    Token.Moves t d d := by
  cases t with
  | symbol s => exact Parser.Moves.same (fun hs => hl (congrArg _ hs)) fun hs => hr (congrArg _ hs)
  | _ => rfl

namespace Beside

/-- Both are at an end, or the same token stands next. -/
theorem next (h : Beside c d us us') :
    (us = c.tail ∧ us' = [] ∧ (c.tail = [] ∨ d = 0)) ∨
      ∃ t rest rest', us = t :: rest ∧ us' = t.shift c.distance :: rest' ∧
        c.Pairs t.span (t.span.shift c.distance) ∧
        ∀ j, Token.Moves t.token d j → Beside c j rest rest' := by
  obtain ⟨ts, rfl, rfl, hpairs, hdepth⟩ := h.copied
  cases ts with
  | nil =>
    refine .inl ⟨rfl, rfl, hdepth.imp_right fun hd => ?_⟩
    exact Option.some.inj hd
  | cons t ts =>
    obtain ⟨ht, hts⟩ := List.forall_mem_cons.mp hpairs
    refine .inr ⟨t, ts ++ c.tail, ts.map (·.shift c.distance), rfl, rfl, ht, fun j hj => ?_⟩
    refine ⟨ts, rfl, rfl, hts, hdepth.imp_right fun hd => ?_⟩
    obtain ⟨token, span⟩ := t
    have hpass : Passes d j (⟨token, span⟩ :: ts) ts := by
      cases token with
      | symbol s => exact .symbol hj span ts
      | _ =>
        cases hj
        exact .word _ (fun _ => Token.noConfusion) span ts
    have hsame := hpass 0
    rw [Nat.zero_add, Nat.zero_add] at hsame
    rw [← hsame, hd]

theorem place (h : Beside c d us us') : c.Pairs (placeOf c.eof us) (placeOf c.eof' us') := by
  rcases h.next with ⟨rfl, rfl, -⟩ | ⟨t, rest, rest', rfl, rfl, ht, -⟩
  · exact c.edge
  · exact ht

/-- A sign that both have next, or neither. -/
theorem sign {s : Symbol} (h : Beside c d us us') (hs : Parser.Moves s d j) :
    (∃ t rest rest', us = t :: rest ∧ us' = t.shift c.distance :: rest' ∧ t.token = .symbol s ∧
        Beside c j rest rest') ∨
      ¬ StartsWith s us ∧ ¬ StartsWith s us' := by
  rcases h.next with ⟨rfl, rfl, hend⟩ | ⟨t, rest, rest', rfl, rfl, -, hrest⟩
  · refine .inr ⟨fun hstarts => ?_, id⟩
    cases htail : c.tail with
    | nil =>
      rw [htail] at hstarts
      exact hstarts
    | cons t ts =>
      rw [htail] at hstarts hend
      have hbrace := c.brace t ts htail
      rw [show t.token = .symbol s from hstarts] at hbrace
      cases hbrace
      -- the brace of the tail would close one that is open
      cases hend.resolve_left (List.cons_ne_nil t ts)
      cases hs
  · by_cases ht : t.token = .symbol s
    · refine .inl ⟨t, rest, rest', rfl, rfl, ht, hrest j ?_⟩
      rw [ht]
      exact hs
    · exact .inr ⟨ht, ht⟩

/-- A token that is no brace, which both have next or neither. -/
theorem word (h : Beside c d us us') {t : Token} {span : Span} {rest : List Lexeme}
    (hus : us = ⟨t, span⟩ :: rest) (ht : Token.Moves t d d) :
    ∃ rest', us' = ⟨t, span.shift c.distance⟩ :: rest' ∧ Beside c d rest rest' := by
  rcases h.next with ⟨htail, rfl, -⟩ | ⟨t', rest₁, rest', hcons, rfl, -, hrest⟩
  · exact absurd (c.brace _ _ (htail.symm.trans hus)) ht.ne_rBrace
  · rw [hus] at hcons
    cases hcons
    exact ⟨rest', rfl, hrest d ht⟩

/-- A copy of a token that is no brace is the copy of the token that stands next. -/
theorem copy (h : Beside c d us us') {t : Token} {span' : Span} {rest' : List Lexeme}
    (hus : us' = ⟨t, span'⟩ :: rest') (ht : Token.Moves t d d) :
    ∃ span rest, us = ⟨t, span⟩ :: rest ∧ Beside c d rest rest' := by
  rcases h.next with ⟨-, rfl, -⟩ | ⟨⟨t', span⟩, rest, rest₁, rfl, hcons, -, -⟩
  · cases hus
  · rw [hus] at hcons
    obtain ⟨hcopy, hrest⟩ := List.cons.inj hcons
    obtain ⟨rfl, rfl⟩ := Lexeme.mk.inj hcopy
    obtain ⟨_, hsame, hbeside⟩ := h.word rfl ht
    rw [hus] at hsame
    exact ⟨span, rest, rfl, (List.cons.inj hsame).2 ▸ hbeside⟩

end Beside

theorem closesHeader_beside (h : Beside c d us us') : closesHeader us = closesHeader us' := by
  fun_cases closesHeader us with
  | case1 =>
    obtain ⟨_, rfl, h₁⟩ := h.word rfl rfl
    obtain ⟨_, rfl, h₂⟩ := h₁.word rfl rfl
    rfl
  | case2 us hother =>
    refine (closesHeader.eq_2 _ ?_).symm
    rintro _ _ _ rfl
    obtain ⟨_, _, rfl, h₁⟩ := h.copy rfl rfl
    obtain ⟨_, _, rfl, _⟩ := h₁.copy rfl rfl
    exact hother _ _ _ rfl

theorem namesAhead_beside (h : Beside c d us us') : namesAhead us = namesAhead us' := by
  fun_induction namesAhead us generalizing us' with
  | case1 _ _ _ rest ih =>
    obtain ⟨_, rfl, h₁⟩ := h.word rfl rfl
    obtain ⟨_, rfl, h₂⟩ := h₁.word rfl rfl
    rw [namesAhead]
    exact ih h₂
  | case2 us hother =>
    rw [closesHeader_beside h, namesAhead.eq_2]
    rintro _ _ _ _ rfl
    obtain ⟨_, _, rfl, h₁⟩ := h.copy rfl rfl
    obtain ⟨_, _, rfl, _⟩ := h₁.copy rfl rfl
    exact hother _ _ _ _ rfl

theorem lambdaAhead_beside (h : Beside c d us us') : lambdaAhead us = lambdaAhead us' := by
  fun_cases lambdaAhead us with
  | case1 =>
    obtain ⟨_, rfl, h₁⟩ := h.word rfl rfl
    obtain ⟨_, rfl, h₂⟩ := h₁.word rfl rfl
    rfl
  | case2 =>
    obtain ⟨_, rfl, h₁⟩ := h.word rfl rfl
    obtain ⟨_, rfl, h₂⟩ := h₁.word rfl rfl
    exact namesAhead_beside h₂
  | case3 _ rest hother =>
    obtain ⟨_, rfl, h₁⟩ := h.word rfl rfl
    rw [lambdaAhead.eq_3]
    · exact closesHeader_beside h₁
    · rintro _ _ _ rfl
      obtain ⟨_, _, rfl, _⟩ := h₁.copy rfl rfl
      exact hother _ _ _ rfl
  | case4 us hname hparams hparen =>
    refine (lambdaAhead.eq_4 _ ?_ ?_ ?_).symm
    · rintro _ _ _ _ rfl
      obtain ⟨_, _, rfl, h₁⟩ := h.copy rfl rfl
      obtain ⟨_, _, rfl, _⟩ := h₁.copy rfl rfl
      exact hname _ _ _ _ rfl
    · rintro _ _ _ _ rfl
      obtain ⟨_, _, rfl, h₁⟩ := h.copy rfl rfl
      obtain ⟨_, _, rfl, _⟩ := h₁.copy rfl rfl
      exact hparams _ _ _ _ rfl
    · rintro _ _ rfl
      obtain ⟨_, _, rfl, _⟩ := h.copy rfl rfl
      exact hparen _ _ rfl

/-! ## Signs that may stand next -/

section Signs
variable {s : Symbol} {x y : Reader β}

theorem eat_bind_of_not (h : ¬ StartsWith s us) :
    (eat s >>= fun taken => if taken then x else y) us = y us := by
  rw [eat_bind]
  cases us with
  | nil => rfl
  | cons t rest => exact if_neg h

theorem at?_bind_of (h : StartsWith s us) :
    (at? s >>= fun next => if next then x else y) us = x us := by
  cases us with
  | nil => exact h.elim
  | cons t rest =>
    show (if t.token == .symbol s then x else y) (t :: rest) = x (t :: rest)
    rw [if_pos (beq_iff_eq.mpr h)]

theorem at?_bind_of_not (h : ¬ StartsWith s us) :
    (at? s >>= fun next => if next then x else y) us = y us := by
  cases us with
  | nil => rfl
  | cons t rest =>
    show (if t.token == .symbol s then x else y) (t :: rest) = y (t :: rest)
    rw [if_neg (mt beq_iff_eq.mp h)]

theorem expect_of_not (h : ¬ StartsWith s us) (eof : Span) :
    expect eof s us = unexpected eof ("'" ++ s.spelling ++ "'") us := by
  cases us with
  | nil => rfl
  | cons t rest => exact if_neg h

theorem here_bind (eof : Span) (f : Span → Reader β) (us : List Lexeme) :
    (here eof >>= f) us = f (placeOf eof us) us := by
  cases us <;> rfl

end Signs

/-! ## Readings that end alike -/

/-- Both readings find the same, and come to tokens that are related, or both are refused at places
that belong together. -/
inductive Reading.Matched (c : Copying) (q : List Lexeme → List Lexeme → Prop) :
    Reading α → Reading α → Prop
  | found {a : α} {rest rest' : List Lexeme} (h : q rest rest') :
      Matched c q (.found a rest) (.found a rest')
  | refused {e e' : SyntaxError} (h : c.Pairs e.span e'.span) :
      Matched c q (.refused e) (.refused e')
  | exhausted : Matched c q .exhausted .exhausted

open ExprLang.Parser.Reading (Matched)

namespace Reading.Matched

variable {p q : List Lexeme → List Lexeme → Prop}

theorem bind {x x' : Reader α} {f f' : α → Reader β} (h : Matched c p (x us) (x' us'))
    (hf : ∀ a vs vs', p vs vs' → Matched c q (f a vs) (f' a vs')) :
    Matched c q ((x >>= f) us) ((x' >>= f') us') := by
  show Matched c q (Reader.bind x f us) (Reader.bind x' f' us')
  unfold Reader.bind
  generalize x us = r at h
  generalize x' us' = r' at h
  cases h with
  | found h => exact hf _ _ _ h
  | refused h => exact .refused h
  | exhausted => exact .exhausted

theorem pure {a : α} (h : q us us') :
    Matched c q ((pure a : Reader α) us) ((Pure.pure a : Reader α) us') :=
  .found h

theorem unexpected (h : Beside c d us us') (what : String) :
    Matched (α := α) c q (Parser.unexpected c.eof what us) (Parser.unexpected c.eof' what us') := by
  have hplace := h.place
  cases us <;> cases us' <;> exact .refused hplace

/-- A sign that may stand next. -/
theorem eat {s : Symbol} {x x' y y' : Reader β} (h : Beside c i us us') (hs : Moves s i j)
    (hx : ∀ vs vs', Beside c j vs vs' → Matched c q (x vs) (x' vs'))
    (hy : Matched c q (y us) (y' us')) :
    Matched c q ((Parser.eat s >>= fun taken => if taken then x else y) us)
      ((Parser.eat s >>= fun taken => if taken then x' else y') us') := by
  rw [eat_bind, eat_bind]
  rcases h.sign hs with ⟨t, rest, rest', rfl, rfl, ht, hrest⟩ | ⟨hus, hus'⟩
  · have ht' : (t.shift c.distance).token = .symbol s := ht
    dsimp only
    rw [if_pos ht, if_pos ht']
    exact hx rest rest' hrest
  · rw [← eat_bind, ← eat_bind, eat_bind_of_not hus, eat_bind_of_not hus']
    exact hy

/-- A sign that may stand next, and stays. -/
theorem at? {s : Symbol} {x x' y y' : Reader β} (h : Beside c i us us') (hs : Moves s i j)
    (hx : Matched c q (x us) (x' us')) (hy : Matched c q (y us) (y' us')) :
    Matched c q ((Parser.at? s >>= fun next => if next then x else y) us)
      ((Parser.at? s >>= fun next => if next then x' else y') us') := by
  rcases h.sign hs with ⟨t, rest, rest', rfl, rfl, ht, -⟩ | ⟨hus, hus'⟩
  · have hleft : StartsWith s (t :: rest) := ht
    have hright : StartsWith s (t.shift c.distance :: rest') := ht
    rw [at?_bind_of hleft, at?_bind_of hright]
    exact hx
  · rw [at?_bind_of_not hus, at?_bind_of_not hus']
    exact hy

/-- The place of what stands next. -/
theorem here {f f' : Span → Reader β} (h : Beside c d us us')
    (hf : ∀ span span', c.Pairs span span' → Matched c q (f span us) (f' span' us')) :
    Matched c q ((Parser.here c.eof >>= f) us) ((Parser.here c.eof' >>= f') us') := by
  rw [here_bind, here_bind]
  exact hf _ _ h.place

theorem expect {s : Symbol} {x x' : Reader β} (h : Beside c i us us') (hs : Moves s i j)
    (hx : ∀ vs vs', Beside c j vs vs' → Matched c q (x vs) (x' vs')) :
    Matched c q ((Parser.expect c.eof s >>= fun _ => x) us)
      ((Parser.expect c.eof' s >>= fun _ => x') us') := by
  refine .bind (p := Beside c j) ?_ fun _ vs vs' hvs => hx vs vs' hvs
  rcases h.sign hs with ⟨t, rest, rest', rfl, rfl, ht, hrest⟩ | ⟨hus, hus'⟩
  · have ht' : (t.shift c.distance).token = .symbol s := ht
    unfold Parser.expect
    dsimp only
    rw [if_pos ht, if_pos ht']
    exact .found hrest
  · rw [expect_of_not hus, expect_of_not hus']
    exact .unexpected h _

theorem expectName {f f' : String → Reader β} (h : Beside c d us us')
    (hf : ∀ name vs vs', Beside c d vs vs' → Matched c q (f name vs) (f' name vs')) :
    Matched c q ((Parser.expectName c.eof >>= f) us) ((Parser.expectName c.eof' >>= f') us') := by
  refine .bind (p := Beside c d) ?_ hf
  fun_cases Parser.expectName c.eof us with
  | case1 name span rest =>
    obtain ⟨rest', rfl, hrest⟩ := h.word rfl rfl
    exact .found hrest
  | case2 us hother =>
    rw [Parser.expectName.eq_2]
    · exact .unexpected h _
    · rintro _ _ _ rfl
      obtain ⟨_, _, rfl, _⟩ := h.copy rfl rfl
      exact hother _ _ _ rfl

/-- Both see the same operator. -/
theorem peek {γ : Type} {operator? : Token → Option γ} {f f' : Option Token → Reader β}
    (h : Beside c d us us') (hr : operator? (.symbol .rBrace) = none)
    (hf : ∀ token token', token = us.head?.map Lexeme.token →
      token'.bind operator? = token.bind operator? → Matched c q (f token us) (f' token' us')) :
    Matched c q ((Parser.peek >>= f) us) ((Parser.peek >>= f') us') := by
  refine hf (us.head?.map Lexeme.token) (us'.head?.map Lexeme.token) rfl ?_
  rcases h.next with ⟨rfl, rfl, -⟩ | ⟨t, rest, rest', rfl, rfl, -, -⟩
  · cases htail : c.tail with
    | nil => rfl
    | cons t ts =>
      show none = operator? t.token
      rw [c.brace t ts htail, hr]
  · rfl

/-- The token that an operator was seen in, which is no brace. -/
theorem skip {γ : Type} {operator? : Token → Option γ} {op : γ} {x x' : Reader β}
    (h : Beside c d us us') (hop : (us.head?.map Lexeme.token).bind operator? = some op)
    (hl : operator? (.symbol .lBrace) = none) (hr : operator? (.symbol .rBrace) = none)
    (hx : ∀ vs vs', Beside c d vs vs' → Matched c q (x vs) (x' vs')) :
    Matched c q ((Parser.skip >>= fun _ => x) us) ((Parser.skip >>= fun _ => x') us') := by
  rcases us with _ | ⟨⟨token, span⟩, rest⟩
  · cases hop
  · have hlb : token ≠ .symbol .lBrace := by
      rintro rfl
      exact nomatch hl.symm.trans hop
    have hrb : token ≠ .symbol .rBrace := by
      rintro rfl
      exact nomatch hr.symm.trans hop
    obtain ⟨rest', rfl, hrest⟩ := h.word rfl (.same hlb hrb)
    exact hx rest rest' hrest

end Reading.Matched

section Header

theorem moreParams_matched (h : Beside c d us us') :
    Matched c (Beside c d) (moreParams c.eof us) (moreParams c.eof' us') := by
  induction us using namesAhead.induct generalizing us' with
  | case1 comma name span rest ih =>
    obtain ⟨_, rfl, h₁⟩ := h.word rfl rfl
    obtain ⟨_, rfl, h₂⟩ := h₁.word rfl rfl
    rw [moreParams_cons, moreParams_cons]
    exact .bind (ih h₂) fun more vs vs' hvs => .pure hvs
  | case2 rest hother =>
    by_cases hcomma : ∃ span vs, rest = ⟨.symbol .comma, span⟩ :: vs
    · obtain ⟨_, vs, rfl⟩ := hcomma
      obtain ⟨vs', rfl, h₁⟩ := h.word rfl rfl
      rw [moreParams.eq_2, moreParams.eq_2]
      · exact .unexpected h₁ _
      · rintro _ _ _ rfl
        obtain ⟨_, _, rfl, _⟩ := h₁.copy rfl rfl
        exact hother _ _ _ _ rfl
      · rintro _ _ _ rfl
        exact hother _ _ _ _ rfl
    · rw [moreParams.eq_3, moreParams.eq_3]
      · exact .found h
      · rintro _ _ _ _ rfl
        obtain ⟨_, _, rfl, _⟩ := h.copy rfl rfl
        exact hcomma ⟨_, _, rfl⟩
      · rintro _ _ rfl
        obtain ⟨_, _, rfl, _⟩ := h.copy rfl rfl
        exact hcomma ⟨_, _, rfl⟩
      · rintro _ _ _ _ rfl
        exact hcomma ⟨_, _, rfl⟩
      · rintro _ _ rfl
        exact hcomma ⟨_, _, rfl⟩

theorem lambdaHeader_matched (h : Beside c d us us') :
    Matched c (Beside c d) (lambdaHeader c.eof us) (lambdaHeader c.eof' us') := by
  dsimp only [lambdaHeader]
  refine .eat h (j := d) rfl (fun us₁ us₁' h₁ => ?_) ?_
  · refine .eat h₁ (j := d) rfl (fun us₂ us₂' h₂ => ?_) ?_
    · exact .expect h₂ (j := d) rfl fun us₃ us₃' h₃ => .pure h₃
    · refine .expectName h₁ fun first us₂ us₂' h₂ => ?_
      refine .bind (moreParams_matched h₂) fun more us₃ us₃' h₃ => ?_
      refine .expect h₃ (j := d) rfl fun us₄ us₄' h₄ => ?_
      exact .expect h₄ (j := d) rfl fun us₅ us₅' h₅ => .pure h₅
  · refine .expectName h fun only us₁ us₁' h₁ => ?_
    exact .expect h₁ (j := d) rfl fun us₂ us₂' h₂ => .pure h₂

end Header

/-! ## Phrases -/

/-- The place of the brace that a phrase belongs to. -/
def Phrase.opening? : {α : Type} → Phrase α → Option Span
  | _, .moreMembers opening => some opening
  | _, .moreEntries opening => some opening
  | _, _ => none

/-- The same phrases, for braces whose places belong together. -/
inductive Phrase.Paired (c : Copying) : {α : Type} → Phrase α → Phrase α → Prop
  | same {α : Type} (p : Phrase α) (h : p.opening? = none) : Paired c p p
  | moreMembers {opening opening' : Span} (h : c.Pairs opening opening') :
      Paired c (.moreMembers opening) (.moreMembers opening')
  | moreEntries {opening opening' : Span} (h : c.Pairs opening opening') :
      Paired c (.moreEntries opening) (.moreEntries opening')

/-- Two ways to read phrases that end alike on tokens and their copies. -/
def CallsMatched (c : Copying) (call call' : {α : Type} → Phrase α → Reader α) : Prop :=
  ∀ {α : Type} {p p' : Phrase α} {d : Nat} {us us' : List Lexeme}, p.Paired c p' →
    Beside c d us us' → Matched c (Beside c d) (call p us) (call' p' us')

section Step
variable {call call' : {α : Type} → Phrase α → Reader α}

theorem CallsMatched.phrase (h : CallsMatched c call call') (p : Phrase α)
    (hp : p.opening? = none) (hus : Beside c d us us') :
    Matched c (Beside c d) (call p us) (call' p us') :=
  h (.same p hp) hus

theorem sequence_matched (h : CallsMatched c call call') (hus : Beside c d us us') :
    Matched c (Beside c d) (step c.eof call .sequence us) (step c.eof' call' .sequence us') := by
  refine .bind (h.phrase .assignment rfl hus) fun first us₁ us₁' h₁ => ?_
  exact h.phrase (.sequenceTail first) rfl h₁

theorem sequenceTail_matched (h : CallsMatched c call call') (hus : Beside c d us us')
    (first : Node) :
    Matched c (Beside c d) (step c.eof call (.sequenceTail first) us)
      (step c.eof' call' (.sequenceTail first) us') := by
  refine .eat hus rfl (fun us₁ us₁' h₁ => ?_) (.pure hus)
  refine .bind (h.phrase .assignment rfl h₁) fun second us₂ us₂' h₂ => ?_
  exact h.phrase (.sequenceTail (.sequence first second)) rfl h₂

theorem assignment_matched (h : CallsMatched c call call') (hus : Beside c d us us') :
    Matched c (Beside c d) (assignment call us) (assignment call' us') := by
  unfold assignment
  rw [lambdaAhead_beside hus]
  split
  · exact h.phrase .lambda rfl hus
  · refine .bind (h.phrase .choice rfl hus) fun target us₁ us₁' h₁ => ?_
    refine .eat h₁ rfl (fun us₂ us₂' h₂ => ?_) (.pure h₁)
    exact .bind (h.phrase .assignment rfl h₂) fun value us₃ us₃' h₃ => .pure h₃

theorem lambda_matched (h : CallsMatched c call call') (hus : Beside c d us us') :
    Matched c (Beside c d) (lambda c.eof call us) (lambda c.eof' call' us') := by
  refine .bind (lambdaHeader_matched hus) fun params us₁ us₁' h₁ => ?_
  have hbody : Matched c (Beside c d) (lambdaBody call us₁) (lambdaBody call' us₁') := by
    unfold lambdaBody
    rw [lambdaAhead_beside h₁]
    split
    · exact h.phrase .lambda rfl h₁
    · exact h.phrase .choice rfl h₁
  exact .bind hbody fun body us₂ us₂' h₂ => .pure h₂

theorem choice_matched (h : CallsMatched c call call') (hus : Beside c d us us') :
    Matched c (Beside c d) (choice c.eof call us) (choice c.eof' call' us') := by
  refine .bind (h.phrase (.binary .or) rfl hus) fun b us₁ us₁' h₁ => ?_
  have hright : ∀ op vs vs', Beside c d vs vs' → Matched c (Beside c d)
      ((do let right ← call .choice; pure (.binary op b right) : Reader Node) vs)
      ((do let right ← call' .choice; pure (.binary op b right) : Reader Node) vs') :=
    fun op vs vs' hvs => .bind (h.phrase .choice rfl hvs) fun a us₂ us₂' h₂ => .pure h₂
  refine .eat h₁ rfl (fun us₂ us₂' h₂ => ?_) ?_
  · refine .bind (h.phrase .choice rfl h₂) fun yes us₃ us₃' h₃ => ?_
    refine .expect h₃ rfl fun us₄ us₄' h₄ => ?_
    exact .bind (h.phrase .choice rfl h₄) fun no us₅ us₅' h₅ => .pure h₅
  · refine .eat h₁ rfl (hright .elvis) ?_
    exact .eat h₁ rfl (hright .coalesce) (.pure h₁)

theorem opening?_operand (level : Level) : level.operand.opening? = none := by
  cases level <;> rfl

theorem binary_matched (h : CallsMatched c call call') (hus : Beside c d us us') (level : Level) :
    Matched c (Beside c d) (step c.eof call (.binary level) us)
      (step c.eof' call' (.binary level) us') := by
  refine .bind (h.phrase level.operand (opening?_operand level) hus) fun left us₁ us₁' h₁ => ?_
  exact h.phrase (.binaryTail level left) rfl h₁

theorem binaryTail_matched (h : CallsMatched c call call') (hus : Beside c d us us')
    (level : Level) (left : Node) :
    Matched c (Beside c d) (binaryTail call level left us) (binaryTail call' level left us') := by
  have hr : level.operator? (.symbol .rBrace) = none := by cases level <;> rfl
  have hl : level.operator? (.symbol .lBrace) = none := by cases level <;> rfl
  refine .peek hus hr fun token token' ht hsame => ?_
  dsimp only
  rw [hsame]
  cases hop : token.bind level.operator? with
  | none => exact .pure hus
  | some op =>
    refine .skip hus (ht ▸ hop) hl hr fun us₁ us₁' h₁ => ?_
    refine .bind (h.phrase level.operand (opening?_operand level) h₁) fun right us₂ us₂' h₂ => ?_
    exact h.phrase (.binaryTail level (.binary op left right)) rfl h₂

theorem unary_matched (h : CallsMatched c call call') (hus : Beside c d us us') :
    Matched c (Beside c d) (unary call us) (unary call' us') := by
  have hr : unaryOperator? (.symbol .rBrace) = none := rfl
  refine .peek hus hr fun token token' ht hsame => ?_
  dsimp only
  rw [hsame]
  cases hop : token.bind unaryOperator? with
  | none => exact h.phrase .value rfl hus
  | some op =>
    refine .skip hus (ht ▸ hop) rfl rfl fun us₁ us₁' h₁ => ?_
    exact .bind (h.phrase .unary rfl h₁) fun a us₂ us₂' h₂ => .pure h₂

theorem value_matched (h : CallsMatched c call call') (hus : Beside c d us us') :
    Matched c (Beside c d) (step c.eof call .value us) (step c.eof' call' .value us') := by
  refine .bind (h.phrase .primary rfl hus) fun base us₁ us₁' h₁ => ?_
  refine .bind (h.phrase .steps rfl h₁) fun ss us₂ us₂' h₂ => ?_
  cases ss with
  | nil => exact .pure h₂
  | cons s ss => exact .pure h₂

theorem stepsAfter_matched (h : CallsMatched c call call') (hus : Beside c d us us')
    (selector : Selector) :
    Matched c (Beside c d) (stepsAfter call selector us) (stepsAfter call' selector us') := by
  have hmore : ∀ args vs vs', Beside c d vs vs' → Matched c (Beside c d)
      ((do let more ← call .steps; pure (.mk selector args :: more) : Reader (List Step)) vs)
      ((do let more ← call' .steps; pure (.mk selector args :: more) : Reader (List Step)) vs') :=
    fun args vs vs' hvs => .bind (h.phrase .steps rfl hvs) fun more us₁ us₁' h₁ => .pure h₁
  dsimp only [stepsAfter]
  refine .at? hus (j := d) rfl ?_ ?_
  · refine .bind (p := Beside c d) ?_ hmore
    exact .bind (h.phrase .arguments rfl hus) fun args vs vs' hvs => .pure hvs
  · exact .bind (.pure hus) hmore

theorem steps_matched (h : CallsMatched c call call') (hus : Beside c d us us') :
    Matched c (Beside c d) (steps c.eof call us) (steps c.eof' call' us') := by
  refine .eat hus rfl (fun us₁ us₁' h₁ => ?_) ?_
  · exact .expectName h₁ fun name us₂ us₂' h₂ => stepsAfter_matched h h₂ (.field name)
  · refine .eat hus rfl (fun us₁ us₁' h₁ => ?_) (.pure hus)
    refine .bind (h.phrase .sequence rfl h₁) fun index us₂ us₂' h₂ => ?_
    exact .expect h₂ rfl fun us₃ us₃' h₃ => stepsAfter_matched h h₃ (.index index)

theorem moreItems_matched (h : CallsMatched c call call') (hus : Beside c d us us') :
    Matched c (Beside c d) (step c.eof call .moreItems us)
      (step c.eof' call' .moreItems us') := by
  refine .eat hus rfl (fun us₁ us₁' h₁ => ?_) (.pure hus)
  refine .bind (h.phrase .sequence rfl h₁) fun item us₂ us₂' h₂ => ?_
  exact .bind (h.phrase .moreItems rfl h₂) fun more us₃ us₃' h₃ => .pure h₃

theorem enclosed_matched (h : CallsMatched c call call') (hus : Beside c d us us')
    {opening closing : Symbol} (ho : Moves opening d d) (hc : Moves closing d d) :
    Matched c (Beside c d) (enclosed c.eof call opening closing us)
      (enclosed c.eof' call' opening closing us') := by
  refine .expect hus ho fun us₁ us₁' h₁ => ?_
  refine .eat h₁ hc (fun us₂ us₂' h₂ => .pure h₂) ?_
  refine .bind (h.phrase .sequence rfl h₁) fun first us₂ us₂' h₂ => ?_
  refine .bind (h.phrase .moreItems rfl h₂) fun more us₃ us₃' h₃ => ?_
  exact .expect h₃ hc fun us₄ us₄' h₄ => .pure h₄

theorem calls_matched (h : CallsMatched c call call') (hus : Beside c d us us') :
    Matched c (Beside c d) (step c.eof call .calls us) (step c.eof' call' .calls us') := by
  refine .at? hus (j := d) rfl ?_ (.pure hus)
  refine .bind (h.phrase .arguments rfl hus) fun first us₁ us₁' h₁ => ?_
  exact .bind (h.phrase .calls rfl h₁) fun more us₂ us₂' h₂ => .pure h₂

theorem enclosedLambda_matched (h : CallsMatched c call call') (hus : Beside c d us us') :
    Matched c (Beside c d) (enclosedLambda c.eof call us) (enclosedLambda c.eof' call' us') := by
  refine .expect hus (j := d) rfl fun us₁ us₁' h₁ => ?_
  refine .bind (h.phrase .lambda rfl h₁) fun lambda us₂ us₂' h₂ => ?_
  refine .expect h₂ (j := d) rfl fun us₃ us₃' h₃ => ?_
  refine .bind (h.phrase .calls rfl h₃) fun calls us₄ us₄' h₄ => ?_
  cases lambda <;> exact .pure h₄

/-- A prefix is seen in both or in neither, as all places move by the same distance. -/
theorem nameOrCall_matched (h : CallsMatched c call call') (hus : Beside c d us us') :
    Matched c (Beside c d) (nameOrCall c.eof call us) (nameOrCall c.eof' call' us') := by
  fun_cases nameOrCall c.eof call us with
  | case1 n span paren rest =>
    obtain ⟨_, rfl, h₁⟩ := hus.word rfl rfl
    obtain ⟨_, rfl, _⟩ := h₁.word rfl rfl
    exact .bind (h.phrase .calls rfl h₁) fun calls vs vs' hvs => .pure hvs
  | case2 n span colon m after paren rest hgaps =>
    obtain ⟨_, rfl, h₁⟩ := hus.word rfl rfl
    obtain ⟨_, rfl, h₂⟩ := h₁.word rfl rfl
    obtain ⟨_, rfl, h₃⟩ := h₂.word rfl rfl
    obtain ⟨_, rfl, _⟩ := h₃.word rfl rfl
    dsimp only [nameOrCall]
    rw [if_pos (by simp [Span.shift, hgaps])]
    exact .bind (h.phrase .calls rfl h₃) fun calls vs vs' hvs => .pure hvs
  | case3 n span colon m after paren rest hgaps =>
    obtain ⟨_, rfl, h₁⟩ := hus.word rfl rfl
    obtain ⟨_, rfl, h₂⟩ := h₁.word rfl rfl
    obtain ⟨_, rfl, h₃⟩ := h₂.word rfl rfl
    obtain ⟨_, rfl, _⟩ := h₃.word rfl rfl
    dsimp only [nameOrCall]
    rw [if_neg (by simpa [Span.shift] using hgaps)]
    exact .found h₁
  | case4 n span rest hcall hprefixed =>
    obtain ⟨rest', rfl, h₁⟩ := hus.word rfl rfl
    dsimp only [nameOrCall]
    split
    · obtain ⟨_, _, rfl, _⟩ := h₁.copy rfl rfl
      exact (hcall _ _ rfl).elim
    · obtain ⟨_, _, rfl, h₂⟩ := h₁.copy rfl rfl
      obtain ⟨_, _, rfl, h₃⟩ := h₂.copy rfl rfl
      obtain ⟨_, _, rfl, _⟩ := h₃.copy rfl rfl
      exact (hprefixed _ _ _ _ _ rfl).elim
    · exact .found h₁
  | case5 us hother =>
    rw [nameOrCall.eq_4]
    · exact .unexpected hus _
    · rintro _ _ _ rfl
      obtain ⟨_, _, rfl, _⟩ := hus.copy rfl rfl
      exact hother _ _ _ rfl

theorem moreMembers_matched (h : CallsMatched c call call') (hus : Beside c d us us')
    {opening opening' : Span} (ho : c.Pairs opening opening') :
    Matched c (Beside c d) (moreMembers c.eof call opening us)
      (moreMembers c.eof' call' opening' us') := by
  refine .eat hus rfl (fun us₁ us₁' h₁ => ?_) (.pure hus)
  refine .bind (h.phrase .sequence rfl h₁) fun item us₂ us₂' h₂ => ?_
  refine .at? h₂ (j := d) rfl (.here h₂ fun span span' hs => .refused (c.merge ho hs)) ?_
  exact .bind (h (.moreMembers ho) h₂) fun more us₃ us₃' h₃ => .pure h₃

theorem moreEntries_matched (h : CallsMatched c call call') (hus : Beside c d us us')
    {opening opening' : Span} (ho : c.Pairs opening opening') :
    Matched c (Beside c d) (moreEntries c.eof call opening us)
      (moreEntries c.eof' call' opening' us') := by
  refine .eat hus rfl (fun us₁ us₁' h₁ => ?_) (.pure hus)
  refine .bind (h.phrase .sequence rfl h₁) fun key us₂ us₂' h₂ => ?_
  refine .eat h₂ rfl (fun us₃ us₃' h₃ => ?_)
    (.here h₂ fun span span' hs => .refused (c.merge ho hs))
  refine .bind (h.phrase .sequence rfl h₃) fun value us₄ us₄' h₄ => ?_
  exact .bind (h (.moreEntries ho) h₄) fun more us₅ us₅' h₅ => .pure h₅

theorem setOrMap_matched (h : CallsMatched c call call') (hus : Beside c d us us') :
    Matched c (Beside c d) (setOrMap c.eof call us) (setOrMap c.eof' call' us') := by
  refine .here hus fun opening opening' ho => ?_
  refine .expect hus (j := d + 1) rfl fun us₁ us₁' h₁ => ?_
  refine .eat h₁ (j := d) rfl (fun us₂ us₂' h₂ => .pure h₂) ?_
  refine .bind (h.phrase .sequence rfl h₁) fun first us₂ us₂' h₂ => ?_
  refine .eat h₂ rfl (fun us₃ us₃' h₃ => ?_) ?_
  · refine .bind (h.phrase .sequence rfl h₃) fun value us₄ us₄' h₄ => ?_
    refine .bind (h (.moreEntries ho) h₄) fun more us₅ us₅' h₅ => ?_
    exact .expect h₅ (j := d) rfl fun us₆ us₆' h₆ => .pure h₆
  · refine .bind (h (.moreMembers ho) h₂) fun more us₃ us₃' h₃ => ?_
    exact .expect h₃ (j := d) rfl fun us₄ us₄' h₄ => .pure h₄

/-- A token that starts no expression, or none at all. -/
theorem primary_matched (h : CallsMatched c call call') (hus : Beside c d us us') :
    Matched c (Beside c d) (primary c.eof call us) (primary c.eof' call' us') := by
  rcases hus.next with ⟨rfl, rfl, -⟩ | ⟨⟨token, span⟩, rest, rest', rfl, rfl, ht, hrest⟩
  · have hend : primary c.eof call c.tail = unexpected c.eof "expression" c.tail := by
      cases htail : c.tail with
      | nil => rfl
      | cons t ts =>
        obtain ⟨token, span⟩ := t
        cases c.brace _ _ htail
        rfl
    rw [hend]
    exact .unexpected hus _
  · cases token with
    | symbol s =>
      cases s with
      | lParen =>
        have h₁ := hrest d rfl
        dsimp only [primary, Lexeme.shift]
        rw [lambdaAhead_beside h₁]
        split
        · exact enclosedLambda_matched h hus
        · refine .bind (h.phrase .sequence rfl h₁) fun inner us₂ us₂' h₂ => ?_
          exact .expect h₂ (j := d) rfl fun us₃ us₃' h₃ => .pure h₃
      | lBracket => exact .bind (enclosed_matched h hus rfl rfl) fun items us₁ us₁' h₁ => .pure h₁
      | lBrace => exact setOrMap_matched h hus
      | _ => exact .refused ht
    | keyword word =>
      have h₁ := hrest d rfl
      cases word <;> first | exact .found h₁ | exact .refused ht
    | name n =>
      dsimp only [primary, Lexeme.shift]
      exact nameOrCall_matched h hus
    | _ => exact .found (hrest d rfl)

/-- One phrase ends alike on tokens and their copies, when the phrases inside it do. -/
theorem step_matched {p p' : Phrase α} (hp : p.Paired c p') (h : CallsMatched c call call')
    (hus : Beside c d us us') :
    Matched c (Beside c d) (step c.eof call p us) (step c.eof' call' p' us') := by
  cases hp with
  | moreMembers ho => exact moreMembers_matched h hus ho
  | moreEntries ho => exact moreEntries_matched h hus ho
  | same p hplain =>
    cases p with
    | sequence => exact sequence_matched h hus
    | sequenceTail first => exact sequenceTail_matched h hus first
    | assignment => exact assignment_matched h hus
    | lambda => exact lambda_matched h hus
    | choice => exact choice_matched h hus
    | binary level => exact binary_matched h hus level
    | binaryTail level left => exact binaryTail_matched h hus level left
    | unary => exact unary_matched h hus
    | value => exact value_matched h hus
    | steps => exact steps_matched h hus
    | primary => exact primary_matched h hus
    | arguments => exact enclosed_matched h hus rfl rfl
    | calls => exact calls_matched h hus
    | moreItems => exact moreItems_matched h hus
    | moreMembers opening => cases hplain
    | moreEntries opening => cases hplain

theorem run_matched (c : Copying) (depth : Nat) :
    CallsMatched c (fun {_} => run c.eof depth) (fun {_} => run c.eof' depth) := by
  induction depth with
  | zero => exact fun _ _ => .exhausted
  | succ depth ih => exact fun hp hus => step_matched hp ih hus

/-- What is read of tokens and of their copies ends alike. -/
theorem read_matched (p : Phrase α) (hp : p.opening? = none) (hus : Beside c d us us') :
    Matched c (Beside c d) (read c.eof p us) (read c.eof' p us') := by
  have hread (eof : Span) (vs : List Lexeme) {n : Nat} (hn : p.weight vs < n) :
      read eof p vs = run eof n p vs := (run_same p (Nat.lt_succ_self _) hn).eq
  rw [hread c.eof us (n := p.weight us + p.weight us' + 1) (by omega),
    hread c.eof' us' (n := p.weight us + p.weight us' + 1) (by omega)]
  exact run_matched c _ (.same p hp) hus

end Step

end ExprLang.Parser

namespace ExprLang

open ExprLang.Parser (Copying Beside read read_matched)
open ExprLang.Parser.Reading (Matched)

variable {c : Copying} {ts : List Lexeme}

/-- Where the copies of tokens make up no tree, the tokens and what stands behind them make up none
either, and both refusals point to places that belong together. -/
theorem parseTokens_refused_beside {e' : SyntaxError}
    (hpairs : ∀ t ∈ ts, c.Pairs t.span (t.span.shift c.distance))
    (htail : c.tail = [] ∨ Lexer.depthAfter 0 ts = some 0)
    (h : parseTokens (ts.map (·.shift c.distance)) c.eof' = .error e') :
    ∃ e, parseTokens (ts ++ c.tail) c.eof = .error e ∧ c.Pairs e.span e'.span := by
  have hbeside : Beside c 0 (ts ++ c.tail) (ts.map (·.shift c.distance)) :=
    ⟨ts, rfl, rfl, hpairs, htail⟩
  have hmatched := read_matched .sequence rfl hbeside
  have hsound := @Parser.read_sound _ c.eof .sequence (ts ++ c.tail)
  rw [parseTokens, Parser.run_depthFor] at h ⊢
  generalize read c.eof .sequence (ts ++ c.tail) = r at hmatched hsound ⊢
  generalize read c.eof' .sequence (ts.map (·.shift c.distance)) = r' at hmatched h
  cases hmatched with
  | refused hspan =>
    cases h
    exact ⟨_, rfl, hspan⟩
  | exhausted => exact hsound.elim
  | found hrest =>
    rcases hrest.next with ⟨_, rfl, _⟩ | ⟨t, rest, rest', rfl, rfl, ht, _⟩
    · cases h
    · cases h
      exact ⟨_, rfl, ht⟩

end ExprLang
