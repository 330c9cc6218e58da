import ExprLang.Proofs.Parser.WellFormed

/-! The bound on the nesting of phrases is never too small: a phrase inside another one has fewer
tokens before it, or as many and a lower rank. So phrases can be read without the bound, and what
is read from tokens of the lexer is well formed. -/

namespace ExprLang.Parser

variable {α β : Type}

/-! ## Readings that end -/

/-- The reading ends, and what it finds has the property. -/
def Reading.Ends (q : α → List Lexeme → Prop) : Reading α → Prop
  | .found a rest => q a rest
  | .refused _ => True
  | .exhausted => False

/-- Both readings are the same, they end, and what they find has the property. -/
structure Reading.Same (q : α → List Lexeme → Prop) (r r' : Reading α) : Prop where
  eq : r = r'
  ends : r.Ends q

/-- At least so many tokens were taken. -/
structure Takes (n : Nat) (ts rest : List Lexeme) : Prop where
  suffix : rest <:+ ts
  shorter : rest.length + n ≤ ts.length

/-- The sign stands next. -/
def StartsWith (s : Symbol) : List Lexeme → Prop
  | [] => False
  | t :: _ => t.token = .symbol s

/-- All tokens are tokens of the lexer. -/
def Lexed (ts : List Lexeme) : Prop := ∀ l ∈ ts, l.token.Valid

/-- So many tokens were taken, and what was found in tokens of the lexer has the property. -/
structure Sound (ts : List Lexeme) (n : Nat) (s : α → Prop) (a : α) (rest : List Lexeme) :
    Prop where
  takes : Takes n ts rest
  holds : Lexed ts → s a

open ExprLang.Parser.Reading (Ends Same)

namespace Takes

variable {m n : Nat} {ts rest rest' : List Lexeme}

theorem refl (ts : List Lexeme) : Takes 0 ts ts := ⟨List.suffix_refl ts, Nat.le_refl _⟩

theorem mono (h : Takes n ts rest) (hm : m ≤ n) : Takes m ts rest :=
  ⟨h.suffix, by have := h.shorter; omega⟩

theorem trans (h : Takes m ts rest) (h' : Takes n rest rest') : Takes (m + n) ts rest' :=
  ⟨h'.suffix.trans h.suffix, by have := h.shorter; have := h'.shorter; omega⟩

theorem tail {t : Lexeme} (h : Takes n ts (t :: rest)) : Takes (n + 1) ts rest :=
  ⟨(List.suffix_cons t rest).trans h.suffix, by have := h.shorter; simp at this; omega⟩

theorem lexed (h : Takes n ts rest) (hts : Lexed ts) : Lexed rest :=
  fun l hl => hts l (h.suffix.subset hl)

end Takes

namespace Reading.Same

variable {q q' : α → List Lexeme → Prop} {p : β → List Lexeme → Prop} {ts rest : List Lexeme}
variable {n : Nat}

theorem refl {r : Reading α} (h : Ends q r) : Same q r r := ⟨rfl, h⟩

theorem found {a : α} (h : q a ts) : Same q (.found a ts) (.found a ts) := ⟨rfl, h⟩

theorem pure {a : α} (h : q a ts) : Same q ((pure a : Reader α) ts) ((Pure.pure a : Reader α) ts) :=
  ⟨rfl, h⟩

theorem mono {r r' : Reading α} (h : Same q r r') (hq : ∀ a rest, q a rest → q' a rest) :
    Same q' r r' := by
  refine ⟨h.eq, ?_⟩
  have he := h.ends
  cases r with
  | found a rest => exact hq a rest he
  | refused e => trivial
  | exhausted => exact he

theorem bind {x x' : Reader α} {f f' : α → Reader β} (h : Same q (x ts) (x' ts))
    (hf : ∀ a rest, q a rest → Same p (f a rest) (f' a rest)) :
    Same p ((x >>= f) ts) ((x' >>= f') ts) := by
  have heq := h.eq
  have hends := h.ends
  show Same p (match x ts with
    | .found a rest => f a rest
    | .refused e => .refused e
    | .exhausted => .exhausted) (match x' ts with
    | .found a rest => f' a rest
    | .refused e => .refused e
    | .exhausted => .exhausted)
  rw [← heq]
  cases hx : x ts with
  | found a rest =>
    rw [hx] at hends
    exact hf a rest hends
  | refused e => exact ⟨rfl, trivial⟩
  | exhausted =>
    rw [hx] at hends
    exact hends.elim

/-! ## Tokens -/

theorem unexpected (eof : Span) (q : α → List Lexeme → Prop) (what : String) (ts : List Lexeme) :
    Same q (Parser.unexpected eof what ts) (Parser.unexpected eof what ts) := by
  refine .refl ?_
  cases ts <;> trivial

/-- A sign that may stand next. -/
theorem eat {s : Symbol} {x x' y y' : Reader β} (h : Takes n ts rest)
    (hx : ∀ rest', Takes (n + 1) ts rest' → Same p (x rest') (x' rest'))
    (hy : Same p (y rest) (y' rest)) :
    Same p ((Parser.eat s >>= fun taken => if taken then x else y) rest)
      ((Parser.eat s >>= fun taken => if taken then x' else y') rest) := by
  refine .bind (q := fun taken rest' => if taken then Takes (n + 1) ts rest' else rest' = rest)
    (.refl ?_) fun taken rest' ht => ?_
  · cases rest with
    | nil => exact rfl
    | cons t rest =>
      unfold Parser.eat
      dsimp only
      split
      · exact h.tail
      · exact rfl
  · cases taken with
    | true => exact hx rest' ht
    | false =>
      cases (ht : rest' = rest)
      exact hy

/-- A sign that may stand next, and stays. -/
theorem at? {s : Symbol} {x x' y y' : Reader β} (hx : Same p (x ts) (x' ts))
    (hy : ¬ StartsWith s ts → Same p (y ts) (y' ts)) :
    Same p ((Parser.at? s >>= fun next => if next then x else y) ts)
      ((Parser.at? s >>= fun next => if next then x' else y') ts) := by
  refine .bind (q := fun next rest => rest = ts ∧ (next = false → ¬ StartsWith s ts))
    (.refl ⟨rfl, ?_⟩) fun next rest ht => ?_
  · intro hnext
    cases ts with
    | nil => exact id
    | cons t ts =>
      intro (ht : t.token = .symbol s)
      dsimp only at hnext
      rw [ht, beq_self_eq_true] at hnext
      cases hnext
  · obtain ⟨rfl, hn⟩ := ht
    cases next with
    | true => exact hx
    | false => exact hy (hn rfl)

theorem here (eof : Span) {f f' : Span → Reader β} (h : ∀ span, Same p (f span ts) (f' span ts)) :
    Same p ((Parser.here eof >>= f) ts) ((Parser.here eof >>= f') ts) := by
  refine .bind (q := fun _ rest => rest = ts) (.refl rfl) fun span rest ht => ?_
  cases ht
  exact h span

theorem expect (eof : Span) {s : Symbol} {x x' : Reader β} (h : Takes n ts rest)
    (hx : ∀ rest', Takes (n + 1) ts rest' → Same p (x rest') (x' rest')) :
    Same p ((Parser.expect eof s >>= fun _ => x) rest)
      ((Parser.expect eof s >>= fun _ => x') rest) := by
  refine .bind (q := fun _ rest' => Takes (n + 1) ts rest') ?_ fun _ rest' ht => hx rest' ht
  unfold Parser.expect
  split
  · exact .unexpected eof _ _ _
  · split
    · exact .found h.tail
    · exact .unexpected eof _ _ _

theorem expectName (eof : Span) {f f' : String → Reader β} (h : Takes n ts rest)
    (hf : ∀ name rest', Takes (n + 1) ts rest' → (Lexed ts → (Token.name name).Valid) →
      Same p (f name rest') (f' name rest')) :
    Same p ((Parser.expectName eof >>= f) rest) ((Parser.expectName eof >>= f') rest) := by
  refine .bind (q := Sound ts (n + 1) fun name => (Token.name name).Valid) ?_
    fun name rest' ht => hf name rest' ht.takes ht.holds
  unfold Parser.expectName
  split
  · exact .found ⟨h.tail, fun hts => h.lexed hts _ List.mem_cons_self⟩
  · exact .unexpected eof _ _ _

theorem peek {f f' : Option Token → Reader β}
    (hf : ∀ token, token = ts.head?.map Lexeme.token → Same p (f token ts) (f' token ts)) :
    Same p ((Parser.peek >>= f) ts) ((Parser.peek >>= f') ts) := by
  refine .bind (q := fun token rest => rest = ts ∧ token = ts.head?.map Lexeme.token)
    (.refl ⟨rfl, rfl⟩) fun token rest ht => ?_
  obtain ⟨rfl, htoken⟩ := ht
  exact hf token htoken

/-- The token that an operator was seen in. -/
theorem skip {γ : Type} {operator? : Token → Option γ} {op : γ} {x x' : Reader β}
    (h : Takes n ts rest) (hop : (rest.head?.map Lexeme.token).bind operator? = some op)
    (hx : ∀ rest', Takes (n + 1) ts rest' → Same p (x rest') (x' rest')) :
    Same p ((Parser.skip >>= fun _ => x) rest) ((Parser.skip >>= fun _ => x') rest) := by
  cases rest with
  | nil => cases hop
  | cons t rest =>
    refine .bind (q := fun _ r => r = rest) (.refl rfl) fun _ r hr => ?_
    subst hr
    exact hx r h.tail

end Reading.Same

section Header
variable {eof : Span} {ts rest : List Lexeme} {n : Nat}

theorem moreParams_cons (name : String) (comma span : Span) (ts : List Lexeme) :
    moreParams eof (⟨.symbol .comma, comma⟩ :: ⟨.name name, span⟩ :: ts) =
      ((do let more ← (moreParams eof : Reader (List String)); pure (name :: more)) :
        Reader (List String)) ts := by
  rw [moreParams]
  show _ = Reader.bind (moreParams eof) (fun more => pure (name :: more)) ts
  dsimp only [Reader.bind]
  cases moreParams eof ts <;> rfl

/-- Names of parameters. -/
def NamesValid (ps : List String) : Prop := ∀ p ∈ ps, (Token.name p).Valid

theorem moreParams_same (h : Takes n ts rest) :
    Same (Sound ts n NamesValid) (moreParams eof rest) (moreParams eof rest) := by
  fun_induction moreParams eof rest generalizing n with
  | case1 _ name _ rest ns rest' hr ih =>
    have hends := (ih h.tail.tail).ends
    rw [hr] at hends
    have hname : Lexed ts → (Token.name name).Valid :=
      fun hts => h.tail.lexed hts _ List.mem_cons_self
    exact .found ⟨hends.takes.mono (by omega),
      fun hts => List.forall_mem_cons.mpr ⟨hname hts, hends.holds hts⟩⟩
  | case2 => exact ⟨rfl, trivial⟩
  | case3 _ name _ rest hr ih =>
    have hends := (ih h.tail.tail).ends
    rw [hr] at hends
    exact hends.elim
  | case4 => exact .unexpected eof _ _ _
  | case5 => exact .found ⟨h, fun _ p hp => nomatch hp⟩

theorem lambdaHeader_same (ts : List Lexeme) :
    Same (Sound ts 1 NamesValid) (lambdaHeader eof ts) (lambdaHeader eof ts) := by
  dsimp only [lambdaHeader]
  refine .eat (.refl ts) (fun r₁ h₁ => ?_) ?_
  · refine .eat h₁ (fun r₂ h₂ => ?_) ?_
    · refine .expect eof h₂ fun r₃ h₃ => ?_
      exact .pure ⟨h₃.mono (by omega), fun _ p hp => nomatch hp⟩
    · refine .expectName eof h₁ fun first r₂ h₂ hfirst => ?_
      refine .bind (moreParams_same h₂) fun more r₃ hmore => ?_
      refine .expect eof hmore.takes fun r₄ h₄ => ?_
      refine .expect eof h₄ fun r₅ h₅ => ?_
      exact .pure ⟨h₅.mono (by omega),
        fun hts => List.forall_mem_cons.mpr ⟨hfirst hts, hmore.holds hts⟩⟩
  · refine .expectName eof (.refl ts) fun only r₁ h₁ honly => ?_
    refine .expect eof h₁ fun r₂ h₂ => ?_
    exact .pure ⟨h₂.mono (by omega), fun hts => List.forall_mem_singleton.mpr (honly hts)⟩

end Header

/-! ## Phrases -/

namespace Phrase

/-- Looser phrases come after the tighter ones that they start with. -/
def rank : {α : Type} → Phrase α → Nat
  | _, .sequence => 12 | _, .assignment => 11 | _, .choice => 10
  | _, .binary .or => 9 | _, .binary .and => 8 | _, .binary .equality => 7
  | _, .binary .relational => 6 | _, .binary .concat => 5 | _, .binary .additive => 4
  | _, .binary .multiplicative => 3 | _, .unary => 2 | _, .value => 1 | _, .calls => 1
  | _, _ => 0

/-- How many tokens a phrase takes at least. -/
def least : {α : Type} → Phrase α → Nat
  | _, .sequenceTail _ => 0 | _, .binaryTail _ _ => 0 | _, .steps => 0 | _, .calls => 0
  | _, .moreItems => 0 | _, .moreMembers _ => 0 | _, .moreEntries _ => 0
  | _, _ => 1

/-- What a phrase stands for is well formed. -/
def WellFormed : {α : Type} → Phrase α → List Lexeme → α → Prop
  | _, .sequence, _, n => n.WellFormed
  | _, .sequenceTail first, _, n => first.WellFormed → n.WellFormed
  | _, .assignment, _, n => n.WellFormed
  | _, .lambda, _, n => n.WellFormed
  | _, .choice, _, n => n.WellFormed
  | _, .binary _, _, n => n.WellFormed
  | _, .binaryTail _ left, _, n => left.WellFormed → n.WellFormed
  | _, .unary, _, n => n.WellFormed
  | _, .value, _, n => n.WellFormed
  | _, .steps, _, ss => WellFormedSteps ss
  | _, .primary, _, n => n.WellFormed
  | _, .arguments, _, ns => WellFormedAll ns
  | _, .calls, ts, cs => WellFormedCalls cs ∧ (StartsWith .lParen ts → cs ≠ [])
  | _, .moreItems, _, ns => WellFormedAll ns
  | _, .moreMembers _, _, ns => WellFormedAll ns
  | _, .moreEntries _, _, es => WellFormedEntries es

/-- A bound on the nesting of a phrase. -/
def weight (p : Phrase α) (ts : List Lexeme) : Nat := 16 * ts.length + p.rank

theorem rank_operand (level : Level) : level.operand.rank < (binary level).rank := by
  cases level <;> decide

theorem rank_le (p : Phrase α) : p.rank ≤ 12 := by
  cases p with
  | binary level => cases level <;> decide
  | _ => exact Nat.le_of_ble_eq_true rfl

end Phrase

/-- Two ways to read phrases that agree on the phrases of less weight than a phrase of rank `m` in
front of these tokens, where nothing but the last ones of these tokens is left. -/
def AgreeBelow (ts : List Lexeme) (m : Nat) (call call' : {α : Type} → Phrase α → Reader α) :
    Prop :=
  ∀ {α : Type} (p : Phrase α) (us : List Lexeme), us <:+ ts → p.weight us < 16 * ts.length + m →
    Same (Sound us p.least (p.WellFormed us)) (call p us) (call' p us)

section Step
variable {eof : Span} {call call' : {α : Type} → Phrase α → Reader α} {ts rest : List Lexeme}
variable {m n : Nat}

/-- A phrase of a lower rank, or after a token. -/
theorem AgreeBelow.phrase (h : AgreeBelow ts m call call') (p : Phrase α)
    (hr : Takes n ts rest) (hp : p.rank < m + 16 * n) :
    Same (Sound ts (n + p.least) (p.WellFormed rest)) (call p rest) (call' p rest) := by
  have hshorter := hr.shorter
  have hw : p.weight rest < 16 * ts.length + m := by
    simp only [Phrase.weight]
    omega
  refine (h p rest hr.suffix hw).mono fun a rest' ha => ?_
  exact ⟨hr.trans ha.takes, fun hts => ha.holds (hr.lexed hts)⟩

/-- A phrase after a token. -/
theorem AgreeBelow.inner (h : AgreeBelow ts m call call') (p : Phrase α)
    (hr : Takes (n + 1) ts rest) :
    Same (Sound ts (n + 1 + p.least) (p.WellFormed rest)) (call p rest) (call' p rest) := by
  have hrank := p.rank_le
  exact h.phrase p hr (by omega)

theorem sequence_same (h : AgreeBelow ts 12 call call') :
    Same (Sound ts 1 Node.WellFormed) (step eof call .sequence ts)
      (step eof call' .sequence ts) := by
  refine .bind (h.phrase .assignment (.refl ts) (by decide)) fun first r₁ hf => ?_
  refine (h.inner (.sequenceTail first) hf.takes).mono fun n r₂ hn => ?_
  exact ⟨hn.takes.mono (by omega), fun hts => hn.holds hts (hf.holds hts)⟩

theorem sequenceTail_same (h : AgreeBelow ts 0 call call') (first : Node) :
    Same (Sound ts 0 fun n => first.WellFormed → n.WellFormed)
      (step eof call (.sequenceTail first) ts) (step eof call' (.sequenceTail first) ts) := by
  refine .eat (.refl ts) (fun r₁ h₁ => ?_) (.pure ⟨.refl ts, fun _ => id⟩)
  refine .bind (h.inner .assignment h₁) fun second r₂ hs => ?_
  refine (h.inner (.sequenceTail (.sequence first second)) hs.takes).mono fun n r₃ hn => ?_
  exact ⟨hn.takes.mono (by omega), fun hts hfirst => hn.holds hts ⟨hfirst, hs.holds hts⟩⟩

theorem assignment_same (h : AgreeBelow ts 11 call call') :
    Same (Sound ts 1 Node.WellFormed) (assignment call ts) (assignment call' ts) := by
  unfold assignment
  split
  · exact h.phrase .lambda (.refl ts) (by decide)
  · refine .bind (h.phrase .choice (.refl ts) (by decide)) fun target r₁ ht => ?_
    refine .eat ht.takes (fun r₂ h₂ => ?_) (.pure ht)
    refine .bind (h.inner .assignment h₂) fun value r₃ hv => ?_
    exact .pure ⟨hv.takes.mono (by omega), fun hts => ⟨ht.holds hts, hv.holds hts⟩⟩

theorem lambda_same (h : AgreeBelow ts 0 call call') :
    Same (Sound ts 1 Node.WellFormed) (lambda eof call ts) (lambda eof call' ts) := by
  refine .bind (lambdaHeader_same ts) fun params r₁ hp => ?_
  have hbody : Same (Sound ts 2 Node.WellFormed) (lambdaBody call r₁) (lambdaBody call' r₁) := by
    unfold lambdaBody
    split
    · exact h.inner .lambda hp.takes
    · exact h.inner .choice hp.takes
  refine .bind hbody fun body r₂ hb => ?_
  exact .pure ⟨hb.takes.mono (by omega), fun hts => ⟨hp.holds hts, hb.holds hts, trivial⟩⟩

theorem choice_same (h : AgreeBelow ts 10 call call') :
    Same (Sound ts 1 Node.WellFormed) (choice eof call ts) (choice eof call' ts) := by
  refine .bind (h.phrase (.binary .or) (.refl ts) (by decide)) fun c r₁ hc => ?_
  have hright : ∀ op r₂, Takes 2 ts r₂ → Same (Sound ts 1 Node.WellFormed)
      ((do let right ← call .choice; pure (.binary op c right) : Reader Node) r₂)
      ((do let right ← call' .choice; pure (.binary op c right) : Reader Node) r₂) := by
    intro op r₂ h₂
    refine .bind (h.inner .choice h₂) fun b r₃ hb => ?_
    exact .pure ⟨hb.takes.mono (by omega), fun hts => ⟨hc.holds hts, hb.holds hts⟩⟩
  refine .eat hc.takes (fun r₂ h₂ => ?_) ?_
  · refine .bind (h.inner .choice h₂) fun a r₃ ha => ?_
    refine .expect eof ha.takes fun r₄ h₄ => ?_
    refine .bind (h.inner .choice h₄) fun b r₅ hb => ?_
    exact .pure ⟨hb.takes.mono (by omega),
      fun hts => ⟨hc.holds hts, ha.holds hts, hb.holds hts⟩⟩
  · refine .eat hc.takes (hright .elvis) ?_
    exact .eat hc.takes (hright .coalesce) (.pure hc)

theorem binary_same {level : Level} (h : AgreeBelow ts (Phrase.binary level).rank call call') :
    Same (Sound ts 1 Node.WellFormed) (step eof call (.binary level) ts)
      (step eof call' (.binary level) ts) := by
  have hrank := Phrase.rank_operand level
  refine .bind (h.phrase level.operand (.refl ts) (by omega)) fun left r₁ hl => ?_
  have h₁ : Takes 1 ts r₁ := hl.takes.mono (by cases level <;> decide)
  refine (h.inner (.binaryTail level left) h₁).mono fun n r₂ hn => ?_
  refine ⟨hn.takes.mono (by omega), fun hts => hn.holds hts ?_⟩
  have hleft := hl.holds hts
  cases level <;> exact hleft

theorem binaryTail_same (h : AgreeBelow ts 0 call call') (level : Level)
    (left : Node) :
    Same (Sound ts 0 fun n => left.WellFormed → n.WellFormed) (binaryTail call level left ts)
      (binaryTail call' level left ts) := by
  refine .peek fun token ht => ?_
  cases hop : token.bind level.operator? with
  | none => exact .pure ⟨.refl ts, fun _ => id⟩
  | some op =>
    refine .skip (.refl ts) (ht ▸ hop) fun r₁ h₁ => ?_
    refine .bind (h.inner level.operand h₁) fun right r₂ hright => ?_
    have h₂ : Takes 1 ts r₂ := hright.takes.mono (by omega)
    refine (h.inner (.binaryTail level (.binary op left right)) h₂).mono fun n r₃ hn => ?_
    refine ⟨hn.takes.mono (by omega), fun hts hleft => hn.holds hts ⟨hleft, ?_⟩⟩
    have hright := hright.holds hts
    cases level <;> exact hright

theorem unary_same (h : AgreeBelow ts 2 call call') :
    Same (Sound ts 1 Node.WellFormed) (unary call ts) (unary call' ts) := by
  refine .peek fun token ht => ?_
  cases hop : token.bind unaryOperator? with
  | none => exact h.phrase .value (.refl ts) (by decide)
  | some op =>
    refine .skip (.refl ts) (ht ▸ hop) fun r₁ h₁ => ?_
    refine .bind (h.inner .unary h₁) fun a r₂ ha => ?_
    exact .pure ⟨ha.takes.mono (by omega), ha.holds⟩

theorem value_same (h : AgreeBelow ts 1 call call') :
    Same (Sound ts 1 Node.WellFormed) (step eof call .value ts) (step eof call' .value ts) := by
  refine .bind (h.phrase .primary (.refl ts) (by decide)) fun base r₁ hb => ?_
  refine .bind (h.inner .steps hb.takes) fun ss r₂ hs => ?_
  cases ss with
  | nil => exact .pure ⟨hs.takes.mono (by omega), hb.holds⟩
  | cons s ss =>
    exact .pure ⟨hs.takes.mono (by omega),
      fun hts => ⟨hb.holds hts, List.cons_ne_nil _ _, hs.holds hts⟩⟩

theorem stepsAfter_same (h : AgreeBelow ts 0 call call') {selector : Selector}
    (hr : Takes (n + 1) ts rest) (hs : Lexed ts → WellFormedSelector selector) :
    Same (Sound ts 0 WellFormedSteps) (stepsAfter call selector rest)
      (stepsAfter call' selector rest) := by
  have hmore : ∀ args r, Sound ts (n + 1) WellFormedArgs args r →
      Same (Sound ts 0 WellFormedSteps)
        ((do let more ← call .steps; pure (.mk selector args :: more) : Reader (List Step)) r)
        ((do let more ← call' .steps; pure (.mk selector args :: more) : Reader (List Step)) r) := by
    intro args r ha
    refine .bind (h.inner .steps ha.takes) fun more r' hm => ?_
    exact .pure ⟨hm.takes.mono (by omega),
      fun hts => ⟨⟨hs hts, ha.holds hts⟩, hm.holds hts⟩⟩
  dsimp only [stepsAfter]
  refine .at? ?_ fun _ => ?_
  · refine .bind (q := Sound ts (n + 1) WellFormedArgs) ?_ hmore
    refine .bind (h.inner .arguments hr) fun args r ha => ?_
    exact .pure ⟨ha.takes.mono (by omega), ha.holds⟩
  · exact .bind (.pure ⟨hr, fun _ => trivial⟩) hmore

theorem steps_same (h : AgreeBelow ts 0 call call') :
    Same (Sound ts 0 WellFormedSteps) (steps eof call ts) (steps eof call' ts) := by
  refine .eat (.refl ts) (fun r₁ h₁ => ?_) ?_
  · exact .expectName eof h₁ fun name r₂ h₂ hn => stepsAfter_same h h₂ hn
  · refine .eat (.refl ts) (fun r₁ h₁ => ?_) (.pure ⟨.refl ts, fun _ => trivial⟩)
    refine .bind (h.inner .sequence h₁) fun index r₂ hi => ?_
    exact .expect eof hi.takes fun r₃ h₃ => stepsAfter_same h h₃ hi.holds

theorem moreItems_same (h : AgreeBelow ts 0 call call') :
    Same (Sound ts 0 WellFormedAll) (step eof call .moreItems ts)
      (step eof call' .moreItems ts) := by
  refine .eat (.refl ts) (fun r₁ h₁ => ?_) (.pure ⟨.refl ts, fun _ => trivial⟩)
  refine .bind (h.inner .sequence h₁) fun item r₂ hi => ?_
  refine .bind (h.inner .moreItems hi.takes) fun more r₃ hm => ?_
  exact .pure ⟨hm.takes.mono (by omega), fun hts => ⟨hi.holds hts, hm.holds hts⟩⟩

theorem enclosed_same (h : AgreeBelow ts 0 call call') (opening closing : Symbol) :
    Same (Sound ts 1 WellFormedAll) (enclosed eof call opening closing ts)
      (enclosed eof call' opening closing ts) := by
  refine .expect eof (.refl ts) fun r₁ h₁ => ?_
  refine .eat h₁ (fun r₂ h₂ => ?_) ?_
  · exact .pure ⟨h₂.mono (by omega), fun _ => trivial⟩
  · refine .bind (h.inner .sequence h₁) fun first r₂ hf => ?_
    refine .bind (h.inner .moreItems hf.takes) fun more r₃ hm => ?_
    refine .expect eof hm.takes fun r₄ h₄ => ?_
    exact .pure ⟨h₄.mono (by omega), fun hts => ⟨hf.holds hts, hm.holds hts⟩⟩

theorem calls_same (h : AgreeBelow ts 1 call call') :
    Same (Sound ts 0 (Phrase.calls.WellFormed ts)) (step eof call .calls ts)
      (step eof call' .calls ts) := by
  refine .at? ?_ fun hnot => ?_
  · refine .bind (h.phrase .arguments (.refl ts) (by decide)) fun first r₁ hf => ?_
    refine .bind (h.inner .calls hf.takes) fun more r₂ hm => ?_
    exact .pure ⟨hm.takes.mono (by omega),
      fun hts => ⟨⟨hf.holds hts, (hm.holds hts).1⟩, fun _ => List.cons_ne_nil _ _⟩⟩
  · exact .pure ⟨.refl ts, fun _ => ⟨trivial, fun ho => absurd ho hnot⟩⟩

theorem enclosedLambda_same (h : AgreeBelow ts 0 call call') :
    Same (Sound ts 1 Node.WellFormed) (enclosedLambda eof call ts)
      (enclosedLambda eof call' ts) := by
  refine .expect eof (.refl ts) fun r₁ h₁ => ?_
  refine .bind (h.inner .lambda h₁) fun lambda r₂ hl => ?_
  refine .expect eof hl.takes fun r₃ h₃ => ?_
  refine .bind (h.inner .calls h₃) fun calls r₄ hc => ?_
  have h₄ : Takes 1 ts r₄ := hc.takes.mono (by omega)
  cases lambda with
  | lambda params body _ =>
    refine .pure ⟨h₄, fun hts => ?_⟩
    obtain ⟨hparams, hbody, -⟩ := hl.holds hts
    exact ⟨hparams, hbody, (hc.holds hts).1⟩
  | _ => exact .pure ⟨h₄, hl.holds⟩

/-- The argument lists of a function, the first of which stands next. -/
theorem call_same (h : AgreeBelow ts 0 call call') {ns name : String}
    (hr : Takes (n + 1) ts rest) (ho : StartsWith .lParen rest)
    (hns : Lexed ts → ns.isEmpty = false → (Token.name ns).Valid)
    (hname : Lexed ts → (Token.name name).Valid) :
    Same (Sound ts 1 Node.WellFormed)
      ((do let calls ← call .calls; pure (.call ns name calls) : Reader Node) rest)
      ((do let calls ← call' .calls; pure (.call ns name calls) : Reader Node) rest) := by
  refine .bind (h.inner .calls hr) fun calls r hc => .pure ⟨hc.takes.mono (by omega), ?_⟩
  intro hts
  obtain ⟨hcalls, hne⟩ := hc.holds hts
  exact ⟨hns hts, hname hts, hne ho, hcalls⟩

theorem nameOrCall_same (h : AgreeBelow ts 0 call call') :
    Same (Sound ts 1 Node.WellFormed) (nameOrCall eof call ts) (nameOrCall eof call' ts) := by
  unfold nameOrCall
  split
  · rename_i name span rest
    have h₁ : Takes 1 (⟨.name name, span⟩ :: rest) rest := (Takes.refl _).tail
    have hname : Lexed (⟨.name name, span⟩ :: rest) → (Token.name name).Valid :=
      fun hts => hts _ List.mem_cons_self
    dsimp only
    split
    · exact call_same h h₁ rfl (fun _ hns => nomatch hns) hname
    · rename_i colon m after paren rest'
      split
      · refine call_same h h₁.tail.tail rfl (fun hts _ => hname hts) fun hts => ?_
        exact h₁.tail.lexed hts _ List.mem_cons_self
      · exact .found ⟨h₁, hname⟩
    · exact .found ⟨h₁, hname⟩
  · exact .unexpected eof _ _ _

theorem moreMembers_same (h : AgreeBelow ts 0 call call') (opening : Span) :
    Same (Sound ts 0 WellFormedAll) (moreMembers eof call opening ts)
      (moreMembers eof call' opening ts) := by
  refine .eat (.refl ts) (fun r₁ h₁ => ?_) (.pure ⟨.refl ts, fun _ => trivial⟩)
  refine .bind (h.inner .sequence h₁) fun item r₂ hi => ?_
  refine .at? (.here eof fun span => ⟨rfl, trivial⟩) fun _ => ?_
  refine .bind (h.inner (.moreMembers opening) hi.takes) fun more r₃ hm => ?_
  exact .pure ⟨hm.takes.mono (by omega), fun hts => ⟨hi.holds hts, hm.holds hts⟩⟩

theorem moreEntries_same (h : AgreeBelow ts 0 call call') (opening : Span) :
    Same (Sound ts 0 WellFormedEntries) (moreEntries eof call opening ts)
      (moreEntries eof call' opening ts) := by
  refine .eat (.refl ts) (fun r₁ h₁ => ?_) (.pure ⟨.refl ts, fun _ => trivial⟩)
  refine .bind (h.inner .sequence h₁) fun key r₂ hk => ?_
  refine .eat hk.takes (fun r₃ h₃ => ?_) (.here eof fun span => ⟨rfl, trivial⟩)
  refine .bind (h.inner .sequence h₃) fun value r₄ hv => ?_
  refine .bind (h.inner (.moreEntries opening) hv.takes) fun more r₅ hm => ?_
  exact .pure ⟨hm.takes.mono (by omega),
    fun hts => ⟨hk.holds hts, hv.holds hts, hm.holds hts⟩⟩

theorem setOrMap_same (h : AgreeBelow ts 0 call call') :
    Same (Sound ts 1 Node.WellFormed) (setOrMap eof call ts) (setOrMap eof call' ts) := by
  refine .here eof fun opening => ?_
  refine .expect eof (.refl ts) fun r₁ h₁ => ?_
  refine .eat h₁ (fun r₂ h₂ => ?_) ?_
  · exact .pure ⟨h₂.mono (by omega), fun _ => trivial⟩
  · refine .bind (h.inner .sequence h₁) fun first r₂ hf => ?_
    refine .eat hf.takes (fun r₃ h₃ => ?_) ?_
    · refine .bind (h.inner .sequence h₃) fun value r₄ hv => ?_
      refine .bind (h.inner (.moreEntries opening) hv.takes) fun more r₅ hm => ?_
      refine .expect eof hm.takes fun r₆ h₆ => ?_
      exact .pure ⟨h₆.mono (by omega),
        fun hts => ⟨List.cons_ne_nil _ _, hf.holds hts, hv.holds hts, hm.holds hts⟩⟩
    · refine .bind (h.inner (.moreMembers opening) hf.takes) fun more r₃ hm => ?_
      refine .expect eof hm.takes fun r₄ h₄ => ?_
      exact .pure ⟨h₄.mono (by omega), fun hts => ⟨hf.holds hts, hm.holds hts⟩⟩

theorem primary_same (h : AgreeBelow ts 0 call call') :
    Same (Sound ts 1 Node.WellFormed) (primary eof call ts) (primary eof call' ts) := by
  unfold primary
  split
  · exact .found ⟨(Takes.refl _).tail, fun _ => trivial⟩
  · exact .found ⟨(Takes.refl _).tail, fun _ => trivial⟩
  · exact .found ⟨(Takes.refl _).tail, fun _ => trivial⟩
  · exact .found ⟨(Takes.refl _).tail, fun hts => hts _ List.mem_cons_self⟩
  · exact .found ⟨(Takes.refl _).tail, fun hts => hts _ List.mem_cons_self⟩
  · exact .found ⟨(Takes.refl _).tail, fun _ => trivial⟩
  · split
    · exact enclosedLambda_same h
    · refine .bind (h.inner .sequence (Takes.refl _).tail) fun inner r₁ hi => ?_
      refine .expect eof hi.takes fun r₂ h₂ => ?_
      exact .pure ⟨h₂.mono (by omega), hi.holds⟩
  · refine .bind (enclosed_same h .lBracket .rBracket) fun items r hi => ?_
    exact .pure ⟨hi.takes, hi.holds⟩
  · exact setOrMap_same h
  · exact nameOrCall_same h
  · exact .unexpected eof _ _ _

/-- One phrase is read alike by two ways to read the phrases inside it. -/
theorem step_same (p : Phrase α) (h : AgreeBelow ts p.rank call call') :
    Same (Sound ts p.least (p.WellFormed ts)) (step eof call p ts) (step eof call' p ts) := by
  cases p with
  | sequence => exact sequence_same h
  | sequenceTail first => exact sequenceTail_same h first
  | assignment => exact assignment_same h
  | lambda => exact lambda_same h
  | choice => exact choice_same h
  | binary level => exact binary_same h
  | binaryTail level left => exact binaryTail_same h level left
  | unary => exact unary_same h
  | value => exact value_same h
  | steps => exact steps_same h
  | primary => exact primary_same h
  | arguments => exact enclosed_same h .lParen .rParen
  | calls => exact calls_same h
  | moreItems => exact moreItems_same h
  | moreMembers opening => exact moreMembers_same h opening
  | moreEntries opening => exact moreEntries_same h opening

end Step

/-! ## Reading without the bound -/

section Read
variable {eof : Span} {ts : List Lexeme}

/-- A bound above the weight of a phrase makes no difference. -/
theorem run_same {d d' : Nat} (p : Phrase α) (h : p.weight ts < d) (h' : p.weight ts < d') :
    Same (Sound ts p.least (p.WellFormed ts)) (run eof d p ts) (run eof d' p ts) := by
  -- The weight falls with every phrase inside, so both bounds stay above it.
  induction d generalizing d' α ts with
  | zero => omega
  | succ d ih =>
    cases d' with
    | zero => omega
    | succ d' =>
      refine step_same p fun p' us _ hp => ?_
      have hw : p'.weight us < p.weight ts := hp
      exact ih p' (by omega) (by omega)

/-- Reads a phrase, however deep it is. -/
def read (eof : Span) (p : Phrase α) : Reader α := fun ts => run eof (p.weight ts + 1) p ts

theorem read_eq (p : Phrase α) (ts : List Lexeme) :
    read eof p ts = step eof (read eof) p ts := by
  refine (step_same p fun p' us _ hp => ?_).eq
  exact run_same p' hp (Nat.lt_succ_self _)

theorem read_sound (p : Phrase α) (ts : List Lexeme) :
    Ends (Sound ts p.least (p.WellFormed ts)) (read eof p ts) :=
  (run_same p (Nat.lt_succ_self _) (Nat.lt_succ_self _)).ends

theorem run_depthFor (ts : List Lexeme) :
    run eof (depthFor ts.length) .sequence ts = read eof .sequence ts := by
  have hw : Phrase.sequence.weight ts < depthFor ts.length := by
    simp only [Phrase.weight, Phrase.rank, depthFor]
    omega
  exact (run_same .sequence hw (Nat.lt_succ_self _)).eq

end Read

end ExprLang.Parser

namespace ExprLang

open ExprLang.Parser (read Lexed)

theorem parseTokens_found {ts : List Lexeme} {eof : Span} {n : Node}
    (h : read eof .sequence ts = .found n []) : parseTokens ts eof = .ok n := by
  rw [parseTokens, Parser.run_depthFor, h]

theorem read_of_parseTokens {ts : List Lexeme} {eof : Span} {n : Node}
    (h : parseTokens ts eof = .ok n) : read eof .sequence ts = .found n [] := by
  rw [parseTokens, Parser.run_depthFor] at h
  split at h
  · next hr =>
    cases h
    exact hr
  all_goals cases h

/-- What is parsed from tokens of the lexer is well formed. -/
theorem parseTokens_wellFormed {ts : List Lexeme} {eof : Span} {n : Node} (hts : Lexed ts)
    (h : parseTokens ts eof = .ok n) : n.WellFormed := by
  have hs := @Parser.read_sound _ eof .sequence ts
  rw [read_of_parseTokens h] at hs
  exact hs.holds hts

/-- Equality can be decided for trees, but not for outcomes with their errors. -/
theorem ok_of_toOption {ε α : Type} {x : Except ε α} {a : α} (h : x.toOption = some a) :
    x = .ok a := by
  cases x with
  | error e => cases h
  | ok b =>
    cases h
    rfl

theorem parseExpression_of_toOption {text : String} {n : Node}
    (h : (parseExpression text).toOption = some n) : parseExpression text = .ok n :=
  ok_of_toOption h

/-- What is parsed from a text is well formed. -/
theorem parseExpression_wellFormed {text : String} {n : Node}
    (h : parseExpression text = .ok n) : n.WellFormed := by
  unfold parseExpression at h
  split at h
  · rename_i ts hts
    exact parseTokens_wellFormed (Lexer.lexFrom_valid hts) h
  · cases h

end ExprLang
