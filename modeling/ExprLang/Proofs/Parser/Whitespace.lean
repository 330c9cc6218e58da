import ExprLang.Proofs.Action
import ExprLang.Proofs.Factory
import ExprLang.Proofs.Lexer.Balanced
import ExprLang.Proofs.Template

/-! Spaces between tokens do not matter, but for those between a prefix, its colon and the name of
a function. This holds of tokens, of the text of an expression and of texts with segments. -/

namespace ExprLang

/-- Two outcomes are the same, or both are errors. -/
theorem toOption_cases {ε α : Type} {x y : Except ε α} (h : x.toOption = y.toOption) :
    (∃ a, x = .ok a ∧ y = .ok a) ∨ ∃ e e', x = .error e ∧ y = .error e' := by
  cases x with
  | ok a => exact .inl ⟨a, rfl, ok_of_toOption h.symm⟩
  | error e =>
    cases y with
    | ok b => cases h
    | error e' => exact .inr ⟨e, e', rfl, rfl⟩

/-! ## Tokens -/

namespace Parser

/-- The same tokens, wherever they stand. Where a name, a colon, a name and an opening parenthesis
follow each other, the first three stand without gaps in both or in neither. -/
structure SpacedAlike (ts ts' : List Lexeme) : Prop where
  tokens : ts.map (·.token) = ts'.map (·.token)
  prefixes : ∀ i, prefixAhead (ts.drop i) = prefixAhead (ts'.drop i)

namespace SpacedAlike

variable {ts ts' : List Lexeme}

theorem symm (h : SpacedAlike ts ts') : SpacedAlike ts' ts :=
  ⟨h.tokens.symm, fun i => (h.prefixes i).symm⟩

theorem shift (h : SpacedAlike ts ts') (k k' : Nat) :
    SpacedAlike (ts.map (·.shift k)) (ts'.map (·.shift k')) where
  tokens := by
    rw [List.map_map, List.map_map]
    exact h.tokens
  prefixes i := by
    rw [← List.map_drop, ← List.map_drop, prefixAhead_shift, prefixAhead_shift, h.prefixes i]

theorem respaced (h : SpacedAlike ts ts') : Respaced none ts ts' := by
  induction ts generalizing ts' with
  | nil =>
    rw [List.map_eq_nil_iff.mp h.tokens.symm]
    exact .nil
  | cons t ts ih =>
    obtain ⟨htokens, hprefixes⟩ := h
    cases ts' with
    | nil => cases htokens
    | cons t' ts' =>
      obtain ⟨htoken, htokens⟩ := List.cons.inj htokens
      exact .cons htoken (ih ⟨htokens, fun i => hprefixes (i + 1)⟩) (hprefixes 0)

/-- Tokens that are spaced alike make up the same tree, or none. -/
theorem parseTokens_eq (h : SpacedAlike ts ts') (eof eof' : Span) :
    (parseTokens ts eof).toOption = (parseTokens ts' eof').toOption := by
  cases hn : parseTokens ts eof with
  | ok n => rw [parseTokens_respaced h.respaced hn eof']
  | error e =>
    cases hn' : parseTokens ts' eof' with
    | error e' => rfl
    | ok n =>
      rw [parseTokens_respaced h.symm.respaced hn' eof] at hn
      cases hn

end SpacedAlike

end Parser

open ExprLang.Parser (SpacedAlike prefixAhead)

/-! ## Texts of expressions -/

namespace Lexer

/-- These characters are the token that is found before such a rest. -/
def IsWord (word rest : List Char) : Prop :=
  ∃ c cs t, word = c :: cs ∧ isSpace c = false ∧ tokenAt c (cs ++ rest) = (some t, cs.length)

/-- Both texts are the same words in turn, with any spaces before them and after them. -/
inductive SameWords : List Char → List Char → Prop
  | finished {spaces spaces' : List Char} (blank : ∀ c ∈ spaces, isSpace c = true)
      (blank' : ∀ c ∈ spaces', isSpace c = true) : SameWords spaces spaces'
  | word {spaces spaces' word rest rest' : List Char} (blank : ∀ c ∈ spaces, isSpace c = true)
      (blank' : ∀ c ∈ spaces', isSpace c = true) (isWord : IsWord word rest)
      (isWord' : IsWord word rest') (more : SameWords rest rest') :
      SameWords (spaces ++ (word ++ rest)) (spaces' ++ (word ++ rest'))

/-- The same words are the same tokens. -/
theorem SameWords.tokens {cs cs' : List Char} (h : SameWords cs cs') (o o' : Nat) :
    ∃ ls ls', lexFrom o cs = .ok ls ∧ lexFrom o' cs' = .ok ls' ∧
      ls.map (·.token) = ls'.map (·.token) := by
  induction h generalizing o o' with
  | finished blank blank' =>
    exact ⟨[], [], lexFrom_finished (next_finished_iff.mpr ⟨blank, rfl⟩),
      lexFrom_finished (next_finished_iff.mpr ⟨blank', rfl⟩), rfl⟩
  | @word spaces spaces' _ rest rest' blank blank' isWord isWord' _ ih =>
    obtain ⟨c, cs, t, rfl, hc, ht⟩ := isWord
    obtain ⟨_, _, t', hword, -, ht'⟩ := isWord'
    obtain ⟨rfl, rfl⟩ := List.cons.inj hword
    -- Each token is that of the word alone.
    have halone := tokenAt_alone ht
    rw [tokenAt_alone ht', Prod.mk.injEq, Option.some.injEq] at halone
    obtain ⟨rfl, -⟩ := halone
    have hnext := next_spaced o blank hc ht
    have hnext' := next_spaced o' blank' hc ht'
    obtain ⟨ls, ls', hls, hls', htokens⟩ := ih (o + byteLength spaces + byteLength (c :: cs))
      (o' + byteLength spaces' + byteLength (c :: cs))
    exact ⟨_, _, lexFrom_cons hnext hls, lexFrom_cons hnext' hls', congrArg (t' :: ·) htokens⟩

end Lexer

/-- The same words with other spaces between them. Spaces that would join a prefix to the name of a
function stand in both texts or in neither. -/
structure SpacedText (text text' : String) : Prop where
  words : Lexer.SameWords text.toList text'.toList
  prefixes : ∀ ls ls', tokenize text = .ok ls → tokenize text' = .ok ls' →
    ∀ i, prefixAhead (ls.drop i) = prefixAhead (ls'.drop i)

namespace SpacedText

variable {text text' : String}

theorem spacedAlike (h : SpacedText text text') :
    ∃ ls ls', tokenize text = .ok ls ∧ tokenize text' = .ok ls' ∧ SpacedAlike ls ls' := by
  obtain ⟨ls, ls', hls, hls', htokens⟩ := h.words.tokens 0 0
  exact ⟨ls, ls', hls, hls', htokens, h.prefixes ls ls' hls hls'⟩

theorem parseExpression_eq (h : SpacedText text text') :
    (parseExpression text).toOption = (parseExpression text').toOption := by
  obtain ⟨ls, ls', hls, hls', halike⟩ := h.spacedAlike
  rw [parseExpression, parseExpression, hls, hls']
  exact halike.parseTokens_eq _ _

end SpacedText

/-! ## Texts with segments -/

namespace Template

/-- The same characters, but for the spaces between the words of segments. -/
inductive Respaced : List Char → List Char → Prop
  | nil : Respaced [] []
  | letter {c : Char} {rest rest' : List Char} (letter : head c rest = .letter c rest)
      (more : Respaced rest rest') : Respaced (c :: rest) (c :: rest')
  | escaped {rest rest' : List Char} (m : Marker) (more : Respaced rest rest') :
      Respaced ('\\' :: (m.spelling ++ rest)) ('\\' :: (m.spelling ++ rest'))
  | segment {body body' : String} {rest rest' : List Char} (m : Marker)
      (spaced : SpacedText body body')
      (balanced : ∀ ls, tokenize body = .ok ls → Lexer.Balanced ls) (more : Respaced rest rest') :
      Respaced (m.spelling ++ (body.toList ++ '\x7d' :: rest))
        (m.spelling ++ (body'.toList ++ '\x7d' :: rest'))

variable {c : Char} {cs cs' rest rest' : List Char}

theorem Respaced.take_two (h : Respaced cs cs') : cs.take 2 = cs'.take 2 := by
  have hone {cs cs' : List Char} (h : Respaced cs cs') : cs.take 1 = cs'.take 1 := by
    cases h with
    | nil => rfl
    | letter => rfl
    | escaped => rfl
    | segment m => cases m <;> rfl
  cases h with
  | nil => rfl
  | @letter c rest rest' _ more => exact congrArg (c :: ·) (hone more)
  | escaped m => cases m <;> rfl
  | segment m => cases m <;> rfl

theorem opens_take (cs : List Char) : opens (cs.take 2) = opens cs := by
  rcases cs with _ | ⟨c, _ | ⟨d, cs⟩⟩
  · rfl
  · rfl
  · have hiff (rest : List Char) :
        opens (c :: d :: rest) = true ↔ (c = '$' ∨ c = '#') ∧ d = '\x7b' := by
      constructor
      · intro h
        obtain ⟨hc, hd⟩ := opens_cons h
        exact ⟨hc, Option.some.inj hd⟩
      · rintro ⟨rfl | rfl, rfl⟩ <;> rfl
    exact Bool.eq_iff_iff.mpr ((hiff []).trans (hiff cs).symm)

theorem opens_of_letter (h : head c rest = .letter c rest) :
    opens (c :: rest) = false ∧ (c = '\\' → opens rest = false) := by
  constructor
  · refine Bool.eq_false_iff.mpr fun hopens => ?_
    obtain ⟨hc, hbrace⟩ := opens_cons hopens
    obtain ⟨rest, rfl⟩ := List.head?_eq_some_iff.mp hbrace
    rcases hc with rfl | rfl <;> cases h
  · rintro rfl
    refine Bool.eq_false_iff.mpr fun hopens => ?_
    cases rest with
    | nil => cases hopens
    | cons d rest =>
      obtain ⟨hd, hbrace⟩ := opens_cons hopens
      obtain ⟨rest, rfl⟩ := List.head?_eq_some_iff.mp hbrace
      rcases hd with rfl | rfl <;> cases h

/-- What a character is read as depends on the two characters after it. -/
theorem head_letter_of_take (ht : rest.take 2 = rest'.take 2) (h : head c rest = .letter c rest) :
    head c rest' = .letter c rest' := by
  obtain ⟨hopens, hnext⟩ := opens_of_letter h
  refine head_letter ?_ fun hc => ?_
  · have htake : (c :: rest').take 2 = (c :: rest).take 2 := by
      have hone := congrArg (List.take 1) ht
      rw [List.take_take, List.take_take] at hone
      exact congrArg (c :: ·) hone.symm
    rw [← opens_take, htake, opens_take]
    exact hopens
  · rw [← opens_take, ← ht, opens_take]
    exact hnext hc

theorem Respaced.partsFrom_eq (h : Respaced cs cs') (o o' : Nat) (literal : List Char) :
    (partsFrom o literal cs).toOption = (partsFrom o' literal cs').toOption := by
  induction h generalizing o o' literal with
  | nil => rw [partsFrom, partsFrom]
  | letter hletter more ih =>
    rw [partsFrom_letter hletter, partsFrom_letter (head_letter_of_take more.take_two hletter)]
    exact ih _ _ _
  | escaped m more ih =>
    rw [partsFrom_escaped (head_escaped m _), partsFrom_escaped (head_escaped m _)]
    exact ih _ _ _
  | @segment body body' rest rest' m spaced balanced more ih =>
    obtain ⟨ls, ls', hls, hls', halike⟩ := spaced.spacedAlike
    have hbalanced := balanced ls hls
    have hbalanced' : Lexer.Balanced ls' := by
      rw [Lexer.balanced_iff, ← Lexer.depthAfter_congr halike.tokens, ← Lexer.balanced_iff]
      exact hbalanced
    obtain ⟨c, more, hmore, hc⟩ := head_opening m (body.toList ++ '\x7d' :: rest)
    obtain ⟨c', more', hmore', hc'⟩ := head_opening m (body'.toList ++ '\x7d' :: rest')
    have hs := Lexer.segmentFrom_body hls hbalanced (o + 2) rest
    have hs' := Lexer.segmentFrom_body hls' hbalanced' (o' + 2) rest'
    rw [hmore, hmore', partsFrom_opening hc hs, partsFrom_opening hc' hs']
    have htrees := (halike.shift (o + 2) (o' + 2)).parseTokens_eq
    dsimp only
    rcases toOption_cases (htrees _ _) with ⟨n, hn, hn'⟩ | ⟨e, e', he, he'⟩
    · rw [hn, hn']
      dsimp only
      rcases toOption_cases (ih _ _ _) with ⟨parts, hparts, hparts'⟩ | ⟨e, e', he, he'⟩
      · rw [hparts, hparts']
      · rw [he, he']
        rfl
    · rw [he, he']
      rfl

theorem assemble_toOption (stop stop' : Nat) (parts : List Node) :
    (assemble stop parts).toOption = (assemble stop' parts).toOption := by
  unfold assemble
  split
  · rfl
  · rfl
  · rfl
  · rfl
  · split <;> rfl

theorem Respaced.parseTemplate_eq {text text' : String}
    (h : Respaced text.toList text'.toList) :
    (parseTemplate text).toOption = (parseTemplate text').toOption := by
  rw [parseTemplate, parseTemplate]
  rcases toOption_cases (h.partsFrom_eq 0 0 []) with ⟨parts, hparts, hparts'⟩ | ⟨e, e', he, he'⟩
  · rw [hparts, hparts']
    exact assemble_toOption _ _ parts
  · rw [he, he']
    rfl

end Template

/-! ## Expressions -/

/-- Method expressions that are equal: the tree and the types of the parameters, or plain text and
the type of the result. -/
inductive MethodExpr.Same : MethodExpr → MethodExpr → Prop
  | parsed {text text' : String} {node : Node} {bound bound' : Bound}
      {returns returns' : Option TypeRef} {params : Option (List TypeRef)} :
      Same (.parsed text node bound returns params) (.parsed text' node bound' returns' params)
  | plain {text : String} {returns : Option TypeRef} {params params' : Option (List TypeRef)} :
      Same (.plain text returns params) (.plain text returns params')

/-- Neither is built, or both are built and they are equal. -/
inductive BuiltAlike {α : Type} (same : α → α → Prop) : Except Fault α → Except Fault α → Prop
  | built {a a' : α} (equal : same a a') : BuiltAlike same (.ok a) (.ok a')
  | failed (e e' : Fault) : BuiltAlike same (.error e) (.error e')

namespace Factory

variable {f f' : Factory} {text text' : String}

theorem builtAlike_of_tree {α : Type} {same : α → α → Prop} {k k' : Node → Except Fault α}
    (h : (parseTemplate text).toOption = (parseTemplate text').toOption)
    (hk : ∀ n, BuiltAlike same (k n) (k' n)) :
    BuiltAlike same ((parseTemplate text).mapError Fault.parse >>= k)
      ((parseTemplate text').mapError Fault.parse >>= k') := by
  rcases toOption_cases h with ⟨n, hn, hn'⟩ | ⟨e, e', he, he'⟩
  · rw [hn, hn']
    exact hk n
  · rw [he, he']
    exact .failed _ _

theorem valueOf_alike (t : ClassTable) (c : Context) (text text' : String)
    (expected : Option TypeRef) (n : Node) :
    BuiltAlike (fun e e' => ∀ h, ValueExpr.same h e e' = true) (valueOf t c text expected n)
      (valueOf t c text' expected n) := by
  unfold valueOf
  cases Bound.capture t c.bound n with
  | error e => exact .failed e e
  | ok b => exact .built fun _ => beq_self_eq_true n

theorem methodOf_alike (t : ClassTable) (c : Context) (text text' : String)
    (returns : Option TypeRef) (params : Option (List TypeRef)) (n : Node) :
    BuiltAlike MethodExpr.Same (methodOf t c text returns params n)
      (methodOf t c text' returns params n) := by
  unfold methodOf
  split
  · exact .built .plain
  · split
    · cases Bound.capture t c.bound n with
      | error e => exact .failed e e
      | ok b => exact .built .parsed
    · exact .failed _ _

end Factory

/-- Tokens that are the same but for their places, and for gaps that leave every prefix joined to
its function or apart from it, have the same tree or none. So the spaces between the words of a text
change neither its tree nor the expression that is built from it. -/
theorem spacing_matters_in_prefixed_calls_only :
    (∀ (ts ts' : List Lexeme) (eof eof' : Span), SpacedAlike ts ts' →
      (parseTokens ts eof).toOption = (parseTokens ts' eof').toOption) ∧
    (∀ text text' : String, SpacedText text text' →
      (parseExpression text).toOption = (parseExpression text').toOption) ∧
    ∀ text text' : String, Template.Respaced text.toList text'.toList →
      (parseTemplate text).toOption = (parseTemplate text').toOption ∧
      ∀ f f' : Factory, f.Reached → f'.Reached → ∀ (t : ClassTable) (c : Context),
        (∀ expected : Option TypeRef,
          BuiltAlike (fun e e' => ∀ h, ValueExpr.same h e e' = true)
            (Factory.valueExpression t c text expected f).1
            (Factory.valueExpression t c text' expected f').1) ∧
        ∀ (returns : Option TypeRef) (params : Option (List TypeRef)),
          BuiltAlike MethodExpr.Same (Factory.methodExpression t c text returns params f).1
            (Factory.methodExpression t c text' returns params f').1 := by
  refine ⟨fun ts ts' eof eof' h => h.parseTokens_eq eof eof',
    fun text text' h => h.parseExpression_eq, ?_⟩
  intro text text' h
  have htree := h.parseTemplate_eq
  refine ⟨htree, fun f f' hf hf' t c => ⟨fun expected => ?_, fun returns params => ?_⟩⟩
  · rw [hf.valueExpression_eq, hf'.valueExpression_eq]
    exact Factory.builtAlike_of_tree htree (Factory.valueOf_alike t c text text' expected)
  · rw [hf.methodExpression_eq, hf'.methodExpression_eq]
    exact Factory.builtAlike_of_tree htree (Factory.methodOf_alike t c text text' returns params)

theorem tokenize_sum : tokenize "a+b" = .ok
    [⟨.name "a", ⟨0, 1⟩⟩, ⟨.symbol .plus, ⟨1, 2⟩⟩, ⟨.name "b", ⟨2, 3⟩⟩] :=
  Lexer.lexFrom_cons rfl (Lexer.lexFrom_cons rfl (Lexer.lexFrom_cons rfl
    (Lexer.lexFrom_finished rfl)))

theorem spacedText_sum : SpacedText "a+b" " a + b " where
  words := by
    have hnone : ∀ c ∈ ([] : List Char), Lexer.isSpace c = true := nofun
    have hone : ∀ c ∈ [' '], Lexer.isSpace c = true := List.forall_mem_singleton.mpr rfl
    have hend : Lexer.SameWords [] [' '] := .finished hnone hone
    have hb : Lexer.SameWords ['b'] [' ', 'b', ' '] :=
      @Lexer.SameWords.word [] [' '] ['b'] [] [' '] hnone hone ⟨'b', [], .name "b", rfl, rfl, rfl⟩
        ⟨'b', [], .name "b", rfl, rfl, rfl⟩ hend
    have hplus : Lexer.SameWords ['+', 'b'] [' ', '+', ' ', 'b', ' '] :=
      @Lexer.SameWords.word [] [' '] ['+'] ['b'] [' ', 'b', ' '] hnone hone
        ⟨'+', [], .symbol .plus, rfl, rfl, rfl⟩ ⟨'+', [], .symbol .plus, rfl, rfl, rfl⟩ hb
    exact @Lexer.SameWords.word [] [' '] ['a'] ['+', 'b'] [' ', '+', ' ', 'b', ' '] hnone hone
      ⟨'a', [], .name "a", rfl, rfl, rfl⟩ ⟨'a', [], .name "a", rfl, rfl, rfl⟩ hplus
  prefixes ls ls' hls hls' := by
    have hwide : tokenize " a + b " = .ok
        [⟨.name "a", ⟨1, 2⟩⟩, ⟨.symbol .plus, ⟨3, 4⟩⟩, ⟨.name "b", ⟨5, 6⟩⟩] :=
      Lexer.lexFrom_cons rfl (Lexer.lexFrom_cons rfl (Lexer.lexFrom_cons rfl
        (Lexer.lexFrom_finished rfl)))
    rw [tokenize_sum] at hls
    rw [hwide] at hls'
    cases hls
    cases hls'
    intro i
    rcases i with _ | _ | _ | i <;> rfl

/-- A choice whose second branch calls a function, with a gap before its colon in both texts, and a
sum with gaps in one. -/
theorem spacing_of_choice_and_sum :
    (parseTokens
        [⟨.name "c", ⟨0, 1⟩⟩, ⟨.symbol .question, ⟨1, 2⟩⟩, ⟨.name "a", ⟨2, 3⟩⟩,
          ⟨.symbol .colon, ⟨4, 5⟩⟩, ⟨.name "f", ⟨5, 6⟩⟩, ⟨.symbol .lParen, ⟨6, 7⟩⟩,
          ⟨.symbol .rParen, ⟨7, 8⟩⟩] ⟨8, 8⟩).toOption =
      (parseTokens
        [⟨.name "c", ⟨1, 2⟩⟩, ⟨.symbol .question, ⟨3, 4⟩⟩, ⟨.name "a", ⟨5, 6⟩⟩,
          ⟨.symbol .colon, ⟨7, 8⟩⟩, ⟨.name "f", ⟨9, 10⟩⟩, ⟨.symbol .lParen, ⟨11, 12⟩⟩,
          ⟨.symbol .rParen, ⟨13, 14⟩⟩] ⟨15, 15⟩).toOption ∧
    (parseExpression "a+b").toOption = (parseExpression " a + b ").toOption ∧
    BuiltAlike (fun e e' => ∀ h, ValueExpr.same h e e' = true)
      (Factory.valueExpression Host.bare.classes (.standard false false) "$\x7ba+b\x7d" none
        (.ofCapacity 4)).1
      (Factory.valueExpression Host.bare.classes (.standard false false) "$\x7b a + b \x7d" none
        (.ofCapacity 0)).1 := by
  obtain ⟨hchoice, hsum, htemplate⟩ := spacing_matters_in_prefixed_calls_only
  refine ⟨hchoice _ _ _ _ ⟨rfl, ?_⟩, hsum _ _ spacedText_sum, ?_⟩
  · intro i
    rcases i with _ | _ | _ | _ | _ | _ | _ | i <;> rfl
  · have hbalanced : ∀ ls, tokenize "a+b" = .ok ls → Lexer.Balanced ls := by
      intro ls hls
      rw [tokenize_sum] at hls
      cases hls
      exact Lexer.balanced_iff.mpr rfl
    have hspaced := Template.Respaced.segment .dynamic spacedText_sum hbalanced .nil
    have hbuilt := (htemplate "$\x7ba+b\x7d" "$\x7b a + b \x7d" hspaced).2
    exact (hbuilt _ _ (.start 4) (.start 0) _ _).1 none

end ExprLang
