import ExprLang.Proofs.Parser.Reads
import ExprLang.Proofs.Parser.Spacing

/-! What stands in parentheses is the tree of what stands between them, but for a sequence that
begins with a lambda. -/

namespace ExprLang

namespace Parser

variable {α β : Type} {eof : Span} {ts rest : List Lexeme} {n : Node} {r : Reading Node}

/-- What is found after another reading. -/
theorem found_of_bind {x : Reader α} {f : α → Reader β} {b : β}
    (h : (x >>= f) ts = .found b rest) : ∃ a r, x ts = .found a r ∧ f a r = .found b rest := by
  change Reader.bind x f ts = .found b rest at h
  unfold Reader.bind at h
  split at h
  · next a r hx => exact ⟨a, r, hx, h⟩
  · cases h
  · cases h

theorem peek_eq (ts : List Lexeme) : peek ts = .found (ts.head?.map Lexeme.token) ts := rfl

/-! ## Phrases after which nothing goes on -/

/-- No token follows that goes on with a phrase. -/
def Ended (rest : List Lexeme) : Prop := ∀ t ∈ rest.head?, t.token.joins = none

theorem ended_nil : Ended [] := nofun

/-- What is found is followed by no token that goes on with it. -/
def Reading.Settled : Reading Node → Prop
  | .found _ rest => Ended rest
  | _ => True

theorem bind_settled {x : Reader Node} {f : Node → Reader Node} (hx : x ts = r) (hr : r.Settled)
    (hf : ∀ n rest, Ended rest → f n rest = .found n rest) : (x >>= f) ts = r := by
  show Reader.bind x f ts = r
  unfold Reader.bind
  rw [hx]
  cases r with
  | found n rest => exact hf n rest hr
  | refused e => rfl
  | exhausted => rfl

theorem eat_ended {s : Symbol} (hs : (Token.symbol s).joins ≠ none) (hrest : Ended rest)
    (x y : Reader α) : (eat s >>= fun taken => if taken then x else y) rest = y rest := by
  rw [eat_bind]
  rcases rest with _ | ⟨t, rest⟩
  · rfl
  · have hne : t.token ≠ .symbol s := fun heq => hs (heq ▸ hrest t rfl)
    exact if_neg hne

theorem steps_ended (hrest : Ended rest) : read eof .steps rest = .found [] rest := by
  rw [read_eq]
  exact (eat_ended (by decide) hrest _ _).trans (eat_ended (by decide) hrest _ _)

theorem binaryTail_ended (hrest : Ended rest) (level : Level) (left : Node) :
    read eof (.binaryTail level left) rest = .found left rest := by
  have hop : (rest.head?.map Lexeme.token).bind level.operator? = none := by
    cases hhead : rest.head? with
    | none => rfl
    | some t =>
      cases hop : level.operator? t.token with
      | none => exact hop
      | some op =>
        have hjoins := operator?_joins hop
        rw [hrest t hhead] at hjoins
        cases hjoins
  rw [read_eq]
  refine (bind_found (peek_eq rest)).trans ?_
  rw [hop]
  rfl

theorem sequenceTail_ended (hrest : Ended rest) (first : Node) :
    read eof (.sequenceTail first) rest = .found first rest := by
  rw [read_eq]
  exact eat_ended (by decide) hrest _ _

/-- A primary phrase is a whole expression where nothing goes on with it. -/
theorem sequence_of_primary (h : read eof .primary ts = r) (hr : r.Settled)
    (hlambda : lambdaAhead ts = false)
    (hunary : (ts.head?.map Lexeme.token).bind unaryOperator? = none) :
    read eof .sequence ts = r := by
  have hvalue : read eof .value ts = r := by
    rw [read_eq]
    exact bind_settled h hr fun n rest hrest => bind_found (steps_ended hrest)
  have hoperand : read eof .unary ts = r := by
    rw [read_eq]
    refine (bind_found (peek_eq ts)).trans ?_
    rw [hunary]
    exact hvalue
  have hbinary (level : Level) (hop : read eof level.operand ts = r) :
      read eof (.binary level) ts = r := by
    rw [read_eq]
    exact bind_settled hop hr fun n rest hrest => binaryTail_ended hrest level n
  have hsum := hbinary .additive (hbinary .multiplicative hoperand)
  have hequality := hbinary .equality (hbinary .relational (hbinary .concat hsum))
  have hor := hbinary .or (hbinary .and hequality)
  have hchoice : read eof .choice ts = r := by
    rw [read_eq]
    refine bind_settled hor hr fun n rest hrest => ?_
    exact (eat_ended (by decide) hrest _ _).trans
      ((eat_ended (by decide) hrest _ _).trans (eat_ended (by decide) hrest _ _))
  have hassignment : read eof .assignment ts = r := by
    rw [read_eq]
    show assignment (read eof) ts = r
    rw [assignment, hlambda]
    exact bind_settled hchoice hr fun n rest hrest => eat_ended (by decide) hrest _ _
  rw [read_eq]
  exact bind_settled hassignment hr fun n rest hrest => sequenceTail_ended hrest n

/-! ## Lambdas and sequences -/

/-- What is read as a lambda is one without argument lists. -/
theorem lambda_of_read (h : read eof .lambda ts = .found n rest) :
    ∃ params body, n = .lambda params body [] := by
  rw [read_eq] at h
  obtain ⟨params, r₁, -, h⟩ := found_of_bind h
  obtain ⟨body, r₂, -, h⟩ := found_of_bind h
  cases h
  exact ⟨params, body, rfl⟩

end Parser

/-- The tree is a sequence of two parts. -/
def Node.isSequence : Node → Bool
  | sequence _ _ => true
  | _ => false

namespace Parser

variable {α β : Type} {eof : Span} {ts rest : List Lexeme} {n first : Node}

/-- Parts that follow make up a sequence. -/
theorem isSequence_of_run {depth : Nat} (hfirst : first.isSequence = true)
    (h : run eof depth (.sequenceTail first) ts = .found n rest) : n.isSequence = true := by
  induction depth generalizing first ts with
  | zero => cases h
  | succ depth ih =>
    change (eat .semi >>= fun taken => if taken then _ else pure first) ts = .found n rest at h
    rw [eat_bind] at h
    split at h
    · cases h
      exact hfirst
    · split at h
      · obtain ⟨second, r₁, -, h⟩ := found_of_bind h
        exact ih rfl h
      · cases h
        exact hfirst

/-- After the first part the expression ends, or a semicolon and other parts follow. -/
theorem sequenceTail_cases (h : read eof (.sequenceTail first) ts = .found n []) :
    (ts = [] ∧ n = first) ∨
      ∃ span rest, ts = ⟨.symbol .semi, span⟩ :: rest ∧ n.isSequence = true := by
  rw [read_eq] at h
  change (eat .semi >>= fun taken => if taken then _ else pure first) ts = .found n [] at h
  rw [eat_bind] at h
  split at h
  · cases h
    exact .inl ⟨rfl, rfl⟩
  · next t rest =>
    split at h
    · next ht =>
      obtain ⟨second, r₁, -, h⟩ := found_of_bind h
      refine .inr ⟨t.span, rest, ?_, isSequence_of_run rfl h⟩
      rw [← ht]
    · cases h

/-! ## What an opening parenthesis begins -/

theorem namesAhead_head (h : namesAhead ts = true) :
    ∃ s span rest, ts = ⟨.symbol s, span⟩ :: rest ∧ (s = .comma ∨ s = .rParen) := by
  revert h
  fun_cases namesAhead ts with
  | case1 => exact fun _ => ⟨_, _, _, rfl, .inl rfl⟩
  | case2 ts hother =>
    unfold closesHeader
    split
    · exact fun _ => ⟨_, _, _, rfl, .inr rfl⟩
    · exact nofun

/-- A name ends before a comma or a closing parenthesis. -/
theorem sequence_name {s : Symbol} (hs : s = .comma ∨ s = .rParen) (name : String)
    (first second : Span) (rest : List Lexeme) :
    read eof .sequence (⟨.name name, first⟩ :: ⟨.symbol s, second⟩ :: rest) =
      .found (.name name) (⟨.symbol s, second⟩ :: rest) := by
  refine sequence_of_primary ?_ ?_ ?_ rfl
  · rw [read_eq]
    rcases hs with rfl | rfl <;> rfl
  · intro t ht
    cases ht
    rcases hs with rfl | rfl <;> rfl
  · rcases hs with rfl | rfl <;> rfl

theorem sequence_rParen (span : Span) (rest : List Lexeme) :
    read eof .sequence (⟨.symbol .rParen, span⟩ :: rest) =
      .refused ⟨.expected "expression" (some ")"), span⟩ := by
  refine sequence_of_primary ?_ trivial rfl rfl
  rw [read_eq]
  rfl

/-- A parenthesis before an expression does not begin a lambda. -/
theorem lambdaAhead_enclosed (h : read eof .sequence ts = .found n []) (span : Span) :
    lambdaAhead (⟨.symbol .lParen, span⟩ :: ts) = false := by
  rw [Bool.eq_false_iff]
  intro hahead
  unfold lambdaAhead at hahead
  split at hahead
  · next heq => cases heq
  · next heq =>
    cases heq
    obtain ⟨s, second, rest, rfl, hs⟩ := namesAhead_head hahead
    rw [sequence_name hs] at h
    cases h
  · next heq =>
    cases heq
    unfold closesHeader at hahead
    split at hahead
    · rw [sequence_rParen] at h
      cases h
    · cases hahead
  · cases hahead

section Enclose
variable {span last : Span} {us : List Lexeme}

/-- An expression in parentheses, up to where the branches part. -/
theorem sequence_enclosed {r : Reading Node} (h : read eof .sequence ts = .found n [])
    (hus : Respaced (some last) ts us)
    (hr : read eof .primary (⟨.symbol .lParen, span⟩ :: us) = r) (hsettled : r.Settled) :
    read eof .sequence (⟨.symbol .lParen, span⟩ :: us) = r := by
  have hparen : Respaced (some last) (⟨.symbol .lParen, span⟩ :: ts)
      (⟨.symbol .lParen, span⟩ :: us) := .cons rfl hus rfl
  refine sequence_of_primary hr hsettled ?_ rfl
  rw [← lambdaAhead_eq hparen]
  exact lambdaAhead_enclosed h span

/-- What does not begin like a lambda is read between the parentheses. -/
theorem primary_enclosed (h : read eof .sequence ts = .found n [])
    (hus : Respaced (some last) ts us) (hahead : lambdaAhead ts = false) :
    read eof .primary (⟨.symbol .lParen, span⟩ :: us) = .found n [] := by
  have halike : Reading.Alike (Reached (some last) ts 0) (read eof .sequence ts)
      (read eof .sequence us) := read_alike .sequence hus
  rw [h] at halike
  generalize hread : read eof .sequence us = r at halike
  cases halike with
  | found hreached =>
    rw [hreached.respaced.of_nil] at hread
    rw [read_eq]
    show (if lambdaAhead us then _ else _) = _
    rw [← lambdaAhead_eq hus, hahead]
    exact bind_found hread

/-- A lambda between the parentheses, and what has to follow it. -/
theorem primary_enclosed_lambda {params : List String} {body : Node} {rest : List Lexeme}
    (h : read eof .lambda us = .found (.lambda params body []) rest)
    (hahead : lambdaAhead us = true) (span : Span) :
    read eof .primary (⟨.symbol .lParen, span⟩ :: us) =
      (do
        expect eof .rParen
        let calls ← read eof .calls
        pure (.lambda params body calls) : Reader Node) rest := by
  rw [read_eq]
  show (if lambdaAhead us then _ else _) = _
  rw [hahead]
  exact bind_found h

/-- What begins like a lambda is read between the parentheses if nothing but the lambda stands
there. Otherwise a semicolon follows the lambda, where the closing parenthesis should stand. -/
theorem primary_enclosed_cases (h : read eof .sequence ts = .found n [])
    (hus : Respaced (some last) ts us) (hahead : lambdaAhead ts = true) :
    (n.isSequence = false ∧
        read eof .primary (⟨.symbol .lParen, span⟩ :: us) = .found n []) ∨
      n.isSequence = true ∧ ∃ place, read eof .primary (⟨.symbol .lParen, span⟩ :: us) =
        .refused ⟨.expected "')'" (some ";"), place⟩ := by
  rw [read_eq] at h
  obtain ⟨lambda, rest, hfirst, htail⟩ := found_of_bind h
  have hlambda : read eof .lambda ts = .found lambda rest := by
    change read eof .assignment ts = _ at hfirst
    rw [read_eq] at hfirst
    change assignment (read eof) ts = _ at hfirst
    rwa [assignment, hahead] at hfirst
  obtain ⟨params, body, rfl⟩ := lambda_of_read hlambda
  have halike : Reading.Alike (Reached (some last) ts 0) (read eof .lambda ts)
      (read eof .lambda us) := read_alike .lambda hus
  rw [hlambda] at halike
  generalize hread : read eof .lambda us = r at halike
  cases halike with
  | @found _ _ rest' hreached =>
    have hinner := primary_enclosed_lambda hread ((lambdaAhead_eq hus).symm.trans hahead) span
    rcases sequenceTail_cases htail with ⟨rfl, rfl⟩ | ⟨semi, more, rfl, hsequence⟩
    · refine .inl ⟨rfl, hinner.trans ?_⟩
      rw [hreached.respaced.of_nil]
      refine (bind_found (x := expect eof .rParen) rfl).trans ?_
      exact bind_found (by rw [read_eq]; rfl)
    · obtain ⟨place, _, rfl, -⟩ := hreached.respaced.cons_left
      exact .inr ⟨hsequence, place, hinner⟩

end Enclose

end Parser

/-! ## Texts -/

open ExprLang.Parser (Respaced lambdaAhead read)

/-- The text begins like a lambda, with its parameters and an arrow. -/
def beginsLambda (text : String) : Bool :=
  match tokenize text with
  | .ok ts => lambdaAhead ts
  | .error _ => false

/-- The tokens of a text in parentheses. -/
theorem tokenize_enclosed {text : String} {ts : List Lexeme} (h : tokenize text = .ok ts) :
    ∃ last us, tokenize ("(" ++ text ++ ")") = .ok (⟨.symbol .lParen, ⟨0, 1⟩⟩ :: us) ∧
      Respaced (some last) ts us := by
  have hinner := Lexer.lexFrom_paren (Lexer.lexFrom_shift h 1)
  have hlist : ("(" ++ text ++ ")").toList = '(' :: (text.toList ++ [')']) := by simp
  have hparen : Lexer.next 0 ('(' :: (text.toList ++ [')'])) =
      .found ⟨.symbol .lParen, ⟨0, 1⟩⟩ (text.toList ++ [')']) := rfl
  have hall : tokenize ("(" ++ text ++ ")") =
      match Lexer.lexFrom (0 + 1) (text.toList ++ [')']) with
      | .ok ls => .ok (⟨.symbol .lParen, ⟨0, 1⟩⟩ :: ls)
      | .error e => .error e := by
    rw [tokenize, hlist]
    exact Lexer.lexFrom_found hparen
  rw [hinner] at hall
  exact ⟨_, _, hall, Parser.respaced_shift (some _) 1 ts⟩

theorem parseTokens_refused {ts : List Lexeme} {eof : Span} {e : SyntaxError}
    (h : read eof .sequence ts = .refused e) : parseTokens ts eof = .error e := by
  rw [parseTokens, Parser.run_depthFor, h]

/-- The tokens of an expression in parentheses have its tree, or a semicolon stands where a
parenthesis has to close a lambda. -/
theorem parseTokens_enclosed {ts us : List Lexeme} {n : Node} {eof eof' span last : Span}
    (h : parseTokens ts eof = .ok n) (hus : Respaced (some last) ts us) :
    (¬(lambdaAhead ts = true ∧ n.isSequence = true) ∧
        parseTokens (⟨.symbol .lParen, span⟩ :: us) eof' = .ok n) ∨
      (lambdaAhead ts = true ∧ n.isSequence = true) ∧
        ∃ place, parseTokens (⟨.symbol .lParen, span⟩ :: us) eof' =
          .error ⟨.expected "')'" (some ";"), place⟩ := by
  have hread : read eof' .sequence ts = .found n [] :=
    read_of_parseTokens (parseTokens_respaced (.refl ts) h eof')
  by_cases hahead : lambdaAhead ts = true
  · rcases Parser.primary_enclosed_cases hread hus hahead with
      ⟨hsequence, hprimary⟩ | ⟨hsequence, place, hprimary⟩
    · have hnot : ¬ n.isSequence = true := Bool.eq_false_iff.mp hsequence
      have hfound := Parser.sequence_enclosed hread hus hprimary Parser.ended_nil
      exact .inl ⟨fun hboth => hnot hboth.2, parseTokens_found hfound⟩
    · have hrefused := Parser.sequence_enclosed hread hus hprimary trivial
      exact .inr ⟨⟨hahead, hsequence⟩, place, parseTokens_refused hrefused⟩
  · refine .inl ⟨fun hboth => hahead hboth.1, parseTokens_found ?_⟩
    refine Parser.sequence_enclosed hread hus ?_ Parser.ended_nil
    exact Parser.primary_enclosed hread hus (Bool.eq_false_iff.mpr hahead)

/-- An expression in parentheses has the tree that it has without, unless it is a sequence that
begins like a lambda. Then a closing parenthesis is expected after the lambda. -/
theorem parseExpression_enclosed {text : String} {n : Node} (h : parseExpression text = .ok n) :
    (parseExpression ("(" ++ text ++ ")") = .ok n ↔
        ¬(beginsLambda text = true ∧ n.isSequence = true)) ∧
      (beginsLambda text = true → n.isSequence = true → ∃ span,
        parseExpression ("(" ++ text ++ ")") = .error ⟨.expected "')'" (some ";"), span⟩) := by
  unfold parseExpression at h
  split at h
  · next ts hts =>
    obtain ⟨last, us, hus, hspaced⟩ := tokenize_enclosed hts
    have hbegins : beginsLambda text = lambdaAhead ts := by rw [beginsLambda, hts]
    have hparse : parseExpression ("(" ++ text ++ ")") =
        parseTokens (⟨.symbol .lParen, ⟨0, 1⟩⟩ :: us)
          (.point ("(" ++ text ++ ")").utf8ByteSize) := by
      rw [parseExpression, hus]
    rw [hbegins, hparse]
    rcases parseTokens_enclosed h hspaced with ⟨hnot, hok⟩ | ⟨hboth, place, herror⟩
    · refine ⟨iff_of_true hok hnot, fun hahead hsequence => ?_⟩
      exact absurd ⟨hahead, hsequence⟩ hnot
    · refine ⟨iff_of_false ?_ fun hnot => hnot hboth, fun _ _ => ⟨place, herror⟩⟩
      rw [herror]
      intro hok
      cases hok
  · cases h

/-- The call of a lambda in front of an integer, without parentheses and with them. -/
theorem parse_enclosed_call :
    parseExpression "(x -> x)(1); 2" =
        .ok (.sequence (.lambda ["x"] (.name "x") [[.integer "1"]]) (.integer "2")) ∧
      parseExpression "((x -> x)(1); 2)" =
        .ok (.sequence (.lambda ["x"] (.name "x") [[.integer "1"]]) (.integer "2")) := by
  have hparse : parseExpression "(x -> x)(1); 2" =
      .ok (.sequence (.lambda ["x"] (.name "x") [[.integer "1"]]) (.integer "2")) :=
    parseExpression_of_toOption (by decide +kernel)
  refine ⟨hparse, (parseExpression_enclosed hparse).1.mpr ?_⟩
  rintro ⟨hbegins, -⟩
  exact absurd hbegins (by decide +kernel)

/-- A lambda in front of a semicolon is not read in parentheses. -/
theorem enclosed_lambda_first :
    parseExpression "x -> x; 1" =
        .ok (.sequence (.lambda ["x"] (.name "x") []) (.integer "1")) ∧
      (parseExpression "(x -> x; 1)").toOption = none :=
  ⟨parseExpression_of_toOption (by decide +kernel), by decide +kernel⟩

end ExprLang
