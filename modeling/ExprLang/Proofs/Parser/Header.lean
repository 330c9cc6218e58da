import ExprLang.Proofs.Parser.Enclosed

/-! The header of a lambda is looked for before it is read. The lookahead answers yes exactly where
a complete header stands, and there the reader takes this header; elsewhere it refuses. -/

namespace ExprLang.Parser

variable {eof : Span} {params ps : List String} {tokens : List Token}
variable {ts us header rest : List Lexeme}

/-! ## The language of headers -/

/-- Names after commas, the closing parenthesis and the arrow. -/
inductive IsTail : List String → List Token → Prop
  | close : IsTail [] [.symbol .rParen, .symbol .arrow]
  | more {ps : List String} {tokens : List Token} (p : String) (h : IsTail ps tokens) :
      IsTail (p :: ps) (.symbol .comma :: .name p :: tokens)

/-- The tokens are a complete header with these parameters: a name, or any number of names that
are separated by commas and stand in parentheses, and the arrow. -/
inductive IsHeader : List String → List Token → Prop
  | bare (p : String) : IsHeader [p] [.name p, .symbol .arrow]
  | empty : IsHeader [] [.symbol .lParen, .symbol .rParen, .symbol .arrow]
  | listed {ps : List String} {tokens : List Token} (p : String) (h : IsTail ps tokens) :
      IsHeader (p :: ps) (.symbol .lParen :: .name p :: tokens)

theorem cons_of_map {t : Token} (h : us.map Lexeme.token = t :: tokens) :
    ∃ span us', us = ⟨t, span⟩ :: us' ∧ us'.map Lexeme.token = tokens := by
  obtain ⟨⟨token, span⟩, us', rfl, rfl, hus⟩ := List.map_eq_cons_iff.mp h
  exact ⟨span, us', rfl, hus⟩

theorem close_of_map (h : us.map Lexeme.token = [.symbol .rParen, .symbol .arrow]) :
    ∃ paren arrow, us = [⟨.symbol .rParen, paren⟩, ⟨.symbol .arrow, arrow⟩] := by
  obtain ⟨paren, us, rfl, h₁⟩ := cons_of_map h
  obtain ⟨arrow, us, rfl, h₂⟩ := cons_of_map h₁
  cases List.map_eq_nil_iff.mp h₂
  exact ⟨paren, arrow, rfl⟩

/-! ## What is looked for -/

theorem closesHeader_iff :
    closesHeader ts = true ↔
      ∃ paren arrow rest, ts = ⟨.symbol .rParen, paren⟩ :: ⟨.symbol .arrow, arrow⟩ :: rest := by
  refine ⟨fun h => ?_, ?_⟩
  · unfold closesHeader at h
    split at h
    · exact ⟨_, _, _, rfl⟩
    · cases h
  · rintro ⟨paren, arrow, rest, rfl⟩
    rfl

theorem namesAhead_tail (h : IsTail ps tokens) (hus : us.map Lexeme.token = tokens)
    (rest : List Lexeme) : namesAhead (us ++ rest) = true := by
  induction h generalizing us with
  | close =>
    obtain ⟨paren, arrow, rfl⟩ := close_of_map hus
    rfl
  | more p _ ih =>
    obtain ⟨comma, us, rfl, h₁⟩ := cons_of_map hus
    obtain ⟨span, us, rfl, h₂⟩ := cons_of_map h₁
    exact (ih h₂ : namesAhead (us ++ rest) = true)

theorem tail_of_namesAhead (h : namesAhead ts = true) :
    ∃ ps us rest, ts = us ++ rest ∧ IsTail ps (us.map Lexeme.token) := by
  fun_induction namesAhead ts with
  | case1 comma p span rest ih =>
    obtain ⟨ps, us, rest, rfl, hus⟩ := ih h
    exact ⟨p :: ps, ⟨.symbol .comma, comma⟩ :: ⟨.name p, span⟩ :: us, rest, rfl, .more p hus⟩
  | case2 ts _ =>
    obtain ⟨paren, arrow, rest, rfl⟩ := closesHeader_iff.mp h
    exact ⟨[], [⟨.symbol .rParen, paren⟩, ⟨.symbol .arrow, arrow⟩], rest, rfl, .close⟩

theorem lambdaAhead_of_header (h : IsHeader params (header.map Lexeme.token))
    (rest : List Lexeme) : lambdaAhead (header ++ rest) = true := by
  generalize htokens : header.map Lexeme.token = tokens at h
  cases h with
  | bare p =>
    obtain ⟨span, us, rfl, h₁⟩ := cons_of_map htokens
    obtain ⟨arrow, us, rfl, -⟩ := cons_of_map h₁
    rfl
  | empty =>
    obtain ⟨paren, us, rfl, h₁⟩ := cons_of_map htokens
    obtain ⟨_, _, rfl⟩ := close_of_map h₁
    rfl
  | listed p htail =>
    obtain ⟨paren, us, rfl, h₁⟩ := cons_of_map htokens
    obtain ⟨span, us, rfl, h₂⟩ := cons_of_map h₁
    exact namesAhead_tail htail h₂ rest

theorem header_of_lambdaAhead (h : lambdaAhead ts = true) :
    ∃ params header rest, ts = header ++ rest ∧ IsHeader params (header.map Lexeme.token) := by
  revert h
  fun_cases lambdaAhead ts with
  | case1 p span arrow rest =>
    exact fun _ => ⟨[p], [⟨.name p, span⟩, ⟨.symbol .arrow, arrow⟩], rest, rfl, .bare p⟩
  | case2 paren p span rest =>
    intro h
    obtain ⟨ps, us, rest, rfl, hus⟩ := tail_of_namesAhead h
    exact ⟨p :: ps, ⟨.symbol .lParen, paren⟩ :: ⟨.name p, span⟩ :: us, rest, rfl, .listed p hus⟩
  | case3 paren rest =>
    intro h
    obtain ⟨closing, arrow, rest, rfl⟩ := closesHeader_iff.mp h
    exact ⟨[], [⟨.symbol .lParen, paren⟩, ⟨.symbol .rParen, closing⟩, ⟨.symbol .arrow, arrow⟩],
      rest, rfl, .empty⟩
  | case4 =>
    intro h
    cases h

/-! ## What is read -/

theorem expect_found {s : Symbol} {u : Unit} (h : expect eof s ts = .found u rest) :
    ∃ span, ts = ⟨.symbol s, span⟩ :: rest := by
  unfold expect at h
  split at h
  · cases h
  · next t us =>
    split at h
    · next ht =>
      cases h
      exact ⟨t.span, by rw [← ht]⟩
    · cases h

theorem expectName_found {name : String} (h : expectName eof ts = .found name rest) :
    ∃ span, ts = ⟨.name name, span⟩ :: rest := by
  unfold expectName at h
  split at h
  · cases h
    exact ⟨_, rfl⟩
  · cases ts <;> cases h

theorem moreParams_tail (eof : Span) (h : IsTail ps tokens) (hus : us.map Lexeme.token = tokens)
    (rest : List Lexeme) :
    ∃ paren arrow, moreParams eof (us ++ rest) =
      .found ps (⟨.symbol .rParen, paren⟩ :: ⟨.symbol .arrow, arrow⟩ :: rest) := by
  induction h generalizing us with
  | close =>
    obtain ⟨paren, arrow, rfl⟩ := close_of_map hus
    exact ⟨paren, arrow, rfl⟩
  | more p _ ih =>
    obtain ⟨comma, us, rfl, h₁⟩ := cons_of_map hus
    obtain ⟨span, us, rfl, h₂⟩ := cons_of_map h₁
    obtain ⟨paren, arrow, hmore⟩ := ih h₂
    refine ⟨paren, arrow, ?_⟩
    exact (moreParams_cons p comma span _).trans (bind_found hmore)

/-- The lookahead goes on where the reader of further parameters stops. -/
theorem namesAhead_of_moreParams (h : moreParams eof ts = .found ps rest) :
    namesAhead ts = closesHeader rest := by
  fun_induction moreParams eof ts generalizing ps with
  | case1 _ name _ rest' ns r hr ih =>
    cases h
    exact ih hr
  | case2 => cases h
  | case3 => cases h
  | case4 _ us hname =>
    cases us <;> cases h
  | case5 ts hname hcomma =>
    cases h
    refine namesAhead.eq_2 _ ?_
    exact hname

theorem lambdaHeader_of_header (h : IsHeader params (header.map Lexeme.token))
    (rest : List Lexeme) : lambdaHeader eof (header ++ rest) = .found params rest := by
  generalize htokens : header.map Lexeme.token = tokens at h
  cases h with
  | bare p =>
    obtain ⟨span, us, rfl, h₁⟩ := cons_of_map htokens
    obtain ⟨arrow, us, rfl, h₂⟩ := cons_of_map h₁
    cases List.map_eq_nil_iff.mp h₂
    rfl
  | empty =>
    obtain ⟨paren, us, rfl, h₁⟩ := cons_of_map htokens
    obtain ⟨_, _, rfl⟩ := close_of_map h₁
    rfl
  | listed p htail =>
    obtain ⟨paren, us, rfl, h₁⟩ := cons_of_map htokens
    obtain ⟨span, us, rfl, h₂⟩ := cons_of_map h₁
    obtain ⟨closing, arrow, hmore⟩ := moreParams_tail eof htail h₂ rest
    exact bind_found (x := moreParams eof) hmore

/-- The arrow after the parameters. -/
theorem arrow_of_found
    (h : (do let params ← pure ps; expect eof .arrow; pure params : Reader (List String)) ts =
      .found params rest) : ∃ span rest', ts = ⟨.symbol .arrow, span⟩ :: rest' := by
  have heq : (do let params ← pure ps; expect eof .arrow; pure params : Reader (List String)) ts =
      (do expect eof .arrow; pure ps : Reader (List String)) ts := rfl
  obtain ⟨_, rest', harrow, -⟩ := found_of_bind (heq.symm.trans h)
  obtain ⟨span, hts⟩ := expect_found harrow
  exact ⟨span, rest', hts⟩

theorem lambdaAhead_of_bare
    (h : (do let only ← expectName eof; let params ← pure [only]; expect eof .arrow; pure params :
      Reader (List String)) ts = .found params rest) : lambdaAhead ts = true := by
  obtain ⟨name, r₁, hname, h₁⟩ := found_of_bind h
  obtain ⟨_, rfl⟩ := expectName_found hname
  obtain ⟨_, _, rfl⟩ := arrow_of_found h₁
  rfl

/-- A header is read only where the lookahead sees one. -/
theorem lambdaAhead_of_lambdaHeader (h : lambdaHeader eof ts = .found params rest) :
    lambdaAhead ts = true := by
  dsimp only [lambdaHeader] at h
  rw [eat_bind] at h
  rcases ts with _ | ⟨⟨token, span⟩, ts⟩
  · exact lambdaAhead_of_bare h
  dsimp only at h
  split at h
  · next hparen =>
    subst hparen
    rw [eat_bind] at h
    rcases ts with _ | ⟨⟨token, second⟩, ts⟩
    · cases h
    dsimp only at h
    split at h
    · next hclose =>
      subst hclose
      obtain ⟨_, _, rfl⟩ := arrow_of_found h
      rfl
    · obtain ⟨name, r₁, hname, h₁⟩ := found_of_bind h
      obtain ⟨more, r₂, hmore, h₂⟩ := found_of_bind h₁
      obtain ⟨_, r₃, hclose, h₃⟩ := found_of_bind h₂
      obtain ⟨_, hts⟩ := expectName_found hname
      cases hts
      obtain ⟨_, rfl⟩ := expect_found hclose
      obtain ⟨_, _, rfl⟩ := arrow_of_found h₃
      exact namesAhead_of_moreParams hmore
  · exact lambdaAhead_of_bare h

/-- Where no header is seen, the reader of headers refuses. -/
theorem lambdaHeader_refused (eof : Span) (h : lambdaAhead ts = false) :
    ∃ e, lambdaHeader eof ts = .refused e := by
  have hends : Reading.Ends _ (lambdaHeader eof ts) := (lambdaHeader_same ts).ends
  cases hr : lambdaHeader eof ts with
  | found params rest => exact absurd (lambdaAhead_of_lambdaHeader hr) (by simp [h])
  | refused e => exact ⟨e, rfl⟩
  | exhausted =>
    rw [hr] at hends
    exact hends.elim

/-! ## Where the grammar looks ahead -/

theorem lambda_eq (ts : List Lexeme) : read eof .lambda ts = lambda eof (read eof) ts :=
  read_eq .lambda ts

/-- The body of a lambda whose header has been read, up to where the lambda ends. -/
def afterHeader (eof : Span) (params : List String) : Reader Node := do
  let body ← lambdaBody (read eof)
  pure (.lambda params body [])

theorem lambda_of_header (h : IsHeader params (header.map Lexeme.token)) (rest : List Lexeme) :
    read eof .lambda (header ++ rest) = afterHeader eof params rest :=
  (lambda_eq _).trans (bind_found (lambdaHeader_of_header h rest))

theorem lambda_refused (h : lambdaAhead ts = false) : ∃ e, read eof .lambda ts = .refused e := by
  obtain ⟨e, he⟩ := lambdaHeader_refused eof h
  refine ⟨e, (lambda_eq ts).trans ?_⟩
  show Reader.bind (lambdaHeader eof) _ ts = _
  rw [Reader.bind, he]

/-- What follows a lambda follows its body. -/
theorem bind_after {α : Type} {x : Reader Node} (h : x ts = afterHeader eof params rest)
    (f : Node → Reader α) :
    (x >>= f) ts =
      (do let body ← lambdaBody (read eof); f (.lambda params body []) : Reader α) rest := by
  change x ts = Reader.bind (lambdaBody (read eof)) _ rest at h
  show Reader.bind x f ts = Reader.bind (lambdaBody (read eof)) _ rest
  unfold Reader.bind at h ⊢
  rw [h]
  cases lambdaBody (read eof) rest <;> rfl

theorem assignment_of_header (h : IsHeader params (header.map Lexeme.token))
    (rest : List Lexeme) :
    read eof .assignment (header ++ rest) = afterHeader eof params rest := by
  rw [read_eq]
  show assignment (read eof) (header ++ rest) = _
  rw [assignment, if_pos (lambdaAhead_of_header h rest)]
  exact lambda_of_header h rest

theorem lambdaBody_of_header (h : IsHeader params (header.map Lexeme.token))
    (rest : List Lexeme) :
    lambdaBody (read eof) (header ++ rest) = afterHeader eof params rest := by
  rw [lambdaBody, if_pos (lambdaAhead_of_header h rest)]
  exact lambda_of_header h rest

/-- A lambda in parentheses, with the argument lists after them. -/
theorem primary_of_header (h : IsHeader params (header.map Lexeme.token)) (span : Span)
    (rest : List Lexeme) :
    read eof .primary (⟨.symbol .lParen, span⟩ :: (header ++ rest)) =
      (do
        let body ← lambdaBody (read eof)
        expect eof .rParen
        let calls ← read eof .calls
        pure (.lambda params body calls) : Reader Node) rest := by
  rw [read_eq]
  show (if lambdaAhead (header ++ rest) then enclosedLambda eof (read eof) _ else _) = _
  rw [if_pos (lambdaAhead_of_header h rest)]
  exact bind_after (lambda_of_header h rest) _

/-- The lookahead is exact. It answers yes exactly where the tokens begin with a complete header.
There assignments, bodies of lambdas and parentheses go on with a lambda, whose parameters are
those of the header and whose body is what follows it: the header is never refused. Where the
answer is no, the reader of headers refuses, and so does the reader of lambdas. The tokens from any
place on are such a list of tokens, however far ahead of the next token that is. -/
theorem lambdaAhead_exact (eof : Span) (ts : List Lexeme) :
    (lambdaAhead ts = true ↔
      ∃ params header rest, ts = header ++ rest ∧ IsHeader params (header.map Lexeme.token)) ∧
    (∀ params header rest, ts = header ++ rest → IsHeader params (header.map Lexeme.token) →
      lambdaHeader eof ts = .found params rest ∧
      read eof .lambda ts = afterHeader eof params rest ∧
      read eof .assignment ts = afterHeader eof params rest ∧
      lambdaBody (read eof) ts = afterHeader eof params rest ∧
      ∀ span, read eof .primary (⟨.symbol .lParen, span⟩ :: ts) =
        (do
          let body ← lambdaBody (read eof)
          expect eof .rParen
          let calls ← read eof .calls
          pure (.lambda params body calls) : Reader Node) rest) ∧
    (lambdaAhead ts = false →
      (∃ e, lambdaHeader eof ts = .refused e) ∧ ∃ e, read eof .lambda ts = .refused e) := by
  refine ⟨⟨header_of_lambdaAhead, ?_⟩, ?_, fun h => ⟨lambdaHeader_refused eof h, lambda_refused h⟩⟩
  · rintro ⟨params, header, rest, rfl, h⟩
    exact lambdaAhead_of_header h rest
  · rintro params header rest rfl h
    exact ⟨lambdaHeader_of_header h rest, lambda_of_header h rest, assignment_of_header h rest,
      lambdaBody_of_header h rest, fun span => primary_of_header h span rest⟩

end ExprLang.Parser
