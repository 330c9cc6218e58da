import ExprLang.Proofs.Parser.Reads

/-! What a tree is printed as is parsed to the tree. -/

namespace ExprLang.Parser

open Word

variable {α β : Type} {eof : Span} {n a b : Node} {ns : List Node} {ws rest : List Word} {o : Nat}

/-! ## Items -/

theorem headToken?_ne {s s' : Symbol} (hs : s ≠ s') (rest : List Word) :
    headToken? (symbol s :: rest) ≠ some (.symbol s') := by
  intro heq
  cases heq
  exact hs rfl

theorem headToken?_name_ne (name : String) (s : Symbol) (rest : List Word) :
    headToken? (Word.name name :: rest) ≠ some (.symbol s) := nofun

/-- A comma or a closing sign follows. -/
def Separated (rest : List Word) : Prop :=
  ∃ s more, rest = symbol s :: more ∧ (s = .comma ∨ (Token.symbol s).closes = true)

theorem Separated.stops (hr : Separated rest) : Stops 0 rest := by
  obtain ⟨s, more, rfl, hs⟩ := hr
  refine stops_symbol ?_ more
  rcases hs with rfl | hs
  · rfl
  · cases s <;> first | rfl | cases hs

theorem Separated.ne_colon (hr : Separated rest) : headToken? rest ≠ some (.symbol .colon) := by
  obtain ⟨s, more, rfl, hs⟩ := hr
  intro heq
  cases heq
  rcases hs with hs | hs <;> cases hs

theorem separated_closing {s : Symbol} (hs : (Token.symbol s).closes = true) (rest : List Word) :
    Separated (symbol s :: rest) := ⟨s, rest, rfl, .inr hs⟩

theorem separated_more (ns : List Node) (hr : Separated rest) :
    Separated (wordsOfMore ns ++ rest) := by
  cases ns with
  | nil => exact hr
  | cons n ns => exact ⟨.comma, _, rfl, .inl rfl⟩

theorem separated_moreEntries (es : List (Node × Node)) (hr : Separated rest) :
    Separated (wordsOfMoreEntries es ++ rest) := by
  cases es with
  | nil => exact hr
  | cons e es => exact ⟨.comma, _, rfl, .inl rfl⟩

theorem ne_comma_of_closes {s : Symbol} (hs : (Token.symbol s).closes = true)
    (rest : List Word) : headToken? (symbol s :: rest) ≠ some (.symbol .comma) := by
  intro heq
  cases heq
  cases hs

/-- An item does not begin with a closing sign. -/
theorem RoundTrips.ne_closing (h : RoundTrips eof n) {s : Symbol}
    (hs : (Token.symbol s).closes = true) (rest : List Word) :
    headToken? (n.words ++ rest) ≠ some (.symbol s) := by
  obtain ⟨w, more, hw, hc, -⟩ := n.words_lead h.wellFormed
  rw [hw]
  intro heq
  rw [show w.lead = .symbol s from Option.some.inj heq, hs] at hc
  cases hc

theorem RoundTrips.whole (h : RoundTrips eof n) : Reads eof .sequence 0 n.words n :=
  h.fits (r := .sequence) (Nat.zero_le _)

/-- One item, before a comma or a closing sign. -/
theorem RoundTrips.item (h : RoundTrips eof n) (hr : Separated rest) (o : Nat) :
    read eof .sequence (placed o (n.words ++ rest)) = .found n (placed (after o n.words) rest) :=
  h.whole o rest hr.stops

theorem moreItems_read {s : Symbol} (hs : (Token.symbol s).closes = true)
    (h : ∀ n ∈ ns, RoundTrips eof n) (o : Nat) (rest : List Word) :
    read eof .moreItems (placed o (wordsOfMore ns ++ symbol s :: rest)) =
      .found ns (placed (after o (wordsOfMore ns)) (symbol s :: rest)) := by
  induction ns generalizing o with
  | nil =>
    rw [read_eq]
    exact eat_false (ne_comma_of_closes hs rest) _ _ o
  | cons n ns ih =>
    obtain ⟨hn, hns⟩ := List.forall_mem_cons.mp h
    have hsep := separated_more ns (separated_closing hs rest)
    rw [read_eq, wordsOfMore, List.cons_append, List.append_assoc]
    refine (eat_true .comma _ _ o _).trans ?_
    refine (bind_found (hn.item hsep _)).trans ?_
    refine (bind_found (ih hns _)).trans ?_
    rw [← after_append, ← after_append]
    rfl

theorem enclosed_read {s s' : Symbol} (hs : (Token.symbol s').closes = true)
    (h : ∀ n ∈ ns, RoundTrips eof n) (o : Nat) (rest : List Word) :
    enclosed eof (read eof) s s' (placed o (symbol s :: (wordsOfAll ns ++ symbol s' :: rest))) =
      .found ns (placed (after o (symbol s :: (wordsOfAll ns ++ [symbol s']))) rest) := by
  refine (expect_symbol s _ o _).trans ?_
  cases ns with
  | nil => exact eat_true s' _ _ _ rest
  | cons n ns =>
    obtain ⟨hn, hns⟩ := List.forall_mem_cons.mp h
    have hsep := separated_more ns (separated_closing hs rest)
    simp only [wordsOfAll, List.append_assoc]
    refine (eat_false (hn.ne_closing hs _) _ _ _).trans ?_
    refine (bind_found (hn.item hsep _)).trans ?_
    refine (bind_found (moreItems_read hs hns _ rest)).trans ?_
    refine (expect_symbol s' _ _ rest).trans ?_
    rw [← after_append, ← after_append, ← after_append]
    rfl

theorem arguments_read (h : ∀ n ∈ ns, RoundTrips eof n) (o : Nat) (rest : List Word) :
    read eof .arguments (placed o (enclose (wordsOfAll ns) ++ rest)) =
      .found ns (placed (after o (enclose (wordsOfAll ns))) rest) := by
  rw [read_eq, enclose_append]
  exact enclosed_read rfl h o rest

theorem calls_read {cs : List (List Node)} (h : ∀ c ∈ cs, ∀ n ∈ c, RoundTrips eof n) :
    Reads eof .calls 12 (wordsOfCalls cs) cs := by
  intro o rest hr
  induction cs generalizing o with
  | nil => exact calls_stop hr o
  | cons c cs ih =>
    obtain ⟨hc, hcs⟩ := List.forall_mem_cons.mp h
    rw [read_eq, wordsOfCalls, List.append_assoc]
    refine (at_true .lParen _ _ o _).trans ?_
    refine (bind_found (arguments_read hc o _)).trans ?_
    refine (bind_found (ih hcs _)).trans ?_
    rw [← after_append]
    rfl

/-! ## Members and entries -/

theorem here_symbol (s : Symbol) (f : Span → Reader α) (o : Nat) (rest : List Word) :
    (here eof >>= f) (placed o (symbol s :: rest)) =
      f ⟨o, (symbol s).stop o⟩ (placed o (symbol s :: rest)) := rfl

theorem moreMembers_read (h : ∀ n ∈ ns, RoundTrips eof n) (opening : Span) (o : Nat)
    (rest : List Word) :
    read eof (.moreMembers opening) (placed o (wordsOfMore ns ++ symbol .rBrace :: rest)) =
      .found ns (placed (after o (wordsOfMore ns)) (symbol .rBrace :: rest)) := by
  induction ns generalizing o with
  | nil =>
    rw [read_eq]
    exact eat_false (ne_comma_of_closes rfl rest) _ _ o
  | cons n ns ih =>
    obtain ⟨hn, hns⟩ := List.forall_mem_cons.mp h
    have hsep := separated_more ns (separated_closing (s := .rBrace) rfl rest)
    rw [read_eq, wordsOfMore, List.cons_append, List.append_assoc]
    refine (eat_true .comma _ _ o _).trans ?_
    refine (bind_found (hn.item hsep _)).trans ?_
    refine (at_false hsep.ne_colon _ _ _).trans ?_
    refine (bind_found (ih hns _)).trans ?_
    rw [← after_append, ← after_append]
    rfl

theorem moreEntries_read {es : List (Node × Node)}
    (h : ∀ e ∈ es, RoundTrips eof e.1 ∧ RoundTrips eof e.2) (opening : Span) (o : Nat)
    (rest : List Word) :
    read eof (.moreEntries opening)
        (placed o (wordsOfMoreEntries es ++ symbol .rBrace :: rest)) =
      .found es (placed (after o (wordsOfMoreEntries es)) (symbol .rBrace :: rest)) := by
  induction es generalizing o with
  | nil =>
    rw [read_eq]
    exact eat_false (ne_comma_of_closes rfl rest) _ _ o
  | cons e es ih =>
    obtain ⟨k, v⟩ := e
    obtain ⟨⟨hk, hv⟩, hes⟩ := List.forall_mem_cons.mp h
    have hsep := separated_moreEntries es (separated_closing (s := .rBrace) rfl rest)
    rw [read_eq]
    simp only [wordsOfMoreEntries, List.cons_append, List.append_assoc]
    refine (eat_true .comma _ _ o _).trans ?_
    refine (bind_found (hk.whole _ _ (stops_symbol rfl _))).trans ?_
    refine (eat_true .colon _ _ _ _).trans ?_
    refine (bind_found (hv.item hsep _)).trans ?_
    refine (bind_found (ih hes _)).trans ?_
    simp only [← after_append, List.append_assoc]
    rfl

theorem setOrMap_set (h : ∀ n ∈ ns, RoundTrips eof n) (o : Nat) (rest : List Word) :
    setOrMap eof (read eof)
        (placed o (symbol .lBrace :: (wordsOfAll ns ++ symbol .rBrace :: rest))) =
      .found (.set ns)
        (placed (after o (symbol .lBrace :: (wordsOfAll ns ++ [symbol .rBrace]))) rest) := by
  refine (here_symbol .lBrace _ o _).trans ?_
  refine (expect_symbol .lBrace _ o _).trans ?_
  cases ns with
  | nil => exact eat_true .rBrace _ _ _ rest
  | cons n ns =>
    obtain ⟨hn, hns⟩ := List.forall_mem_cons.mp h
    have hsep := separated_more ns (separated_closing (s := .rBrace) rfl rest)
    simp only [wordsOfAll, List.append_assoc]
    refine (eat_false (hn.ne_closing rfl _) _ _ _).trans ?_
    refine (bind_found (hn.item hsep _)).trans ?_
    refine (eat_false hsep.ne_colon _ _ _).trans ?_
    refine (bind_found (moreMembers_read hns _ _ rest)).trans ?_
    refine (expect_symbol .rBrace _ _ rest).trans ?_
    rw [← after_append, ← after_append, ← after_append]
    rfl

theorem setOrMap_map {k v : Node} {es : List (Node × Node)} (hk : RoundTrips eof k)
    (hv : RoundTrips eof v) (h : ∀ e ∈ es, RoundTrips eof e.1 ∧ RoundTrips eof e.2) (o : Nat)
    (rest : List Word) :
    setOrMap eof (read eof)
        (placed o (symbol .lBrace :: (wordsOfEntries ((k, v) :: es) ++ symbol .rBrace :: rest))) =
      .found (.map ((k, v) :: es))
        (placed (after o
          (symbol .lBrace :: (wordsOfEntries ((k, v) :: es) ++ [symbol .rBrace]))) rest) := by
  have hsep := separated_moreEntries es (separated_closing (s := .rBrace) rfl rest)
  refine (here_symbol .lBrace _ o _).trans ?_
  refine (expect_symbol .lBrace _ o _).trans ?_
  simp only [wordsOfEntries, List.cons_append, List.append_assoc]
  refine (eat_false (hk.ne_closing rfl _) _ _ _).trans ?_
  refine (bind_found (hk.whole _ _ (stops_symbol rfl _))).trans ?_
  refine (eat_true .colon _ _ _ _).trans ?_
  refine (bind_found (hv.item hsep _)).trans ?_
  refine (bind_found (moreEntries_read h _ _ rest)).trans ?_
  refine (expect_symbol .rBrace _ _ rest).trans ?_
  simp only [← after_append, List.append_assoc]
  rfl

/-! ## Steps -/

/-- What is read from the words of a step is the step. -/
def StepRoundTrips (eof : Span) : Step → Prop
  | .mk (.field _) args => ∀ ns ∈ args, ∀ n ∈ ns, RoundTrips eof n
  | .mk (.index i) args => RoundTrips eof i ∧ ∀ ns ∈ args, ∀ n ∈ ns, RoundTrips eof n

theorem stops_steps {steps : List Step} (hr : Stops 11 rest) :
    headToken? (wordsOfSteps steps ++ rest) ≠ some (.symbol .lParen) := by
  match steps with
  | [] => exact hr.ne rfl (by decide)
  | .mk (.field _) _ :: _ => exact headToken?_ne (by decide) _
  | .mk (.index _) _ :: _ => exact headToken?_ne (by decide) _

theorem stepsAfter_read {selector : Selector} {args : Option (List Node)} {steps : List Step}
    (hargs : ∀ ns ∈ args, ∀ n ∈ ns, RoundTrips eof n) (hr : Stops 11 rest)
    (hsteps : ∀ o, read eof .steps (placed o (wordsOfSteps steps ++ rest)) =
      .found steps (placed (after o (wordsOfSteps steps)) rest)) (o : Nat) :
    stepsAfter (read eof) selector
        (placed o (wordsOfArgs args ++ (wordsOfSteps steps ++ rest))) =
      .found (.mk selector args :: steps)
        (placed (after (after o (wordsOfArgs args)) (wordsOfSteps steps)) rest) := by
  cases args with
  | none =>
    refine (at_false (stops_steps hr) _ _ o).trans ?_
    exact bind_found (hsteps o)
  | some ns =>
    refine (at_true .lParen _ _ o _).trans ?_
    have hread : (some <$> read eof .arguments : Reader (Option (List Node)))
        (placed o (enclose (wordsOfAll ns) ++ (wordsOfSteps steps ++ rest))) =
          .found (some ns) (placed (after o (enclose (wordsOfAll ns)))
            (wordsOfSteps steps ++ rest)) :=
      bind_found (arguments_read (hargs ns rfl) o _)
    refine (bind_found hread).trans ?_
    exact bind_found (hsteps _)

theorem steps_read {steps : List Step} (h : ∀ s ∈ steps, StepRoundTrips eof s) :
    Reads eof .steps 11 (wordsOfSteps steps) steps := by
  intro o rest hr
  induction steps generalizing o with
  | nil => exact steps_stop hr o
  | cons s steps ih =>
    obtain ⟨hs, hsteps⟩ := List.forall_mem_cons.mp h
    have ih := ih hsteps
    rw [read_eq]
    match s, hs with
    | .mk (.field f) args, hargs =>
      simp only [wordsOfSteps, wordsOfStep, wordsOfSelector, List.append_assoc, List.cons_append,
        List.nil_append]
      refine (eat_true .dot _ _ o _).trans ?_
      refine (expectName_name f _ _ _).trans ?_
      refine (stepsAfter_read hargs hr ih _).trans ?_
      simp only [← after_append, List.append_assoc]
      rfl
    | .mk (.index i) args, ⟨hi, hargs⟩ =>
      simp only [wordsOfSteps, wordsOfStep, wordsOfSelector, List.append_assoc, List.cons_append,
        List.nil_append]
      refine (eat_false (headToken?_ne (by decide) _) _ _ o).trans ?_
      refine (eat_true .lBracket _ _ o _).trans ?_
      refine (bind_found (hi.whole _ _ (stops_symbol rfl _))).trans ?_
      refine (expect_symbol .rBracket _ _ _).trans ?_
      refine (stepsAfter_read hargs hr ih _).trans ?_
      simp only [← after_append, List.append_assoc]
      rfl

/-! ## Names and calls -/

/-- A name before neither an argument list nor a colon that touches it. -/
theorem nameOrCall_name {call : {α : Type} → Phrase α → Reader α} {name : String} {span : Span}
    {ls : List Lexeme} (hp : ∀ l ls', ls = l :: ls' → l.token ≠ .symbol .lParen)
    (hc : ∀ l ls', ls = l :: ls' → l.span.start ≠ span.stop) :
    nameOrCall eof call (⟨.name name, span⟩ :: ls) = .found (.name name) ls := by
  unfold nameOrCall
  dsimp only
  split
  · exact absurd rfl (hp _ _ rfl)
  · rw [if_neg fun h => hc _ _ rfl h.1]
  · rfl

theorem placed_head {l : Lexeme} {ls : List Lexeme} (h : placed o rest = l :: ls) :
    headToken? rest = some l.token ∧ l.span.start = o := by
  cases rest with
  | nil => cases h
  | cons w rest => cases w <;> cases h <;> exact ⟨rfl, rfl⟩

theorem name_fits (name : String) : Fits eof .primary [Word.name name] (.name name) := by
  intro o rest hr
  have hread : nameOrCall eof (read eof) (placed o (Word.name name :: rest)) =
      .found (.name name) (placed (after o [Word.name name]) rest) := by
    refine nameOrCall_name (fun l ls h heq => ?_) fun l ls h => ?_
    · obtain ⟨ht, -⟩ := placed_head h
      exact hr.ne rfl (Nat.le_refl 12) (heq ▸ ht)
    -- The next word starts one byte after the name at the earliest.
    · obtain ⟨-, hs⟩ := placed_head h
      exact Nat.ne_of_gt (hs ▸ Nat.lt_succ_self _)
  exact (read_eq .primary _).trans hread

theorem call_fits {ns name : String} {cs : List (List Node)} (hne : cs ≠ [])
    (h : ∀ c ∈ cs, ∀ n ∈ c, RoundTrips eof n) :
    Fits eof .primary (Node.call ns name cs).words (.call ns name cs) := by
  intro o rest hr
  have hcalls := fun o => calls_read h o rest hr
  match cs, hne with
  | c :: cs, _ =>
    rw [Node.words]
    split
    · rename_i hns
      rw [show ns = "" from String.isEmpty_iff.mp hns]
      exact (read_eq .primary _).trans (bind_found (hcalls _))
    · refine (read_eq .primary _).trans ?_
      refine (if_pos ⟨rfl, rfl⟩).trans ?_
      exact bind_found (hcalls _)

/-! ## Lambdas -/

theorem moreParams_read (ps : List String) (o : Nat) (rest : List Word) :
    moreParams eof (placed o (Word.moreParams ps ++ symbol .rParen :: rest)) =
      .found ps (placed (after o (Word.moreParams ps)) (symbol .rParen :: rest)) := by
  induction ps generalizing o with
  | nil => rfl
  | cons p ps ih =>
    have ih := ih (after o [symbol .comma, Word.name p])
    exact (moreParams_cons _ _ _ _).trans (bind_found ih)

theorem lambdaHeader_read (ps : List String) (o : Nat) (rest : List Word) :
    lambdaHeader eof (placed o (header ps ++ rest)) =
      .found ps (placed (after o (header ps)) rest) := by
  match ps with
  | [] => rfl
  | [p] =>
    refine (eat_false (headToken?_name_ne p _ _) _ _ o).trans ?_
    rfl
  | p :: q :: ps =>
    simp only [header, List.cons_append, List.append_assoc, List.nil_append]
    refine (eat_true .lParen _ _ o _).trans ?_
    refine (eat_false (headToken?_name_ne p _ _) _ _ _).trans ?_
    refine (expectName_name p _ _ _).trans ?_
    refine (bind_found (moreParams_read (q :: ps) _ _)).trans ?_
    refine (expect_symbol .rParen _ _ _).trans ?_
    refine (@expect_symbol _ eof .arrow _ _ rest).trans ?_
    simp only [← after_append, List.append_assoc]
    rfl

/-- The body of a lambda is a lambda without parentheses or a choice. -/
theorem lambdaBody_read {body : Node} (hb : RoundTrips eof body) {rest : List Word}
    (hr : Stops 2 rest) (o : Nat) :
    lambdaBody (read eof) (placed o (Word.fit body.bodyPlace body body.words ++ rest)) =
      .found body (placed (after o (Word.fit body.bodyPlace body body.words)) rest) := by
  cases harrow : body.isArrow with
  | true =>
    have hfit : Word.fit body.bodyPlace body body.words = body.words := by
      unfold Node.isArrow at harrow
      split at harrow
      · rfl
      · cases harrow
    rw [hfit, lambdaBody, if_pos (lambdaAhead_words harrow o rest)]
    exact hb.arrow harrow o rest hr
  | false =>
    have hplace : body.bodyPlace = .choice := by
      rw [Node.bodyPlace, harrow, if_neg Bool.false_ne_true]
    have hcalm : Calm (Word.fit .choice body body.words) :=
      (body.words_quiet hb.wellFormed).fit_calm (Nat.le_refl 2)
    have hahead := hcalm o rest (hr.ne rfl (by decide))
    rw [hplace, lambdaBody, if_neg (Bool.eq_false_iff.mp hahead)]
    exact hb.fit .choice o rest hr

theorem arrow_read {params : List String} {body : Node} (hb : RoundTrips eof body) :
    Reads eof .lambda 2 (Node.lambda params body []).words (.lambda params body []) := by
  intro o rest hr
  rw [read_eq, Node.words, List.append_assoc]
  refine (bind_found (lambdaHeader_read params o _)).trans ?_
  refine (bind_found (lambdaBody_read hb hr _)).trans ?_
  rw [← after_append]
  rfl

theorem arrow_fits {params : List String} {body : Node} (hb : RoundTrips eof body) :
    Fits eof .assignment (Node.lambda params body []).words (.lambda params body []) := by
  intro o rest hr
  refine (read_eq .assignment _).trans ?_
  refine (if_pos (lambdaAhead_words rfl o rest)).trans ?_
  exact arrow_read hb o rest (hr.mono (by decide))

theorem calledLambda_fits {params : List String} {body : Node} {c : List Node}
    {cs : List (List Node)} (hb : RoundTrips eof body)
    (h : ∀ c' ∈ c :: cs, ∀ n ∈ c', RoundTrips eof n) :
    Fits eof .primary (Node.lambda params body (c :: cs)).words
      (.lambda params body (c :: cs)) := by
  intro o rest hr
  have hahead := lambdaAhead_words (n := .lambda params body []) rfl (after o [symbol .lParen])
    (symbol .rParen :: (wordsOfCalls (c :: cs) ++ rest))
  have harrow : Reads eof .lambda 2 (Node.lambda params body []).words (.lambda params body []) :=
    arrow_read hb
  have hread := enclosedLambda_read (o := o) harrow (calls_read h _ rest hr)
  have hw : (Node.lambda params body (c :: cs)).words =
      enclose (Node.lambda params body []).words ++ wordsOfCalls (c :: cs) := rfl
  rw [hw, after_append, List.append_assoc]
  rw [enclose_append] at hread ⊢
  refine (primary_lParen o _).trans ?_
  rw [if_pos hahead]
  exact hread

/-! ## Operators -/

theorem unaryOperator?_word (op : UnaryOp) : unaryOperator? op.word.lead = some op := by
  cases op <;> rfl

theorem operator?_word {op : BinaryOp} {level : Level} (h : op.level? = some level) :
    level.operator? op.word.lead = some op := by
  cases op <;> cases h <;> rfl

theorem placed_binaryOp (op : BinaryOp) (o : Nat) (rest : List Word) :
    skip (placed o (op.word :: rest)) = .found () (placed (after o [op.word]) rest) := by
  cases op <;> rfl

theorem placed_unaryOp (op : UnaryOp) (o : Nat) (rest : List Word) :
    skip (placed o (op.word :: rest)) = .found () (placed (after o [op.word]) rest) := by
  cases op <;> rfl

theorem unary_fits (op : UnaryOp) (ha : RoundTrips eof a) :
    Fits eof .unary (Node.unary op a).words (.unary op a) := by
  intro o rest hr
  refine (read_eq .unary _).trans ?_
  refine (bind_found (peek_placed o _)).trans ?_
  have hop : (headToken? ((Node.unary op a).words ++ rest)).bind unaryOperator? = some op :=
    unaryOperator?_word op
  rw [hop]
  refine (bind_found (placed_unaryOp op o _)).trans ?_
  exact bind_found (ha.fit .unary _ rest hr)

/-- An operator that groups to the left, and its second operand. -/
theorem binary_tail {op : BinaryOp} {level : Level} (hop : op.level? = some level)
    (ha : RoundTrips eof a) (hb : RoundTrips eof b) :
    Tail eof level (Node.binary op a b).words (.binary op a b) := by
  intro o rest hr
  have hplaces : op.places = (.binary level, level.tighter) := by rw [BinaryOp.places, hop]
  have hstops : Stops (level.height + 1)
      (op.word :: (Word.fit level.tighter b b.words ++ rest)) := by
    refine stops_cons (fun k hk => ?_) _
    cases (operator?_joins (operator?_word hop)).symm.trans hk
    exact Nat.lt_succ_self _
  have hright := hb.fit level.tighter
  rw [Fits, Rung.height_tighter, Rung.phrase_tighter] at hright
  rw [Node.words, hplaces, List.append_assoc, List.cons_append]
  refine (ha.tail level o _ hstops).trans ?_
  -- The operators of the first operand are read; this one is the next.
  refine (read_eq (.binaryTail level a) _).trans ?_
  refine (bind_found (peek_placed _ _)).trans ?_
  have hpeek : (headToken? (op.word :: (Word.fit level.tighter b b.words ++ rest))).bind
      level.operator? = some op := operator?_word hop
  rw [hpeek]
  refine (bind_found (placed_binaryOp op _ _)).trans ?_
  refine (bind_found (hright _ rest hr)).trans ?_
  simp only [← after_append, List.append_assoc]
  rfl

theorem elvis_fits (ha : RoundTrips eof a) (hb : RoundTrips eof b) :
    Fits eof .choice (Node.binary .elvis a b).words (.binary .elvis a b) := by
  intro o rest hr
  rw [Node.words, List.append_assoc]
  refine (read_eq .choice _).trans ?_
  refine (bind_found (ha.fit (.binary .or) o _ (stops_symbol rfl _))).trans ?_
  refine (eat_false (headToken?_ne (by decide) _) _ _ _).trans ?_
  refine (eat_true .elvis _ _ _ _).trans ?_
  refine (bind_found (hb.fit .choice _ rest hr)).trans ?_
  simp only [← after_append, List.append_assoc]
  rfl

theorem coalesce_fits (ha : RoundTrips eof a) (hb : RoundTrips eof b) :
    Fits eof .choice (Node.binary .coalesce a b).words (.binary .coalesce a b) := by
  intro o rest hr
  rw [Node.words, List.append_assoc]
  refine (read_eq .choice _).trans ?_
  refine (bind_found (ha.fit (.binary .or) o _ (stops_symbol rfl _))).trans ?_
  refine (eat_false (headToken?_ne (by decide) _) _ _ _).trans ?_
  refine (eat_false (headToken?_ne (by decide) _) _ _ _).trans ?_
  refine (eat_true .questionQuestion _ _ _ _).trans ?_
  refine (bind_found (hb.fit .choice _ rest hr)).trans ?_
  simp only [← after_append, List.append_assoc]
  rfl

theorem binary_grows (op : BinaryOp) (ha : RoundTrips eof a) (hb : RoundTrips eof b) :
    Grows eof op.rung (Node.binary op a b).words (.binary op a b) := by
  cases hop : op.level? with
  | some level =>
    rw [BinaryOp.rung, hop]
    exact binary_tail hop ha hb
  | none =>
    cases op with
    | elvis => exact elvis_fits ha hb
    | coalesce => exact coalesce_fits ha hb
    | _ => cases hop

theorem choice_fits {c : Node} (hc : RoundTrips eof c) (ha : RoundTrips eof a)
    (hb : RoundTrips eof b) : Fits eof .choice (Node.choice c a b).words (.choice c a b) := by
  intro o rest hr
  simp only [Node.words, List.append_assoc, List.cons_append]
  refine (read_eq .choice _).trans ?_
  refine (bind_found (hc.fit (.binary .or) o _ (stops_symbol rfl _))).trans ?_
  refine (eat_true .question _ _ _ _).trans ?_
  refine (bind_found (ha.fit .choice _ _ (stops_symbol rfl _))).trans ?_
  refine (expect_symbol .colon _ _ _).trans ?_
  refine (bind_found (hb.fit .choice _ rest hr)).trans ?_
  simp only [← after_append, List.append_assoc]
  rfl

theorem assign_fits (hn : (Node.assign a b).WellFormed) (ha : RoundTrips eof a)
    (hb : RoundTrips eof b) : Fits eof .assignment (Node.assign a b).words (.assign a b) := by
  intro o rest hr
  have hahead := ((Node.assign a b).words_quiet hn).calm rfl o rest (hr.ne rfl (by decide))
  refine (read_eq .assignment _).trans ?_
  refine (if_neg (Bool.eq_false_iff.mp hahead)).trans ?_
  rw [Node.words, List.append_assoc, List.cons_append]
  refine (bind_found (ha.fit .choice o _ (stops_symbol rfl _))).trans ?_
  refine (eat_true .eq _ _ _ _).trans ?_
  refine (bind_found (hb.fit .assignment _ rest hr)).trans ?_
  simp only [← after_append, List.append_assoc]
  rfl

/-- The first part of a sequence. -/
theorem RoundTrips.first (ha : RoundTrips eof a) :
    SequenceTail eof (if a.isArrow then enclose a.words else a.words) a := by
  split
  · rename_i harrow
    have hr : a.rung.height < Rung.primary.height := by
      unfold Node.isArrow at harrow
      split at harrow
      · exact Nat.succ_lt_succ (Nat.zero_lt_succ 10)
      · cases harrow
    have hf : Fits eof .assignment (enclose a.words) a :=
      ha.enclosed.mono (ha.begins_enclose hr) (by decide)
    exact sequenceTail_of_assignment hf
  · by_cases hs : a.rung = .sequence
    · have hg := ha.grows
      rw [hs] at hg
      exact hg
    · have hpos : Rung.assignment.height ≤ a.rung.height := by
        refine Nat.pos_of_ne_zero fun h => hs (Rung.height_injective h)
      exact sequenceTail_of_assignment (ha.fits hpos)

theorem sequence_grows (ha : RoundTrips eof a) (hb : RoundTrips eof b) :
    SequenceTail eof (Node.sequence a b).words (.sequence a b) := by
  intro o rest hr
  rw [Node.words, List.append_assoc, List.cons_append]
  refine (ha.first o _ (stops_symbol rfl _)).trans ?_
  refine (read_eq (.sequenceTail a) _).trans ?_
  refine (eat_true .semi _ _ _ _).trans ?_
  refine (bind_found (hb.fit .assignment _ rest hr)).trans ?_
  simp only [← after_append, List.append_assoc]
  rfl

/-! ## Primaries and paths -/

theorem list_fits (h : ∀ n ∈ ns, RoundTrips eof n) :
    Fits eof .primary (Node.list ns).words (.list ns) := by
  intro o rest _
  simp only [Node.words, List.append_assoc, List.cons_append, List.nil_append]
  exact (read_eq .primary _).trans (bind_found (enclosed_read rfl h o rest))

theorem set_fits (h : ∀ n ∈ ns, RoundTrips eof n) :
    Fits eof .primary (Node.set ns).words (.set ns) := by
  intro o rest _
  simp only [Node.words, List.append_assoc, List.cons_append, List.nil_append]
  exact (read_eq .primary _).trans (setOrMap_set h o rest)

theorem map_fits {es : List (Node × Node)} (hne : es ≠ [])
    (h : ∀ e ∈ es, RoundTrips eof e.1 ∧ RoundTrips eof e.2) :
    Fits eof .primary (Node.map es).words (.map es) := by
  intro o rest _
  match es, hne with
  | (k, v) :: es, _ =>
    obtain ⟨⟨hk, hv⟩, hes⟩ := List.forall_mem_cons.mp h
    rw [Node.words, List.cons_append, List.append_assoc]
    exact (read_eq .primary _).trans (setOrMap_map hk hv hes o rest)

theorem path_fits {base : Node} {steps : List Step} (hne : steps ≠ [])
    (hb : RoundTrips eof base) (h : ∀ s ∈ steps, StepRoundTrips eof s) :
    Fits eof .value (Node.path base steps).words (.path base steps) := by
  intro o rest hr
  have hstops : Stops 12 (wordsOfSteps steps ++ rest) := by
    match steps, hne with
    | .mk (.field _) _ :: _, _ => exact stops_symbol rfl _
    | .mk (.index _) _ :: _, _ => exact stops_symbol rfl _
  rw [Node.words, List.append_assoc]
  refine (read_eq .value _).trans ?_
  refine (bind_found (hb.fit .primary o _ hstops)).trans ?_
  refine (bind_found (steps_read h _ rest hr)).trans ?_
  match steps, hne with
  | s :: ss, _ =>
    rw [← after_append]
    rfl

/-! ## All trees -/

/-- A tree that is no lambda by itself. -/
theorem RoundTrips.of_grows (hn : n.WellFormed) (harrow : n.isArrow = false)
    (hg : Grows eof n.rung n.words n) : RoundTrips eof n :=
  ⟨hn, hg, fun h => absurd h (Bool.eq_false_iff.mp harrow)⟩

/-- A literal is one token. -/
theorem RoundTrips.of_token {t : Token} (hn : n.WellFormed) (hw : n.words = [token t])
    (hrung : n.rung = .primary) (harrow : n.isArrow = false)
    (hread : ∀ span ls, primary eof (read eof) (⟨t, span⟩ :: ls) = .found n ls) :
    RoundTrips eof n := by
  refine .of_grows hn harrow ?_
  rw [hrung, hw]
  exact fun o rest _ => (read_eq .primary _).trans (hread _ _)

mutual

theorem roundTrips (eof : Span) : (n : Node) → n.WellFormed → RoundTrips eof n
  | .null, h => .of_token h rfl rfl rfl fun _ _ => rfl
  | .boolean true, h => .of_token h rfl rfl rfl fun _ _ => rfl
  | .boolean false, h => .of_token h rfl rfl rfl fun _ _ => rfl
  | .integer _, h => .of_token h rfl rfl rfl fun _ _ => rfl
  | .floating _, h => .of_token h rfl rfl rfl fun _ _ => rfl
  | .text _, h => .of_token h rfl rfl rfl fun _ _ => rfl
  | .name s, h => .of_grows h rfl (name_fits s)
  | .path base steps, h =>
    .of_grows h rfl (path_fits h.2.1 (roundTrips eof base h.1) (roundTripsSteps eof steps h.2.2))
  | .call _ _ calls, h => .of_grows h rfl (call_fits h.2.2.1 (roundTripsCalls eof calls h.2.2.2))
  | .lambda _ body [], h =>
    have hb := roundTrips eof body h.2.1
    ⟨h, arrow_fits hb, fun _ => arrow_read hb⟩
  | .lambda _ body (c :: cs), h =>
    .of_grows h rfl
      (calledLambda_fits (roundTrips eof body h.2.1) (roundTripsCalls eof (c :: cs) h.2.2))
  | .unary op a, h => .of_grows h rfl (unary_fits op (roundTrips eof a h))
  | .binary op a b, h =>
    .of_grows h rfl (binary_grows op (roundTrips eof a h.1) (roundTrips eof b h.2))
  | .choice c a b, h =>
    .of_grows h rfl
      (choice_fits (roundTrips eof c h.1) (roundTrips eof a h.2.1) (roundTrips eof b h.2.2))
  | .assign a b, h =>
    .of_grows h rfl (assign_fits h (roundTrips eof a h.1) (roundTrips eof b h.2))
  | .sequence a b, h =>
    .of_grows h rfl (sequence_grows (roundTrips eof a h.1) (roundTrips eof b h.2))
  | .list items, h => .of_grows h rfl (list_fits (roundTripsAll eof items h))
  | .set items, h => .of_grows h rfl (set_fits (roundTripsAll eof items h))
  | .map entries, h => .of_grows h rfl (map_fits h.1 (roundTripsEntries eof entries h.2))
  | .plain _, h => h.elim
  | .template _, h => h.elim
  | .deferred _, h => h.elim
  | .dynamic _, h => h.elim

theorem roundTripsAll (eof : Span) :
    (ns : List Node) → WellFormedAll ns → ∀ n ∈ ns, RoundTrips eof n
  | [], _ => fun _ hn => nomatch hn
  | n :: ns, h => List.forall_mem_cons.mpr ⟨roundTrips eof n h.1, roundTripsAll eof ns h.2⟩

theorem roundTripsCalls (eof : Span) :
    (cs : List (List Node)) → WellFormedCalls cs → ∀ c ∈ cs, ∀ n ∈ c, RoundTrips eof n
  | [], _ => fun _ hc => nomatch hc
  | c :: cs, h => List.forall_mem_cons.mpr ⟨roundTripsAll eof c h.1, roundTripsCalls eof cs h.2⟩

theorem roundTripsEntries (eof : Span) :
    (es : List (Node × Node)) → WellFormedEntries es →
      ∀ e ∈ es, RoundTrips eof e.1 ∧ RoundTrips eof e.2
  | [], _ => fun _ he => nomatch he
  | (k, v) :: es, h =>
    List.forall_mem_cons.mpr
      ⟨⟨roundTrips eof k h.1, roundTrips eof v h.2.1⟩, roundTripsEntries eof es h.2.2⟩

theorem roundTripsSteps (eof : Span) :
    (ss : List Step) → WellFormedSteps ss → ∀ s ∈ ss, StepRoundTrips eof s
  | [], _ => fun _ hs => nomatch hs
  | s :: ss, h => List.forall_mem_cons.mpr ⟨roundTripsStep eof s h.1, roundTripsSteps eof ss h.2⟩

theorem roundTripsStep (eof : Span) : (s : Step) → WellFormedStep s → StepRoundTrips eof s
  | .mk (.field _) args, h => roundTripsArgs eof args h.2
  | .mk (.index i) args, h => ⟨roundTrips eof i h.1, roundTripsArgs eof args h.2⟩

theorem roundTripsArgs (eof : Span) :
    (args : Option (List Node)) → WellFormedArgs args → ∀ ns ∈ args, ∀ n ∈ ns, RoundTrips eof n
  | none, _ => fun _ hns => nomatch hns
  | some ns, h => fun _ hns => Option.some.inj hns ▸ roundTripsAll eof ns h

end

end ExprLang.Parser

namespace ExprLang

open ExprLang.Parser Word

/-- Every tree that the grammar can produce is parsed from what it is printed as. -/
theorem parseExpression_print {n : Node} (h : n.WellFormed) : parseExpression n.print = .ok n := by
  rw [parseExpression, tokenize_print h]
  refine parseTokens_found ?_
  have hread := (roundTrips (.point n.print.utf8ByteSize) n h).whole 0 [] nofun
  rw [List.append_nil] at hread
  exact hread

/-- Printing the tree of any text gives a text with the same tree. -/
theorem parse_print_parse {text : String} {n : Node} (h : parseExpression text = .ok n) :
    parseExpression n.print = .ok n :=
  parseExpression_print (parseExpression_wellFormed h)

/-- A lambda before a semicolon, and a difference with another one on its right. -/
def lambdaThenDifference : Node :=
  .sequence (.lambda ["x", "y"] (.text "it's") [])
    (.binary .sub (.call "f" "g" [[]]) (.binary .sub (.name "a") (.floating ".5")))

theorem parse_lambdaThenDifference :
    parseExpression "(x,y)->'it\\'s';(f:g()-(a-.5))" = .ok lambdaThenDifference :=
  parseExpression_of_toOption (by decide +kernel)

theorem print_lambdaThenDifference :
    lambdaThenDifference.print = "( ( x , y ) -> 'it\\'s' ) ; f:g ( ) - ( a - .5 )" := rfl

theorem parse_print_lambdaThenDifference :
    parseExpression "(x,y)->'it\\'s';(f:g()-(a-.5))" = .ok lambdaThenDifference ∧
      parseExpression "( ( x , y ) -> 'it\\'s' ) ; f:g ( ) - ( a - .5 )" =
        .ok lambdaThenDifference := by
  refine ⟨parse_lambdaThenDifference, ?_⟩
  rw [← print_lambdaThenDifference]
  exact parse_print_parse parse_lambdaThenDifference

end ExprLang
