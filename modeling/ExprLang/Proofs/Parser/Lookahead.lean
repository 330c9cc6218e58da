import ExprLang.Proofs.Parser.WellFormed

/-! How the words of a tree begin: never with a closing sign, and like a lambda only for a lambda.
So the grammar takes the right branch wherever it looks ahead. -/

namespace ExprLang

open ExprLang.Parser

/-- A sign that ends what it stands in. -/
def Token.closes : Token → Bool
  | .symbol .rParen => true
  | .symbol .rBracket => true
  | .symbol .rBrace => true
  | _ => false

namespace Word

/-- The first token of a word. -/
def lead : Word → Token
  | token t => t
  | prefixed ns _ => .name ns

/-- The first token of words. -/
def headToken? (ws : List Word) : Option Token := ws.head?.map lead

/-- The words do not begin like a lambda, unless an arrow follows. -/
def Calm (ws : List Word) : Prop :=
  ∀ o rest, headToken? rest ≠ some (.symbol .arrow) →
    lambdaAhead (placed o (ws ++ rest)) = false

/-- Nor does a parenthesis before the words begin a lambda. -/
def Inside (ws : List Word) : Prop :=
  ∀ o rest, lambdaAhead (placed o (symbol .lParen :: (ws ++ rest))) = false

/-- Nor does it where the next token goes on with neither parameters nor a header. -/
def Firm (ws : List Word) : Prop :=
  ∀ o w rest, w.lead ≠ .symbol .comma → w.lead ≠ .symbol .rParen →
    lambdaAhead (placed o (symbol .lParen :: (ws ++ w :: rest))) = false

variable {o : Nat} {w : Word} {ws more : List Word}

theorem placed_cons (o : Nat) (w : Word) (ws : List Word) :
    ∃ span ls, placed o (w :: ws) = ⟨w.lead, span⟩ :: ls := by
  cases w with
  | token t => exact ⟨_, _, rfl⟩
  | prefixed ns name => exact ⟨_, _, rfl⟩

theorem namesAhead_other {t : Token} (hc : t ≠ .symbol .comma) (hp : t ≠ .symbol .rParen)
    (span : Span) (ls : List Lexeme) : namesAhead (⟨t, span⟩ :: ls) = false := by
  unfold namesAhead
  split
  · rename_i h
    cases h
    exact absurd rfl hc
  · unfold closesHeader
    split
    · rename_i h
      cases h
      exact absurd rfl hp
    · rfl

theorem Inside.firm (h : Inside ws) : Firm ws := fun o w rest _ _ => h o (w :: rest)

theorem Firm.inside (h : Firm ws) (hc : w.lead ≠ .symbol .comma)
    (hp : w.lead ≠ .symbol .rParen) (more : List Word) : Inside (ws ++ w :: more) := by
  intro o rest
  rw [List.append_assoc, List.cons_append]
  exact h o w (more ++ rest) hc hp

theorem Calm.append (h : Calm ws) (hw : w.lead ≠ .symbol .arrow) (more : List Word) :
    Calm (ws ++ w :: more) := by
  intro o rest _
  rw [List.append_assoc, List.cons_append]
  exact h o (w :: (more ++ rest)) fun heq => hw (Option.some.inj heq)

/-- Words in parentheses begin no lambda where the words inside do not. -/
theorem Inside.enclose (h : Inside ws) (more : List Word) : Calm (enclose ws ++ more) := by
  intro o rest _
  have hwords : Word.enclose ws ++ more ++ rest =
      symbol .lParen :: (ws ++ (symbol .rParen :: (more ++ rest))) := by
    simp [Word.enclose]
  rw [hwords]
  exact h o _

theorem inside_lParen (ws : List Word) : Inside (symbol .lParen :: ws) := fun _ _ => rfl

theorem inside_enclose (ws more : List Word) : Inside (enclose ws ++ more) :=
  inside_lParen _

theorem lambdaAhead_name {t : Token} (ht : t ≠ .symbol .arrow) (n : String) (span span' : Span)
    (ls : List Lexeme) : lambdaAhead (⟨.name n, span⟩ :: ⟨t, span'⟩ :: ls) = false := by
  unfold lambdaAhead
  split
  · rename_i h
    cases h
    exact absurd rfl ht
  · rename_i h
    cases h
  · rename_i h
    cases h
  · rfl

theorem calm_name (n : String) : Calm [name n] := by
  intro o rest h
  cases rest with
  | nil => rfl
  | cons w rest =>
    have hw : w.lead ≠ .symbol .arrow := fun heq => h (congrArg some heq)
    obtain ⟨span, ls, hls⟩ := placed_cons ((name n).stop o + 1) w rest
    exact (congrArg (fun ls => lambdaAhead (_ :: ls)) hls).trans
      (lambdaAhead_name hw n _ span ls)

theorem firm_name (n : String) : Firm [name n] := by
  intro o w rest hc hp
  obtain ⟨span, ls, hls⟩ := placed_cons ((name n).stop (o + 2) + 1) w rest
  exact (congrArg namesAhead hls).trans (namesAhead_other hc hp span ls)

theorem inside_header (ps : List String) (more : List Word) : Inside (header ps ++ more) := by
  match ps with
  | [] => exact inside_lParen _
  | [p] => exact (firm_name p).inside (w := symbol .arrow) (by decide) (by decide) more
  | p :: q :: ps => exact inside_lParen _

theorem namesAhead_moreParams (ps : List String) (o : Nat) (rest : List Word) :
    namesAhead (placed o (moreParams ps ++ symbol .rParen :: symbol .arrow :: rest)) = true := by
  induction ps generalizing o with
  | nil => rfl
  | cons p ps ih => exact ih _

/-- A header is seen as one. -/
theorem lambdaAhead_header (ps : List String) (o : Nat) (rest : List Word) :
    lambdaAhead (placed o (header ps ++ rest)) = true := by
  match ps with
  | [] => rfl
  | [p] => rfl
  | p :: q :: ps =>
    have h := namesAhead_moreParams (q :: ps)
    simp only [header, List.cons_append, List.append_assoc, List.nil_append]
    exact h _ rest

end Word

open Word

theorem BinaryOp.word_lead (op : BinaryOp) :
    op.word.lead ≠ .symbol .arrow ∧ op.word.lead ≠ .symbol .comma ∧
      op.word.lead ≠ .symbol .rParen := by
  cases op <;> decide

theorem Rung.height_le (r : Rung) : r.height ≤ 12 := by
  cases r with
  | binary level => cases level <;> decide
  | _ => decide

theorem BinaryOp.place_height (op : BinaryOp) : 2 ≤ op.places.1.height := by
  cases op <;> decide

namespace Node

/-- How the words of a tree begin. -/
structure Quiet (n : Node) : Prop where
  firm : Firm n.words
  inside : (∀ s, n ≠ .name s) → Inside n.words
  calm : n.isArrow = false → Calm n.words

variable {n a : Node} {t : Token} {w : Word} {ws more : List Word} {place : Rung}

/-- A tree in parentheses is not a name. -/
theorem ne_name_of_height_lt (h : a.rung.height < place.height) (s : String) : a ≠ .name s := by
  rintro rfl
  exact absurd h (Nat.not_lt.mpr place.height_le)

theorem isArrow_of_height_ge (h : 2 ≤ a.rung.height) : a.isArrow = false := by
  cases ha : a.isArrow with
  | false => rfl
  | true =>
    unfold isArrow at ha
    split at ha
    · exact absurd h (Nat.not_succ_le_self 1)
    · cases ha

namespace Quiet

theorem fit_firm (h : a.Quiet) (place : Rung) : Firm (fit place a a.words) := by
  unfold fit
  split
  · exact (inside_lParen _).firm
  · exact h.firm

theorem fit_calm (h : a.Quiet) (hp : 2 ≤ place.height) : Calm (fit place a a.words) := by
  unfold fit
  split
  · rename_i hlt
    have hc := (h.inside (ne_name_of_height_lt hlt)).enclose []
    rwa [List.append_nil] at hc
  · exact h.calm (isArrow_of_height_ge (by omega))

/-- The words begin with a tree. -/
theorem of_left (hf : Firm ws) (hc : Calm ws) (hw : n.words = ws ++ w :: more)
    (ha : w.lead ≠ .symbol .arrow ∧ w.lead ≠ .symbol .comma ∧ w.lead ≠ .symbol .rParen) :
    n.Quiet := by
  have hinside : Inside n.words := hw ▸ hf.inside ha.2.1 ha.2.2 more
  exact ⟨hinside.firm, fun _ => hinside, fun _ => hw ▸ hc.append ha.1 more⟩

/-- The words begin with a token that no lambda begins with. -/
theorem of_token
    (ht : ∀ span ls, lambdaAhead (⟨t, span⟩ :: ls) = false)
    (ht' : ∀ span span' ls, lambdaAhead (⟨.symbol .lParen, span⟩ :: ⟨t, span'⟩ :: ls) = false)
    (hw : n.words = token t :: ws) : n.Quiet := by
  have hinside : Inside n.words := hw ▸ fun o rest => ht' _ _ _
  exact ⟨hinside.firm, fun _ => hinside, fun _ => hw ▸ fun o rest _ => ht _ _⟩

theorem of_name (s : String) : Quiet (.name s) :=
  ⟨firm_name s, fun h => absurd rfl (h s), fun _ => calm_name s⟩

theorem of_call (ns f : String) (c : List Node) (cs : List (List Node)) :
    Quiet (.call ns f (c :: cs)) := by
  cases hns : ns.isEmpty with
  | true =>
    have hw : (call ns f (c :: cs)).words = [Word.name f] ++ wordsOfCalls (c :: cs) := by
      rw [words, hns, if_pos rfl]
      rfl
    exact .of_left (firm_name f) (calm_name f) hw (by decide)
  | false =>
    have hw : (call ns f (c :: cs)).words = prefixed ns f :: wordsOfCalls (c :: cs) := by
      rw [words, hns, if_neg Bool.false_ne_true]
    have hinside : Inside (call ns f (c :: cs)).words := hw ▸ fun _ _ => rfl
    exact ⟨hinside.firm, fun _ => hinside, fun _ => hw ▸ fun _ _ _ => rfl⟩

/-- A sequence puts a lambda at its start in parentheses. -/
theorem of_sequence (ha : a.Quiet) (b : Node) : Quiet (.sequence a b) := by
  cases harrow : a.isArrow with
  | true =>
    have hne : ∀ s, a ≠ .name s := by
      rintro s rfl
      cases harrow
    have hc : Calm (enclose a.words) :=
      List.append_nil (enclose a.words) ▸ (ha.inside hne).enclose []
    have hw : (sequence a b).words =
        enclose a.words ++ symbol .semi :: fit .assignment b b.words := by
      rw [words, harrow, if_pos rfl]
    exact .of_left (inside_lParen _).firm hc hw (by decide)
  | false =>
    have hw : (sequence a b).words = a.words ++ symbol .semi :: fit .assignment b b.words := by
      rw [words, harrow, if_neg Bool.false_ne_true]
    exact .of_left ha.firm (ha.calm harrow) hw (by decide)

theorem of_lambda (params : List String) (body : Node) (calls : List (List Node)) :
    Quiet (.lambda params body calls) := by
  cases calls with
  | nil =>
    have hinside := inside_header params (fit body.bodyPlace body body.words)
    exact ⟨hinside.firm, fun _ => hinside, fun h => nomatch h⟩
  | cons c cs =>
    have hinside : Inside (lambda params body (c :: cs)).words := inside_enclose _ _
    exact ⟨hinside.firm, fun _ => hinside, fun _ => (inside_header params _).enclose _⟩

end Quiet

theorem words_quiet : (n : Node) → n.WellFormed → n.Quiet
  | .null, _ => .of_token (fun _ _ => rfl) (fun _ _ _ => rfl) rfl
  | .boolean true, _ => .of_token (fun _ _ => rfl) (fun _ _ _ => rfl) rfl
  | .boolean false, _ => .of_token (fun _ _ => rfl) (fun _ _ _ => rfl) rfl
  | .integer _, _ => .of_token (fun _ _ => rfl) (fun _ _ _ => rfl) rfl
  | .floating _, _ => .of_token (fun _ _ => rfl) (fun _ _ _ => rfl) rfl
  | .text _, _ => .of_token (fun _ _ => rfl) (fun _ _ _ => rfl) rfl
  | .name s, _ => .of_name s
  | .path base [], h => absurd rfl h.2.1
  | .path base (.mk (.field _) _ :: _), h => by
    have hb := base.words_quiet h.1
    exact .of_left (hb.fit_firm .primary) (hb.fit_calm (by decide)) rfl (by decide)
  | .path base (.mk (.index _) _ :: _), h => by
    have hb := base.words_quiet h.1
    exact .of_left (hb.fit_firm .primary) (hb.fit_calm (by decide)) rfl (by decide)
  | .call _ _ [], h => absurd rfl h.2.2.1
  | .call ns f (c :: cs), _ => .of_call ns f c cs
  | .lambda params body calls, _ => .of_lambda params body calls
  | .unary .neg _, _ => .of_token (fun _ _ => rfl) (fun _ _ _ => rfl) rfl
  | .unary .not _, _ => .of_token (fun _ _ => rfl) (fun _ _ _ => rfl) rfl
  | .unary .empty _, _ => .of_token (fun _ _ => rfl) (fun _ _ _ => rfl) rfl
  | .binary op a b, h => by
    have ha := a.words_quiet h.1
    exact .of_left (ha.fit_firm _) (ha.fit_calm op.place_height) rfl op.word_lead
  | .choice c a b, h => by
    have hc := c.words_quiet h.1
    exact .of_left (hc.fit_firm _) (hc.fit_calm (by decide)) rfl (by decide)
  | .assign a b, h => by
    have ha := a.words_quiet h.1
    exact .of_left (ha.fit_firm _) (ha.fit_calm (by decide)) rfl (by decide)
  | .sequence a b, h => .of_sequence (a.words_quiet h.1) b
  | .list _, _ => .of_token (fun _ _ => rfl) (fun _ _ _ => rfl) rfl
  | .set _, _ => .of_token (fun _ _ => rfl) (fun _ _ _ => rfl) rfl
  | .map _, _ => .of_token (fun _ _ => rfl) (fun _ _ _ => rfl) rfl
  | .plain _, h => h.elim
  | .template _, h => h.elim
  | .deferred _, h => h.elim
  | .dynamic _, h => h.elim

/-! ## First words -/

/-- The words begin with a token that is no closing sign, nor an operator with one operand where
the place is tighter than those. -/
def Leads (height : Nat) (ws : List Word) : Prop :=
  ∃ w more, ws = w :: more ∧ w.lead.closes = false ∧
    (11 ≤ height → unaryOperator? w.lead = none)

theorem Leads.append {height height' : Nat} (h : Leads height ws) (hh : 11 ≤ height' → 11 ≤ height)
    (more : List Word) : Leads height' (ws ++ more) := by
  obtain ⟨w, ws', rfl, hc, hu⟩ := h
  exact ⟨w, ws' ++ more, rfl, hc, fun h => hu (hh h)⟩

theorem Leads.fit (h : Leads a.rung.height a.words) (place : Rung) :
    Leads place.height (fit place a a.words) := by
  unfold Word.fit
  split
  · exact ⟨_, _, rfl, rfl, fun _ => rfl⟩
  · obtain ⟨w, ws, hw, hc, hu⟩ := h
    exact ⟨w, ws, hw, hc, fun hp => hu (by omega)⟩

theorem leads_enclose (height : Nat) (ws more : List Word) : Leads height (enclose ws ++ more) :=
  ⟨_, _, rfl, rfl, fun _ => rfl⟩

theorem loose {p : Prop} {height : Nat} (h : height < 11) (h' : 11 ≤ height) : p :=
  absurd h' (Nat.not_le.mpr h)

/-- The words begin with a token that begins the tree. -/
theorem words_lead : (n : Node) → n.WellFormed → Leads n.rung.height n.words
  | .null, _ => ⟨_, _, rfl, rfl, fun _ => rfl⟩
  | .boolean true, _ => ⟨_, _, rfl, rfl, fun _ => rfl⟩
  | .boolean false, _ => ⟨_, _, rfl, rfl, fun _ => rfl⟩
  | .integer _, _ => ⟨_, _, rfl, rfl, fun _ => rfl⟩
  | .floating _, _ => ⟨_, _, rfl, rfl, fun _ => rfl⟩
  | .text _, _ => ⟨_, _, rfl, rfl, fun _ => rfl⟩
  | .name _, _ => ⟨_, _, rfl, rfl, fun _ => rfl⟩
  | .path base steps, h => ((base.words_lead h.1).fit .primary).append (fun _ => by decide) _
  | .call ns f calls, _ => by
    rw [words]
    split
    · exact ⟨_, _, rfl, rfl, fun _ => rfl⟩
    · exact ⟨_, _, rfl, rfl, fun _ => rfl⟩
  | .lambda [] _ [], _ => ⟨_, _, rfl, rfl, fun _ => rfl⟩
  | .lambda [_] _ [], _ => ⟨_, _, rfl, rfl, fun _ => rfl⟩
  | .lambda (_ :: _ :: _) _ [], _ => ⟨_, _, rfl, rfl, fun _ => rfl⟩
  | .lambda _ _ (_ :: _), _ => leads_enclose _ _ _
  | .unary .neg _, _ => ⟨_, _, rfl, rfl, loose (by decide : 10 < 11)⟩
  | .unary .not _, _ => ⟨_, _, rfl, rfl, loose (by decide : 10 < 11)⟩
  | .unary .empty _, _ => ⟨_, _, rfl, rfl, loose (by decide : 10 < 11)⟩
  | .binary op a b, h => by
    have hop : 11 ≤ op.rung.height → 11 ≤ op.places.1.height := by
      cases op <;> decide
    exact ((a.words_lead h.1).fit _).append hop _
  | .choice c _ _, h =>
    ((c.words_lead h.1).fit (.binary .or)).append (loose (by decide : 2 < 11)) _
  | .assign a _, h => ((a.words_lead h.1).fit .choice).append (loose (by decide : 1 < 11)) _
  | .sequence a b, h => by
    have hs : 11 ≤ (sequence a b).rung.height → 11 ≤ a.rung.height :=
      loose (by decide : 0 < 11)
    rw [words]
    split
    · exact leads_enclose _ _ _
    · exact (a.words_lead h.1).append hs _
  | .list _, _ => ⟨_, _, rfl, rfl, fun _ => rfl⟩
  | .set _, _ => ⟨_, _, rfl, rfl, fun _ => rfl⟩
  | .map _, _ => ⟨_, _, rfl, rfl, fun _ => rfl⟩
  | .plain _, h => h.elim
  | .template _, h => h.elim
  | .deferred _, h => h.elim
  | .dynamic _, h => h.elim

end Node

end ExprLang
